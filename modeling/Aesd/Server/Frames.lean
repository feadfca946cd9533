import Aesd.Server.Release

/-!
# The stack of the main thread

`main` is at the bottom, and above it what a signal interrupted and what it interrupted with. Once
`main` or a handler has called `cleanup_on_signal`, `main` does not come back to the accept loop, but
from a handler (`Frames.stop`).
-/

namespace Aesd

namespace Process

variable {τ : Type*}

/-- `cleanup_on_signal`. -/
def cleaningUp : Place τ → Bool
  | .cleanup | .timerJoin | .closeServer | .cleanLock | .cleanLoop | .cleanJoin _ | .cleanUnlock
  | .destroyFile | .destroyList => true
  | _ => false

/-- `main` is at the bottom, and nowhere else. -/
def Framed : List (Place τ) → Prop
  | [] => True
  | p :: rest => (ofMain p = true ↔ rest = []) ∧ Framed rest

/-- Unless the handler ran, `main` returns after `cleanup_on_signal`. -/
structure Frames (s : Process τ) : Prop where
  framed : Framed s.stack
  stop : s.keepRunning = true →
    (0 < s.listMutex.destroys ∨ ∃ p ∈ s.stack, cleaningUp p = true) → s.stack = [] ∨ .ret ∈ s.stack

variable {b : Build} {daemonMode ok : Bool} {s s' : Process τ} {a : Action τ} {t : τ} {p q : Place τ}
  {rest : List (Place τ)} {sig : Signal}

theorem Framed.replace (h : Framed (p :: rest)) (hq : ofMain q = ofMain p) : Framed (q :: rest) :=
  ⟨hq ▸ h.1, h.2⟩

/-- The calls that leave the list alone keep it. -/
theorem Framed.goes {new : List (Place τ)} (h : Framed (p :: rest)) (hg : Goes p new) :
    Framed (new ++ rest) := by
  cases hg with
  | main hp hne hq => exact h.replace (hq.1.trans hp.symm)
  | exit hp hne =>
    rw [h.1.mp hp]
    simp [Framed, ofMain]
  | handler sig =>
    have hne : rest ≠ [] := fun hnil => nomatch h.1.mpr hnil
    simp [Framed, ofMain, hne, h.2]
  | ret | handlerEnd => exact h.2
  | cancel | cleanup | timerJoin | closeServer | destroyFile => exact h.replace rfl

theorem not_ofMain_of_cleaningUp (h : cleaningUp p = true) : ofMain p = false := by
  cases p <;> first | rfl | cases h

/-- `main` calls `cleanup_on_signal` before it returns; else only the handler calls it. -/
theorem Goes.cleaningUp {new : List (Place τ)} (hg : Goes p new) (hp : ∀ sig, p ≠ .handler sig)
    (hnew : ∃ q ∈ new, cleaningUp q = true) : Process.cleaningUp p = true ∨ .ret ∈ new := by
  cases hg with
  | @main _ q _ _ hq =>
    obtain ⟨r, hr, hrc⟩ := hnew
    rw [List.mem_singleton.mp hr] at hrc
    rw [not_ofMain_of_cleaningUp hrc] at hq
    cases hq.1
  | exit => exact .inr (by simp)
  | handler sig => exact absurd rfl (hp sig)
  | ret | handlerEnd => simp at hnew
  | cancel | cleanup | timerJoin | closeServer | destroyFile => exact .inl rfl

namespace Frames

/-- The innermost function goes on at other places. -/
theorem move (hf : Frames s) (new : List (Place τ)) (hstack : s.stack = p :: rest)
    (hstack' : s'.stack = new ++ rest) (hframed : Framed (new ++ rest))
    (hdes : 0 < s'.listMutex.destroys → 0 < s.listMutex.destroys ∨ cleaningUp p = true)
    (hkeep : s'.keepRunning = true → s.keepRunning = true ∧
      ((∃ q ∈ new, cleaningUp q = true) → cleaningUp p = true ∨ .ret ∈ new))
    (hret : p = .ret → new = []) : Frames s' := by
  refine ⟨hstack' ▸ hframed, fun hrun hclean => ?_⟩
  obtain ⟨hrun', hnew⟩ := hkeep hrun
  rw [hstack'] at hclean ⊢
  have hin : cleaningUp p = true → ∃ q ∈ s.stack, cleaningUp q = true :=
    fun hp => ⟨p, by rw [hstack]; exact List.mem_cons_self, hp⟩
  have hpre : (0 < s.listMutex.destroys ∨ ∃ q ∈ s.stack, cleaningUp q = true) ∨ .ret ∈ new := by
    rcases hclean with hd | ⟨q, hq, hqc⟩
    · exact .inl ((hdes hd).imp_right hin)
    · rcases List.mem_append.mp hq with hq | hq
      · exact (hnew ⟨q, hq, hqc⟩).imp_left fun hp => .inr (hin hp)
      · exact .inl (.inr ⟨q, by rw [hstack]; exact List.mem_cons_of_mem _ hq, hqc⟩)
  rcases hpre with hpre | hpre
  · rcases hf.stop hrun' hpre with hnil | hmem
    · rw [hstack] at hnil
      cases hnil
    · rw [hstack, List.mem_cons] at hmem
      rcases hmem with rfl | hmem
      · -- `main` returns
        have hrest : rest = [] := by
          have hfr := hf.framed
          rw [hstack] at hfr
          exact hfr.1.mp rfl
        rw [hret rfl, hrest]
        exact .inl rfl
      · exact .inr (List.mem_append_right _ hmem)
  · exact .inr (List.mem_append_left _ hpre)

/-- At one other place. -/
theorem one (hf : Frames s) (hstack : s.stack = p :: rest) (hstack' : s'.stack = q :: rest)
    (hq : ofMain q = ofMain p) (hclean : cleaningUp q = true → cleaningUp p = true)
    (hdes : s'.listMutex.destroys = s.listMutex.destroys) (hkeep : s'.keepRunning = s.keepRunning)
    (hret : p ≠ .ret) : Frames s' := by
  have hfr := hf.framed
  rw [hstack] at hfr
  refine hf.move [q] hstack hstack' (hfr.replace hq) (fun h => .inl (hdes ▸ h))
    (fun h => ⟨hkeep ▸ h, ?_⟩) (fun h => absurd h hret)
  rintro ⟨r, hr, hrc⟩
  rw [List.mem_singleton.mp hr] at hrc
  exact .inl (hclean hrc)

/-- The innermost function returns. -/
theorem pop (hf : Frames s) (hstack : s.stack = p :: rest) (hstack' : s'.stack = rest)
    (hdes : 0 < s'.listMutex.destroys → 0 < s.listMutex.destroys ∨ cleaningUp p = true)
    (hkeep : s'.keepRunning = s.keepRunning) : Frames s' := by
  have hfr := hf.framed
  rw [hstack] at hfr
  exact hf.move [] hstack hstack' hfr.2 hdes (fun h => ⟨hkeep ▸ h, by simp⟩) (fun _ => rfl)

theorem mainStep (hf : Frames s) (hstack : s.stack = p :: rest)
    (h : Process.mainStep b daemonMode s ok rest p = some s') : Frames s' := by
  have hfr := hf.framed
  rw [hstack] at hfr
  cases hp : usesList p with
  | false =>
    obtain ⟨new, hgoes, hstack', hkept⟩ := mainStep_goes hp h
    refine hf.move new hstack hstack' (hfr.goes hgoes) (fun hd => .inl (hkept.listMutex ▸ hd))
      (fun hrun => ?_) ?_
    · have hne : ∀ sig, p ≠ .handler sig := by
        -- the handler clears `keep_running`
        rintro sig rfl
        cases h
        cases hrun
      exact ⟨mainStep_keepRunning hne h ▸ hrun, hgoes.cleaningUp hne⟩
    · rintro rfl
      cases hgoes with
      | main hp hne hq => exact absurd rfl hne
      | exit hp hne => exact absurd rfl hne
      | ret => rfl
  | true =>
    have hne : ∀ sig, p ≠ .handler sig := by
      rintro sig rfl
      cases hp
    have hkeep := mainStep_keepRunning hne h
    cases p with
    | removeLock | cleanLock =>
      obtain ⟨m, hm, rfl⟩ := Option.map_eq_some_iff.mp h
      exact hf.one hstack rfl rfl (fun h => h) (MutexState.used_lock hm).destroys rfl (by simp)
    | removeUnlock =>
      cases h
      exact hf.pop hstack rfl .inl rfl
    | destroyList =>
      cases h
      exact hf.pop hstack rfl (fun _ => .inr rfl) rfl
    | removeLoop | removeJoin | cleanLoop | cleanJoin | cleanUnlock =>
      simp only [Process.mainStep] at h
      repeat' split at h
      all_goals cases h
      all_goals exact hf.one hstack rfl rfl (fun h => h) rfl rfl (by simp)
    | _ => cases hp

/-- A step of another thread. -/
theorem aside (hf : Frames s) (h : Aside s s') : Frames s' := by
  refine ⟨h.stack ▸ hf.framed, ?_⟩
  rw [h.stack, h.keepRunning, h.list.destroys]
  exact hf.stop

/-- The other threads leave it, and a new client thread comes with `remove_completed_threads`. -/
theorem next [DecidableEq τ] (hf : Frames s) (h : (lts b daemonMode).next s a = some s') :
    Frames s' := by
  cases a with
  | main ok =>
    obtain ⟨p, rest, hstack, hstep⟩ := next_main h
    exact hf.mainStep hstack hstep
  | created t =>
    obtain ⟨rest, hstack, -, rfl⟩ := next_created h
    have hfr := hf.framed
    rw [hstack] at hfr
    obtain rfl : rest = [] := hfr.1.mp rfl
    exact hf.move [.removeLock, .loop] hstack rfl (by simp [Framed, ofMain]) .inl
      (fun h => ⟨h, by simp [cleaningUp]⟩) nofun
  | client | timer | cancelled => exact hf.aside (next_aside rfl h)
  | signal sig =>
    obtain ⟨hne, rfl⟩ := next_signal h
    refine ⟨⟨by simp [ofMain, hne], hf.framed⟩, fun hrun hclean => ?_⟩
    have hclean' : 0 < s.listMutex.destroys ∨ ∃ q ∈ s.stack, cleaningUp q = true := by
      simpa [cleaningUp] using hclean
    exact .inr (List.mem_cons_of_mem _ ((hf.stop hrun hclean').resolve_left hne))

theorem init : Frames (Process.init τ) :=
  ⟨by simp [Process.init, Framed, ofMain],
    fun _ h => by simp [Process.init, cleaningUp, MutexState.initializer] at h⟩

end Frames

end Process

end Aesd
