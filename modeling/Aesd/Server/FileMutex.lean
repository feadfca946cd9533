import Aesd.Server.Frames

/-!
# `file_mutex` over the life of the process

Clients and the timer thread take it, `cleanup_on_signal` destroys it and cancels the timer thread,
and all of that in any order, as signals come. `FileMutexInv` holds in every run.

* `file_mutex_exclusive`: nobody is in a critical section without the mutex, so there is one at most,
  and none once the mutex is destroyed, although `timestamp_thread` does not look at what its lock
  returns.
* `cancelled_in_section`: a timer thread that is cancelled between lock and unlock leaves the mutex
  locked. Nobody gets it any more, and `main` does not return if it joins one who waits for it.
-/

namespace Aesd

/-- Between `pthread_mutex_lock(&file_mutex)` and the unlock. -/
def TimerPc.holdsFile : TimerPc → Bool
  | .write | .unlock => true
  | _ => false

/-- The mutex that the thread is about to take. -/
def Pc.waitsFor : Pc → Option Mutex
  | .seekLock _ | .dataLock _ => some .file
  | .addLock | .markLock => some .list
  | _ => none

namespace Process

variable {τ : Type*}

/-- In a critical section of `file_mutex`. -/
def UsesFile (s : Process τ) : Tid τ → Prop
  | .main => False
  | .client t => ∃ c, s.clients t = some c ∧ c.pc.holdsFile = true
  | .timer => ∃ pc, s.timer = some pc ∧ pc.holdsFile = true

/-- `cleanup_on_signal`, behind the join of the timer thread. -/
def timerJoined : Place τ → Bool
  | .closeServer | .cleanLock | .cleanLoop | .cleanJoin _ | .cleanUnlock | .destroyFile
  | .destroyList => true
  | _ => false

/-- The timer thread does not take `file_mutex` any more. -/
def TimerOver (s : Process τ) : Prop :=
  s.timer = none ∨ s.timer = some .ended ∨ (s.timer = some .check ∧ s.keepRunning = false)

/-- `file_mutex` and the timer thread, in every run. -/
structure FileMutexInv (s : Process τ) : Prop where
  frames : Frames s
  uses : ∀ who, s.UsesFile who → s.fileMutex.owner = some who
  owner : ∀ who, s.fileMutex.owner = some who →
    s.UsesFile who ∨ (who = .timer ∧ s.timer = some .ended)
  destroyed : s.fileMutex.destroyed = true → s.fileMutex.owner = none ∧ s.TimerOver ∧
    (0 < s.listMutex.destroys ∨ .destroyList ∈ s.stack)
  joined : ∀ p ∈ s.stack, timerJoined p = true → s.TimerOver
  timerThread : s.timer ≠ none → s.timerThread = true
  cancelled : s.timerCancelled = true → s.timer = some .ended ∨ .timerJoin ∈ s.stack
  starting : ∀ p ∈ s.stack, starting p = true →
    s.timer = none ∧ s.timerThread = false ∧ s.timerCancelled = false

variable {b : Build} {daemonMode ok : Bool} {s s' : Process τ} {a : Action τ} {t : τ} {p q : Place τ}
  {rest : List (Place τ)} {who : Tid τ}

theorem UsesFile.congr (h : s'.UsesFile who) (hclients : s'.clients = s.clients)
    (htimer : s'.timer = s.timer) : s.UsesFile who := by
  cases who with
  | main => exact h
  | client t =>
    obtain ⟨c, hc, hpc⟩ := h
    exact ⟨c, hclients ▸ hc, hpc⟩
  | timer =>
    obtain ⟨pc, ht, hpc⟩ := h
    exact ⟨pc, htimer ▸ ht, hpc⟩

theorem TimerOver.congr (h : s.TimerOver) (htimer : s'.timer = s.timer)
    (hkeep : s'.keepRunning = true → s.keepRunning = true) : s'.TimerOver := by
  unfold TimerOver at *
  rw [htimer]
  refine h.imp_right (Or.imp_right (And.imp_right fun hoff => ?_))
  rw [← Bool.not_eq_true] at hoff ⊢
  exact fun hon => hoff (hkeep hon)

/-! ## The main thread -/

/-- What most steps of the main thread leave as it was. -/
structure Spared (s s' : Process τ) : Prop where
  clients : s'.clients = s.clients
  fileMutex : s'.fileMutex = s.fileMutex
  timer : s'.timer = s.timer
  timerThread : s'.timerThread = s.timerThread
  timerCancelled : s'.timerCancelled = s.timerCancelled
  keepRunning : s'.keepRunning = true → s.keepRunning = true
  listDestroys : s.listMutex.destroys ≤ s'.listMutex.destroys

/-- `p` is not a place at which the life of the timer thread or of the mutexes goes on. -/
def Ordinary (p : Place τ) (new : List (Place τ)) : Prop :=
  p ≠ .destroyList ∧ p ≠ .timerJoin ∧ ∀ q ∈ new,
    (timerJoined q = true → timerJoined p = true) ∧ (starting q = true → starting p = true)

namespace FileMutexInv

/-- The main thread goes on elsewhere. -/
theorem moves (hi : FileMutexInv s) (hf : Frames s') (new : List (Place τ))
    (hstack : s.stack = p :: rest) (hstack' : s'.stack = new ++ rest) (hs : Spared s s')
    (hdestroyList : p = .destroyList → 0 < s'.listMutex.destroys)
    (htimerJoin : p = .timerJoin → s.timer = some .ended)
    (hnew : ∀ q ∈ new, (timerJoined q = true → timerJoined p = true ∨ s.TimerOver) ∧
      (Process.starting q = true → Process.starting p = true)) : FileMutexInv s' := by
  have hover : s.TimerOver → s'.TimerOver := fun h => h.congr hs.timer hs.keepRunning
  have htop : p ∈ s.stack := by simp [hstack]
  have hrest : ∀ q ∈ rest, q ∈ s.stack := fun q hq => by simp [hstack, hq]
  exact {
    frames := hf
    uses := fun who h => hs.fileMutex ▸ hi.uses who (h.congr hs.clients hs.timer)
    owner := fun who h => by
      rw [hs.fileMutex] at h
      rw [hs.timer]
      exact (hi.owner who h).imp_left fun h => h.congr hs.clients.symm hs.timer.symm
    destroyed := fun hd => by
      rw [hs.fileMutex] at hd ⊢
      obtain ⟨hfree, ho, hlist⟩ := hi.destroyed hd
      refine ⟨hfree, hover ho, ?_⟩
      rcases hlist with hlist | hlist
      · exact .inl (hlist.trans_le hs.listDestroys)
      · rw [hstack] at hlist
        rcases List.mem_cons.mp hlist with hp | hmem
        · exact .inl (hdestroyList hp.symm)
        · exact .inr (by simp [hstack', hmem])
    joined := fun q hq hqj => by
      rw [hstack'] at hq
      rcases List.mem_append.mp hq with hq | hq
      · exact hover (((hnew q hq).1 hqj).elim (hi.joined p htop) id)
      · exact hover (hi.joined q (hrest q hq) hqj)
    timerThread := by
      rw [hs.timer, hs.timerThread]
      exact hi.timerThread
    cancelled := fun hc => by
      rw [hs.timerCancelled] at hc
      rw [hs.timer]
      rcases hi.cancelled hc with he | hmem
      · exact .inl he
      · rw [hstack] at hmem
        rcases List.mem_cons.mp hmem with hp | hmem
        · exact .inl (htimerJoin hp.symm)
        · exact .inr (by simp [hstack', hmem])
    starting := fun q hq hqs => by
      rw [hstack'] at hq
      rw [hs.timer, hs.timerThread, hs.timerCancelled]
      rcases List.mem_append.mp hq with hq | hq
      · exact hi.starting p htop ((hnew q hq).2 hqs)
      · exact hi.starting q (hrest q hq) hqs }

theorem ordinary {new : List (Place τ)} (hi : FileMutexInv s) (hf : Frames s') (hp : Ordinary p new)
    (hstack : s.stack = p :: rest) (hstack' : s'.stack = new ++ rest) (hs : Spared s s') :
    FileMutexInv s' :=
  hi.moves hf new hstack hstack' hs (fun h => absurd h hp.1) (fun h => absurd h hp.2.1)
    fun q hq => ⟨fun h => .inl ((hp.2.2 q hq).1 h), (hp.2.2 q hq).2⟩

/-- At `pthread_create(&timer_thread, …)` in `main` there is no timer thread, and if a handler has
destroyed the mutexes the new one finds `keep_running` cleared. -/
theorem timerCreate (hi : FileMutexInv s) (hstack : s.stack = .timerCreate :: rest)
    (hf : Frames { s with timerThread := true, timer := some .check, stack := .loop :: rest }) :
    FileMutexInv { s with timerThread := true, timer := some .check, stack := .loop :: rest } := by
  obtain ⟨hnone, -, hcancelled⟩ := hi.starting .timerCreate (by simp [hstack]) rfl
  have hrest : rest = [] := by
    have hfr := hi.frames.framed
    rw [hstack] at hfr
    exact hfr.1.mp rfl
  subst hrest
  have huses : ∀ who,
      UsesFile { s with timerThread := true, timer := some .check, stack := [.loop] } who →
        s.UsesFile who := by
    intro who h
    cases who with
    | main => exact h
    | client t => exact h
    | timer =>
      obtain ⟨pc, ht, hpc⟩ := h
      cases ht
      cases hpc
  exact {
    frames := hf
    uses := fun who h => hi.uses who (huses who h)
    owner := fun who h => by
      rcases hi.owner who h with h | ⟨-, h⟩
      · cases who with
        | timer =>
          obtain ⟨pc, ht, -⟩ := h
          rw [hnone] at ht
          cases ht
        | main => exact .inl h
        | client t => exact .inl h
      · rw [hnone] at h
        cases h
    destroyed := fun hd => by
      obtain ⟨hfree, -, hlist⟩ := hi.destroyed hd
      have hlist : 0 < s.listMutex.destroys := by simpa [hstack] using hlist
      refine ⟨hfree, .inr (.inr ⟨rfl, ?_⟩), .inl hlist⟩
      have hoff := fun hon => hi.frames.stop hon (.inl hlist)
      simpa [hstack] using hoff
    joined := by simp [timerJoined]
    timerThread := fun _ => rfl
    cancelled := fun h => by
      rw [show s.timerCancelled = true from h] at hcancelled
      cases hcancelled
    starting := by simp [Process.starting] }

/-- `pthread_cancel(timer_thread)`. -/
theorem cancel (hi : FileMutexInv s) (hstack : s.stack = .cleanup :: rest)
    (hthread : s.timerThread = true)
    (hf : Frames { s with timerCancelled := true, stack := .timerJoin :: rest }) :
    FileMutexInv { s with timerCancelled := true, stack := .timerJoin :: rest } := by
  have hno : ∀ q ∈ s.stack, Process.starting q ≠ true := by
    intro q hq hqs
    rw [(hi.starting q hq hqs).2.1] at hthread
    cases hthread
  rw [hstack, List.forall_mem_cons] at hno
  exact {
    frames := hf
    uses := hi.uses
    owner := hi.owner
    destroyed := fun hd => by
      obtain ⟨hfree, ho, hlist⟩ := hi.destroyed hd
      exact ⟨hfree, ho, by simpa [hstack] using hlist⟩
    joined := fun q hq hqj => by
      rcases List.mem_cons.mp hq with rfl | hq
      · cases hqj
      · exact hi.joined q (by simp [hstack, hq]) hqj
    timerThread := hi.timerThread
    cancelled := fun _ => .inr List.mem_cons_self
    starting := fun q hq hqs => by
      rcases List.mem_cons.mp hq with rfl | hq
      · cases hqs
      · exact absurd hqs (hno.2 q hq) }

/-- `pthread_mutex_destroy(&file_mutex)`. -/
theorem destroyFile (hi : FileMutexInv s) (hstack : s.stack = .destroyFile :: rest)
    (hf : Frames { s with fileMutex := s.fileMutex.destroy, stack := .destroyList :: rest }) :
    FileMutexInv { s with fileMutex := s.fileMutex.destroy, stack := .destroyList :: rest } where
  frames := hf
  uses := hi.uses
  owner := hi.owner
  destroyed hd := by
    have hover : s.TimerOver := hi.joined .destroyFile (by simp [hstack]) rfl
    refine ⟨?_, hover, .inr List.mem_cons_self⟩
    exact (MutexState.destroy_destroyed.mp hd).elim (fun hd => (hi.destroyed hd).1) id
  joined q hq hqj := hi.joined .destroyFile (by simp [hstack]) rfl
  timerThread := hi.timerThread
  cancelled hc := by simpa [hstack] using hi.cancelled hc
  starting q hq hqs := by
    rcases List.mem_cons.mp hq with rfl | hq
    · cases hqs
    · exact hi.starting q (by simp [hstack, hq]) hqs

theorem mainStep (hi : FileMutexInv s) (hstack : s.stack = p :: rest)
    (h : Process.mainStep b daemonMode s ok rest p = some s') : FileMutexInv s' := by
  have hf := hi.frames.mainStep hstack h
  cases p with
  | sigaction sig =>
    cases h
    have hp : Ordinary (.sigaction sig) [(afterSigaction sig : Place τ)] :=
      afterSigaction_elim (P := fun q => Ordinary (.sigaction sig) [q])
        (by simp [Ordinary, timerJoined, Process.starting])
        (by simp [Ordinary, timerJoined, Process.starting])
    exact hi.ordinary hf hp hstack rfl ⟨rfl, rfl, rfl, rfl, rfl, id, le_rfl⟩
  | listen =>
    have hp : Ordinary .listen [(afterSetup b daemonMode : Place τ)] :=
      afterSetup_elim (P := fun q => Ordinary .listen [q])
        (by simp [Ordinary, timerJoined, Process.starting])
        (by simp [Ordinary, timerJoined, Process.starting])
        (by simp [Ordinary, timerJoined, Process.starting])
    have hfails : Ordinary .listen [(.setupClose : Place τ)] := by
      simp [Ordinary, timerJoined, Process.starting]
    cases ok <;> cases h
    · exact hi.ordinary hf hfails hstack rfl ⟨rfl, rfl, rfl, rfl, rfl, id, le_rfl⟩
    · exact hi.ordinary hf hp hstack rfl ⟨rfl, rfl, rfl, rfl, rfl, id, le_rfl⟩
  | daemon =>
    have hp : Ordinary .daemon [(afterDaemon b : Place τ)] :=
      afterDaemon_elim (P := fun q => Ordinary .daemon [q])
        (by simp [Ordinary, timerJoined, Process.starting])
        (by simp [Ordinary, timerJoined, Process.starting])
    have hfails : Ordinary .daemon [(.cleanup : Place τ), .ret] := by
      simp [Ordinary, timerJoined, Process.starting]
    cases ok <;> cases h
    · exact hi.ordinary hf hfails hstack rfl ⟨rfl, rfl, rfl, rfl, rfl, id, le_rfl⟩
    · exact hi.ordinary hf hp hstack rfl ⟨rfl, rfl, rfl, rfl, rfl, id, le_rfl⟩
  | timerCreate =>
    have hfails : Ordinary .timerCreate [(.cleanup : Place τ), .ret] := by
      simp [Ordinary, timerJoined, Process.starting]
    cases ok <;> cases h
    · exact hi.ordinary hf hfails hstack rfl ⟨rfl, rfl, rfl, rfl, rfl, id, le_rfl⟩
    · exact hi.timerCreate hstack hf
  | cleanup =>
    simp only [Process.mainStep] at h
    split at h <;> cases h
    · rename_i hthread
      exact hi.cancel hstack hthread hf
    · rename_i hthread
      have hnone : s.timer = none := by
        by_contra hne
        exact hthread (hi.timerThread hne)
      refine hi.moves hf [.closeServer] hstack rfl ⟨rfl, rfl, rfl, rfl, rfl, id, le_rfl⟩ (by simp)
        (by simp) ?_
      simp [TimerOver, hnone, Process.starting]
  | timerJoin =>
    simp only [Process.mainStep, Option.ite_none_right_eq_some, Option.some.injEq] at h
    obtain ⟨hended, rfl⟩ := h
    refine hi.moves hf [.closeServer] hstack rfl ⟨rfl, rfl, rfl, rfl, rfl, id, le_rfl⟩ (by simp)
      (fun _ => hended) ?_
    simp [TimerOver, hended, Process.starting]
  | removeLock | cleanLock =>
    obtain ⟨m, hm, rfl⟩ := Option.map_eq_some_iff.mp h
    exact hi.ordinary hf (by simp [Ordinary, timerJoined, Process.starting]) hstack
      (List.singleton_append.symm)
      ⟨rfl, rfl, rfl, rfl, rfl, id, (MutexState.used_lock hm).destroys.ge⟩
  | destroyFile =>
    cases h
    exact hi.destroyFile hstack hf
  | destroyList =>
    cases h
    exact hi.moves hf [] hstack rfl ⟨rfl, rfl, rfl, rfl, rfl, id, by simp⟩ (by simp) (by simp)
      (by simp)
  | handler sig =>
    cases h
    have hp : Ordinary (.handler sig) [(.cleanup : Place τ), .handlerEnd sig] := by
      simp [Ordinary, timerJoined, Process.starting]
    exact hi.ordinary hf hp hstack rfl ⟨rfl, rfl, rfl, rfl, rfl, by simp, le_rfl⟩
  | ret | removeUnlock | handlerEnd =>
    cases h
    exact hi.moves hf [] hstack rfl ⟨rfl, rfl, rfl, rfl, rfl, id, le_rfl⟩ (by simp) (by simp)
      (by simp)
  | setupClose =>
    cases h
    have hp : Ordinary .setupClose [(.cleanup : Place τ), .ret] := by
      simp [Ordinary, timerJoined, Process.starting]
    exact hi.ordinary hf hp hstack rfl ⟨rfl, rfl, rfl, rfl, rfl, id, le_rfl⟩
  | socket | loop =>
    simp only [Process.mainStep] at h
    split at h <;> cases h
    · exact hi.ordinary hf (by simp [Ordinary, timerJoined, Process.starting]) hstack
        (List.singleton_append.symm) ⟨rfl, rfl, rfl, rfl, rfl, id, le_rfl⟩
    · have hp : ∀ p : Place τ, p ≠ .destroyList → p ≠ .timerJoin → Ordinary p [.cleanup, .ret] := by
        simp +contextual [Ordinary, timerJoined, Process.starting]
      exact hi.ordinary hf (hp _ (by simp) (by simp)) hstack rfl
        ⟨rfl, rfl, rfl, rfl, rfl, id, le_rfl⟩
  | create =>
    cases ok <;> cases h
    exact hi.ordinary hf (by simp [Ordinary, timerJoined, Process.starting]) hstack
      (List.singleton_append.symm) ⟨rfl, rfl, rfl, rfl, rfl, id, le_rfl⟩
  | removeJoin | cleanJoin =>
    simp only [Process.mainStep, Option.ite_none_right_eq_some, Option.some.injEq] at h
    obtain ⟨-, rfl⟩ := h
    exact hi.ordinary hf (by simp [Ordinary, timerJoined, Process.starting]) hstack
      (List.singleton_append.symm) ⟨rfl, rfl, rfl, rfl, rfl, id, le_rfl⟩
  | _ =>
    simp only [Process.mainStep] at h
    repeat' split at h
    all_goals
      cases h
      exact hi.ordinary hf (by simp [Ordinary, timerJoined, Process.starting]) hstack
        (List.singleton_append.symm) ⟨rfl, rfl, rfl, rfl, rfl, id, le_rfl⟩

/-! ## The other threads -/

theorem signal (hi : FileMutexInv s) (sig : Signal)
    (hf : Frames { s with stack := .handler sig :: s.stack }) :
    FileMutexInv { s with stack := .handler sig :: s.stack } where
  frames := hf
  uses := hi.uses
  owner := hi.owner
  destroyed hd := by
    obtain ⟨hfree, hover, hlist⟩ := hi.destroyed hd
    exact ⟨hfree, hover, by simpa using hlist⟩
  joined := List.forall_mem_cons.mpr ⟨by simp [timerJoined], hi.joined⟩
  timerThread := hi.timerThread
  cancelled hc := by simpa using hi.cancelled hc
  starting := List.forall_mem_cons.mpr ⟨by simp [Process.starting], hi.starting⟩

/-- What a thread does to `file_mutex`. -/
inductive FileEffect (s s' : Process τ) (who : Tid τ) : Prop
  | stays (huses : s'.UsesFile who ↔ s.UsesFile who)
    (howner : s'.fileMutex.owner = s.fileMutex.owner)
  | takes (hfree : s.fileMutex.owner = none) (huses : s'.UsesFile who)
    (howner : s'.fileMutex.owner = some who)
  | gives (huses : s.UsesFile who) (huses' : ¬ s'.UsesFile who) (howner : s'.fileMutex.owner = none)

theorem FileEffect.uses {u : Tid τ} (h : FileEffect s s' u) (hi : FileMutexInv s)
    (hothers : ∀ who, who ≠ u → (s'.UsesFile who ↔ s.UsesFile who)) (huses : s'.UsesFile who) :
    s'.fileMutex.owner = some who := by
  by_cases hwho : who = u
  · subst hwho
    cases h with
    | stays h howner => exact howner.trans (hi.uses who (h.mp huses))
    | takes _ _ howner => exact howner
    | gives _ huses' _ => exact absurd huses huses'
  · have ho := hi.uses who ((hothers who hwho).mp huses)
    cases h with
    | stays _ howner => exact howner.trans ho
    | takes hfree _ _ =>
      rw [hfree] at ho
      cases ho
    | gives h _ _ =>
      rw [hi.uses u h] at ho
      exact absurd (Option.some.inj ho).symm hwho

theorem FileEffect.owner {u : Tid τ} (h : FileEffect s s' u) (hi : FileMutexInv s)
    (hothers : ∀ who, who ≠ u → (s'.UsesFile who ↔ s.UsesFile who))
    (hended : s.timer = some .ended → s'.timer = some .ended)
    (ho : s'.fileMutex.owner = some who) :
    s'.UsesFile who ∨ (who = .timer ∧ s'.timer = some .ended) := by
  cases h with
  | stays h howner =>
    rcases hi.owner who (howner.symm.trans ho) with huses | ⟨hwho, he⟩
    · by_cases hwho : who = u
      · exact .inl (by subst hwho; exact h.mpr huses)
      · exact .inl ((hothers who hwho).mpr huses)
    · exact .inr ⟨hwho, hended he⟩
  | takes _ huses howner =>
    obtain rfl : u = who := Option.some.inj (howner.symm.trans ho)
    exact .inl huses
  | gives _ _ howner =>
    rw [howner] at ho
    cases ho

/-- A step of the timer thread. -/
theorem timed {m : MutexState τ} {pc pc' : TimerPc} (hi : FileMutexInv s) (ht : s.timer = some pc)
    (hf : Frames { s with fileMutex := m, timer := some pc' })
    (hdes : m.destroyed = s.fileMutex.destroyed)
    (hm : FileEffect s { s with fileMutex := m, timer := some pc' } .timer)
    (hfree : s.fileMutex.destroyed = true → m.owner = none)
    (hover : s.TimerOver → pc' = .ended) (hne : pc ≠ .ended) :
    FileMutexInv { s with fileMutex := m, timer := some pc' } := by
  have hothers : ∀ who, who ≠ .timer →
      (UsesFile { s with fileMutex := m, timer := some pc' } who ↔ s.UsesFile who) := by
    intro who hwho
    cases who with
    | timer => exact absurd rfl hwho
    | main => exact Iff.rfl
    | client t => exact Iff.rfl
  have hover' : s.TimerOver → TimerOver { s with fileMutex := m, timer := some pc' } := by
    intro h
    rw [hover h]
    exact .inr (.inl rfl)
  have hended : s.timer ≠ some .ended := by simpa [ht] using hne
  exact {
    frames := hf
    uses := fun who => hm.uses hi hothers
    owner := fun who => hm.owner hi hothers fun h => absurd h hended
    destroyed := fun hd => by
      have hd' : s.fileMutex.destroyed = true := hdes ▸ hd
      obtain ⟨-, ho, hlist⟩ := hi.destroyed hd'
      exact ⟨hfree hd', hover' ho, hlist⟩
    joined := fun q hq hqj => hover' (hi.joined q hq hqj)
    timerThread := fun _ => hi.timerThread (by simp [ht])
    cancelled := fun hc => .inr ((hi.cancelled hc).resolve_left hended)
    starting := fun q hq hqs => by
      obtain ⟨h, -⟩ := hi.starting q hq hqs
      rw [ht] at h
      cases h }

theorem timer {pc : TimerPc} (hi : FileMutexInv s) (ht : s.timer = some pc)
    (hf : Frames s') (h : timerStep s ok pc = some s') : FileMutexInv s' := by
  have hover : s.TimerOver → pc = .check ∧ s.keepRunning = false ∨ pc = .ended := by
    rintro (h | h | ⟨h, hoff⟩) <;> rw [ht] at h <;> cases h
    · exact .inr rfl
    · exact .inl ⟨rfl, hoff⟩
  have hstays : ∀ {pc'}, pc'.holdsFile = pc.holdsFile →
      FileEffect s { s with timer := some pc' } .timer :=
    fun h => .stays (by simp [UsesFile, ht, h]) rfl
  have hfree : s.fileMutex.destroyed = true → s.fileMutex.owner = none :=
    fun hd => (hi.destroyed hd).1
  cases pc with
  | check =>
    cases h
    refine hi.timed (m := s.fileMutex) ht hf rfl (hstays ?_) hfree (fun ho => ?_) (by simp)
    · split <;> rfl
    · obtain ⟨-, hoff⟩ := (hover ho).resolve_right (by simp)
      simp [hoff]
  | lock =>
    obtain ⟨m, hm, rfl⟩ := Option.map_eq_some_iff.mp h
    rcases MutexState.lock_eq_some hm with ⟨hd, -, -⟩ | ⟨hd, -, hnone, rfl⟩
    · -- the mutex is not destroyed before the timer thread has ended
      simpa using hover (hi.destroyed hd).2.1
    · exact hi.timed ht hf rfl (.takes hnone ⟨.write, rfl, rfl⟩ rfl) (by simp [hd])
        (fun ho => by simpa using hover ho) (by simp)
  | write =>
    obtain ⟨-, rfl⟩ := timerStep_write h
    exact hi.timed (m := s.fileMutex) ht hf rfl (hstays rfl) hfree
      (fun ho => by simpa using hover ho) (by simp)
  | unlock =>
    cases h
    refine hi.timed ht hf rfl (.gives ⟨.unlock, ht, rfl⟩ ?_ rfl) (fun _ => rfl)
      (fun ho => by simpa using hover ho) (by simp)
    rintro ⟨pc, hpc, hholds⟩
    cases hpc
    cases hholds
  | sleep =>
    obtain ⟨-, rfl⟩ := timerStep_sleep h
    exact hi.timed (m := s.fileMutex) ht hf rfl (hstays rfl) hfree
      (fun ho => by simpa using hover ho) (by simp)
  | ended => cases h

/-- A cancelled timer thread keeps the mutex that it has. -/
theorem cancels (hi : FileMutexInv s) (ht : s.timer ≠ none)
    (hf : Frames { s with timer := some .ended }) :
    FileMutexInv { s with timer := some .ended } where
  frames := hf
  uses who h := by
    cases who with
    | main => exact h.elim
    | client t => exact hi.uses (.client t) h
    | timer =>
      obtain ⟨pc, hpc, h⟩ := h
      cases hpc
      cases h
  owner who ho := by
    cases who with
    | timer => exact .inr ⟨rfl, rfl⟩
    | main => exact .inl ((hi.owner _ ho).resolve_right (by simp))
    | client t => exact .inl ((hi.owner _ ho).resolve_right (by simp))
  destroyed hd := by
    obtain ⟨hfree, -, hlist⟩ := hi.destroyed hd
    exact ⟨hfree, .inr (.inl rfl), hlist⟩
  joined _ _ _ := .inr (.inl rfl)
  timerThread _ := hi.timerThread ht
  cancelled _ := .inl rfl
  starting q hq hqs := absurd (hi.starting q hq hqs).1 ht

variable [DecidableEq τ] {ev : Sys} {c c' : Client} {s₁ : Process τ}

/-- A new client thread is in no critical section. -/
theorem created (hi : FileMutexInv s) (hstack : s.stack = .create :: rest)
    (hnew : s.clients t = none)
    (hf : Frames { s with
      clients := Function.update s.clients t (some .start), stack := .removeLock :: .loop :: rest }) :
    FileMutexInv { s with
      clients := Function.update s.clients t (some .start)
      stack := .removeLock :: .loop :: rest } := by
  have huses : ∀ who, UsesFile { s with
      clients := Function.update s.clients t (some .start)
      stack := .removeLock :: .loop :: rest } who ↔ s.UsesFile who := by
    intro who
    cases who with
    | main => exact Iff.rfl
    | timer => exact Iff.rfl
    | client u =>
      by_cases hu : u = t
      · subst hu
        simp [UsesFile, hnew, Client.start, Pc.holdsFile]
      · simp [UsesFile, Function.update_of_ne hu]
  exact {
    frames := hf
    uses := fun who h => hi.uses who ((huses who).mp h)
    owner := fun who ho => (hi.owner who ho).imp_left (huses who).mpr
    destroyed := fun hd => by
      obtain ⟨hfree, hover, hlist⟩ := hi.destroyed hd
      exact ⟨hfree, hover, by simpa [hstack] using hlist⟩
    joined := fun q hq hqj => by
      have hq : q ∈ rest := by
        simp only [List.mem_cons] at hq
        rcases hq with rfl | rfl | hq
        · cases hqj
        · cases hqj
        · exact hq
      exact hi.joined q (by simp [hstack, hq]) hqj
    timerThread := hi.timerThread
    cancelled := fun hc => by simpa [hstack] using hi.cancelled hc
    starting := fun q hq hqs => by
      have hq : q ∈ rest := by
        simp only [List.mem_cons] at hq
        rcases hq with rfl | rfl | hq
        · cases hqs
        · cases hqs
        · exact hq
      exact hi.starting q (by simp [hstack, hq]) hqs }

/-- A client's call on `file_mutex`. -/
theorem fileEffect (hi : FileMutexInv s) (hc : s.clients t = some c)
    (hstep : Client.Step b c.node c.pc ev c'.pc) (hcall : clientCall s t ev = some s₁) :
    FileEffect s { s₁ with clients := Function.update s.clients t (some c') } (.client t) ∧
      s₁.fileMutex.destroyed = s.fileMutex.destroyed ∧
      (s.fileMutex.destroyed = true → s₁.fileMutex.owner = none) := by
  have huses : UsesFile { s₁ with clients := Function.update s.clients t (some c') } (.client t) ↔
      c'.pc.holdsFile = true := by simp [UsesFile]
  have huses₀ : s.UsesFile (.client t) ↔ c.pc.holdsFile = true := by simp [UsesFile, hc]
  have hfree : s.fileMutex.destroyed = true → s.fileMutex.owner = none :=
    fun hd => (hi.destroyed hd).1
  rcases clientCall_fileMutex hcall with ⟨ok, rfl, hlock⟩ | ⟨rfl, hm⟩ | ⟨hl, hu, hm⟩
  · rcases MutexState.lock_eq_some hlock with ⟨hd, rfl, hm⟩ | ⟨hd, rfl, hnone, hm⟩
    · obtain ⟨-, -, hpc⟩ := (hstep.holdsFile.resolve_left (by simp)).resolve_left (by simp)
      refine ⟨.stays (huses.trans (hpc ▸ huses₀.symm)) (by rw [hm]), by rw [hm], ?_⟩
      rw [hm]
      exact hfree
    · obtain ⟨-, -, hpc'⟩ := hstep.holdsFile.resolve_right (by simp)
      exact ⟨.takes hnone (huses.mpr hpc') (by rw [hm]), by rw [hm], by simp [hd]⟩
  · obtain ⟨-, hpc, hpc'⟩ := (hstep.holdsFile.resolve_left (by simp)).resolve_right (by simp)
    refine ⟨.gives (huses₀.mpr hpc) (by simp [huses, hpc']) (by rw [hm]; rfl), by rw [hm]; rfl, ?_⟩
    rw [hm]
    exact fun _ => rfl
  · obtain ⟨-, -, hpc⟩ := (hstep.holdsFile.resolve_left fun h => hl true h.1).resolve_left
      fun h => hu h.1
    refine ⟨.stays (huses.trans (hpc ▸ huses₀.symm)) (by rw [hm]), by rw [hm], ?_⟩
    rw [hm]
    exact hfree

theorem client (hi : FileMutexInv s) (hc : s.clients t = some c)
    (hstep : Client.Step b c.node c.pc ev c'.pc) (hcall : clientCall s t ev = some s₁)
    (hf : Frames { s₁ with clients := Function.update s₁.clients t (some c') }) :
    FileMutexInv { s₁ with clients := Function.update s₁.clients t (some c') } := by
  obtain ⟨heffect, hdes, hfree⟩ := hi.fileEffect hc hstep hcall
  have haside : Aside s { s₁ with clients := Function.update s₁.clients t (some c') } :=
    aside_client hc hcall
  have hlist : s₁.listMutex.destroys = s.listMutex.destroys := haside.list.destroys
  have hframe := clientCall_frame hcall
  have hclients : s₁.clients = s.clients := by rw [hframe]
  have hstack : s₁.stack = s.stack := by rw [hframe]
  have htimer : s₁.timer = s.timer := by rw [hframe]
  have hthread : s₁.timerThread = s.timerThread := by rw [hframe]
  have hcancelled : s₁.timerCancelled = s.timerCancelled := by rw [hframe]
  have hkeep : s₁.keepRunning = s.keepRunning := by rw [hframe]
  have hothers : ∀ who, who ≠ .client t →
      (UsesFile { s₁ with clients := Function.update s.clients t (some c') } who ↔
        s.UsesFile who) := by
    intro who hwho
    cases who with
    | main => exact Iff.rfl
    | timer => simp [UsesFile, htimer]
    | client u =>
      have hu : u ≠ t := fun h => hwho (h ▸ rfl)
      simp [UsesFile, Function.update_of_ne hu]
  rw [hclients] at hf ⊢
  exact {
    frames := hf
    uses := fun who => heffect.uses hi hothers
    owner := fun who => heffect.owner hi hothers fun h => htimer.trans h
    destroyed := fun hd => by
      obtain ⟨-, hover, hlist'⟩ := hi.destroyed (hdes ▸ hd)
      refine ⟨hfree (hdes ▸ hd), hover.congr htimer fun h => hkeep ▸ h, ?_⟩
      simp only [hlist, hstack]
      exact hlist'
    joined := fun q hq hqj => (hi.joined q (hstack ▸ hq) hqj).congr htimer fun h => hkeep ▸ h
    timerThread := fun ht => hthread.trans (hi.timerThread (htimer ▸ ht))
    cancelled := fun h => by
      simp only [htimer, hstack]
      exact hi.cancelled (hcancelled.symm.trans h)
    starting := fun q hq hqs => by
      simp only [htimer, hthread, hcancelled]
      exact hi.starting q (hstack ▸ hq) hqs }

theorem next (hi : FileMutexInv s) (h : (lts b daemonMode).next s a = some s') :
    FileMutexInv s' := by
  have hf := hi.frames.next h
  cases a with
  | main ok =>
    obtain ⟨p, rest, hstack, hstep⟩ := next_main h
    exact hi.mainStep hstack hstep
  | created t =>
    obtain ⟨rest, hstack, hnew, rfl⟩ := next_created h
    exact hi.created hstack hnew hf
  | client t ev =>
    obtain ⟨-, c, c', s₁, hc, hnext, hcall, rfl⟩ := next_client h
    exact hi.client hc (Client.next_eq_some hnext).1 hcall hf
  | timer ok =>
    obtain ⟨-, pc, ht, hstep⟩ := next_timer h
    exact hi.timer ht hf hstep
  | cancelled =>
    obtain ⟨ht, rfl⟩ := next_cancelled h
    exact hi.cancels ht hf
  | signal sig =>
    obtain ⟨-, rfl⟩ := next_signal h
    exact hi.signal sig hf

omit [DecidableEq τ] in
theorem init : FileMutexInv (Process.init τ) where
  frames := .init
  uses who h := by
    cases who with
    | main => exact h.elim
    | client t =>
      obtain ⟨c, hc, -⟩ := h
      cases hc
    | timer =>
      obtain ⟨pc, hpc, -⟩ := h
      cases hpc
  owner := nofun
  destroyed := nofun
  joined := List.forall_mem_singleton.mpr nofun
  timerThread h := absurd rfl h
  cancelled := nofun
  starting _ _ _ := ⟨rfl, rfl, rfl⟩

theorem run {tr : List (Action τ)} (h : (lts b daemonMode).run (Process.init τ) tr = some s) :
    FileMutexInv s :=
  Lts.run_invariant (fun _ _ _ hi h => hi.next h) init h

end FileMutexInv

/-! ## A cancelled timer thread -/

/-- The timer thread has ended with `file_mutex` in its hands. -/
structure Orphaned (s : Process τ) : Prop where
  owner : s.fileMutex.owner = some .timer
  timer : s.timer = some .ended

/-- The main thread does not lock or unlock `file_mutex`, and starts the timer thread at most. -/
theorem mainStep_timer (h : mainStep b daemonMode s ok rest p = some s') :
    s'.fileMutex.owner = s.fileMutex.owner ∧ s'.clients = s.clients ∧
      (s'.timer = s.timer ∨ (p = .timerCreate ∧ s'.timer = some .check)) := by
  cases p with
  | removeLock | cleanLock =>
    obtain ⟨m, -, rfl⟩ := Option.map_eq_some_iff.mp h
    exact ⟨rfl, rfl, .inl rfl⟩
  | timerCreate =>
    cases ok <;> cases h
    · exact ⟨rfl, rfl, .inl rfl⟩
    · exact ⟨rfl, rfl, .inr ⟨rfl, rfl⟩⟩
  | _ =>
    simp only [mainStep] at h
    repeat' split at h
    all_goals cases h
    all_goals exact ⟨rfl, rfl, .inl rfl⟩

variable [DecidableEq τ] {tr : List (Action τ)}

/-- There is nobody who could unlock it. -/
theorem Orphaned.next (ho : Orphaned s) (hi : FileMutexInv s)
    (h : (lts b daemonMode).next s a = some s') : Orphaned s' := by
  cases a with
  | main ok =>
    obtain ⟨p, rest, hstack, hstep⟩ := next_main h
    obtain ⟨howner, -, htimer | ⟨rfl, -⟩⟩ := mainStep_timer hstep
    · exact ⟨howner.trans ho.owner, htimer.trans ho.timer⟩
    · have hnone := (hi.starting .timerCreate (by simp [hstack]) rfl).1
      rw [ho.timer] at hnone
      cases hnone
  | created t =>
    obtain ⟨rest, -, -, rfl⟩ := next_created h
    exact ⟨ho.owner, ho.timer⟩
  | client t ev =>
    obtain ⟨-, c, c', s₁, hc, hnext, hcall, rfl⟩ := next_client h
    have htimer : s₁.timer = s.timer := by rw [clientCall_frame hcall]
    refine ⟨?_, htimer.trans ho.timer⟩
    cases (hi.fileEffect hc (Client.next_eq_some hnext).1 hcall).1 with
    | stays _ howner => exact howner.trans ho.owner
    | takes hfree _ _ =>
      rw [ho.owner] at hfree
      cases hfree
    | gives huses _ _ =>
      have howner := hi.uses _ huses
      rw [ho.owner] at howner
      cases howner
  | timer ok =>
    obtain ⟨-, pc, ht, hstep⟩ := next_timer h
    rw [ho.timer] at ht
    cases ht
    cases hstep
  | cancelled =>
    obtain ⟨-, rfl⟩ := next_cancelled h
    exact ⟨ho.owner, rfl⟩
  | signal sig =>
    obtain ⟨-, rfl⟩ := next_signal h
    exact ⟨ho.owner, ho.timer⟩

theorem Orphaned.run (ho : Orphaned s) (hi : FileMutexInv s)
    (h : (lts b daemonMode).run s tr = some s') : Orphaned s' :=
  (Lts.run_invariant (I := fun s => Orphaned s ∧ FileMutexInv s)
    (fun _ _ _ hs h => ⟨hs.1.next hs.2 h, hs.2.next h⟩) ⟨ho, hi⟩ h).1

theorem next_cancelled_timer (h : (lts b daemonMode).next s .cancelled = some s') :
    s.timerCancelled = true ∧ (s.timer = some .write ∨ s.timer = some .sleep) := by
  simp only [lts, Option.ite_none_right_eq_some] at h
  exact h.1.2

/-- Before it, the mutex was lost already, or a cancellation between lock and unlock loses it. -/
theorem Orphaned.prev (ho : Orphaned s') (hi : FileMutexInv s)
    (h : (lts b daemonMode).next s a = some s') :
    Orphaned s ∨ (a = .cancelled ∧ s.timer = some .write) := by
  cases a with
  | main ok =>
    obtain ⟨p, rest, -, hstep⟩ := next_main h
    obtain ⟨howner, -, htimer | ⟨-, htimer⟩⟩ := mainStep_timer hstep
    · exact .inl ⟨howner.symm.trans ho.owner, htimer.symm.trans ho.timer⟩
    · rw [ho.timer] at htimer
      cases htimer
  | created t =>
    obtain ⟨rest, -, -, rfl⟩ := next_created h
    exact .inl ⟨ho.owner, ho.timer⟩
  | client t ev =>
    obtain ⟨-, c, c', s₁, hc, hnext, hcall, rfl⟩ := next_client h
    have htimer : s₁.timer = s.timer := by rw [clientCall_frame hcall]
    refine .inl ⟨?_, htimer.symm.trans ho.timer⟩
    have hclients : s₁.clients = s.clients := by rw [clientCall_frame hcall]
    rw [hclients] at ho
    cases (hi.fileEffect hc (Client.next_eq_some hnext).1 hcall).1 with
    | stays _ howner => exact howner.symm.trans ho.owner
    | takes _ _ howner =>
      rw [ho.owner] at howner
      cases howner
    | gives _ _ howner =>
      rw [ho.owner] at howner
      cases howner
  | timer ok =>
    obtain ⟨-, pc, ht, hstep⟩ := next_timer h
    cases pc with
    | check =>
      -- it ends at the test of `keep_running` without the mutex
      cases hstep
      rcases hi.owner _ ho.owner with ⟨pc, hpc, hholds⟩ | ⟨-, he⟩
      · rw [ht] at hpc
        cases hpc
        cases hholds
      · rw [ht] at he
        cases he
    | lock =>
      obtain ⟨m, -, rfl⟩ := Option.map_eq_some_iff.mp hstep
      cases ho.timer
    | write =>
      obtain ⟨-, rfl⟩ := timerStep_write hstep
      cases ho.timer
    | unlock =>
      cases hstep
      cases ho.timer
    | sleep =>
      obtain ⟨-, rfl⟩ := timerStep_sleep hstep
      cases ho.timer
    | ended => cases hstep
  | cancelled =>
    obtain ⟨-, ht⟩ := next_cancelled_timer h
    obtain ⟨-, rfl⟩ := next_cancelled h
    rcases ht with ht | ht
    · exact .inr ⟨rfl, ht⟩
    · rcases hi.owner _ ho.owner with ⟨pc, hpc, hholds⟩ | ⟨-, he⟩
      · rw [ht] at hpc
        cases hpc
        cases hholds
      · rw [ht] at he
        cases he
  | signal sig =>
    obtain ⟨-, rfl⟩ := next_signal h
    exact .inl ⟨ho.owner, ho.timer⟩

/-- What is cancelled between lock and unlock has the mutex. -/
theorem FileMutexInv.orphaned (hi : FileMutexInv s) (ht : s.timer = some .write)
    (h : (lts b daemonMode).next s .cancelled = some s') : Orphaned s' := by
  obtain ⟨-, rfl⟩ := next_cancelled h
  exact ⟨hi.uses .timer ⟨.write, ht, rfl⟩, rfl⟩

/-- `cleanup_thread_list` is still to come, or at work, before `main` returns. -/
def clearing : Place τ → Bool
  | .ret | .handlerEnd _ | .cleanUnlock | .destroyFile | .destroyList => false
  -- below `remove_completed_threads` there is the accept loop
  | .removeLock | .removeLoop _ | .removeJoin _ _ | .removeUnlock => false
  | _ => true

/-- The client waits for a mutex that nobody unlocks. -/
structure Starved (s : Process τ) (t : τ) (c : Client) : Prop where
  inv : FileMutexInv s
  orphaned : Orphaned s
  client : s.clients t = some c
  waits : c.pc.waitsFor = some .file

/-- The main thread joins the thread, or is about to. -/
def JoinAhead (s : Process τ) (t : τ) : Prop :=
  (⟨t, false⟩ ∈ s.threadList ∧ ∃ p ∈ s.stack, clearing p = true) ∨ .cleanJoin t ∈ s.stack

omit [DecidableEq τ] in
theorem Goes.clearing {new : List (Place τ)} (hg : Goes p new) (hp : clearing p = true) :
    ∃ q ∈ new, Process.clearing q = true := by
  cases hg with
  | @main _ q _ _ hq =>
    refine ⟨q, List.mem_singleton_self q, ?_⟩
    obtain ⟨hq, hret⟩ := hq
    cases q <;> first | rfl | exact absurd rfl hret | cases hq
  | exit | handler => exact ⟨.cleanup, List.mem_cons_self, rfl⟩
  | cancel | cleanup | timerJoin | closeServer => exact ⟨_, List.mem_singleton_self _, rfl⟩
  | ret | handlerEnd | destroyFile => cases hp

namespace Starved

variable {c : Client}

omit [DecidableEq τ] in
theorem not_exited (h : Starved s t c) : s.exited t = false := by
  have hwaits := h.waits
  simp only [exited, h.client]
  cases hpc : c.pc <;> first | rfl | (rw [hpc] at hwaits; cases hwaits)

omit [DecidableEq τ] in
theorem not_destroyed (h : Starved s t c) : s.fileMutex.destroyed = false := by
  rw [← Bool.not_eq_true]
  intro hd
  have hfree := (h.inv.destroyed hd).1
  rw [h.orphaned.owner] at hfree
  cases hfree

/-- It makes no step. -/
theorem no_step {ev : Sys} (h : Starved s t c) :
    (lts b daemonMode).next s (.client t ev) = none := by
  rw [Option.eq_none_iff_forall_not_mem]
  intro s' hs'
  obtain ⟨-, c', c'', s₁, hc, hnext, hcall, -⟩ := next_client hs'
  obtain rfl : c = c' := Option.some.inj (h.client.symm.trans hc)
  have hstep := (Client.next_eq_some hnext).1
  have hwaits := h.waits
  have hlock : ∃ ok, ev = .lock .file ok := by
    generalize c.pc = pc at hstep hwaits
    generalize c''.pc = pc'' at hstep
    cases hstep <;> first | exact ⟨_, rfl⟩ | cases hwaits
  obtain ⟨ok, rfl⟩ := hlock
  obtain ⟨m, hm, -⟩ := Option.map_eq_some_iff.mp hcall
  rcases MutexState.lock_eq_some hm with ⟨hd, -⟩ | ⟨-, -, hfree, -⟩
  · rw [h.not_destroyed] at hd
    cases hd
  · rw [h.orphaned.owner] at hfree
    cases hfree

theorem next (h : Starved s t c) (hstep : (lts b daemonMode).next s a = some s') :
    Starved s' t c := by
  refine ⟨h.inv.next hstep, h.orphaned.next h.inv hstep, ?_, h.waits⟩
  cases a with
  | main ok =>
    obtain ⟨p, rest, -, hmain⟩ := next_main hstep
    exact (mainStep_timer hmain).2.1 ▸ h.client
  | created u =>
    obtain ⟨rest, -, hnew, rfl⟩ := next_created hstep
    have hu : t ≠ u := by
      rintro rfl
      rw [h.client] at hnew
      cases hnew
    exact (Function.update_of_ne hu _ _).trans h.client
  | client u ev =>
    have hu : t ≠ u := by
      rintro rfl
      rw [h.no_step] at hstep
      cases hstep
    obtain ⟨-, c', c'', s₁, -, -, hcall, rfl⟩ := next_client hstep
    refine (Function.update_of_ne hu _ _).trans ?_
    rw [clientCall_frame hcall]
    exact h.client
  | timer ok =>
    obtain ⟨-, pc, ht, htimer⟩ := next_timer hstep
    rw [h.orphaned.timer] at ht
    cases ht
    cases htimer
  | cancelled =>
    obtain ⟨-, rfl⟩ := next_cancelled hstep
    exact h.client
  | signal sig =>
    obtain ⟨-, rfl⟩ := next_signal hstep
    exact h.client

/-- The main thread does not get past the join. -/
theorem joinAhead_main (h : Starved s t c) (hj : JoinAhead s t) (hstack : s.stack = p :: rest)
    (hstep : mainStep b daemonMode s ok rest p = some s') : JoinAhead s' t := by
  have hkeeps : ∀ new, s'.stack = new ++ rest → p ≠ .cleanJoin t →
      (clearing p = true → ∃ q ∈ new, clearing q = true) →
      (⟨t, false⟩ ∈ s.threadList → ⟨t, false⟩ ∈ s'.threadList) → JoinAhead s' t := by
    intro new hstack' hp hclear hlist
    rcases hj with ⟨hmem, q, hq, hqc⟩ | hmem
    · refine .inl ⟨hlist hmem, ?_⟩
      rw [hstack] at hq
      rcases List.mem_cons.mp hq with rfl | hq
      · obtain ⟨r, hr, hrc⟩ := hclear hqc
        exact ⟨r, by simp [hstack', hr], hrc⟩
      · exact ⟨q, by simp [hstack', hq], hqc⟩
    · rw [hstack] at hmem
      rcases List.mem_cons.mp hmem with heq | hmem
      · exact absurd heq.symm hp
      · exact .inr (by simp [hstack', hmem])
  cases hp : usesList p with
  | false =>
    obtain ⟨new, hgoes, hstack', hkept⟩ := mainStep_goes hp hstep
    refine hkeeps new hstack' ?_ hgoes.clearing fun hmem => hkept.threadList ▸ hmem
    rintro rfl
    cases hp
  | true =>
    cases p with
    | removeLock | cleanLock =>
      obtain ⟨m, -, rfl⟩ := Option.map_eq_some_iff.mp hstep
      exact hkeeps [_] rfl (by simp) (by simp [clearing]) id
    | removeLoop i =>
      simp only [Process.mainStep] at hstep
      split at hstep
      · cases hstep
        exact hkeeps [_] rfl (by simp) (by simp [clearing]) id
      · rename_i n hn
        split at hstep
        · rename_i hcompl
          cases hstep
          refine hkeeps [_] rfl (by simp) (by simp [clearing]) fun hmem => ?_
          obtain ⟨j, hj⟩ := List.mem_iff_getElem?.mp hmem
          refine List.mem_eraseIdx_iff_getElem?.mpr ⟨j, ?_, hj⟩
          rintro rfl
          rw [hn] at hj
          cases hj
          cases hcompl
        · cases hstep
          exact hkeeps [_] rfl (by simp) (by simp [clearing]) id
    | removeJoin u i =>
      simp only [Process.mainStep, Option.ite_none_right_eq_some, Option.some.injEq] at hstep
      obtain ⟨-, rfl⟩ := hstep
      exact hkeeps [_] rfl (by simp) (by simp [clearing]) id
    | removeUnlock | destroyList =>
      cases hstep
      exact hkeeps [] rfl (by simp) (by simp [clearing]) id
    | cleanLoop =>
      simp only [Process.mainStep] at hstep
      split at hstep
      · rename_i hnil
        cases hstep
        rcases hj with ⟨hmem, -⟩ | hmem
        · rw [hnil] at hmem
          cases hmem
        · exact .inr (by simpa [hstack] using hmem)
      · rename_i n l hl
        cases hstep
        by_cases hn : n = ⟨t, false⟩
        · exact .inr (by simp [hn])
        · refine hkeeps [_] rfl (by simp) (by simp [clearing]) fun hmem => ?_
          rw [hl] at hmem
          exact (List.mem_cons.mp hmem).resolve_left (Ne.symm hn)
    | cleanJoin u =>
      simp only [Process.mainStep, Option.ite_none_right_eq_some, Option.some.injEq] at hstep
      obtain ⟨hexited, rfl⟩ := hstep
      refine hkeeps [_] rfl ?_ (by simp [clearing]) id
      rintro ⟨⟩
      rw [h.not_exited] at hexited
      cases hexited
    | cleanUnlock =>
      cases hstep
      exact hkeeps [_] rfl (by simp) (by simp [clearing]) id
    | _ => cases hp

theorem joinAhead_next (h : Starved s t c) (hj : JoinAhead s t)
    (hstep : (lts b daemonMode).next s a = some s') : JoinAhead s' t := by
  cases a with
  | main ok =>
    obtain ⟨p, rest, hstack, hmain⟩ := next_main hstep
    exact h.joinAhead_main hj hstack hmain
  | created u =>
    obtain ⟨rest, hstack, -, rfl⟩ := next_created hstep
    rcases hj with ⟨hmem, -⟩ | hmem
    · exact .inl ⟨hmem, .loop, by simp, rfl⟩
    · exact .inr (by simpa [hstack] using hmem)
  | client u ev =>
    have hu : t ≠ u := by
      rintro rfl
      rw [h.no_step] at hstep
      cases hstep
    obtain ⟨-, c', c'', s₁, -, -, hcall, rfl⟩ := next_client hstep
    have hstack : s₁.stack = s.stack := by rw [clientCall_frame hcall]
    unfold JoinAhead
    rw [hstack]
    refine hj.imp_left (And.imp_left fun hmem => ?_)
    rcases clientCall_threadList hcall with ⟨-, hl⟩ | ⟨-, hl⟩ | ⟨-, -, hl⟩
    · simp [hl, hmem]
    · rw [hl]
      exact List.mem_map.mpr ⟨_, hmem, if_neg hu⟩
    · simpa [hl] using hmem
  | timer ok =>
    obtain ⟨-, pc, ht, htimer⟩ := next_timer hstep
    rw [h.orphaned.timer] at ht
    cases ht
    cases htimer
  | cancelled =>
    obtain ⟨-, rfl⟩ := next_cancelled hstep
    exact hj
  | signal sig =>
    obtain ⟨-, rfl⟩ := next_signal hstep
    refine hj.imp (And.imp_right ?_) fun hmem => List.mem_cons_of_mem _ hmem
    rintro ⟨q, hq, hqc⟩
    exact ⟨q, List.mem_cons_of_mem _ hq, hqc⟩

theorem run (h : Starved s t c) (hrun : (lts b daemonMode).run s tr = some s') : Starved s' t c :=
  Lts.run_invariant (I := fun s => Starved s t c) (fun _ _ _ h hstep => h.next hstep) h hrun

theorem stack_ne_nil (h : Starved s t c) (hj : JoinAhead s t)
    (hrun : (lts b daemonMode).run s tr = some s') : s'.stack ≠ [] := by
  have hj' : JoinAhead s' t :=
    (Lts.run_invariant (I := fun s => Starved s t c ∧ JoinAhead s t)
      (fun _ _ _ hs hstep => ⟨hs.1.next hstep, hs.1.joinAhead_next hs.2 hstep⟩) ⟨h, hj⟩ hrun).2
  rcases hj' with ⟨-, q, hq, -⟩ | hmem
  · exact List.ne_nil_of_mem hq
  · exact List.ne_nil_of_mem hmem

end Starved

/-- When the timer thread is cancelled between lock and unlock, `file_mutex` stays locked, whatever
follows: no thread gets into a critical section any more, and a client that comes to wait for the
mutex waits for ever. If such a client is listed while `cleanup_thread_list` is still to come, as it is
at the cancellation, `main` does not return. -/
theorem cancelled_in_section {u v w : List (Action τ)} {s'' : Process τ}
    (hu : (lts b daemonMode).run (init τ) u = some s) (ht : s.timer = some .write)
    (hv : (lts b daemonMode).run s (.cancelled :: v) = some s')
    (hw : (lts b daemonMode).run s' w = some s'') :
    (∃ p ∈ s.stack, clearing p = true) ∧
      s'.fileMutex.owner = some .timer ∧ s'.fileMutex.destroyed = false ∧
      (∀ who, ¬ s'.UsesFile who) ∧
      ∀ t c, s'.clients t = some c → c.pc.waitsFor = some .file →
        s''.clients t = some c ∧
          (⟨t, false⟩ ∈ s'.threadList → (∃ p ∈ s'.stack, clearing p = true) → s''.stack ≠ []) := by
  obtain ⟨s₁, hc, hv⟩ := Lts.run_cons_eq_some.mp hv
  have hi := FileMutexInv.run hu
  have hi₁ := hi.next hc
  have ho := (hi.orphaned ht hc).run hi₁ hv
  have hi' : FileMutexInv s' := Lts.run_invariant (fun _ _ _ hi h => hi.next h) hi₁ hv
  refine ⟨?_, ho.owner, ?_, fun who huses => ?_, fun t c hclient hwaits => ?_⟩
  · refine ⟨.timerJoin, (hi.cancelled (next_cancelled_timer hc).1).resolve_left ?_, rfl⟩
    rw [ht]
    simp
  · rw [← Bool.not_eq_true]
    intro hd
    have hfree := (hi'.destroyed hd).1
    rw [ho.owner] at hfree
    cases hfree
  · obtain rfl : Tid.timer = who := Option.some.inj (ho.owner.symm.trans (hi'.uses who huses))
    obtain ⟨pc, hpc, hholds⟩ := huses
    rw [ho.timer] at hpc
    cases hpc
    cases hholds
  · have hs : Starved s' t c := ⟨hi', ho, hclient, hwaits⟩
    exact ⟨(hs.run hw).client, fun hmem hclear => hs.stack_ne_nil (.inl ⟨hmem, hclear⟩) hw⟩

/-- The thread `t` registers, on the way to its first `recv`. -/
def registers (t : Nat) : List (Action Nat) :=
  [.malloc true, .lock .list true, .link, .unlock .list, .malloc true].map (.client t)

/-- The file build: of two listed clients one waits for `file_mutex`, which the timer thread has, when
`SIGINT` comes. -/
def interruptedTimestamp : List (Action Nat) :=
  List.replicate 10 (.main true) ++ .created 0 :: List.replicate 6 (.main true) ++
    .created 1 :: registers 0 ++ registers 1 ++
    [.client 0 (.recv (some [97])), .timer true, .timer true, .signal .int, .main true, .main true]

/-- The timer thread is cancelled, then the other client comes to wait, too, and the handler joins
it. -/
theorem cancelled_in_section_interrupted :
    ∃ s s' s'', (lts .file false).run (init Nat) interruptedTimestamp = some s ∧
      (lts .file false).run s [.cancelled, .client 1 (.recv (some [98]))] = some s' ∧
      (lts .file false).run s' (List.replicate 4 (.main true)) = some s'' ∧
      s'.fileMutex.owner = some .timer ∧ s.clients 1 = some ⟨.recv, true⟩ ∧
      s''.clients 0 = some ⟨.dataLock [97], true⟩ ∧ s''.clients 1 = some ⟨.dataLock [98], true⟩ ∧
      s''.stack ≠ [] := by
  obtain ⟨s, hs, ht, hclient⟩ :
      ∃ s, (lts .file false).run (init Nat) interruptedTimestamp = some s ∧
        s.timer = some .write ∧ s.clients 1 = some ⟨.recv, true⟩ :=
    ⟨Option.get _ (by decide), (Option.some_get _).symm, by decide⟩
  obtain ⟨s', hs', h0, h1, hlist, hstack⟩ :
      ∃ s', (lts .file false).run (init Nat)
          (interruptedTimestamp ++ [.cancelled, .client 1 (.recv (some [98]))]) = some s' ∧
        s'.clients 0 = some ⟨.dataLock [97], true⟩ ∧ s'.clients 1 = some ⟨.dataLock [98], true⟩ ∧
        ⟨1, false⟩ ∈ s'.threadList ∧ ∃ p ∈ s'.stack, clearing p = true :=
    ⟨Option.get _ (by decide), (Option.some_get _).symm, by decide⟩
  obtain ⟨s'', hs''⟩ : ∃ s'', (lts .file false).run (init Nat)
      ((interruptedTimestamp ++ [.cancelled, .client 1 (.recv (some [98]))]) ++
        List.replicate 4 (.main true)) = some s'' :=
    Option.isSome_iff_exists.mp (by decide)
  obtain ⟨s₁, hs₁, hv⟩ := Lts.run_append_eq_some.mp hs'
  obtain rfl : s = s₁ := Option.some.inj (hs.symm.trans hs₁)
  obtain ⟨s₂, hs₂, hw⟩ := Lts.run_append_eq_some.mp hs''
  obtain rfl : s' = s₂ := Option.some.inj (hs'.symm.trans hs₂)
  obtain ⟨-, howner, -, -, hwaits⟩ := cancelled_in_section hs ht hv hw
  obtain ⟨hclient', hreturns⟩ := hwaits 1 _ h1 rfl
  exact ⟨s, s', s'', hs, hv, hw, howner, hclient, (hwaits 0 _ h0 rfl).1, hclient',
    hreturns hlist hstack⟩

end Process

end Aesd
