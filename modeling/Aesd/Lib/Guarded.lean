import Aesd.Lib.Lts

/-!
# A resource behind a mutex

`Threads` that share a resource under one mutex. A thread is in its critical section (`inside`) or
out of it. The free mutex owns the resource (`Free`), and the thread in the section has it (`In`);
what a thread knows outside (`Out`) no other thread can change. All of this may refer to a history
of the run, which every call extends.

A call must keep this only as far as it concerns its own thread: `Guarded.enters`, `leaves`, `works`
and `apart` are the obligations of one call, by where its thread is before and after it.
`Guarded.run` carries them over all interleavings.
-/

namespace Threads

variable {τ σ κ ε ξ γ : Type*} [DecidableEq τ]

/-- Thread `t`, in the local state `c`, makes the call `ev` on the service `k`. -/
structure Makes (T : Threads τ σ κ ε ξ) (t : τ) (c : σ) (k : κ) (ev : ε) (env : ξ) (c' : σ)
    (k' : κ) : Prop where
  thread : T.thread.next c ev = some c'
  service : T.service k t ev env = some k'

/-- A mutex and the resource behind it (module doc), for the calls that are `Allowed`. -/
structure Guarded (T : Threads τ σ κ ε ξ) (γ : Type*) where
  holder : κ → Option τ
  inside : σ → Bool
  /-- The history after a call of a thread. -/
  record : γ → τ → σ → ε → γ
  Allowed : τ → ε → Prop
  Free : γ → κ → Prop
  In : γ → τ → σ → κ → Prop
  Out : γ → τ → σ → Prop
  /-- Into the critical section. -/
  enters : ∀ {g t c k ev env c' k'}, T.Makes t c k ev env c' k' → Allowed t ev →
    inside c = false → inside c' = true → Out g t c →
      holder k = none ∧ holder k' = some t ∧ (Free g k → In (record g t c ev) t c' k')
  /-- Out of it. -/
  leaves : ∀ {g t c k ev env c' k'}, T.Makes t c k ev env c' k' → Allowed t ev →
    inside c = true → inside c' = false → In g t c k →
      holder k' = none ∧ Out (record g t c ev) t c' ∧ Free (record g t c ev) k'
  /-- In the section. -/
  works : ∀ {g t c k ev env c' k'}, T.Makes t c k ev env c' k' → Allowed t ev →
    inside c = true → inside c' = true → In g t c k →
      holder k' = holder k ∧ In (record g t c ev) t c' k'
  /-- Outside the section. -/
  apart : ∀ {g t c k ev env c' k'}, T.Makes t c k ev env c' k' → Allowed t ev →
    inside c = false → inside c' = false → Out g t c →
      holder k' = holder k ∧ Out (record g t c ev) t c' ∧
        (Free g k → Free (record g t c ev) k') ∧
        ∀ u d, u ≠ t → In g u d k → In (record g t c ev) u d k'
  /-- What another thread knows. -/
  others : ∀ {g t c k ev env c' k' u d}, T.Makes t c k ev env c' k' → Allowed t ev → u ≠ t →
    Out g u d → Out (record g t c ev) u d

/-- The history that a run leaves, after `g`. -/
def history (T : Threads τ σ κ ε ξ) (record : γ → τ → σ → ε → γ) (g : γ) (s : State τ σ κ) :
    List (Label τ ε ξ) → γ
  | [] => g
  | l :: tr =>
    let g' := record g l.tid (s.local_ l.tid) l.ev
    match T.lts.next s l with
    | none => g'
    | some s' => history T record g' s' tr

theorem history_snoc {T : Threads τ σ κ ε ξ} {record : γ → τ → σ → ε → γ} {g : γ}
    {s s' : State τ σ κ} {tr : List (Label τ ε ξ)} (h : T.lts.run s tr = some s')
    (l : Label τ ε ξ) :
    T.history record g s (tr ++ [l]) =
      record (T.history record g s tr) l.tid (s'.local_ l.tid) l.ev := by
  induction tr generalizing s g with
  | nil =>
    cases h
    cases hn : T.lts.next s' l <;> simp [history, hn]
  | cons e tr ih =>
    obtain ⟨s₁, h1, h2⟩ := Lts.run_cons_eq_some.mp h
    simp only [List.cons_append, history, h1]
    exact ih h2

namespace Guarded

variable {T : Threads τ σ κ ε ξ} (G : Guarded T γ)

/-- The mutex is held by the thread that is in its section, and the resource is with it. -/
structure Ok (g : γ) (s : State τ σ κ) : Prop where
  mutex : ∀ t, G.inside (s.local_ t) = true ↔ G.holder s.shared = some t
  free : G.holder s.shared = none → G.Free g s.shared
  held : ∀ t, G.inside (s.local_ t) = true → G.In g t (s.local_ t) s.shared
  outside : ∀ t, G.inside (s.local_ t) = false → G.Out g t (s.local_ t)

variable {G} {g g' : γ} {s s' : State τ σ κ} {l : Label τ ε ξ} {tr : List (Label τ ε ξ)}
  {t u : τ} {c : σ} {k : κ}

/-- An assertion about all threads, after one of them has moved. -/
theorem forall_local {P : τ → σ → Prop} (hself : P t c) (hothers : ∀ u, u ≠ t → P u (s.local_ u)) :
    ∀ u, P u (Function.update s.local_ t c u) := by
  intro u
  by_cases hu : u = t
  · subst hu
    rwa [Function.update_self]
  · rw [Function.update_of_ne hu]
    exact hothers u hu

namespace Ok

omit [DecidableEq τ] in
/-- While one thread is in its section the others are outside. -/
theorem alone (h : G.Ok g s) (ht : G.inside (s.local_ t) = true) (hu : u ≠ t) :
    G.inside (s.local_ u) = false := by
  rw [← Bool.not_eq_true, h.mutex u, (h.mutex t).mp ht]
  exact fun heq => hu (Option.some.inj heq).symm

omit [DecidableEq τ] in
/-- While the mutex is free all are outside. -/
theorem none_inside (h : G.Ok g s) (hk : G.holder s.shared = none) (u : τ) :
    G.inside (s.local_ u) = false := by
  rw [← Bool.not_eq_true, h.mutex u, hk]
  exact nofun

/-- Thread `t` is in its section now, and nobody else is. -/
theorem of_inside (hin : G.inside c = true) (hk : G.holder k = some t) (hIn : G.In g' t c k)
    (hout : ∀ u, u ≠ t → G.inside (s.local_ u) = false ∧ G.Out g' u (s.local_ u)) :
    G.Ok g' { local_ := Function.update s.local_ t c, shared := k } where
  mutex := by
    apply forall_local (P := fun u d => G.inside d = true ↔ G.holder k = some u)
    · simp [hin, hk]
    · intro u hu
      simp [(hout u hu).1, hk, hu.symm]
  free hnone := by rw [hk] at hnone; cases hnone
  held := forall_local (P := fun u d => G.inside d = true → G.In g' u d k) (fun _ => hIn)
    fun u hu hu' => by rw [(hout u hu).1] at hu'; cases hu'
  outside := forall_local (P := fun u d => G.inside d = false → G.Out g' u d)
    (fun hf => by rw [hin] at hf; cases hf) fun u hu _ => (hout u hu).2

/-- Nobody is in a section now. -/
theorem of_free (hin : G.inside c = false) (hk : G.holder k = none) (hFree : G.Free g' k)
    (hOut : G.Out g' t c)
    (hout : ∀ u, u ≠ t → G.inside (s.local_ u) = false ∧ G.Out g' u (s.local_ u)) :
    G.Ok g' { local_ := Function.update s.local_ t c, shared := k } where
  mutex := by
    apply forall_local (P := fun u d => G.inside d = true ↔ G.holder k = some u)
    · simp [hin, hk]
    · intro u hu
      simp [(hout u hu).1, hk]
  free _ := hFree
  held := forall_local (P := fun u d => G.inside d = true → G.In g' u d k)
    (fun hf => by rw [hin] at hf; cases hf) fun u hu hu' => by rw [(hout u hu).1] at hu'; cases hu'
  outside := forall_local (P := fun u d => G.inside d = false → G.Out g' u d) (fun _ => hOut)
    fun u hu _ => (hout u hu).2

/-- A call keeps the invariant: one case for each way in which its thread can move. -/
theorem next (h : G.Ok g s) (hs : T.lts.next s l = some s') (hl : G.Allowed l.tid l.ev) :
    G.Ok (G.record g l.tid (s.local_ l.tid) l.ev) s' := by
  obtain ⟨c, k, hc, hk, rfl⟩ := next_eq_some.mp hs
  have hm : T.Makes l.tid (s.local_ l.tid) s.shared l.ev l.env c k := ⟨hc, hk⟩
  cases hin : G.inside (s.local_ l.tid) with
  | false =>
    have hOut := h.outside l.tid hin
    cases hin' : G.inside c with
    | true =>
      obtain ⟨hnone, hsome, hIn⟩ := G.enters hm hl hin hin' hOut
      exact of_inside hin' hsome (hIn (h.free hnone)) fun u hu =>
        ⟨h.none_inside hnone u, G.others hm hl hu (h.outside u (h.none_inside hnone u))⟩
    | false =>
      obtain ⟨hholder, hOut', hFree, hIn⟩ := G.apart hm hl hin hin' hOut
      refine ⟨?_, fun hnone => hFree (h.free (hholder ▸ hnone)), ?_, ?_⟩
      · apply forall_local (P := fun u d => G.inside d = true ↔ G.holder k = some u)
        · rw [hin', hholder, ← h.mutex, hin]
        · intro u _
          rw [hholder]
          exact h.mutex u
      · exact forall_local (P := fun u d => G.inside d = true → G.In _ u d k)
          (fun hf => by rw [hin'] at hf; cases hf) fun u hu hu' => hIn u _ hu (h.held u hu')
      · exact forall_local (P := fun u d => G.inside d = false → G.Out _ u d) (fun _ => hOut')
          fun u hu hu' => G.others hm hl hu (h.outside u hu')
  | true =>
    have hIn := h.held l.tid hin
    have hout : ∀ u, u ≠ l.tid → G.inside (s.local_ u) = false ∧
        G.Out (G.record g l.tid (s.local_ l.tid) l.ev) u (s.local_ u) :=
      fun u hu => ⟨h.alone hin hu, G.others hm hl hu (h.outside u (h.alone hin hu))⟩
    cases hin' : G.inside c with
    | true =>
      obtain ⟨hholder, hIn'⟩ := G.works hm hl hin hin' hIn
      exact of_inside hin' (hholder.trans ((h.mutex l.tid).mp hin)) hIn' hout
    | false =>
      obtain ⟨hnone, hOut, hFree⟩ := G.leaves hm hl hin hin' hIn
      exact of_free hin' hnone hFree hOut hout

end Ok

/-- The invariant holds along every run of allowed calls, of the history `hist` that they leave. -/
theorem run (hist : List (Label τ ε ξ) → γ) (h0 : G.Ok (hist []) s)
    (hhist : ∀ tr s' l, T.lts.run s tr = some s' →
      hist (tr ++ [l]) = G.record (hist tr) l.tid (s'.local_ l.tid) l.ev)
    (hrun : T.lts.run s tr = some s') (hall : ∀ l ∈ tr, G.Allowed l.tid l.ev) :
    G.Ok (hist tr) s' := by
  have hok : (∀ l ∈ tr, G.Allowed l.tid l.ev) → G.Ok (hist tr) s' := by
    refine Lts.run_history (I := fun tr s' => (∀ l ∈ tr, G.Allowed l.tid l.ev) → G.Ok (hist tr) s')
      (fun _ => h0) ?_ hrun
    intro tr s₁ l s₂ hrun ih hs hall
    rw [hhist tr s₁ l hrun]
    exact (ih fun x hx => hall x (by simp [hx])).next hs (hall l (by simp))
  exact hok hall

/-- The same of the history that `record` makes. -/
theorem run_recorded (h0 : G.Ok g s) (hrun : T.lts.run s tr = some s')
    (hall : ∀ l ∈ tr, G.Allowed l.tid l.ev) : G.Ok (T.history G.record g s tr) s' :=
  run (T.history G.record g s) h0 (fun _ _ l hrun => history_snoc hrun l) hrun hall

end Guarded

end Threads
