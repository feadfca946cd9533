import Mathlib.Data.List.Induction
import Mathlib.Logic.Function.Basic

/-!
# Runs of labelled transition systems

A system is a partial step function on states: a label names who steps and every choice that the
environment makes, so a run is the list of its labels. Threads that share a service (`Threads`) are
the system of their interleavings: a label goes to one thread, and the thread and the service must
both accept it.

* `run_append`: a run of `u ++ v` is a run of `u` and then one of `v`.
* `run_invariant`: what holds initially and is kept by every step holds after every run.
* `run_history`: the same for an assertion about the trace so far and the state it leads to.
* `Threads.thread_run`: what one thread did in an interleaving is a run of that thread.
* `Threads.section_run`: a critical section runs alone.
-/

/-- A labelled transition system with a partial step function. -/
structure Lts (σ ε : Type*) where
  next : σ → ε → Option σ

/-- The first element with a property splits a list. -/
theorem List.exists_first {α : Type*} (p : α → Prop) [DecidablePred p] (l : List α) :
    (∀ x ∈ l, ¬ p x) ∨ ∃ u x v, l = u ++ x :: v ∧ p x ∧ ∀ y ∈ u, ¬ p y := by
  induction l with
  | nil => exact .inl (by simp)
  | cons a l ih =>
    by_cases ha : p a
    · exact .inr ⟨[], a, l, rfl, ha, by simp⟩
    · rcases ih with h | ⟨u, x, v, rfl, hx, hu⟩
      · exact .inl (by simpa [ha] using h)
      · exact .inr ⟨a :: u, x, v, rfl, hx, by simpa [ha] using hu⟩

namespace Lts

variable {σ ε : Type*} (L : Lts σ ε)

/-- The state after the labels `es`, if every one of them is enabled. -/
def run : σ → List ε → Option σ
  | s, [] => some s
  | s, e :: es => (L.next s e).bind fun s' => run s' es

/-- `t` is reached from `s` by some run. -/
def Reach (s t : σ) : Prop := ∃ es, L.run s es = some t

variable {L} {s t t' : σ} {e : ε} {es fs : List ε}

@[simp] theorem run_nil : L.run s [] = some s := rfl

theorem run_cons : L.run s (e :: es) = (L.next s e).bind fun s' => L.run s' es := rfl

@[simp] theorem run_cons_eq_some :
    L.run s (e :: es) = some t ↔ ∃ s', L.next s e = some s' ∧ L.run s' es = some t := by
  rw [run_cons, Option.bind_eq_some_iff]

/-- A run of `es ++ fs` is a run of `es` and then one of `fs`. -/
theorem run_append : L.run s (es ++ fs) = (L.run s es).bind fun t => L.run t fs := by
  induction es generalizing s with
  | nil => rfl
  | cons e es ih =>
    rw [List.cons_append, run_cons, run_cons]
    cases L.next s e with
    | none => rfl
    | some s' => exact ih

theorem run_append_eq_some :
    L.run s (es ++ fs) = some t ↔ ∃ m, L.run s es = some m ∧ L.run m fs = some t := by
  rw [run_append, Option.bind_eq_some_iff]

theorem run_snoc_eq_some :
    L.run s (es ++ [e]) = some t ↔ ∃ m, L.run s es = some m ∧ L.next m e = some t := by
  rw [run_append_eq_some]
  simp

/-- What every step keeps, every run keeps. -/
theorem run_invariant {I : σ → Prop} (step : ∀ s e s', I s → L.next s e = some s' → I s')
    (hs : I s) (h : L.run s es = some t) : I t := by
  induction es generalizing s with
  | nil => cases h; exact hs
  | cons e es ih =>
    obtain ⟨s', h1, h2⟩ := run_cons_eq_some.mp h
    exact ih (step s e s' hs h1) h2

/-- An assertion about the trace so far and the state it leads to: it holds of the empty trace, and
every step of a reached state keeps it. -/
theorem run_history {I : List ε → σ → Prop} (h0 : I [] s)
    (step : ∀ es t e t', L.run s es = some t → I es t → L.next t e = some t' → I (es ++ [e]) t')
    (h : L.run s es = some t) : I es t := by
  induction es using List.reverseRecOn generalizing t with
  | nil => cases h; exact h0
  | append_singleton es e ih =>
    obtain ⟨m, h1, h2⟩ := run_snoc_eq_some.mp h
    exact step es m e t h1 (ih h1) h2

/-- While the labels are of a kind `A`, a region is not left, and the labels in it are of a kind
`Q`. -/
theorem run_region {I : σ → Prop} {A Q : ε → Prop}
    (step : ∀ s e s', I s → A e → L.next s e = some s' → Q e ∧ I s') (hs : I s)
    (hA : ∀ e ∈ es, A e) (h : L.run s es = some t) : (∀ e ∈ es, Q e) ∧ I t := by
  induction es generalizing s with
  | nil =>
    cases h
    exact ⟨nofun, hs⟩
  | cons e es ih =>
    obtain ⟨s', h1, h2⟩ := run_cons_eq_some.mp h
    obtain ⟨hQ, hs'⟩ := step s e s' hs (hA e List.mem_cons_self) h1
    obtain ⟨hall, ht⟩ := ih hs' (fun f hf => hA f (List.mem_cons_of_mem _ hf)) h2
    exact ⟨List.forall_mem_cons.mpr ⟨hQ, hall⟩, ht⟩

/-- Every step of the run from a state meets `C`. -/
def Along (L : Lts σ ε) (C : σ → ε → Prop) : σ → List ε → Prop
  | _, [] => True
  | s, e :: es => C s e ∧ ∀ s', L.next s e = some s' → L.Along C s' es

variable {C : σ → ε → Prop}

instance Along.decidable [∀ s e, Decidable (C s e)] : ∀ s es, Decidable (L.Along C s es)
  | _, [] => isTrue trivial
  | s, e :: es =>
    have : Decidable (∀ s', L.next s e = some s' → L.Along C s' es) :=
      match h : L.next s e with
      | none => isTrue nofun
      | some s' =>
        have := Along.decidable s' es
        decidable_of_iff (L.Along C s' es) (by simp)
    instDecidableAnd

theorem Along.and {D : σ → ε → Prop} (hC : L.Along C s es) (hD : L.Along D s es) :
    L.Along (fun s e => C s e ∧ D s e) s es := by
  induction es generalizing s with
  | nil => trivial
  | cons e es ih => exact ⟨⟨hC.1, hD.1⟩, fun s' h => ih (hC.2 s' h) (hD.2 s' h)⟩

/-- Along every run there is a first step that does not meet `C`, or none. -/
theorem along_or_first (h : L.run s es = some t) :
    L.Along C s es ∨ ∃ u e v m, es = u ++ e :: v ∧ L.run s u = some m ∧ L.Along C s u ∧ ¬ C m e := by
  induction es generalizing s with
  | nil => exact .inl trivial
  | cons e es ih =>
    obtain ⟨s', h1, h2⟩ := run_cons_eq_some.mp h
    by_cases hC : C s e
    · rcases ih h2 with h | ⟨u, f, v, m, rfl, hu, hC', hf⟩
      · refine .inl ⟨hC, fun r hr => ?_⟩
        rw [h1] at hr
        cases hr
        exact h
      · refine .inr ⟨e :: u, f, v, m, rfl, run_cons_eq_some.mpr ⟨s', h1, hu⟩, ⟨hC, fun r hr => ?_⟩, hf⟩
        rw [h1] at hr
        cases hr
        exact hC'
    · exact .inr ⟨[], e, es, s, rfl, rfl, trivial, hC⟩

/-- An assertion kept by the steps that meet `C` holds after every run whose steps all do. -/
theorem run_invariant_of {I : σ → Prop}
    (step : ∀ s e s', I s → C s e → L.next s e = some s' → I s') (hs : I s)
    (hC : L.Along C s es) (h : L.run s es = some t) : I t := by
  induction es generalizing s with
  | nil => cases h; exact hs
  | cons e es ih =>
    obtain ⟨s', h1, h2⟩ := run_cons_eq_some.mp h
    exact ih (step s e s' hs hC.1 h1) (hC.2 s' h1) h2

/-- What the steps of a run put out, in order. -/
def outputs {ω : Type*} (L : Lts σ ε) (out : σ → ε → Option ω) : σ → List ε → List ω
  | _, [] => []
  | s, e :: es => (out s e).toList ++ ((L.next s e).map fun s' => outputs L out s' es).getD []

theorem outputs_snoc {ω : Type*} {out : σ → ε → Option ω} (h : L.run s es = some t) (e : ε) :
    L.outputs out s (es ++ [e]) = L.outputs out s es ++ (out t e).toList := by
  induction es generalizing s with
  | nil =>
    cases h
    cases hn : L.next t e <;> simp [outputs, hn]
  | cons f es ih =>
    obtain ⟨s', h1, h2⟩ := run_cons_eq_some.mp h
    simp only [List.cons_append, outputs, h1, Option.map_some, Option.getD_some, ih h2,
      List.append_assoc]

section

variable {σ' : Type*} {L' : Lts σ' ε} {f : σ → σ'}

/-- A system that is the image of another one has the images of its runs. -/
theorem run_map (hf : ∀ s e, L'.next (f s) e = (L.next s e).map f) (s : σ) (es : List ε) :
    L'.run (f s) es = (L.run s es).map f := by
  induction es generalizing s with
  | nil => rfl
  | cons e es ih =>
    rw [run_cons, run_cons, hf]
    cases L.next s e with
    | none => rfl
    | some s' => exact ih s'

theorem outputs_map {ω : Type*} {out : σ → ε → Option ω} {out' : σ' → ε → Option ω}
    (hf : ∀ s e, L'.next (f s) e = (L.next s e).map f) (hout : ∀ s e, out' (f s) e = out s e)
    (s : σ) (es : List ε) : L'.outputs out' (f s) es = L.outputs out s es := by
  induction es generalizing s with
  | nil => rfl
  | cons e es ih =>
    simp only [outputs, hf, hout, Option.map_map]
    cases L.next s e with
    | none => rfl
    | some s' => simp [ih s']

end

theorem Reach.refl : L.Reach s s := ⟨[], rfl⟩

theorem Reach.trans {u : σ} (h : L.Reach s t) (h' : L.Reach t u) : L.Reach s u := by
  obtain ⟨es, h⟩ := h
  obtain ⟨fs, h'⟩ := h'
  exact ⟨es ++ fs, run_append_eq_some.mpr ⟨t, h, h'⟩⟩

end Lts

/-- Threads `τ` with local states `σ` over a shared service with states `κ`. A label `ε` is a call
with its result: the thread makes the call and goes on with the result, and the service allows this
result (and the choices `ξ` that only the service sees). -/
structure Threads (τ σ κ ε ξ : Type*) where
  /-- One thread's program. -/
  thread : Lts σ ε
  /-- The service. -/
  service : κ → τ → ε → ξ → Option κ

namespace Threads

variable {τ σ κ ε ξ : Type*} [DecidableEq τ]

/-- A label of the interleaving: the thread, its call with the result, the service's choices. -/
structure Label (τ ε ξ : Type*) where
  tid : τ
  ev : ε
  env : ξ

/-- The state of the interleaving. -/
structure State (τ σ κ : Type*) where
  local_ : τ → σ
  shared : κ

/-- All interleavings of the threads. -/
def lts (T : Threads τ σ κ ε ξ) : Lts (State τ σ κ) (Label τ ε ξ) where
  next s l :=
    (T.thread.next (s.local_ l.tid) l.ev).bind fun c =>
      (T.service s.shared l.tid l.ev l.env).map fun k =>
        { local_ := Function.update s.local_ l.tid c, shared := k }

variable {T : Threads τ σ κ ε ξ} {s s' : State τ σ κ} {l : Label τ ε ξ}

/-- What a step of the interleaving does: a step of one thread and one of the service. -/
theorem next_eq_some : T.lts.next s l = some s' ↔
    ∃ c k, T.thread.next (s.local_ l.tid) l.ev = some c ∧
      T.service s.shared l.tid l.ev l.env = some k ∧
      s' = { local_ := Function.update s.local_ l.tid c, shared := k } := by
  simp only [lts, Option.bind_eq_some_iff, Option.map_eq_some_iff]
  constructor
  · rintro ⟨c, hc, k, hk, rfl⟩
    exact ⟨c, k, hc, hk, rfl⟩
  · rintro ⟨c, k, hc, hk, rfl⟩
    exact ⟨c, hc, k, hk, rfl⟩

/-- The calls of thread `t` in a trace. -/
def callsOf (t : τ) (tr : List (Label τ ε ξ)) : List ε :=
  (tr.filter fun l => l.tid = t).map Label.ev

@[simp] theorem callsOf_nil (t : τ) : callsOf t ([] : List (Label τ ε ξ)) = [] := rfl

theorem callsOf_cons_self (l : Label τ ε ξ) (u : List (Label τ ε ξ)) :
    callsOf l.tid (l :: u) = l.ev :: callsOf l.tid u := by
  simp [callsOf]

theorem callsOf_cons_ne {t : τ} (h : l.tid ≠ t) (u : List (Label τ ε ξ)) :
    callsOf t (l :: u) = callsOf t u := by
  simp [callsOf, h]

/-- What one thread did in an interleaving is a run of that thread. -/
theorem thread_run (t : τ) {tr : List (Label τ ε ξ)} (h : T.lts.run s tr = some s') :
    T.thread.run (s.local_ t) (callsOf t tr) = some (s'.local_ t) := by
  induction tr generalizing s with
  | nil => cases h; rfl
  | cons l tr ih =>
    obtain ⟨m, h1, h2⟩ := Lts.run_cons_eq_some.mp h
    obtain ⟨c, k, hc, -, rfl⟩ := next_eq_some.mp h1
    have := ih h2
    simp only at this
    by_cases hl : l.tid = t
    · subst hl
      rw [Function.update_self] at this
      rw [callsOf_cons_self]
      exact Lts.run_cons_eq_some.mpr ⟨c, hc, this⟩
    · rw [Function.update_of_ne (Ne.symm hl)] at this
      rwa [callsOf_cons_ne hl]

/-- The calls of thread `t` in a trace, with the service's choices. -/
def labelsOf (t : τ) (tr : List (Label τ ε ξ)) : List (ε × ξ) :=
  (tr.filter fun l => l.tid = t).map fun l => (l.ev, l.env)

@[simp] theorem labelsOf_nil (t : τ) : labelsOf t ([] : List (Label τ ε ξ)) = [] := rfl

theorem labelsOf_append (t : τ) (u v : List (Label τ ε ξ)) :
    labelsOf t (u ++ v) = labelsOf t u ++ labelsOf t v := by
  simp [labelsOf]

theorem labelsOf_cons_self (l : Label τ ε ξ) (u : List (Label τ ε ξ)) :
    labelsOf l.tid (l :: u) = (l.ev, l.env) :: labelsOf l.tid u := by
  simp [labelsOf]

theorem labelsOf_cons_ne {t : τ} (h : l.tid ≠ t) (u : List (Label τ ε ξ)) :
    labelsOf t (l :: u) = labelsOf t u := by
  simp [labelsOf, h]

theorem mem_labelsOf {t : τ} {tr : List (Label τ ε ξ)} {x : ε × ξ} :
    x ∈ labelsOf t tr ↔ ∃ l ∈ tr, l.tid = t ∧ (l.ev, l.env) = x := by
  simp [labelsOf, and_assoc]

/-- A thread that makes no call stays where it is. -/
theorem local_eq_of_labelsOf_nil {t : τ} {tr : List (Label τ ε ξ)} (h : T.lts.run s tr = some s')
    (ht : labelsOf t tr = []) : s'.local_ t = s.local_ t := by
  have hc : callsOf t tr = [] := by
    rw [labelsOf, List.map_eq_nil_iff] at ht
    rw [callsOf, ht, List.map_nil]
  have := thread_run t h
  rw [hc] at this
  exact (Option.some.inj this).symm

/-- A split of one thread's calls splits the trace. -/
theorem labelsOf_eq_append {t : τ} {tr : List (Label τ ε ξ)} {xs ys : List (ε × ξ)} {x : ε × ξ}
    (h : labelsOf t tr = xs ++ x :: ys) :
    ∃ u l v, tr = u ++ l :: v ∧ l.tid = t ∧ (l.ev, l.env) = x ∧ labelsOf t u = xs ∧
      labelsOf t v = ys := by
  obtain ⟨as, bs, hf, rfl, hb⟩ := List.map_eq_append_iff.mp h
  obtain ⟨l, cs, rfl, rfl, rfl⟩ := List.map_eq_cons_iff.mp hb
  obtain ⟨u, v, rfl, rfl, hv⟩ := List.filter_eq_append_iff.mp hf
  obtain ⟨v₁, v₂, rfl, hv₁, hl, rfl⟩ := List.filter_eq_cons_iff.mp hv
  refine ⟨u ++ v₁, l, v₂, by simp, by simpa using hl, rfl, ?_, rfl⟩
  have hv₁' : v₁.filter (fun l => l.tid = t) = [] := List.filter_eq_nil_iff.mpr hv₁
  rw [labelsOf, List.filter_append, hv₁', List.append_nil]

/-- A critical section runs alone. While thread `t` holds (`Hold`), the others leave its view as it
is, and a call of `t` that keeps holding is a step of `M` on the view. -/
theorem section_run {ρ : Type*} {M : Lts ρ (ε × ξ)} {t : τ} (view : State τ σ κ → ρ)
    (Hold : State τ σ κ → Prop) (Keeps : ε → Prop)
    (other : ∀ s l s', Hold s → l.tid ≠ t → T.lts.next s l = some s' → Hold s' ∧ view s' = view s)
    (own : ∀ s l s', Hold s → l.tid = t → Keeps l.ev → T.lts.next s l = some s' →
      Hold s' ∧ M.next (view s) (l.ev, l.env) = some (view s'))
    {tr : List (Label τ ε ξ)} (hold : Hold s) (hrun : T.lts.run s tr = some s')
    (hkeeps : ∀ l ∈ tr, l.tid = t → Keeps l.ev) :
    Hold s' ∧ M.run (view s) (labelsOf t tr) = some (view s') := by
  induction tr generalizing s with
  | nil =>
    cases hrun
    exact ⟨hold, rfl⟩
  | cons l tr ih =>
    obtain ⟨m, h1, h2⟩ := Lts.run_cons_eq_some.mp hrun
    have hkeeps' : ∀ l ∈ tr, l.tid = t → Keeps l.ev := fun l hl => hkeeps l (by simp [hl])
    by_cases hl : l.tid = t
    · subst hl
      obtain ⟨hm, hstep⟩ := own s l m hold rfl (hkeeps l (by simp) rfl) h1
      obtain ⟨hs', hrun'⟩ := ih hm h2 hkeeps'
      refine ⟨hs', ?_⟩
      rw [labelsOf_cons_self]
      exact Lts.run_cons_eq_some.mpr ⟨_, hstep, hrun'⟩
    · obtain ⟨hm, hview⟩ := other s l m hold hl h1
      obtain ⟨hs', hrun'⟩ := ih hm h2 hkeeps'
      refine ⟨hs', ?_⟩
      rwa [labelsOf_cons_ne hl, ← hview]

end Threads
