import Aesd.Lib.Lts

/-!
# Code in a monitor

The code that one thread runs between taking a lock and giving it back, step by step on the state
that the lock protects; and simulations, which carry the runs of a system with such steps to a system
in which the whole code is one step.

* `Monitor.finish`: the code run alone to its end. `Monitor.finish_of_goesOn`, `finish_of_returns`:
  it does not matter where the code is cut.
* `Simulation.run`: a run of the fine system is a run of the coarse one on the labels it emits.
-/

/-- A step of code in a monitor: it goes on at another place, or returns. Either way it leaves a
state. -/
inductive Monitor.Next (π κ ρ : Type*) where
  | goesOn (pc : π) (k : κ)
  | returns (r : ρ) (k : κ)

/-- Code with places `π` on a protected state `κ` that returns a `ρ`. Every step comes closer to the
end. -/
structure Monitor (π κ ρ : Type*) where
  step : π → κ → Monitor.Next π κ ρ
  rank : π → Nat
  rank_lt : ∀ {pc k pc' k'}, step pc k = .goesOn pc' k' → rank pc' < rank pc

namespace Monitor

variable {π κ ρ : Type*} (M : Monitor π κ ρ)

/-- What the code returns when it runs alone, and the state that it leaves. -/
def finish (pc : π) (k : κ) : ρ × κ :=
  match _h : M.step pc k with
  | .goesOn pc' k' => finish pc' k'
  | .returns r k' => (r, k')
termination_by M.rank pc
decreasing_by exact M.rank_lt _h

variable {M} {pc pc' : π} {k k' : κ} {r : ρ}

theorem finish_eq : M.finish pc k =
    match M.step pc k with
    | .goesOn pc' k' => M.finish pc' k'
    | .returns r k' => (r, k') := by
  rw [finish]
  split <;> rename_i heq <;> rw [heq]

theorem finish_of_goesOn (h : M.step pc k = .goesOn pc' k') : M.finish pc k = M.finish pc' k' := by
  rw [finish_eq, h]

theorem finish_of_returns (h : M.step pc k = .returns r k') : M.finish pc k = (r, k') := by
  rw [finish_eq, h]

end Monitor

namespace Lts

variable {σ ε σ' ε' : Type*}

/-- `R` relates the states of a fine system to those of a coarse one: a step of the fine system that
emits a label is a step of the coarse one with this label, and any other one leaves the coarse state
as it is. -/
structure Simulation (L : Lts σ ε) (A : Lts σ' ε') (emit : σ → ε → Option ε') (R : σ → σ' → Prop) :
    Prop where
  silent : ∀ {s e s' a}, R s a → L.next s e = some s' → emit s e = none → R s' a
  step : ∀ {s e s' a e'}, R s a → L.next s e = some s' → emit s e = some e' →
    ∃ a', A.next a e' = some a' ∧ R s' a'

variable {L : Lts σ ε} {A : Lts σ' ε'} {emit : σ → ε → Option ε'} {R : σ → σ' → Prop} {s s' : σ}
  {a : σ'} {es : List ε}

/-- A run of the fine system is, on what it emits, a run of the coarse one. -/
theorem Simulation.run (h : Simulation L A emit R) (hR : R s a) (hrun : L.run s es = some s') :
    ∃ a', A.run a (L.outputs emit s es) = some a' ∧ R s' a' := by
  induction es generalizing s a with
  | nil =>
    cases hrun
    exact ⟨a, rfl, hR⟩
  | cons e es ih =>
    obtain ⟨s₁, h1, h2⟩ := run_cons_eq_some.mp hrun
    simp only [outputs, h1, Option.map_some, Option.getD_some]
    cases he : emit s e with
    | none => exact ih (h.silent hR h1 he) h2
    | some e' =>
      obtain ⟨a₁, ha₁, hR₁⟩ := h.step hR h1 he
      obtain ⟨a', ha', hR'⟩ := ih hR₁ h2
      exact ⟨a', run_cons_eq_some.mpr ⟨a₁, ha₁, ha'⟩, hR'⟩

end Lts
