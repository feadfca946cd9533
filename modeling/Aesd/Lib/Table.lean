import Mathlib.Logic.Function.Basic

/-!
# Tables of numbered resources

A table says what a number (a descriptor, an address) refers to while it is in use.
`Owned base held table`: every holder has at most one number, no two have the same, the table has
what each took its number for, and behind the other numbers is what was there from the start. So
nothing is lost, and nobody's number is used for something else.

* `Owned.acquire`, `Owned.release`, `Owned.transfer`: a holder takes a free number, gives its number
  back, or hands it on to another holder.
* `Owned.not_release`: a release of a number by someone who does not hold it takes it from its holder.
-/

namespace Table

variable {ι ν α : Type*} {base table : ν → Option α} {held : ι → Option (ν × α)} {i j : ι} {n : ν}
  {a : α}

/-- The holders own their numbers, and the rest is as in `base`. -/
structure Owned (base : ν → Option α) (held : ι → Option (ν × α)) (table : ν → Option α) :
    Prop where
  own : ∀ i n a, held i = some (n, a) → table n = some a ∧ base n = none
  exclusive : ∀ i j n a b, held i = some (n, a) → held j = some (n, b) → i = j
  rest : ∀ n, (∀ i a, held i ≠ some (n, a)) → table n = base n

namespace Owned

/-- Nobody holds anything. -/
theorem start : Owned base (fun _ : ι => none) base := ⟨nofun, nofun, fun _ _ => rfl⟩

/-- A free number is nobody's. -/
theorem free (h : Owned base held table) (hn : table n = none) :
    (∀ i a, held i ≠ some (n, a)) ∧ base n = none := by
  have hheld : ∀ i a, held i ≠ some (n, a) := fun i a hi => by
    rw [(h.own i n a hi).1] at hn
    cases hn
  exact ⟨hheld, (h.rest n hheld).symm.trans hn⟩

/-- A number in use, but for those of `base`, is somebody's. -/
theorem holder (h : Owned base held table) (hn : table n = some a) (hbase : base n = none) :
    ∃ i, held i = some (n, a) := by
  by_contra hnone
  have hheld : ∀ i b, held i ≠ some (n, b) := fun i b hi => by
    obtain rfl : b = a := Option.some.inj ((h.own i n b hi).1.symm.trans hn)
    exact hnone ⟨i, hi⟩
  rw [h.rest n hheld, hbase] at hn
  cases hn

/-- The holder of the number is left with nothing behind it. -/
theorem not_release [DecidableEq ν] (h : Owned base held table) (hn : table n = some a)
    (hbase : base n = none) : ¬ Owned base held (Function.update table n none) := fun h' => by
  obtain ⟨i, hi⟩ := h.holder hn hbase
  have := (h'.own i n a hi).1
  rw [Function.update_self] at this
  cases this

section

variable [DecidableEq ι] [DecidableEq ν]

theorem acquire (h : Owned base held table) (hi : held i = none) (hn : table n = none) :
    Owned base (Function.update held i (some (n, a))) (Function.update table n (some a)) := by
  obtain ⟨hfree, hbase⟩ := h.free hn
  refine ⟨fun j m b hj => ?_, fun j k m b c hj hk => ?_, fun m hm => ?_⟩
  · by_cases hji : j = i
    · subst hji
      rw [Function.update_self] at hj
      cases hj
      exact ⟨Function.update_self .., hbase⟩
    · rw [Function.update_of_ne hji] at hj
      have hmn : m ≠ n := fun hmn => hfree j b (hmn ▸ hj)
      rw [Function.update_of_ne hmn]
      exact h.own j m b hj
  · by_cases hji : j = i <;> by_cases hki : k = i
    · rw [hji, hki]
    · rw [hji, Function.update_self] at hj
      rw [Function.update_of_ne hki] at hk
      cases hj
      exact absurd hk (hfree k c)
    · rw [hki, Function.update_self] at hk
      rw [Function.update_of_ne hji] at hj
      cases hk
      exact absurd hj (hfree j b)
    · rw [Function.update_of_ne hji] at hj
      rw [Function.update_of_ne hki] at hk
      exact h.exclusive j k m b c hj hk
  · have hmn : m ≠ n := fun hmn => hm i a (by rw [hmn, Function.update_self])
    rw [Function.update_of_ne hmn]
    refine h.rest m fun j b hj => hm j b ?_
    have hji : j ≠ i := fun hji => by
      rw [hji, hi] at hj
      cases hj
    rwa [Function.update_of_ne hji]

theorem release (h : Owned base held table) (hi : held i = some (n, a)) :
    Owned base (Function.update held i none) (Function.update table n none) := by
  have hother : ∀ {j m b}, Function.update held i none j = some (m, b) →
      held j = some (m, b) ∧ m ≠ n := fun {j m b} hj => by
    have hji : j ≠ i := fun hji => by
      rw [hji, Function.update_self] at hj
      cases hj
    rw [Function.update_of_ne hji] at hj
    exact ⟨hj, fun hmn => hji (h.exclusive j i n b a (hmn ▸ hj) hi)⟩
  refine ⟨fun j m b hj => ?_, fun j k m b c hj hk => ?_, fun m hm => ?_⟩
  · obtain ⟨hj, hmn⟩ := hother hj
    rw [Function.update_of_ne hmn]
    exact h.own j m b hj
  · exact h.exclusive j k m b c (hother hj).1 (hother hk).1
  · by_cases hmn : m = n
    · rw [hmn, Function.update_self, (h.own i n a hi).2]
    · rw [Function.update_of_ne hmn]
      refine h.rest m fun j b hj => hm j b ?_
      have hji : j ≠ i := fun hji => by
        rw [hji, hi] at hj
        cases hj
        exact hmn rfl
      rwa [Function.update_of_ne hji]

theorem transfer (h : Owned base held table) (hi : held i = some (n, a)) (hj : held j = none) :
    Owned base (Function.update (Function.update held i none) j (some (n, a))) table := by
  have hij : i ≠ j := fun hij => by
    rw [hij, hj] at hi
    cases hi
  have htable : Function.update (Function.update table n none) n (some a) = table := by
    rw [Function.update_idem, ← (h.own i n a hi).1, Function.update_eq_self]
  have hfree : Function.update held i none j = none := by rwa [Function.update_of_ne hij.symm]
  have := (h.release hi).acquire (a := a) hfree (Function.update_self n none table)
  rwa [htable] at this

end

end Owned

end Table
