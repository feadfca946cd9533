import Mathlib.Algebra.BigOperators.Group.List.Basic
import Mathlib.Algebra.GroupWithZero.Nat

/-!
# Addresses in a concatenation

The element at position `o` of a concatenation of pieces lies in one piece, at an offset in it:
`locate` finds both from the lengths of the pieces.

* `locate_eq_some_iff`, `locate_eq_none_iff`: what it finds, and when it finds nothing.
* `drop_flatten_of_locate`: what follows a position is the rest of its piece and the later pieces.
-/

namespace Concat

/-- The piece that holds position `o`, and the offset in it. -/
def locate : List Nat → Nat → Option (Nat × Nat)
  | [], _ => none
  | n :: ns, o => if o < n then some (0, o) else (locate ns (o - n)).map fun p => (p.1 + 1, p.2)

variable {α : Type*} {n o k i : Nat} {ns : List Nat} {ls : List (List α)}

/-- A concatenation, cut between two pieces. -/
theorem length_flatten_take (k : Nat) (ls : List (List α)) :
    ls.flatten.length = (ls.take k).flatten.length + (ls.drop k).flatten.length := by
  rw [← List.length_append, ← List.flatten_append, List.take_append_drop]

theorem locate_cons_of_lt (h : o < n) : locate (n :: ns) o = some (0, o) := if_pos h

theorem locate_cons_of_le (h : n ≤ o) :
    locate (n :: ns) o = (locate ns (o - n)).map fun p => (p.1 + 1, p.2) := if_neg (by omega)

theorem locate_eq_none_iff : locate ns o = none ↔ ns.sum ≤ o := by
  induction ns generalizing o with
  | nil => simp [locate]
  | cons n ns ih =>
    rw [List.sum_cons]
    by_cases h : o < n
    · rw [locate_cons_of_lt h]
      simp
      omega
    · rw [locate_cons_of_le (by omega), Option.map_eq_none_iff, ih]
      omega

theorem locate_eq_some_iff :
    locate ns o = some (k, i) ↔ ∃ n, ns[k]? = some n ∧ i < n ∧ o = (ns.take k).sum + i := by
  induction ns generalizing o k with
  | nil => simp [locate]
  | cons n ns ih =>
    by_cases h : o < n
    · rw [locate_cons_of_lt h]
      cases k with
      | zero =>
        simp only [Option.some.injEq, Prod.mk.injEq, true_and, List.getElem?_cons_zero,
          List.take_zero, List.sum_nil, Nat.zero_add, exists_eq_left']
        constructor
        · rintro rfl
          exact ⟨h, rfl⟩
        · rintro ⟨-, rfl⟩
          rfl
      | succ k =>
        simp
        omega
    · rw [locate_cons_of_le (by omega)]
      cases k with
      | zero =>
        simp
        omega
      | succ k =>
        simp only [Option.map_eq_some_iff, Prod.mk.injEq, Nat.add_right_cancel_iff,
          List.getElem?_cons_succ, List.take_succ_cons, List.sum_cons]
        constructor
        · rintro ⟨⟨k', i'⟩, hl, rfl, rfl⟩
          obtain ⟨m, h1, h2, h3⟩ := ih.mp hl
          refine ⟨m, h1, h2, ?_⟩
          simp only at h3 ⊢
          omega
        · rintro ⟨m, h1, h2, h3⟩
          exact ⟨(k, i), ih.mpr ⟨m, h1, h2, by omega⟩, rfl, rfl⟩

/-- Below the total length every position has an address. -/
theorem exists_locate (h : o < ns.sum) : ∃ k i, locate ns o = some (k, i) := by
  cases hl : locate ns o with
  | none =>
    have := locate_eq_none_iff.mp hl
    omega
  | some p => exact ⟨p.1, p.2, rfl⟩

/-- What follows a position: the rest of its piece, then the later pieces. -/
theorem drop_flatten_of_locate (h : locate (ls.map List.length) o = some (k, i)) :
    ∃ l, ls[k]? = some l ∧ i < l.length ∧
      ls.flatten.drop o = l.drop i ++ (ls.drop (k + 1)).flatten := by
  induction ls generalizing o k with
  | nil => cases h
  | cons l ls ih =>
    rw [List.map_cons] at h
    by_cases ho : o < l.length
    · rw [locate_cons_of_lt ho] at h
      cases h
      refine ⟨l, rfl, ho, ?_⟩
      rw [List.flatten_cons, List.drop_append_of_le_length (by omega)]
      rfl
    · rw [locate_cons_of_le (by omega)] at h
      obtain ⟨⟨k', i'⟩, hl, heq⟩ := Option.map_eq_some_iff.mp h
      cases heq
      obtain ⟨l', h1, h2, h3⟩ := ih hl
      refine ⟨l', h1, h2, ?_⟩
      rw [List.flatten_cons, List.drop_append, List.drop_eq_nil_of_le (by omega), h3]
      rfl

/-- The position of an address. -/
theorem drop_flatten_of_getElem? {l : List α} (h : ls[k]? = some l) (hi : i ≤ l.length) :
    ls.flatten.drop ((ls.take k).flatten.length + i) = l.drop i ++ (ls.drop (k + 1)).flatten := by
  induction ls generalizing k with
  | nil => simp at h
  | cons l' ls ih =>
    cases k with
    | zero =>
      obtain rfl : l' = l := by simpa using h
      simp [List.drop_append_of_le_length hi]
    | succ k =>
      have := ih (by simpa using h)
      simp only [List.take_succ_cons, List.flatten_cons, List.length_append, List.drop_succ_cons]
      rw [Nat.add_assoc, List.drop_append, List.drop_eq_nil_of_le (by omega), List.nil_append]
      simpa using this

end Concat
