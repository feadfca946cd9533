import Mathlib.Data.List.Range
import Mathlib.Data.Nat.Find
import Mathlib.Order.Basic

/-!
# Reading a list in pieces

A cursor goes through a list: every step gives a piece of what is left, not empty before the end.
Whatever the sizes of the pieces, after finitely many steps it stands at the end, and the pieces so
far are what was left at the start (`Cursor.exists_reads_all`).
-/

/-- Infinitely many reads of a list: the position before each read, and what it gives. -/
structure Cursor {α : Type*} (content : List α) where
  pos : Nat → Nat
  piece : Nat → List α
  pos_succ : ∀ n, pos (n + 1) = pos n + (piece n).length
  piece_le : ∀ n, piece n <+: content.drop (pos n)
  piece_ne_nil : ∀ n, pos n < content.length → piece n ≠ []

namespace Cursor

variable {α : Type*} {content : List α} (c : Cursor content)

theorem pos_le_length (h : c.pos 0 ≤ content.length) (n : Nat) : c.pos n ≤ content.length := by
  induction n with
  | zero => exact h
  | succ n ih =>
    have hle := (c.piece_le n).length_le
    rw [List.length_drop] at hle
    rw [c.pos_succ]
    omega

theorem pos_mono {m n : Nat} (h : m ≤ n) : c.pos m ≤ c.pos n := by
  induction h with
  | refl => exact Nat.le_refl _
  | step _ ih =>
    rw [Nat.succ_eq_add_one, c.pos_succ]
    omega

/-- At the end there is nothing left to give. -/
theorem piece_eq_nil {n : Nat} (h : c.pos n = content.length) : c.piece n = [] := by
  have hle := c.piece_le n
  rw [h, List.drop_length] at hle
  exact List.prefix_nil.mp hle

/-- The pieces so far and what is left. -/
theorem flatten_append_drop (n : Nat) :
    ((List.range n).map c.piece).flatten ++ content.drop (c.pos n) = content.drop (c.pos 0) := by
  induction n with
  | zero => rfl
  | succ n ih =>
    obtain ⟨rest, hrest⟩ := c.piece_le n
    have hnext : content.drop (c.pos (n + 1)) = rest := by
      rw [c.pos_succ, ← List.drop_drop, ← hrest, List.drop_left]
    rw [List.range_succ, List.map_append, List.flatten_append, List.map_singleton,
      List.flatten_singleton, hnext, List.append_assoc, hrest, ih]

/-- Before the end every step makes progress. -/
theorem le_pos_or_end (h : c.pos 0 ≤ content.length) (n : Nat) :
    n ≤ c.pos n ∨ c.pos n = content.length := by
  induction n with
  | zero => exact .inl (Nat.zero_le _)
  | succ n ih =>
    have hle := c.pos_le_length h (n + 1)
    rcases Nat.lt_or_eq_of_le (c.pos_le_length h n) with hlt | heq
    · have hpos := List.length_pos_iff.mpr (c.piece_ne_nil n hlt)
      rw [c.pos_succ] at hle ⊢
      omega
    · have := c.pos_mono (Nat.le_add_right n 1)
      exact .inr (by omega)

theorem exists_end (h : c.pos 0 ≤ content.length) : ∃ n, c.pos n = content.length := by
  refine ⟨content.length, ?_⟩
  have hle := c.pos_le_length h content.length
  rcases c.le_pos_or_end h content.length with hn | hn
  · omega
  · exact hn

/-- The reads before the first one at the end give something, and together what was left; from then
on nothing is given. -/
theorem exists_reads_all (h : c.pos 0 ≤ content.length) :
    ∃ N, (∀ n < N, c.pos n < content.length ∧ c.piece n ≠ []) ∧
      (∀ n, N ≤ n → c.pos n = content.length ∧ c.piece n = []) ∧
      ((List.range N).map c.piece).flatten = content.drop (c.pos 0) := by
  classical
  have hex := c.exists_end h
  refine ⟨Nat.find hex, fun n hn => ?_, fun n hn => ?_, ?_⟩
  · have hlt : c.pos n < content.length :=
      Nat.lt_of_le_of_ne (c.pos_le_length h n) (Nat.find_min hex hn)
    exact ⟨hlt, c.piece_ne_nil n hlt⟩
  · have h1 := c.pos_mono hn
    have h2 := c.pos_le_length h n
    rw [Nat.find_spec hex] at h1
    have heq : c.pos n = content.length := Nat.le_antisymm h2 h1
    exact ⟨heq, c.piece_eq_nil heq⟩
  · have hcut := c.flatten_append_drop (Nat.find hex)
    rwa [Nat.find_spec hex, List.drop_length, List.append_nil] at hcut

end Cursor
