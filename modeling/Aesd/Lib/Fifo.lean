import Mathlib.Data.List.DropRight

/-!
# A bounded queue

A queue of at most `n` elements, oldest first: `push` appends and drops the oldest element exactly
when the queue is full, `pop` drops the oldest one. A queue that is pushed to keeps the last `n`
elements (`push_rtake`).
-/

namespace Fifo

variable {α : Type*} {n : Nat} {l : List α} {x : α}

/-- Append, and drop the oldest element when the queue already has `n`. -/
def push (n : Nat) (l : List α) (x : α) : List α :=
  if l.length = n then l.tail ++ [x] else l ++ [x]

/-- Drop the oldest element; nothing happens to the empty queue. -/
def pop (l : List α) : List α := l.tail

theorem push_of_length_eq (h : l.length = n) : push n l x = l.tail ++ [x] := if_pos h

theorem push_of_length_lt (h : l.length < n) : push n l x = l ++ [x] := if_neg (by omega)

theorem mem_push {y : α} (h : y ∈ push n l x) : y ∈ l ∨ y = x := by
  unfold push at h
  split at h
  · rcases List.mem_append.mp h with h | h
    · exact .inl (List.mem_of_mem_tail h)
    · exact .inr (List.mem_singleton.mp h)
  · simpa using h

theorem mem_push_self (n : Nat) (l : List α) (x : α) : x ∈ push n l x := by
  unfold push
  split <;> simp

theorem length_rtake (l : List α) (n : Nat) : (l.rtake n).length = min n l.length := by
  simp [List.rtake]
  omega

theorem rtake_of_length_le (h : l.length ≤ n) : l.rtake n = l := by
  simp [List.rtake, Nat.sub_eq_zero_of_le h]

/-- The last `n` elements, after one more element. -/
theorem push_rtake (hn : 0 < n) : push n (l.rtake n) x = (l ++ [x]).rtake n := by
  by_cases h : n ≤ l.length
  · rw [push_of_length_eq (by rw [length_rtake]; omega)]
    simp only [List.rtake, List.tail_drop, List.length_append, List.length_singleton]
    rw [List.drop_append_of_le_length (by omega), show l.length + 1 - n = l.length - n + 1 by omega]
  · rw [push_of_length_lt (by rw [length_rtake]; omega), rtake_of_length_le (by omega),
      rtake_of_length_le (by simp; omega)]

end Fifo
