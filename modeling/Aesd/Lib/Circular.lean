import Mathlib.Data.List.Perm.Basic
import Mathlib.Data.List.Nodup
import Mathlib.Data.List.Range
import Mathlib.Logic.Function.Basic
import Mathlib.Data.Nat.ModEq

/-!
# The live window of a circular array

A circular array of `n` slots is a function `f` from slot numbers. Its window of length `len` from
slot `out` holds `f out, f (out + 1), …`, slot numbers modulo `n`: the live entries of a ring
buffer, oldest first.

* `slot_inj`/`exists_slot`: below one revolution the slots of a window are distinct, and one
  revolution meets every slot.
* `window_push`: a write to the slot after the window appends.
* `window_overwrite`: in a full ring, a write to the oldest slot drops the oldest entry and appends.
* `window_cons`: the window without its oldest entry starts one slot later.
* `window_perm`: one revolution is a permutation of all slots.
-/

namespace Circular

variable {α : Type*} {n out len : Nat} {f : Nat → α}

/-- Slot number `k` after `out`, modulo `n`. -/
def slot (n out k : Nat) : Nat := (out + k) % n

/-- The entries of the window of length `len` from slot `out`, oldest first. -/
def window (n : Nat) (f : Nat → α) (out len : Nat) : List α :=
  (List.range len).map fun k => f (slot n out k)

/-! ## Slots -/

theorem slot_lt (hn : 0 < n) (k : Nat) : slot n out k < n := Nat.mod_lt _ hn

theorem slot_zero (h : out < n) : slot n out 0 = out := Nat.mod_eq_of_lt h

/-- One slot later, from one slot later. -/
theorem slot_next (k : Nat) : slot n ((out + 1) % n) k = slot n out (k + 1) := by
  unfold slot
  rw [Nat.mod_add_mod]
  congr 1
  omega

theorem slot_last (h : out < n) : slot n out n = out := by
  unfold slot
  rw [Nat.add_mod_right, Nat.mod_eq_of_lt h]

/-- Below one revolution the slots are distinct. -/
theorem slot_inj {i j : Nat} (hi : i < n) (hj : j < n) (h : slot n out i = slot n out j) :
    i = j := by
  have h' : i % n = j % n := Nat.ModEq.add_left_cancel' out h
  rwa [Nat.mod_eq_of_lt hi, Nat.mod_eq_of_lt hj] at h'

/-- One revolution meets every slot. -/
theorem exists_slot {i : Nat} (hout : out < n) (hi : i < n) : ∃ k < n, slot n out k = i := by
  unfold slot
  by_cases h : out ≤ i
  · exact ⟨i - out, by omega, by rw [show out + (i - out) = i by omega, Nat.mod_eq_of_lt hi]⟩
  · refine ⟨i + n - out, by omega, ?_⟩
    rw [show out + (i + n - out) = i + n by omega, Nat.add_mod_right, Nat.mod_eq_of_lt hi]

/-! ## Windows -/

@[simp] theorem window_zero : window n f out 0 = [] := rfl

@[simp] theorem length_window : (window n f out len).length = len := by simp [window]

/-- The newest entry is the last. -/
theorem window_succ : window n f out (len + 1) = window n f out len ++ [f (slot n out len)] := by
  simp [window, List.range_succ]

/-- The oldest entry is the first. -/
theorem window_cons :
    window n f out (len + 1) = f (slot n out 0) :: window n f ((out + 1) % n) len := by
  simp [window, List.range_succ_eq_map, slot_next, Function.comp_def]

theorem getElem?_window {k : Nat} (hk : k < len) :
    (window n f out len)[k]? = some (f (slot n out k)) := by
  simp [window, hk]

theorem window_congr {g : Nat → α} (h : ∀ k < len, f (slot n out k) = g (slot n out k)) :
    window n f out len = window n g out len :=
  List.map_congr_left fun k hk => h k (List.mem_range.mp hk)

/-- A write outside the window keeps it. -/
theorem window_update_of_ne {i : Nat} {x : α} (h : ∀ k < len, slot n out k ≠ i) :
    window n (Function.update f i x) out len = window n f out len :=
  window_congr fun k hk => Function.update_of_ne (h k hk) _ _

/-- A write to the slot after the window appends to it. -/
theorem window_push {x : α} (h : len < n) :
    window n (Function.update f (slot n out len) x) out (len + 1) = window n f out len ++ [x] := by
  rw [window_succ, Function.update_self, window_update_of_ne]
  intro k hk he
  have := slot_inj (by omega) h he
  omega

/-- In a full ring, a write to the oldest slot drops the oldest entry and appends. -/
theorem window_overwrite {x : α} (hout : out < n) :
    window n (Function.update f out x) ((out + 1) % n) n = (window n f out n).tail ++ [x] := by
  obtain ⟨m, rfl⟩ : ∃ m, n = m + 1 := ⟨n - 1, by omega⟩
  have hlast : slot (m + 1) ((out + 1) % (m + 1)) m = out := by rw [slot_next, slot_last hout]
  have hkeep : window (m + 1) (Function.update f out x) ((out + 1) % (m + 1)) m =
      window (m + 1) f ((out + 1) % (m + 1)) m := by
    apply window_update_of_ne
    intro k hk he
    have := slot_inj (by omega) (by omega) (he.trans hlast.symm)
    omega
  rw [window_succ, hlast, Function.update_self, hkeep, window_cons (f := f), List.tail_cons]

/-- One revolution is a permutation of all slots. -/
theorem window_perm (hout : out < n) : (window n f out n).Perm ((List.range n).map f) := by
  have hp : ((List.range n).map (slot n out)).Perm (List.range n) := by
    rw [List.perm_ext_iff_of_nodup]
    · intro i
      simp only [List.mem_map, List.mem_range]
      constructor
      · rintro ⟨k, -, rfl⟩
        exact slot_lt (by omega) k
      · intro hi
        exact exists_slot hout hi
    · refine List.Nodup.map_on (fun i hi j hj h => ?_) List.nodup_range
      exact slot_inj (List.mem_range.mp hi) (List.mem_range.mp hj) h
    · exact List.nodup_range
  have := hp.map f
  rwa [List.map_map] at this

/-- A window splits at any length. -/
theorem window_add {l : Nat} :
    window n f out (len + l) = window n f out len ++ window n f ((out + len) % n) l := by
  induction l with
  | zero => simp
  | succ l ih =>
    have hs : slot n ((out + len) % n) l = slot n out (len + l) := by
      unfold slot
      rw [Nat.mod_add_mod, Nat.add_assoc]
    rw [← Nat.add_assoc, window_succ, ih, window_succ, hs, List.append_assoc]

/-- The oldest entries are a shorter window. -/
theorem take_window {k : Nat} (h : k ≤ len) :
    (window n f out len).take k = window n f out k := by
  obtain ⟨l, rfl⟩ := Nat.exists_eq_add_of_le h
  rw [window_add, List.take_left' length_window]

end Circular
