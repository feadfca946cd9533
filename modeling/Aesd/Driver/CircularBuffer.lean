import Aesd.Lib.Circular

/-!
# The circular buffer (`circular-buffer/`)

`struct aesd_circular_buffer` and its operations, with the 8-bit indices of the source. A
`buffptr` is the id of a heap block, `none` for `NULL`; the buffer never looks behind it.

`RingInv` ties the two indices, the flag and the ten slots together. Every operation keeps it, and
on the live entries (`live`, oldest first) an operation is one of a queue: `addEntry_of_not_full`,
`addEntry_of_full`, `removeEntry_of_pos`.
-/

namespace Aesd

/-- `AESDCHAR_MAX_WRITE_OPERATIONS_SUPPORTED`. -/
abbrev maxWriteOperationsSupported : Nat := 10

/-- `struct aesd_buffer_entry`. -/
structure AesdBufferEntry where
  buffptr : Option Nat
  size : Nat
  deriving DecidableEq, Repr

/-- A cleared slot: `NULL` and size 0. -/
def AesdBufferEntry.null : AesdBufferEntry := ⟨none, 0⟩

instance : Inhabited AesdBufferEntry := ⟨.null⟩

/-- `struct aesd_circular_buffer`. -/
structure AesdCircularBuffer where
  entry : Vector AesdBufferEntry maxWriteOperationsSupported
  inOffs : UInt8
  outOffs : UInt8
  full : Bool
  deriving DecidableEq, Repr

/-- `(i + 1) % AESDCHAR_MAX_WRITE_OPERATIONS_SUPPORTED`: the sum is an `int`, the result is stored
in 8 bits. -/
def incOffs (i : UInt8) : UInt8 := UInt8.ofNat ((i.toNat + 1) % maxWriteOperationsSupported)

/-- `aesd_circular_buffer_init`: `memset` to zero. -/
def aesdCircularBufferInit : AesdCircularBuffer :=
  { entry := Vector.replicate _ .null, inOffs := 0, outOffs := 0, full := false }

/-- `aesd_circular_buffer_add_entry`. -/
def aesdCircularBufferAddEntry (b : AesdCircularBuffer) (e : AesdBufferEntry) :
    AesdCircularBuffer :=
  if e.buffptr = none then b
  else
    let b := { b with entry := b.entry.setIfInBounds b.inOffs.toNat e }
    let b := if b.full then { b with outOffs := incOffs b.outOffs } else b
    let b := { b with inOffs := incOffs b.inOffs }
    { b with full := b.inOffs == b.outOffs }

/-- `aesd_circular_buffer_remove_entry`. -/
def aesdCircularBufferRemoveEntry (b : AesdCircularBuffer) : AesdCircularBuffer :=
  if !b.full && b.inOffs == b.outOffs then b
  else
    { b with
      entry := b.entry.setIfInBounds b.outOffs.toNat .null
      outOffs := incOffs b.outOffs
      full := false }

/-- `total_entries`, computed by the same code in `aesd_circular_buffer_find_entry_offset_for_fpos`,
`aesd_get_total_buffer_size` and `aesd_unlocked_ioctl`; stored in 8 bits. -/
def totalEntries (b : AesdCircularBuffer) : UInt8 :=
  if b.full then UInt8.ofNat maxWriteOperationsSupported
  else if b.outOffs ≤ b.inOffs then b.inOffs - b.outOffs
  else UInt8.ofNat maxWriteOperationsSupported - b.outOffs + b.inOffs

namespace AesdCircularBuffer

/-- The entry in slot `i`. -/
def slot (b : AesdCircularBuffer) (i : Nat) : AesdBufferEntry := b.entry[i]?.getD .null

/-- The number of live entries. -/
def count (b : AesdCircularBuffer) : Nat := (totalEntries b).toNat

/-- The live entries, oldest first. -/
def live (b : AesdCircularBuffer) : List AesdBufferEntry :=
  Circular.window maxWriteOperationsSupported b.slot b.outOffs.toNat b.count

/-- The slot numbers of the live entries. -/
def liveSlots (b : AesdCircularBuffer) : List Nat :=
  (List.range b.count).map (Circular.slot maxWriteOperationsSupported b.outOffs.toNat)

@[simp] theorem length_live (b : AesdCircularBuffer) : b.live.length = b.count := by simp [live]

theorem live_eq_map (b : AesdCircularBuffer) : b.live = b.liveSlots.map b.slot := by
  simp [live, liveSlots, Circular.window]

/-- The two indices, the flag and the ten slots fit together: `n` entries are live. -/
structure RingInv (b : AesdCircularBuffer) (n : Nat) : Prop where
  out_lt : b.outOffs.toNat < maxWriteOperationsSupported
  le : n ≤ maxWriteOperationsSupported
  in_eq : b.inOffs.toNat = (b.outOffs.toNat + n) % maxWriteOperationsSupported
  full : b.full = true ↔ n = maxWriteOperationsSupported
  /-- Every slot outside the live window is cleared. -/
  cleared : ∀ k, n ≤ k → k < maxWriteOperationsSupported →
    b.slot (Circular.slot maxWriteOperationsSupported b.outOffs.toNat k) = .null

end AesdCircularBuffer

open AesdCircularBuffer

variable {b : AesdCircularBuffer} {e : AesdBufferEntry} {n : Nat}

theorem incOffs_toNat (i : UInt8) : (incOffs i).toNat = (i.toNat + 1) % 10 := by
  have : (i.toNat + 1) % 10 < 256 := by omega
  simp [incOffs, Nat.mod_eq_of_lt this]

/-- A slot after a write to slot `i`. -/
theorem slot_set {i : Nat} (hi : i < maxWriteOperationsSupported) :
    (fun j => (b.entry.setIfInBounds i e)[j]?.getD .null) = Function.update b.slot i e := by
  funext j
  by_cases hj : j = i
  · subst hj
    simp [hi]
  · rw [Function.update_of_ne hj, slot, Vector.getElem?_setIfInBounds, if_neg (Ne.symm hj)]

/-- The source's count is the number of live entries, in each of its three cases. -/
theorem AesdCircularBuffer.RingInv.count_eq (h : b.RingInv n) : b.count = n := by
  obtain ⟨ho, hn, hi, hf, -⟩ := h
  simp only [maxWriteOperationsSupported] at ho hn hi hf
  unfold count totalEntries
  split
  · rename_i hfull
    rw [hf.mp hfull]
    rfl
  · rename_i hfull
    have hlt : n ≠ 10 := fun h => hfull (hf.mpr h)
    split
    · rename_i hle
      rw [UInt8.toNat_sub_of_le _ _ hle]
      have : b.outOffs.toNat ≤ b.inOffs.toNat := UInt8.le_iff_toNat_le.mp hle
      omega
    · rename_i hle
      have hlt' : b.inOffs.toNat < b.outOffs.toNat := by
        rw [UInt8.le_iff_toNat_le] at hle
        omega
      have h10 : (UInt8.ofNat maxWriteOperationsSupported).toNat = 10 := rfl
      rw [UInt8.toNat_add, UInt8.toNat_sub, h10]
      omega

theorem AesdCircularBuffer.RingInv.in_lt (h : b.RingInv n) :
    b.inOffs.toNat < maxWriteOperationsSupported := by
  rw [h.in_eq]
  exact Nat.mod_lt _ (by decide)

theorem AesdCircularBuffer.RingInv.length_live (h : b.RingInv n) : b.live.length = n := by
  rw [AesdCircularBuffer.length_live, h.count_eq]

theorem AesdCircularBuffer.RingInv.live_eq (h : b.RingInv n) :
    b.live = Circular.window maxWriteOperationsSupported b.slot b.outOffs.toNat n := by
  rw [live, h.count_eq]

/-- A slot that is not in the live window is cleared. -/
theorem AesdCircularBuffer.RingInv.slot_eq_null (h : b.RingInv n) {i : Nat}
    (hi : i < maxWriteOperationsSupported)
    (hl : i ∉ b.liveSlots) : b.slot i = .null := by
  obtain ⟨k, hk, rfl⟩ := Circular.exists_slot h.out_lt hi
  refine h.cleared k (Nat.le_of_not_lt fun hlt => hl ?_) hk
  rw [liveSlots, h.count_eq]
  exact List.mem_map_of_mem (List.mem_range.mpr hlt)

theorem init_ringInv : aesdCircularBufferInit.RingInv 0 := by
  refine ⟨by decide, by decide, rfl, by decide, fun k _ _ => ?_⟩
  simp only [slot, aesdCircularBufferInit, Vector.getElem?_replicate]
  split <;> rfl

/-- An entry with a `NULL` pointer is refused. -/
theorem addEntry_null (h : e.buffptr = none) : aesdCircularBufferAddEntry b e = b := by
  simp [aesdCircularBufferAddEntry, h]

/-- What `add_entry` does to each field, for an entry with a pointer. -/
theorem addEntry_fields (he : e.buffptr ≠ none) :
    let b' := aesdCircularBufferAddEntry b e
    b'.entry = b.entry.setIfInBounds b.inOffs.toNat e ∧
      b'.inOffs = incOffs b.inOffs ∧
      b'.outOffs = (if b.full then incOffs b.outOffs else b.outOffs) ∧
      b'.full = (b'.inOffs == b'.outOffs) := by
  unfold aesdCircularBufferAddEntry
  rw [if_neg he]
  cases b.full <;> simp

/-- `add_entry` on a ring with a free slot: one more live entry, the newest. -/
theorem addEntry_of_not_full (h : b.RingInv n) (hn : n < maxWriteOperationsSupported)
    (he : e.buffptr ≠ none) :
    (aesdCircularBufferAddEntry b e).RingInv (n + 1) ∧
      (aesdCircularBufferAddEntry b e).live = b.live ++ [e] := by
  obtain ⟨h1, h2, h3, h4⟩ := addEntry_fields (b := b) he
  have hfull : b.full = false := by
    rw [← Bool.not_eq_true, h.full]
    omega
  have hslot : b.inOffs.toNat = Circular.slot maxWriteOperationsSupported b.outOffs.toNat n := h.in_eq
  have hs : (aesdCircularBufferAddEntry b e).slot = Function.update b.slot b.inOffs.toNat e := by
    rw [← slot_set h.in_lt]
    funext j
    rw [slot, h1]
  rw [hfull] at h3
  simp only [Bool.false_eq_true, ↓reduceIte] at h3
  have hin : (aesdCircularBufferAddEntry b e).inOffs.toNat =
      (b.outOffs.toNat + (n + 1)) % maxWriteOperationsSupported := by
    rw [h2, incOffs_toNat, h.in_eq, maxWriteOperationsSupported]
    omega
  have hinv : (aesdCircularBufferAddEntry b e).RingInv (n + 1) := by
    refine ⟨by rw [h3]; exact h.out_lt, hn, by rw [h3]; exact hin, ?_, fun k hk hk' => ?_⟩
    · rw [h4, h3, beq_iff_eq, ← UInt8.toNat_inj, hin]
      have := h.out_lt
      simp only [maxWriteOperationsSupported] at this hn ⊢
      omega
    · rw [h3, hs, Function.update_of_ne]
      · exact h.cleared k (by omega) hk'
      · intro heq
        have := Circular.slot_inj hk' hn (heq.trans hslot)
        omega
  refine ⟨hinv, ?_⟩
  rw [RingInv.live_eq hinv, RingInv.live_eq h, h3, hs, hslot, Circular.window_push hn]

/-- `add_entry` on a full ring: the oldest entry is overwritten. -/
theorem addEntry_of_full (h : b.RingInv maxWriteOperationsSupported) (he : e.buffptr ≠ none) :
    (aesdCircularBufferAddEntry b e).RingInv maxWriteOperationsSupported ∧
      (aesdCircularBufferAddEntry b e).live = b.live.tail ++ [e] := by
  obtain ⟨h1, h2, h3, h4⟩ := addEntry_fields (b := b) he
  have hfull : b.full = true := h.full.mpr rfl
  have hio : b.inOffs.toNat = b.outOffs.toNat := by
    have h1 := h.in_eq
    have h2 := h.out_lt
    simp only [maxWriteOperationsSupported] at h1 h2
    omega
  have hs : (aesdCircularBufferAddEntry b e).slot = Function.update b.slot b.inOffs.toNat e := by
    rw [← slot_set h.in_lt]
    funext j
    rw [slot, h1]
  rw [hfull] at h3
  simp only [↓reduceIte] at h3
  have hout : (aesdCircularBufferAddEntry b e).outOffs.toNat =
      (b.outOffs.toNat + 1) % maxWriteOperationsSupported := by rw [h3, incOffs_toNat]
  have hin : (aesdCircularBufferAddEntry b e).inOffs = (aesdCircularBufferAddEntry b e).outOffs := by
    rw [h2, h3, ← UInt8.toNat_inj, incOffs_toNat, incOffs_toNat, hio]
  have hinv : (aesdCircularBufferAddEntry b e).RingInv maxWriteOperationsSupported := by
    refine ⟨?_, Nat.le_refl _, ?_, by simp [h4, hin], fun k hk hk' => by omega⟩
    · rw [hout]
      exact Nat.mod_lt _ (by decide)
    · rw [hin, hout]
      simp only [maxWriteOperationsSupported]
      omega
  refine ⟨hinv, ?_⟩
  rw [RingInv.live_eq hinv, RingInv.live_eq h, hout, hs, hio, Circular.window_overwrite h.out_lt]

/-- `remove_entry` on a ring that is not empty: the oldest entry goes, its slot is cleared. -/
theorem removeEntry_of_pos (h : b.RingInv (n + 1)) :
    (aesdCircularBufferRemoveEntry b).RingInv n ∧
      (aesdCircularBufferRemoveEntry b).live = b.live.tail := by
  have hin := h.in_eq
  have hout := h.out_lt
  have hle := h.le
  simp only [maxWriteOperationsSupported] at hin hout hle
  have hc : (!b.full && b.inOffs == b.outOffs) = false := by
    by_cases hf : b.full = true
    · simp [hf]
    · have : n + 1 ≠ 10 := fun h' => hf (h.full.mpr h')
      have hne : b.inOffs ≠ b.outOffs := by
        rw [ne_eq, ← UInt8.toNat_inj]
        omega
      simp [hne]
  have hr : aesdCircularBufferRemoveEntry b = { b with
      entry := b.entry.setIfInBounds b.outOffs.toNat .null
      outOffs := incOffs b.outOffs
      full := false } := by
    rw [aesdCircularBufferRemoveEntry, hc]
    rfl
  have hs : (aesdCircularBufferRemoveEntry b).slot =
      Function.update b.slot b.outOffs.toNat .null := by
    rw [← slot_set h.out_lt, hr]
    rfl
  have ho : (aesdCircularBufferRemoveEntry b).outOffs.toNat =
      (b.outOffs.toNat + 1) % maxWriteOperationsSupported := by rw [hr, incOffs_toNat]
  have hzero : Circular.slot maxWriteOperationsSupported b.outOffs.toNat 0 = b.outOffs.toNat :=
    Circular.slot_zero h.out_lt
  have hinv : (aesdCircularBufferRemoveEntry b).RingInv n := by
    refine ⟨?_, ?_, ?_, ?_, fun k hk hk' => ?_⟩
    · rw [ho]
      exact Nat.mod_lt _ (by decide)
    · simp only [maxWriteOperationsSupported]
      omega
    · rw [ho, hr]
      simp only [maxWriteOperationsSupported]
      omega
    · rw [hr]
      simp only [Bool.false_eq_true, false_iff, maxWriteOperationsSupported]
      omega
    · rw [ho, hs, Circular.slot_next]
      by_cases hk9 : k + 1 = maxWriteOperationsSupported
      · rw [hk9, Circular.slot_last h.out_lt, Function.update_self]
      · have hk1 : k + 1 < maxWriteOperationsSupported := by omega
        rw [Function.update_of_ne]
        · exact h.cleared (k + 1) (by omega) hk1
        · intro heq
          exact Nat.succ_ne_zero k (Circular.slot_inj hk1 (by decide) (heq.trans hzero.symm))
  refine ⟨hinv, ?_⟩
  rw [RingInv.live_eq hinv, RingInv.live_eq h, Circular.window_cons, List.tail_cons, ho, hs]
  refine Circular.window_update_of_ne fun k hk heq => ?_
  rw [Circular.slot_next] at heq
  have hk1 : k + 1 < maxWriteOperationsSupported := by
    simp only [maxWriteOperationsSupported]
    omega
  exact Nat.succ_ne_zero k (Circular.slot_inj hk1 (by decide) (heq.trans hzero.symm))

/-- `remove_entry` on an empty ring does nothing. -/
theorem removeEntry_of_zero (h : b.RingInv 0) : aesdCircularBufferRemoveEntry b = b := by
  have hf : b.full = false := by
    rw [← Bool.not_eq_true, h.full]
    decide
  have hio : b.inOffs = b.outOffs := by
    have h1 := h.in_eq
    have h2 := h.out_lt
    simp only [maxWriteOperationsSupported] at h1 h2
    rw [← UInt8.toNat_inj]
    omega
  simp [aesdCircularBufferRemoveEntry, hf, hio]

end Aesd
