import Aesd.Driver.Queue
import Aesd.Driver.ReadPath

/-!
# The search is a lookup in the concatenation

`aesd_circular_buffer_find_entry_offset_for_fpos` on a ring that any operations made, whatever its
entries are. `find_lookup` describes its result by the queue of those operations: the entry, and the
offset in it, that the position has in the concatenation of the entries (`EntryAt`). Here the search
also has its out-parameter, which `aesd_read` looks at only if there is an entry.
-/

namespace Aesd

open AesdCircularBuffer

/-- Position `o` of the concatenation of the entries `q` is byte `r` of entry `k`. -/
def EntryAt (q : List AesdBufferEntry) (o k r : Nat) : Prop :=
  ∃ e, q[k]? = some e ∧ r < e.size ∧ ((q.take k).map (·.size)).sum + r = o

/-- The loop over the next `n` entries, with `*entry_offset_byte_rtn`: the slot number of the entry it
returns, `none` for `NULL`, and what the out-parameter holds then. -/
def findLoopRtn (K : Kernel) (b : AesdCircularBuffer) (charOffset : Nat) :
    Nat → Nat → UInt8 → Nat → Option Nat × Nat
  | 0, _, _, entryOffsetByteRtn => (none, entryOffsetByteRtn)
  | n + 1, currentPos, currentIdx, entryOffsetByteRtn =>
    let entrySize := (b.slot currentIdx.toNat).size
    if charOffset < K.sizeT (currentPos + entrySize) then
      (some currentIdx.toNat, K.sizeSub charOffset currentPos)
    else
      findLoopRtn K b charOffset n (K.sizeT (currentPos + entrySize)) (incOffs currentIdx)
        entryOffsetByteRtn

/-- `aesd_circular_buffer_find_entry_offset_for_fpos`, called with an out-parameter that holds
`entryOffsetByteRtn`. -/
def aesdCircularBufferFindEntryOffsetForFposRtn (K : Kernel) (b : AesdCircularBuffer)
    (charOffset entryOffsetByteRtn : Nat) : Option Nat × Nat :=
  findLoopRtn K b charOffset b.count 0 b.outOffs entryOffsetByteRtn

variable {b : AesdCircularBuffer} {q : List AesdBufferEntry} {o k r : Nat} {K : Kernel}

/-- The out-parameter is written where there is an entry, and there alone. -/
theorem findLoopRtn_eq (n currentPos : Nat) (currentIdx : UInt8) (old : Nat) :
    findLoopRtn K b o n currentPos currentIdx old =
      ((findLoop K b o n currentPos currentIdx).map Prod.fst,
        ((findLoop K b o n currentPos currentIdx).map Prod.snd).getD old) := by
  induction n generalizing currentPos currentIdx with
  | zero => rfl
  | succ n ih =>
    rw [findLoopRtn, findLoop]
    split
    · rfl
    · exact ih _ _

theorem locate_sizes_iff : Concat.locate (q.map (·.size)) o = some (k, r) ↔ EntryAt q o k r := by
  rw [Concat.locate_eq_some_iff]
  constructor
  · rintro ⟨n, hn, hr, rfl⟩
    rw [List.getElem?_map, Option.map_eq_some_iff] at hn
    obtain ⟨e, he, rfl⟩ := hn
    exact ⟨e, he, hr, by rw [List.map_take]⟩
  · rintro ⟨e, he, hr, rfl⟩
    exact ⟨e.size, by rw [List.getElem?_map, he]; rfl, hr, by rw [List.map_take]⟩

theorem EntryAt.lt_length (h : EntryAt q o k r) : k < q.length := by
  obtain ⟨e, he, -⟩ := h
  exact (List.getElem?_eq_some_iff.mp he).1

/-- A position has one entry. -/
theorem EntryAt.unique {k' r' : Nat} (h : EntryAt q o k r) (h' : EntryAt q o k' r') :
    k' = k ∧ r' = r := by
  have heq := (locate_sizes_iff.mpr h').symm.trans (locate_sizes_iff.mpr h)
  simpa using heq

/-- Every position below the total size has an entry. -/
theorem exists_entryAt (h : o < (q.map (·.size)).sum) : ∃ k r, EntryAt q o k r := by
  obtain ⟨k, r, hl⟩ := Concat.exists_locate h
  exact ⟨k, r, locate_sizes_iff.mp hl⟩

/-- The `k`-th oldest entry is in slot `k` of the window. -/
theorem Refines.slot_eq (h : Refines b q) {e : AesdBufferEntry} (hk : q[k]? = some e) :
    b.slot (Circular.slot maxWriteOperationsSupported b.outOffs.toNat k) = e := by
  have hlt : k < q.length := (List.getElem?_eq_some_iff.mp hk).1
  rw [← h.live, h.inv.live_eq, Circular.getElem?_window hlt] at hk
  exact Option.some.inj hk

theorem Refines.mem_liveSlots (h : Refines b q) (hk : k < q.length) :
    Circular.slot maxWriteOperationsSupported b.outOffs.toNat k ∈ b.liveSlots := by
  refine List.mem_map_of_mem (List.mem_range.mpr ?_)
  rwa [h.inv.count_eq]

/-- After `init` and any operations, the search finds the entry that the position has in the
concatenation of the queue that they make, and nothing from the total size on. -/
theorem find_lookup (K : Kernel) (b₀ : AesdCircularBuffer) (ops : List RingOp) (o old : Nat)
    (hsum : (((RingOp.init :: ops).foldl RingOp.spec []).map (·.size)).sum < 2 ^ K.sizeBits)
    (ho : o < 2 ^ K.sizeBits) :
    let b := (RingOp.init :: ops).foldl RingOp.run b₀
    let q := (RingOp.init :: ops).foldl RingOp.spec []
    let found := aesdCircularBufferFindEntryOffsetForFposRtn K b o old
    (found.1 = none ↔ (q.map (·.size)).sum ≤ o) ∧
      (found.1 = none → found.2 = old) ∧
      (o < (q.map (·.size)).sum → ∃! p : Nat × Nat, EntryAt q o p.1 p.2) ∧
      (∀ k r, EntryAt q o k r → ∃ slot, found = (some slot, r) ∧
        some (b.slot slot) = q[k]? ∧
        slot = Circular.slot maxWriteOperationsSupported b.outOffs.toNat k) ∧
      (∀ slot, found.1 = some slot → slot ∈ b.liveSlots ∧ found.2 < (b.slot slot).size) ∧
      aesdCircularBufferFindEntryOffsetForFpos K b o = found.1.map fun slot => (slot, found.2) := by
  intro b q found
  have h : Refines b q := foldl_refines init_refines ops
  have hfind : aesdCircularBufferFindEntryOffsetForFpos K b o =
      (Concat.locate (q.map (·.size)) o).map fun p =>
        (Circular.slot maxWriteOperationsSupported b.outOffs.toNat p.1, p.2) := by
    have hlive : (b.live.map (·.size)).sum < 2 ^ K.sizeBits := by
      rw [h.live]
      exact hsum
    rw [← h.live]
    exact findEntryOffset_eq h.inv hlive ho
  have hfound : found = ((aesdCircularBufferFindEntryOffsetForFpos K b o).map Prod.fst,
      ((aesdCircularBufferFindEntryOffsetForFpos K b o).map Prod.snd).getD old) :=
    findLoopRtn_eq b.count 0 b.outOffs old
  clear_value found
  subst hfound
  rw [hfind]
  refine ⟨?_, fun hnone => ?_, fun hlt => ?_, fun k r hat => ?_, fun slot hsome => ?_, ?_⟩
  · rw [Option.map_eq_none_iff, Option.map_eq_none_iff, Concat.locate_eq_none_iff]
  · rw [Option.map_eq_none_iff.mp hnone]
    rfl
  · obtain ⟨k, r, hat⟩ := exists_entryAt hlt
    refine ⟨(k, r), hat, fun p hp => ?_⟩
    obtain ⟨h1, h2⟩ := hat.unique hp
    exact Prod.ext h1 h2
  · obtain ⟨e, he, -⟩ := id hat
    rw [locate_sizes_iff.mpr hat]
    exact ⟨_, rfl, by rw [h.slot_eq he, he], rfl⟩
  · cases hloc : Concat.locate (q.map (·.size)) o with
    | none =>
      rw [hloc] at hsome
      cases hsome
    | some p =>
      rw [hloc] at hsome
      obtain rfl := Option.some.inj hsome
      have hat := locate_sizes_iff.mp hloc
      obtain ⟨e, he, hr, -⟩ := id hat
      refine ⟨h.mem_liveSlots hat.lt_length, ?_⟩
      rw [h.slot_eq he]
      exact hr
  · cases Concat.locate (q.map (·.size)) o <;> rfl

/-- Twelve entries of the sizes 0, 1, 2, …: the two oldest are gone, and position 9 is byte 0 of the
entry of size 5; position 65 is behind the end, and leaves the out-parameter. -/
theorem find_lookup_twelve_entries :
    let b := (RingOp.init :: (List.range 12).map fun n => RingOp.addEntry ⟨some n, n⟩).foldl
      RingOp.run aesdCircularBufferInit
    aesdCircularBufferFindEntryOffsetForFposRtn kernel64 b 9 7 = (some 5, 0) ∧
      aesdCircularBufferFindEntryOffsetForFposRtn kernel64 b 65 7 = (none, 7) := by
  intro b
  obtain ⟨-, -, -, hat, -⟩ := find_lookup kernel64 aesdCircularBufferInit
    ((List.range 12).map fun n => RingOp.addEntry ⟨some n, n⟩) 9 7 (by decide) (by decide)
  obtain ⟨slot, hfound, -, hslot⟩ := hat 3 0 ⟨⟨some 5, 5⟩, by decide, by decide, by decide⟩
  obtain ⟨hnone, hold, -⟩ := find_lookup kernel64 aesdCircularBufferInit
    ((List.range 12).map fun n => RingOp.addEntry ⟨some n, n⟩) 65 7 (by decide) (by decide)
  have hend := hnone.mpr (by decide)
  refine ⟨hfound.trans ?_, Prod.ext hend (hold hend)⟩
  rw [hslot]
  decide

end Aesd
