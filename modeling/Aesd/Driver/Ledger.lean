import Aesd.Driver.History

/-!
# The ledger of heap blocks

Who owns the kernel heap: between calls the outstanding blocks are `write_buf` and the blocks of the
live entries, each owned once, and nothing was ever freed twice or used after its free. The sweep of
`aesd_cleanup_device` over all ten slots then frees exactly these (`aesdCleanupDevice_spec`), and a
second sweep finds nothing (`aesdCleanupDevice_idem`).
-/

namespace Aesd

variable {K : Kernel} {s s' : Driver} {v : View} {extra : List (Nat × Bytes)}

/-! ## Outstanding blocks -/

theorem map_fst_cells (v : View) :
    v.cells.map Prod.fst = v.pend.toList.map Prod.fst ++ v.live.map Prod.fst := by
  simp [View.cells, View.cell, Function.comp_def]

/-- The pointers of the live entries are the blocks of the retained commands. -/
theorem Rep.filterMap_buffptr (hr : Rep K s v extra) :
    s.dev.buffer.live.filterMap (·.buffptr) = v.live.map Prod.fst := by
  rw [hr.ring.live, List.filterMap_map, ← List.filterMap_eq_map]
  rfl

theorem Rep.owned_eq (hr : Rep K s v extra) :
    s.dev.writeBuf.toList ++ s.dev.buffer.live.filterMap (·.buffptr) = v.cells.map Prod.fst := by
  rw [hr.filterMap_buffptr, map_fst_cells, hr.writeBuf]
  congr 1
  cases v.pend <;> rfl

/-- The entry in a slot is live or `NULL`. -/
theorem Refines.slot_cases {b : AesdCircularBuffer} {q : List AesdBufferEntry} (h : Refines b q)
    (i : Nat) : b.slot i ∈ b.live ∨ b.slot i = .null := by
  by_cases hi : i < maxWriteOperationsSupported
  · by_cases hl : i ∈ b.liveSlots
    · rw [AesdCircularBuffer.live_eq_map]
      exact .inl (List.mem_map_of_mem hl)
    · exact .inr (h.inv.slot_eq_null hi hl)
  · right
    rw [AesdCircularBuffer.slot, Vector.getElem?_eq_none (by omega)]
    rfl

/-! ## The sweep of `aesd_cleanup_device` -/

/-- The block behind a slot's entry. -/
def slotCell (s : Driver) (i : Nat) : Option (Nat × Bytes) :=
  (s.dev.buffer.slot i).buffptr.bind fun p => (s.heap.block? p).map (p, ·)

/-- The ring after `freeSlot`: the slot is cleared, the others stay. -/
theorem freeSlot_slot {i : Nat} (hi : i < maxWriteOperationsSupported) (j : Nat) :
    ((s.freeSlot i).dev.buffer.slot j).buffptr =
      if j = i then none else (s.dev.buffer.slot j).buffptr := by
  unfold Driver.freeSlot
  split
  · rename_i h
    split
    · rename_i hj
      rw [hj, h]
    · rfl
  · have := congrFun (slot_set (b := s.dev.buffer) (e := .null) hi) j
    simp only [AesdCircularBuffer.slot] at this ⊢
    rw [this, Function.update_apply]
    split <;> rfl

theorem freeSlot_writeBuf (i : Nat) : (s.freeSlot i).dev.writeBuf = s.dev.writeBuf := by
  unfold Driver.freeSlot
  split <;> rfl

/-- The sweep over slots whose blocks are all that is owned frees everything and clears the
slots. -/
theorem foldl_freeSlot (is : List Nat) (cell : Nat → Option (Nat × Bytes)) (hn : is.Nodup)
    (hlt : ∀ i ∈ is, i < maxWriteOperationsSupported)
    (hcell : ∀ i ∈ is, (s.dev.buffer.slot i).buffptr = (cell i).map Prod.fst)
    (ho : s.heap.Owns K.mem (is.filterMap cell)) :
    (is.foldl Driver.freeSlot s).heap.Owns K.mem [] ∧
      (is.foldl Driver.freeSlot s).dev.writeBuf = s.dev.writeBuf ∧
      ∀ j, ((is.foldl Driver.freeSlot s).dev.buffer.slot j).buffptr =
        if j ∈ is then none else (s.dev.buffer.slot j).buffptr := by
  induction is generalizing s with
  | nil => exact ⟨ho, rfl, by simp⟩
  | cons i is ih =>
    obtain ⟨hi, hn⟩ := List.nodup_cons.mp hn
    have hilt := hlt i (by simp)
    have hi' := hcell i (by simp)
    have hstep : (s.freeSlot i).heap.Owns K.mem (is.filterMap cell) := by
      unfold Driver.freeSlot
      cases hc : cell i with
      | none =>
        rw [hc] at hi'
        rw [List.filterMap_cons_none hc] at ho
        simpa [hi'] using ho
      | some b =>
        rw [hc] at hi'
        rw [List.filterMap_cons_some hc] at ho
        simpa [hi'] using ho.free
    obtain ⟨h1, h2, h3⟩ := ih (s := s.freeSlot i) hn (fun j hj => hlt j (by simp [hj]))
      (fun j hj => by
        rw [freeSlot_slot hilt, if_neg (ne_of_mem_of_not_mem hj hi)]
        exact hcell j (by simp [hj])) hstep
    refine ⟨h1, h2.trans (freeSlot_writeBuf i), fun j => ?_⟩
    rw [List.foldl_cons, h3, freeSlot_slot hilt]
    by_cases hj : j = i <;> simp [hj]

/-- Behind every pointer in a slot there is a block. -/
theorem Rep.buffptr_eq (hr : Rep K s v extra) (i : Nat) :
    (s.dev.buffer.slot i).buffptr = (slotCell s i).map Prod.fst := by
  rcases hr.ring.slot_cases i with hl | hn
  · rw [hr.ring.live] at hl
    obtain ⟨b, hb, he⟩ := List.mem_map.mp hl
    simp [slotCell, ← he, View.entry, hr.block? hb]
  · simp [slotCell, hn, AesdBufferEntry.null]

/-- The blocks behind the ten slots are the blocks of the retained commands. -/
theorem Rep.slotCells_perm (hr : Rep K s v extra) :
    ((List.range maxWriteOperationsSupported).filterMap (slotCell s)).Perm
      (v.live.map View.cell) := by
  let g : AesdBufferEntry → Option (Nat × Bytes) := fun e =>
    e.buffptr.bind fun p => (s.heap.block? p).map (p, ·)
  have hinv := hr.ring.inv
  have hslots : (List.range maxWriteOperationsSupported).filterMap (slotCell s) =
      ((List.range maxWriteOperationsSupported).map s.dev.buffer.slot).filterMap g := by
    rw [List.filterMap_map]
    rfl
  -- one revolution is the live window and cleared slots
  obtain ⟨m, hm⟩ := Nat.exists_eq_add_of_le hinv.le
  have hrest : Circular.window maxWriteOperationsSupported s.dev.buffer.slot
      ((s.dev.buffer.outOffs.toNat + (v.live.map View.entry).length) % maxWriteOperationsSupported)
        m = List.replicate m .null := by
    rw [List.eq_replicate_iff]
    refine ⟨Circular.length_window, fun e he => ?_⟩
    obtain ⟨k, hk, rfl⟩ := List.mem_map.mp he
    rw [List.mem_range] at hk
    have := hinv.cleared ((v.live.map View.entry).length + k) (by omega) (by omega)
    rwa [Circular.slot, ← Nat.add_assoc, ← Nat.mod_add_mod] at this
  have hrev := Circular.window_perm (f := s.dev.buffer.slot) hinv.out_lt
  conv at hrev => lhs; arg 4; rw [hm]
  rw [Circular.window_add, ← hinv.live_eq, hr.ring.live, hrest] at hrev
  have hnull : (List.replicate m AesdBufferEntry.null).filterMap g = [] :=
    List.filterMap_eq_nil_iff.mpr fun e he => by rw [List.eq_of_mem_replicate he]; rfl
  have hlive : (v.live.map View.entry).filterMap g = v.live.map View.cell := by
    rw [List.filterMap_map, ← List.filterMap_eq_map]
    refine List.filterMap_congr fun b hb => ?_
    simp [g, View.entry, hr.block? hb, View.cell]
  have := (hrev.filterMap g).symm
  rwa [List.filterMap_append, hlive, hnull, List.append_nil, ← hslots] at this

/-- `aesd_cleanup_device` frees every block, each once, and leaves no pointer. -/
theorem aesdCleanupDevice_spec (hr : Rep K s v []) :
    (aesdCleanupDevice s).heap.Owns K.mem [] ∧ (aesdCleanupDevice s).dev.writeBuf = none ∧
      ∀ i, ((aesdCleanupDevice s).dev.buffer.slot i).buffptr = none := by
  have hsweep : ∀ {s : Driver} (live : List (Nat × Bytes)), Rep K s ⟨none, live⟩ [] →
      ((List.range maxWriteOperationsSupported).foldl Driver.freeSlot s).heap.Owns K.mem [] ∧
        ((List.range maxWriteOperationsSupported).foldl Driver.freeSlot s).dev.writeBuf = none ∧
        ∀ i, (((List.range maxWriteOperationsSupported).foldl Driver.freeSlot s).dev.buffer.slot
          i).buffptr = none := by
    intro s live hr
    obtain ⟨h1, h2, h3⟩ := foldl_freeSlot (K := K) (List.range maxWriteOperationsSupported)
      (slotCell s) List.nodup_range (fun i hi => List.mem_range.mp hi) (fun i _ => hr.buffptr_eq i)
      (hr.owns.of_perm hr.slotCells_perm.symm)
    refine ⟨h1, h2.trans hr.writeBuf, fun i => ?_⟩
    rw [h3]
    split
    · rfl
    · rename_i hi
      rw [AesdCircularBuffer.slot, Vector.getElem?_eq_none (by simpa using hi)]
      rfl
  obtain ⟨_ | ⟨q, bs⟩, live⟩ := v
  · have hwb : s.dev.writeBuf = none := hr.writeBuf
    simp only [aesdCleanupDevice, hwb]
    exact hsweep live hr
  · have hwb : s.dev.writeBuf = some q := hr.writeBuf
    simp only [aesdCleanupDevice, hwb]
    exact hsweep live ⟨hr.ring, rfl, rfl, hr.owns.free, by simp⟩

/-- Without pointers there is nothing to clean up. -/
theorem aesdCleanupDevice_idem (hw : s.dev.writeBuf = none)
    (hs : ∀ i, (s.dev.buffer.slot i).buffptr = none) : aesdCleanupDevice s = s := by
  have hfree : ∀ i, s.freeSlot i = s := fun i => by simp [Driver.freeSlot, hs i]
  have hfold : ∀ is : List Nat, is.foldl Driver.freeSlot s = s := by
    intro is
    induction is with
    | nil => rfl
    | cons i is ih => rw [List.foldl_cons, hfree, ih]
  simp only [aesdCleanupDevice, hw]
  exact hfold _

/-- However often `aesd_cleanup_device` runs, it has the effect of one run. -/
theorem iterate_aesdCleanupDevice (hr : Rep K s v []) (n : Nat) :
    aesdCleanupDevice^[n + 1] s = aesdCleanupDevice s := by
  obtain ⟨-, h2, h3⟩ := aesdCleanupDevice_spec hr
  rw [Function.iterate_succ_apply]
  exact Function.iterate_fixed (aesdCleanupDevice_idem h2 h3) n

/-! ## The ledger of a run -/

/-- After any writes the outstanding blocks are `write_buf` and the blocks of the live entries, all
different; no bad free or access happened; all pointers are to outstanding blocks; and any number of
cleanups, at least one, frees everything. -/
theorem runWrites_ledger (K : Kernel) (ws : List WriteCall) :
    let s := (runWrites K aesdInit ws).2
    let owned := s.dev.writeBuf.toList ++ s.dev.buffer.live.filterMap (·.buffptr)
    s.heap.ids.Perm owned ∧ owned.Nodup ∧ s.heap.faults = [] ∧
      (∀ p ∈ s.dev.writeBuf, p ∈ s.heap.ids) ∧
      (∀ i, ∀ p ∈ (s.dev.buffer.slot i).buffptr, p ∈ s.heap.ids) ∧
      ∀ n, let s' := aesdCleanupDevice^[n + 1] s
        s'.heap.ids = [] ∧ s'.heap.faults = [] ∧ s'.dev.writeBuf = none ∧
          ∀ i, (s'.dev.buffer.slot i).buffptr = none := by
  intro s owned
  obtain ⟨h, -, -⟩ := runWrites_holds aesdInit_holds
    (rfl : runWrites K aesdInit ws = (_, s))
  obtain ⟨v, hr, -⟩ := h.rep
  have howned : owned = v.cells.map Prod.fst := hr.owned_eq
  have hids : s.heap.ids.Perm owned := by
    rw [howned]
    exact hr.owns.ids_perm
  refine ⟨hids, howned ▸ hr.owns.nodup, hr.owns.faults, fun p hp => ?_, fun i p hp => ?_,
    fun n => ?_⟩
  · rw [hids.mem_iff, List.mem_append]
    exact .inl (by simpa using hp)
  · rw [hids.mem_iff, List.mem_append]
    rcases hr.ring.slot_cases i with hl | hn
    · exact .inr (List.mem_filterMap.mpr ⟨_, hl, hp⟩)
    · rw [hn] at hp
      cases hp
  · rw [iterate_aesdCleanupDevice hr]
    obtain ⟨h1, h2, h3⟩ := aesdCleanupDevice_spec hr
    exact ⟨List.map_eq_nil_iff.mpr (List.perm_nil.mp h1.perm), h1.faults, h2, h3⟩

end Aesd
