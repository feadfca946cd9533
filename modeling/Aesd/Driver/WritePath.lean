import Aesd.Driver.Device
import Aesd.Driver.Queue
import Aesd.Lib.LineLog

/-!
# The specification of the write path

What the device is for: it retains the last ten commands of the written stream and the bytes of the
command that is not complete yet.

* `Rep`: the device holds a view (`View`): the pending bytes and the retained commands, each with
  its heap block, and the heap owns exactly these blocks.
* One spec lemma for each function: `aesdHandleWriteBuffer_spec`, `memchrNewline_spec`,
  `aesdHandleCompleteCommand_spec`, `aesdWrite_spec`.
* `aesdWrite_retval`: what a write returns, when the heap has room for its two requests.
* `Rep.commands_eq`, `Rep.pendingBytes_eq`: the concrete state reads as its view.
-/

namespace Aesd

/-! ## Views -/

/-- What the device holds: the pending bytes with their block, if any, and the retained commands with
their blocks, oldest first. -/
structure View where
  pend : Option (Nat × Bytes)
  live : List (Nat × Bytes)

namespace View

def pending (v : View) : Bytes := (v.pend.map Prod.snd).getD []

def commands (v : View) : List Bytes := v.live.map Prod.snd

/-- The block that holds `b`: its bytes and the terminating `'\0'`. -/
def cell (b : Nat × Bytes) : Nat × Bytes := (b.1, b.2 ++ [0])

/-- The ring entry for `b`. -/
def entry (b : Nat × Bytes) : AesdBufferEntry := ⟨some b.1, b.2.length⟩

/-- The heap blocks of a view. -/
def cells (v : View) : List (Nat × Bytes) := (v.pend.toList ++ v.live).map cell

/-- The contents as a log that retains its last commits. -/
def log (v : View) : LineLog UInt8 := ⟨v.pending, v.commands⟩

@[simp] theorem pending_none {live : List (Nat × Bytes)} : (mk none live).pending = [] := rfl

@[simp] theorem pending_some {b : Nat × Bytes} {live : List (Nat × Bytes)} :
    (mk (some b) live).pending = b.2 := rfl

theorem cells_some {b : Nat × Bytes} {live : List (Nat × Bytes)} :
    (mk (some b) live).cells = cell b :: live.map cell := rfl

end View

open View

/-- The device holds the view `v`; the heap owns its blocks and the blocks `extra`, no others. -/
structure Rep (K : Kernel) (s : Driver) (v : View) (extra : List (Nat × Bytes)) : Prop where
  ring : Refines s.dev.buffer (v.live.map entry)
  writeBuf : s.dev.writeBuf = v.pend.map Prod.fst
  writeBufSize : s.dev.writeBufSize = v.pending.length
  owns : s.heap.Owns K.mem (extra ++ v.cells)
  /-- There is a buffer only for pending bytes. -/
  ne_nil : ∀ b ∈ v.pend, b.2 ≠ []

variable {K : Kernel} {s s' : Driver} {v : View} {extra : List (Nat × Bytes)} {chunk : Bytes}

theorem aesdInit_rep : Rep K aesdInit ⟨none, []⟩ [] :=
  ⟨init_refines, rfl, rfl, Heap.owns_empty, by simp⟩

/-- Only the heap's list of free ids and the lock are not in a view. -/
theorem Rep.of_heap {h : Heap UInt8} (hr : Rep K s v extra) (extra' : List (Nat × Bytes))
    (ho : h.Owns K.mem (extra' ++ v.cells)) : Rep K { s with heap := h } v extra' :=
  ⟨hr.ring, hr.writeBuf, hr.writeBufSize, ho, hr.ne_nil⟩

theorem Rep.mutexLock (hr : Rep K s v extra) : Rep K s.mutexLock v extra :=
  ⟨hr.ring, hr.writeBuf, hr.writeBufSize, hr.owns, hr.ne_nil⟩

theorem Rep.mutexUnlock (hr : Rep K s v extra) : Rep K s.mutexUnlock v extra :=
  ⟨hr.ring, hr.writeBuf, hr.writeBufSize, hr.owns, hr.ne_nil⟩

/-! ## Sizes that do not wrap -/

theorem Kernel.two_mul_mem_lt (K : Kernel) : 2 * K.mem < 2 ^ K.sizeBits := by
  have h1 := K.mem_lt
  have h2 := K.sizeBits_pos
  have h3 : 2 ^ K.sizeBits = 2 * 2 ^ (K.sizeBits - 1) := by
    rw [← Nat.pow_succ']
    congr 1
    omega
  omega

theorem Kernel.sizeT_of_le {n : Nat} (h : n ≤ K.mem) : K.sizeT n = n :=
  Nat.mod_eq_of_lt (by have := K.two_mul_mem_lt; omega)

theorem Kernel.sizeT_succ_of_le {n : Nat} (h : n ≤ K.mem) : K.sizeT (n + 1) = n + 1 := by
  apply Nat.mod_eq_of_lt
  have h1 := K.mem_lt
  have h2 : 2 ^ (K.sizeBits - 1) < 2 ^ K.sizeBits :=
    Nat.pow_lt_pow_right (by decide) (by have := K.sizeBits_pos; omega)
  omega

theorem Kernel.ssizeT_of_le {n : Nat} (h : n ≤ K.mem) : K.ssizeT n = n := by
  have := K.two_mul_mem_lt
  rw [Kernel.ssizeT, Int.bmod_eq_of_le] <;> omega

/-! ## The block of `write_buf` -/

/-- A grown block `bs ++ …` of `bs.length + vs.length + 1` bytes, after the copy of `vs` and the
terminating zero. -/
theorem splice_terminate (blk bs vs : Bytes) (hl : blk.length = bs.length + vs.length + 1)
    (hb : blk.take bs.length = bs) :
    Heap.splice (Heap.splice blk bs.length vs) (bs.length + vs.length) [0] = bs ++ vs ++ [0] := by
  have h1 : Heap.splice blk bs.length vs = bs ++ vs ++ blk.drop (bs.length + vs.length) := by
    rw [Heap.splice, hb]
  rw [h1, Heap.splice, ← List.length_append, List.take_left, List.drop_eq_nil_of_le, List.append_nil]
  simp
  omega

/-- A new block behind the ones in front. -/
theorem swap_front (a b : Nat × Bytes) (l₁ l₂ : List (Nat × Bytes)) :
    (b :: (a :: l₁ ++ l₂)).Perm (a :: l₁ ++ b :: l₂) :=
  List.perm_middle.symm

/-- `aesd_handle_write_buffer`, on the device that also owns the copied chunk: either it fails and
changes nothing, or the pending bytes grow by the chunk. -/
theorem aesdHandleWriteBuffer_spec {c : Heap.Choice UInt8} {tmp : Nat} {r : Int}
    (hr : Rep K s v ((tmp, chunk) :: extra)) (hc : chunk ≠ [])
    (hw : aesdHandleWriteBuffer K c s (some tmp) chunk.length = (r, s')) :
    (r = -enomem ∧ s'.dev = s.dev ∧ Rep K s' v ((tmp, chunk) :: extra)) ∨
    (r = 0 ∧ s'.dev.buffer = s.dev.buffer ∧ s'.dev.lock = s.dev.lock ∧
      ∃ q, Rep K s' ⟨some (q, v.pending ++ chunk), v.live⟩ ((tmp, chunk) :: extra)) := by
  obtain ⟨pend, live⟩ := v
  have htot := hr.owns.total_eq
  have hcap := hr.owns.total
  have hload : ∀ {h : Heap UInt8} {l}, h.Owns K.mem ((tmp, chunk) :: l) →
      h.load tmp 0 chunk.length = (chunk, h) := by
    intro h l ho
    rw [ho.load (by omega)]
    simp
  rcases pend with _ | ⟨wb, bs⟩
  · -- no buffer yet: `kmalloc`
    have hwb : s.dev.writeBuf = none := hr.writeBuf
    have hsz : K.sizeT (chunk.length + 1) = chunk.length + 1 := by
      apply Kernel.sizeT_succ_of_le
      simp only [List.cons_append, List.map_cons, List.sum_cons] at htot
      omega
    unfold aesdHandleWriteBuffer at hw
    simp only [hwb, hsz] at hw
    split at hw
    · rename_i h ha
      cases hw
      have hh := Heap.alloc_none ha
      subst hh
      exact .inl ⟨rfl, rfl, hr⟩
    · rename_i q h ha
      have ho := hr.owns.alloc ha
      have ho := ho.of_perm (.swap _ _ _)
      rw [hload ho] at hw
      cases hw
      have ho := ho.of_perm (.swap _ _ _)
      have ho := ho.store 0 chunk (by simp)
      have ho := ho.store chunk.length [0] (by simp)
      have hsp := splice_terminate (List.replicate (chunk.length + 1) c.fill) [] chunk (by simp) rfl
      simp only [List.length_nil, Nat.zero_add, List.nil_append] at hsp
      rw [hsp] at ho
      refine .inr ⟨rfl, rfl, rfl, q, hr.ring, rfl,
        by simp [Driver.terminate], ?_, by simpa using hc⟩
      exact ho.of_perm (swap_front _ _ _ _)
  · -- pending bytes: `krealloc`
    have hwb : s.dev.writeBuf = some wb := hr.writeBuf
    have hws : s.dev.writeBufSize = bs.length := hr.writeBufSize
    have hle : bs.length + chunk.length + 1 ≤ K.mem := by
      simp only [cells_some, cell, List.cons_append, List.map_cons, List.map_append, List.sum_cons,
        List.sum_append, List.length_append, List.length_singleton] at htot
      omega
    have hsz : K.sizeT (bs.length + chunk.length) = bs.length + chunk.length :=
      Kernel.sizeT_of_le (by omega)
    have hsz' : K.sizeT (bs.length + chunk.length + 1) = bs.length + chunk.length + 1 :=
      Kernel.sizeT_of_le hle
    have hp : ((tmp, chunk) :: extra ++ (View.mk (some (wb, bs)) live).cells).Perm
        ((wb, bs ++ [0]) :: ((tmp, chunk) :: extra ++ live.map cell)) :=
      (swap_front _ _ _ _).symm
    have ho := hr.owns.of_perm hp
    unfold aesdHandleWriteBuffer at hw
    simp only [hwb, hws, hsz, hsz'] at hw
    split at hw
    · rename_i h ha
      cases hw
      have hh := ho.realloc_none ha
      subst hh
      exact .inl ⟨rfl, rfl, hr⟩
    · rename_i q h ha
      have ho := ho.realloc ha
      have ho := ho.of_perm (.swap _ _ _)
      rw [hload ho] at hw
      cases hw
      have ho := ho.of_perm (.swap _ _ _)
      have hblk : ((bs ++ [0]).take (bs.length + chunk.length + 1) ++
          List.replicate (bs.length + chunk.length + 1 - (bs ++ [0]).length) c.fill).length =
            bs.length + chunk.length + 1 := by
        simp
        omega
      have ho := ho.store bs.length chunk (by rw [hblk]; omega)
      have ho := ho.store (bs.length + chunk.length) [0]
        (by rw [Heap.length_splice (by rw [hblk]; omega), hblk]; simp)
      have htake : (bs ++ [0]).take (bs.length + chunk.length + 1) = bs ++ [0] :=
        List.take_of_length_le (by simp)
      rw [splice_terminate _ _ _ hblk (by rw [htake, List.append_assoc, List.take_left])] at ho
      refine .inr ⟨rfl, rfl, rfl, q, hr.ring, rfl, by simp [Driver.terminate], ?_, ?_⟩
      · exact ho.of_perm (swap_front _ _ _ _)
      · intro b hb
        cases hb
        simpa using fun _ => hc

/-- `memchr` over the accumulated bytes. -/
theorem memchrNewline_spec {q : Nat} {bs : Bytes} {live : List (Nat × Bytes)}
    (hr : Rep K s ⟨some (q, bs), live⟩ extra) : s.memchrNewline = (bs.any isNewline, s) := by
  have hwb : s.dev.writeBuf = some q := hr.writeBuf
  have hws : s.dev.writeBufSize = bs.length := hr.writeBufSize
  have ho : s.heap.Owns K.mem ((q, bs ++ [0]) :: (extra ++ live.map View.cell)) :=
    hr.owns.of_perm List.perm_middle
  simp only [Driver.memchrNewline, hwb, hws]
  rw [ho.load (by simp)]
  simp

/-! ## Committing -/

/-- A full ring whose oldest slot is cleared. -/
theorem clear_oldest {b : AesdCircularBuffer} (h : b.RingInv maxWriteOperationsSupported) :
    let b' := { b with entry := b.entry.setIfInBounds b.outOffs.toNat .null }
    b'.RingInv maxWriteOperationsSupported ∧ b'.live = .null :: b.live.tail := by
  intro b'
  have hs : b'.slot = Function.update b.slot b.outOffs.toNat .null := slot_set h.out_lt
  have hzero : Circular.slot maxWriteOperationsSupported b.outOffs.toNat 0 = b.outOffs.toNat :=
    Circular.slot_zero h.out_lt
  have hi : b'.RingInv maxWriteOperationsSupported :=
    ⟨h.out_lt, h.le, h.in_eq, h.full, fun k hk hk' => by omega⟩
  refine ⟨hi, ?_⟩
  have hkeep : Circular.window 10 b'.slot ((b.outOffs.toNat + 1) % 10) 9 =
      Circular.window 10 b.slot ((b.outOffs.toNat + 1) % 10) 9 := by
    rw [hs]
    refine Circular.window_update_of_ne fun k hk heq => ?_
    rw [Circular.slot_next] at heq
    exact Nat.succ_ne_zero k (Circular.slot_inj (by omega) (by decide) (heq.trans hzero.symm))
  rw [hi.live_eq, h.live_eq]
  show Circular.window 10 b'.slot b.outOffs.toNat (9 + 1) =
    .null :: (Circular.window 10 b.slot b.outOffs.toNat (9 + 1)).tail
  rw [Circular.window_cons (f := b'.slot), Circular.window_cons (f := b.slot), List.tail_cons, hkeep,
    hs]
  have hz : Circular.slot 10 b.outOffs.toNat 0 = b.outOffs.toNat := hzero
  rw [hz, Function.update_self]

/-- A full ring after the oldest entry is freed and its slot cleared: the push overwrites that
slot. -/
theorem addEntry_clear_oldest {b : AesdCircularBuffer} {e : AesdBufferEntry}
    (h : b.RingInv maxWriteOperationsSupported) (he : e.buffptr ≠ none) :
    Refines (aesdCircularBufferAddEntry
      { b with entry := b.entry.setIfInBounds b.outOffs.toNat .null } e)
      (Fifo.push maxWriteOperationsSupported b.live e) := by
  obtain ⟨h1, h2⟩ := clear_oldest h
  obtain ⟨h3, h4⟩ := addEntry_of_full h1 he
  rw [Fifo.push_of_length_eq h.length_live]
  rw [h2, List.tail_cons] at h4
  exact ⟨by rw [← h4, h3.length_live]; exact h3, h4⟩

/-- The oldest entry of a ring that is not empty is in slot `out_offs`. -/
theorem AesdCircularBuffer.RingInv.slot_out {b : AesdCircularBuffer} {n : Nat}
    (h : b.RingInv (n + 1)) : ∃ l, b.live = b.slot b.outOffs.toNat :: l := by
  rw [h.live_eq, Circular.window_cons, Circular.slot_zero h.out_lt]
  exact ⟨_, rfl⟩

theorem fifo_push_map {α β : Type*} (f : α → β) (n : Nat) (l : List α) (x : α) :
    Fifo.push n (l.map f) (f x) = (Fifo.push n l x).map f := by
  unfold Fifo.push
  rw [List.length_map]
  split <;> simp

/-- `aesd_handle_complete_command`: the pending bytes become the newest command; a full ring drops
its oldest command and frees its block. -/
theorem aesdHandleCompleteCommand_spec {b : Nat × Bytes} {live : List (Nat × Bytes)}
    (hr : Rep K s ⟨some b, live⟩ extra) :
    Rep K (aesdHandleCompleteCommand s) ⟨none, Fifo.push maxWriteOperationsSupported live b⟩ extra ∧
      (aesdHandleCompleteCommand s).dev.lock = s.dev.lock := by
  obtain ⟨q, bs⟩ := b
  have hwb : s.dev.writeBuf = some q := hr.writeBuf
  have hws : s.dev.writeBufSize = bs.length := hr.writeBufSize
  have hring := hr.ring
  have hlen : (live.map entry).length = live.length := List.length_map _
  have he : (entry (q, bs)).buffptr ≠ none := by simp [entry]
  unfold aesdHandleCompleteCommand
  simp only [hwb, hws]
  by_cases hfull : s.dev.buffer.full = true
  · have h10 : live.length = maxWriteOperationsSupported := by
      rw [← hlen]
      exact hring.inv.full.mp hfull
    obtain ⟨⟨p, cs⟩, live', rfl⟩ : ∃ b l, live = b :: l := by
      cases live with
      | nil => cases h10
      | cons b l => exact ⟨b, l, rfl⟩
    have hinv : s.dev.buffer.RingInv maxWriteOperationsSupported := by
      rw [← h10, ← hlen]
      exact hring.inv
    obtain ⟨l, hl⟩ := AesdCircularBuffer.RingInv.slot_out (n := 9) hinv
    have hslot : s.dev.buffer.slot s.dev.buffer.outOffs.toNat = entry (p, cs) := by
      have := hl.symm.trans hring.live
      exact (List.cons.inj this).1
    have hfree : s.freeSlot s.dev.buffer.outOffs.toNat =
        { dev := { s.dev with buffer := { s.dev.buffer with
            entry := s.dev.buffer.entry.setIfInBounds s.dev.buffer.outOffs.toNat .null } }
          heap := s.heap.free p } := by
      simp [Driver.freeSlot, hslot, entry]
    have hpush := addEntry_clear_oldest hinv he
    rw [hring.live, fifo_push_map, hfull] at hpush
    simp only [hfull, ↓reduceIte, hfree]
    refine ⟨⟨hpush, rfl, rfl, ?_, by simp⟩, trivial⟩
    have hp : (extra ++ (View.mk (some (q, bs)) ((p, cs) :: live')).cells).Perm
        ((p, cs ++ [0]) :: (extra ++ (q, bs ++ [0]) :: live'.map cell)) := by
      rw [cells_some, List.map_cons]
      exact ((List.Perm.swap _ _ _).append_left extra).trans List.perm_middle
    have ho := hr.owns.of_perm hp
    apply ho.free.of_perm
    rw [Fifo.push_of_length_eq h10]
    simp only [cells, Option.toList_none, List.nil_append, List.tail_cons, List.map_append,
      List.map_cons, List.map_nil]
    refine (List.Perm.append_left _ ?_)
    exact (List.perm_append_singleton _ _).symm
  · have hlt : live.length < maxWriteOperationsSupported := by
      have hle := hring.inv.le
      rw [hlen] at hle
      refine Nat.lt_of_le_of_ne hle fun h => hfull (hring.inv.full.mpr ?_)
      rw [hlen, h]
    simp only [hfull]
    have hpush := hring.addEntry he
    rw [fifo_push_map] at hpush
    refine ⟨⟨hpush, rfl, rfl, ?_, by simp⟩, rfl⟩
    apply hr.owns.of_perm
    rw [Fifo.push_of_length_lt hlt]
    simp only [cells, Option.toList_none, Option.toList_some, List.nil_append, List.map_append,
      List.map_cons, List.map_nil]
    refine (List.Perm.append_left _ ?_)
    exact (List.perm_append_singleton _ _).symm

/-! ## `aesd_write` -/

/-- `aesd_write` between `kmalloc` and `out_free`: it fails and changes nothing, or the log gets the
chunk. -/
theorem aesdWriteCopied_spec {env : WriteEnv} {tmp : Nat} {blk : Bytes} {r : Int}
    (hr : Rep K s v ((tmp, blk) :: extra)) (hl : blk.length = chunk.length) (hc : chunk ≠ [])
    (ho : LineLog.Open isNewline v.pending)
    (hw : aesdWriteCopied K env s tmp chunk = (r, s')) :
    ∃ v' blk', Rep K s' v' ((tmp, blk') :: extra) ∧
      ((r < 0 ∧ s'.dev = s.dev ∧ v' = v ∧ (r = -efault ∧ env.copyFails = true ∨ r = -enomem)) ∨
        (r = chunk.length ∧ s'.dev.lock = s.dev.lock ∧
          v'.log = v.log.writeLast maxWriteOperationsSupported isNewline chunk)) := by
  unfold aesdWriteCopied at hw
  split at hw
  · rename_i hcopy
    cases hw
    exact ⟨v, blk, hr, .inl ⟨by decide, rfl, rfl, .inl ⟨rfl, hcopy⟩⟩⟩
  · have hst := hr.owns.store 0 chunk (by omega)
    have hsp : Heap.splice blk 0 chunk = chunk := by
      simp [Heap.splice, hl]
    rw [hsp] at hst
    have hr1 := hr.of_heap ((tmp, chunk) :: extra) hst
    simp only at hw
    generalize hh : aesdHandleWriteBuffer K env.grow
      { s with heap := s.heap.store tmp 0 chunk } (some tmp) chunk.length = res at hw
    obtain ⟨r1, s1⟩ := res
    rcases aesdHandleWriteBuffer_spec hr1 hc hh with ⟨rfl, hdev, hr2⟩ | ⟨rfl, -, hlock, q, hr2⟩
    · simp only [if_pos (show -enomem < 0 by decide)] at hw
      cases hw
      exact ⟨v, chunk, hr2, .inl ⟨by decide, hdev, rfl, .inr rfl⟩⟩
    · simp only [if_neg (Int.lt_irrefl 0)] at hw
      simp only [memchrNewline_spec hr2, LineLog.any_append_of_open ho] at hw
      have hret : K.ssizeT chunk.length = chunk.length := by
        apply Kernel.ssizeT_of_le
        have htot := hr2.owns.total_eq
        have hcap := hr2.owns.total
        simp only [List.cons_append, List.map_cons, List.sum_cons] at htot
        omega
      rw [hret] at hw
      cases hn : chunk.any isNewline with
      | true =>
        simp only [hn, ↓reduceIte] at hw
        cases hw
        obtain ⟨hr3, hlock'⟩ := aesdHandleCompleteCommand_spec hr2
        refine ⟨_, chunk, hr3, .inr ⟨rfl, hlock'.trans hlock, ?_⟩⟩
        rw [LineLog.writeLast_of_any hn]
        simp only [log, commands, pending_none, ← fifo_push_map]
      | false =>
        simp only [hn, Bool.false_eq_true, ↓reduceIte] at hw
        cases hw
        refine ⟨_, chunk, hr2, .inr ⟨rfl, hlock, ?_⟩⟩
        rw [LineLog.writeLast_of_not_any hn]
        rfl

/-- `aesd_write` of a chunk: it fails and changes nothing, or it returns the length and the log gets
the chunk. -/
theorem aesdWrite_spec {env : WriteEnv} {r : Int} (hr : Rep K s v []) (hlock : s.dev.lock = false)
    (hc : chunk ≠ []) (ho : LineLog.Open isNewline v.pending)
    (hw : aesdWrite K env s (some chunk) = (r, s')) :
    s'.dev.lock = false ∧ ∃ v', Rep K s' v' [] ∧
      ((r < 0 ∧ s'.dev = s.dev ∧ v' = v ∧ (r = -erestartsys ∧ env.interrupted = true ∨
          env.interrupted = false ∧ (r = -efault ∧ env.copyFails = true ∨ r = -enomem))) ∨
        (r = chunk.length ∧
          v'.log = v.log.writeLast maxWriteOperationsSupported isNewline chunk)) := by
  have hback : s.mutexLock.mutexUnlock = s := by
    simp [Driver.mutexLock, Driver.mutexUnlock, ← hlock]
  have hlen : chunk.length ≠ 0 := by simpa using hc
  unfold aesdWrite at hw
  simp only [if_neg hlen] at hw
  split at hw
  · rename_i hint
    cases hw
    exact ⟨hlock, v, hr, .inl ⟨by decide, rfl, rfl, .inl ⟨rfl, hint⟩⟩⟩
  · rename_i hint
    rw [Bool.not_eq_true] at hint
    split at hw
    · rename_i h ha
      cases hw
      have hh := Heap.alloc_none ha
      subst hh
      exact ⟨rfl, v, hr.mutexLock.mutexUnlock,
        .inl ⟨by decide, congrArg Driver.dev hback, rfl, .inr ⟨hint, .inr rfl⟩⟩⟩
    · rename_i tmp h ha
      have hr1 := hr.mutexLock.of_heap [_] (hr.mutexLock.owns.alloc ha)
      generalize hcp : aesdWriteCopied K env { s.mutexLock with heap := h } tmp chunk = res at hw
      obtain ⟨r1, s1⟩ := res
      obtain ⟨v', blk', hr2, hres⟩ := aesdWriteCopied_spec hr1 (by simp) hc ho hcp
      cases hw
      have hr3 := (hr2.of_heap [] hr2.owns.free).mutexUnlock
      refine ⟨rfl, v', hr3, ?_⟩
      rcases hres with ⟨hneg, hdev, rfl, herror⟩ | ⟨hcnt, -, hlog⟩
      · refine .inl ⟨hneg, ?_, rfl, .inr ⟨hint, herror⟩⟩
        have := congrArg Driver.dev hback
        simp only [Driver.mutexUnlock] at this ⊢
        rw [hdev]
        exact this
      · exact .inr ⟨hcnt, hlog⟩

/-! ## What a write returns -/

/-- The heap has room for the two requests of a write of `n` bytes: the temporary buffer, and
`write_buf` with the new bytes and the terminating zero. -/
def Driver.HasRoom (K : Kernel) (s : Driver) (n : Nat) : Prop :=
  s.heap.total + n + (s.dev.writeBufSize + n + 1) ≤ K.mem

instance (n : Nat) : Decidable (s.HasRoom K n) := inferInstanceAs (Decidable (_ ≤ _))

/-- What a write of `n` bytes returns on a heap with room. -/
def WriteEnv.retval (env : WriteEnv) (n : Nat) : Int :=
  if env.interrupted then -erestartsys
  else if env.tmp.fails then -enomem
  else if env.copyFails then -efault
  else if env.grow.fails then -enomem
  else n

/-- `aesd_handle_write_buffer` fails exactly when its allocation does. -/
theorem aesdHandleWriteBuffer_retval {c : Heap.Choice UInt8} {tmp : Nat}
    {extra : List (Nat × Bytes)} (hr : Rep K s v ((tmp, chunk) :: extra))
    (hcap : s.heap.total + (v.pending.length + chunk.length + 1) ≤ K.mem) :
    (aesdHandleWriteBuffer K c s (some tmp) chunk.length).1 =
      if c.fails then -enomem else 0 := by
  obtain ⟨pend, live⟩ := v
  rcases pend with _ | ⟨wb, bs⟩
  · have hwb : s.dev.writeBuf = none := hr.writeBuf
    have hsz : K.sizeT (chunk.length + 1) = chunk.length + 1 :=
      Kernel.sizeT_of_le (by simp at hcap; omega)
    have hroom : ¬ K.mem < s.heap.total + (chunk.length + 1) := by
      simp at hcap
      omega
    unfold aesdHandleWriteBuffer
    simp only [hwb, hsz, Heap.alloc, hroom, or_false]
    cases c.fails <;> rfl
  · have hwb : s.dev.writeBuf = some wb := hr.writeBuf
    have hws : s.dev.writeBufSize = bs.length := hr.writeBufSize
    simp only [View.pending_some] at hcap
    have hsz : K.sizeT (bs.length + chunk.length) = bs.length + chunk.length :=
      Kernel.sizeT_of_le (by omega)
    have hsz' : K.sizeT (bs.length + chunk.length + 1) = bs.length + chunk.length + 1 :=
      Kernel.sizeT_of_le (by omega)
    have hp : ((tmp, chunk) :: extra ++ (View.mk (some (wb, bs)) live).cells).Perm
        ((wb, bs ++ [0]) :: ((tmp, chunk) :: extra ++ live.map View.cell)) :=
      (swap_front _ _ _ _).symm
    have hblk : s.heap.block? wb = some (bs ++ [0]) := (hr.owns.of_perm hp).block?
    have hroom : ¬ K.mem < s.heap.total - (bs ++ [0]).length + (bs.length + chunk.length + 1) := by
      omega
    unfold aesdHandleWriteBuffer
    simp only [hwb, hws, hsz, hsz', Heap.realloc, hblk, hroom, or_false]
    cases c.fails <;> rfl

/-- `aesd_write` between `kmalloc` and `out_free`: the copy fails, or the allocation, or nothing. -/
theorem aesdWriteCopied_retval {env : WriteEnv} {tmp : Nat} {blk : Bytes} (hr : Rep K s v [(tmp, blk)])
    (hl : blk.length = chunk.length)
    (hcap : s.heap.total + (v.pending.length + chunk.length + 1) ≤ K.mem) :
    (aesdWriteCopied K env s tmp chunk).1 =
      if env.copyFails then -efault else if env.grow.fails then -enomem else chunk.length := by
  unfold aesdWriteCopied
  cases hcopy : env.copyFails with
  | true => rfl
  | false =>
    have hst := hr.owns.store 0 chunk (by omega)
    have hsp : Heap.splice blk 0 chunk = chunk := by simp [Heap.splice, hl]
    rw [hsp] at hst
    have hr1 := hr.of_heap [(tmp, chunk)] hst
    have htot : (s.heap.store tmp 0 chunk).total = s.heap.total := by
      rw [hst.total_eq, hr.owns.total_eq]
      simp [hl]
    have hgrow := aesdHandleWriteBuffer_retval (c := env.grow) hr1 (by rw [← htot] at hcap; exact hcap)
    have hret : K.ssizeT chunk.length = chunk.length := Kernel.ssizeT_of_le (by omega)
    simp only [Bool.false_eq_true, ↓reduceIte, hgrow]
    cases env.grow.fails with
    | true => rfl
    | false => simp [hret]

/-- What a write returns on a heap with room for its two requests. -/
theorem aesdWrite_retval (env : WriteEnv) (hr : Rep K s v []) (hc : chunk ≠ [])
    (hroom : s.HasRoom K chunk.length) :
    (aesdWrite K env s (some chunk)).1 = env.retval chunk.length := by
  have hcap : s.heap.total + chunk.length + (v.pending.length + chunk.length + 1) ≤ K.mem := by
    rw [← hr.writeBufSize]
    exact hroom
  have hlen : chunk.length ≠ 0 := by simpa using hc
  unfold aesdWrite WriteEnv.retval
  simp only [if_neg hlen]
  cases hint : env.interrupted with
  | true => rfl
  | false =>
    cases htmp : env.tmp.fails with
    | true => simp [Heap.alloc_of_fails htmp]
    | false =>
      have hroom : s.mutexLock.heap.total + chunk.length ≤ K.mem := by
        show s.heap.total + chunk.length ≤ K.mem
        omega
      obtain ⟨tmp, h, ha⟩ := Heap.exists_alloc htmp hroom
      have hr1 := hr.mutexLock.of_heap [_] (hr.mutexLock.owns.alloc ha)
      have htot : h.total = s.heap.total + chunk.length := by
        have h1 := hr1.owns.total_eq
        have h2 := hr.owns.total_eq
        simp only [List.cons_append, List.nil_append, List.map_cons, List.sum_cons,
          List.length_replicate] at h1 h2
        omega
      simp only [ha, Bool.false_eq_true, ↓reduceIte]
      exact aesdWriteCopied_retval hr1 (by simp) (by simp only [htot]; omega)

/-! ## What the state reads as -/

/-- The block of a retained command. -/
theorem Rep.block? (hr : Rep K s v extra) {b : Nat × Bytes} (hb : b ∈ v.live) :
    s.heap.block? b.1 = some (b.2 ++ [0]) := by
  refine hr.owns.block?_of_mem ?_
  simp only [cells, List.map_append, List.mem_append, List.mem_map]
  exact .inr (.inr ⟨b, hb, rfl⟩)

theorem Rep.entryBytes (hr : Rep K s v extra) {b : Nat × Bytes} (hb : b ∈ v.live) :
    s.entryBytes (entry b) = b.2 := by
  simp [Driver.entryBytes, entry, hr.block? hb]

theorem Rep.commands_eq (hr : Rep K s v extra) : s.commands = v.commands := by
  rw [Driver.commands, hr.ring.live, View.commands, List.map_map]
  exact List.map_congr_left fun b hb => hr.entryBytes hb

theorem Rep.sizes_eq (hr : Rep K s v extra) :
    s.dev.buffer.live.map (·.size) = v.commands.map List.length := by
  rw [hr.ring.live, View.commands, List.map_map, List.map_map]
  rfl

theorem Rep.pendingBytes_eq (hr : Rep K s v extra) : s.pendingBytes = v.pending := by
  obtain ⟨_ | ⟨q, bs⟩, live⟩ := v
  · have hwb : s.dev.writeBuf = none := hr.writeBuf
    simp [Driver.pendingBytes, hwb]
  · have hwb : s.dev.writeBuf = some q := hr.writeBuf
    have hws : s.dev.writeBufSize = bs.length := hr.writeBufSize
    have hm : (q, bs ++ [0]) ∈ extra ++ (View.mk (some (q, bs)) live).cells := by
      simp [cells_some, cell]
    simp [Driver.pendingBytes, hwb, hws, hr.owns.block?_of_mem hm]

/-- There is a buffer exactly for pending bytes. -/
theorem Rep.writeBuf_eq_none_iff (hr : Rep K s v extra) :
    s.dev.writeBuf = none ↔ s.dev.writeBufSize = 0 := by
  obtain ⟨_ | b, live⟩ := v
  · have hwb : s.dev.writeBuf = none := hr.writeBuf
    have hws : s.dev.writeBufSize = 0 := hr.writeBufSize
    simp [hwb, hws]
  · have hwb : s.dev.writeBuf = some b.1 := hr.writeBuf
    have hws : s.dev.writeBufSize = b.2.length := hr.writeBufSize
    have hne := hr.ne_nil b rfl
    simpa [hwb, hws] using hne

end Aesd
