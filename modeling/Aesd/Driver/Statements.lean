import Aesd.Driver.OpenFiles
import Aesd.Lib.Monitor

/-!
# File operations, statement by statement (`aesd-char-fileops.c`, `aesd-char-buffer.c`)

The code of a file operation between taking and giving back `dev->lock`, one statement or one
iteration of a loop at a time.

* `CallPc.step`: the next statement; `callMonitor`: the code as one of a monitor.
* `FileCall.run_eq_finish`: run alone it does what `FileCall.run` does at once.
* `CallPc.Kept`: a statement keeps the lock, and no fault of the heap is forgotten.
-/

namespace Aesd

/-- The next statement of a file operation that holds the lock, with the variables that are still
needed. -/
inductive CallPc where
  /-- `aesd_read`: `total_entries`, and the loop with `n` entries to go. -/
  | findCount (env : CallEnv) (count : Nat)
  | find (env : CallEnv) (count charOffset n currentPos : Nat) (currentIdx : UInt8)
  | copyToUser (env : CallEnv) (count idx entryOffset : Nat)
  /-- `aesd_llseek`: `aesd_get_total_buffer_size`. -/
  | totalCount (offset whence : Int)
  | total (offset whence : Int) (n totalSize : Nat) (currentIdx : UInt8)
  | seekTo (offset whence : Int) (totalSize : Nat)
  /-- `aesd_unlocked_ioctl`. -/
  | ioctlCount (seekto : AesdSeekto)
  | ioctlSeek (seekto : AesdSeekto) (n : Nat) (newPos : Int) (currentIdx : UInt8)
  | ioctlOffset (seekto : AesdSeekto) (newPos : Int) (currentIdx : UInt8)
  /-- `aesd_write`. -/
  | kmalloc (env : WriteEnv) (chunk : Bytes)
  | copyFromUser (env : WriteEnv) (chunk : Bytes) (tmpBuf : Nat)
  /-- `aesd_handle_write_buffer`: `krealloc` or `kmalloc`, then `memcpy` to `at_` in the block. -/
  | grow (env : WriteEnv) (chunk : Bytes) (tmpBuf : Nat)
  | memcpy (chunk : Bytes) (tmpBuf newBuf at_ newSize : Nat)
  | terminate (chunk : Bytes) (tmpBuf newBuf : Nat)
  | memchr (chunk : Bytes) (tmpBuf : Nat)
  /-- `aesd_handle_complete_command`: the oldest entry is freed, then the new one added. -/
  | evict (chunk : Bytes) (tmpBuf : Nat)
  | addEntry (chunk : Bytes) (tmpBuf : Nat) (entry : AesdBufferEntry)
  /-- `out_free`. -/
  | kfree (tmpBuf : Nat) (retval : Int)
  /-- `mutex_unlock`, then the return. -/
  | unlock (res : ReadResult)
  deriving DecidableEq

namespace CallPc

/-- The `switch` of `aesd_llseek`. -/
def llseekPos (p offset whence : Int) (totalSize : Nat) : Option Int :=
  match whence with
  | 0 => some offset
  | 1 => some (loffT (p + offset))
  | 2 => some (loffT (totalSize + offset))
  | _ => none

/-- A statement of a file operation on a file at `p`. -/
def step (K : Kernel) (p : Int) (s : Driver) : CallPc → Monitor.Next CallPc Driver ReadResult
  | findCount env count =>
    .goesOn (.find env count (K.sizeOfLoff p) s.dev.buffer.count 0 s.dev.buffer.outOffs) s
  | find _ _ _ 0 _ _ => .goesOn (.unlock ⟨0, [], p⟩) s
  | find env count charOffset (n + 1) currentPos currentIdx =>
    let entrySize := (s.dev.buffer.slot currentIdx.toNat).size
    if charOffset < K.sizeT (currentPos + entrySize) then
      .goesOn (.copyToUser env count currentIdx.toNat (K.sizeSub charOffset currentPos)) s
    else
      .goesOn (.find env count charOffset n (K.sizeT (currentPos + entrySize)) (incOffs currentIdx)) s
  | copyToUser env count idx entryOffset =>
    let entry := s.dev.buffer.slot idx
    let bytesToRead := min count (K.sizeSub entry.size entryOffset)
    if env.copyFails then .goesOn (.unlock ⟨-efault, [], p⟩) s
    else
      let (bytes, h) := match entry.buffptr with
        | some ptr => s.heap.load ptr entryOffset bytesToRead
        | none => ([], s.heap.fault (.badAccess 0))
      .goesOn (.unlock ⟨K.ssizeT bytesToRead, bytes, loffT (p + bytesToRead)⟩) { s with heap := h }
  | totalCount offset whence =>
    .goesOn (.total offset whence s.dev.buffer.count 0 s.dev.buffer.outOffs) s
  | total offset whence 0 totalSize _ => .goesOn (.seekTo offset whence totalSize) s
  | total offset whence (n + 1) totalSize currentIdx =>
    .goesOn (.total offset whence n
      (K.sizeT (totalSize + (s.dev.buffer.slot currentIdx.toNat).size)) (incOffs currentIdx)) s
  | seekTo offset whence totalSize =>
    match llseekPos p offset whence totalSize with
    | none => .goesOn (.unlock ⟨-einval, [], p⟩) s
    | some newPos =>
      if newPos < 0 ∨ exceedsTotal K newPos totalSize then .goesOn (.unlock ⟨-einval, [], p⟩) s
      else .goesOn (.unlock ⟨newPos, [], newPos⟩) s
  | ioctlCount seekto =>
    if s.dev.buffer.count ≤ seekto.writeCmd.toNat then .goesOn (.unlock ⟨-einval, [], p⟩) s
    else .goesOn (.ioctlSeek seekto seekto.writeCmd.toNat 0 s.dev.buffer.outOffs) s
  | ioctlSeek seekto 0 newPos currentIdx => .goesOn (.ioctlOffset seekto newPos currentIdx) s
  | ioctlSeek seekto (n + 1) newPos currentIdx =>
    .goesOn (.ioctlSeek seekto n (loffT (newPos + (s.dev.buffer.slot currentIdx.toNat).size))
      (incOffs currentIdx)) s
  | ioctlOffset seekto newPos currentIdx =>
    if (s.dev.buffer.slot currentIdx.toNat).size ≤ seekto.writeCmdOffset.toNat then
      .goesOn (.unlock ⟨-einval, [], p⟩) s
    else .goesOn (.unlock ⟨0, [], loffT (newPos + seekto.writeCmdOffset.toNat)⟩) s
  | kmalloc env chunk =>
    match s.heap.alloc K.mem env.tmp chunk.length with
    | (none, h) => .goesOn (.unlock ⟨-enomem, [], p⟩) { s with heap := h }
    | (some tmpBuf, h) => .goesOn (.copyFromUser env chunk tmpBuf) { s with heap := h }
  | copyFromUser env chunk tmpBuf =>
    if env.copyFails then .goesOn (.kfree tmpBuf (-efault)) s
    else .goesOn (.grow env chunk tmpBuf) { s with heap := s.heap.store tmpBuf 0 chunk }
  | grow env chunk tmpBuf =>
    match s.dev.writeBuf with
    | some wb =>
      let newSize := K.sizeT (s.dev.writeBufSize + chunk.length)
      match s.heap.realloc K.mem env.grow wb (K.sizeT (newSize + 1)) with
      | (none, h) => .goesOn (.kfree tmpBuf (-enomem)) { s with heap := h }
      | (some newBuf, h) =>
        .goesOn (.memcpy chunk tmpBuf newBuf s.dev.writeBufSize newSize) { s with heap := h }
    | none =>
      match s.heap.alloc K.mem env.grow (K.sizeT (chunk.length + 1)) with
      | (none, h) => .goesOn (.kfree tmpBuf (-enomem)) { s with heap := h }
      | (some wb, h) =>
        .goesOn (.memcpy chunk tmpBuf wb 0 chunk.length)
          { dev := { s.dev with writeBuf := some wb }, heap := h }
  | memcpy chunk tmpBuf newBuf at_ newSize =>
    let (data, h) := s.heap.load tmpBuf 0 chunk.length
    let h := h.store newBuf at_ data
    .goesOn (.terminate chunk tmpBuf newBuf)
      { dev := { s.dev with writeBuf := some newBuf, writeBufSize := newSize }, heap := h }
  | terminate chunk tmpBuf newBuf => .goesOn (.memchr chunk tmpBuf) (s.terminate newBuf)
  | memchr chunk tmpBuf =>
    let (newline, s) := s.memchrNewline
    if newline then .goesOn (.evict chunk tmpBuf) s
    else .goesOn (.kfree tmpBuf (K.ssizeT chunk.length)) s
  | evict chunk tmpBuf =>
    match s.dev.writeBuf with
    | none => .goesOn (.kfree tmpBuf (K.ssizeT chunk.length)) s
    | some wb =>
      .goesOn (.addEntry chunk tmpBuf ⟨some wb, s.dev.writeBufSize⟩)
        (if s.dev.buffer.full then s.freeSlot s.dev.buffer.outOffs.toNat else s)
  | addEntry chunk tmpBuf entry =>
    .goesOn (.kfree tmpBuf (K.ssizeT chunk.length))
      { s with dev := { s.dev with
          writeBuf := none
          writeBufSize := 0
          buffer := aesdCircularBufferAddEntry s.dev.buffer entry } }
  | kfree tmpBuf retval => .goesOn (.unlock ⟨retval, [], p⟩) { s with heap := s.heap.free tmpBuf }
  | unlock res => .returns res s.mutexUnlock

/-- More than the number of statements up to the return. The ring has at most 255 entries, as its
indices have 8 bits. -/
def rank : CallPc → Nat
  | findCount .. => 260
  | find _ _ _ n _ _ => n + 3
  | copyToUser .. => 2
  | totalCount .. => 260
  | total _ _ n _ _ => n + 3
  | seekTo .. => 2
  | ioctlCount _ => 260
  | ioctlSeek _ n _ _ => n + 3
  | ioctlOffset .. => 2
  | kmalloc .. => 10
  | copyFromUser .. => 9
  | grow .. => 8
  | memcpy .. => 7
  | terminate .. => 6
  | memchr .. => 5
  | evict .. => 4
  | addEntry .. => 3
  | kfree .. => 2
  | unlock _ => 1

theorem count_lt (b : AesdCircularBuffer) : b.count < 256 := (totalEntries b).toNat_lt

theorem rank_lt {K : Kernel} {p : Int} {s s' : Driver} {pc pc' : CallPc}
    (h : step K p s pc = .goesOn pc' s') : rank pc' < rank pc := by
  have hcount := count_lt s.dev.buffer
  cases pc with
  | findCount | totalCount =>
    cases h
    simp only [rank]
    omega
  | find env count charOffset n currentPos currentIdx =>
    cases n with
    | zero =>
      cases h
      simp [rank]
    | succ n =>
      simp only [step] at h
      split at h <;> cases h <;> simp only [rank] <;> omega
  | copyToUser =>
    simp only [step] at h
    split at h <;> cases h <;> simp [rank]
  | total offset whence n totalSize currentIdx =>
    cases n with
    | zero =>
      cases h
      simp [rank]
    | succ n =>
      cases h
      simp only [rank]
      omega
  | seekTo =>
    simp only [step] at h
    split at h
    · cases h
      simp [rank]
    · split at h <;> cases h <;> simp [rank]
  | ioctlCount =>
    simp only [step] at h
    split at h <;> cases h <;> simp only [rank] <;> omega
  | ioctlSeek seekto n newPos currentIdx =>
    cases n with
    | zero =>
      cases h
      simp [rank]
    | succ n =>
      cases h
      simp only [rank]
      omega
  | ioctlOffset | kmalloc | copyFromUser | memchr | evict =>
    simp only [step] at h
    split at h <;> cases h <;> simp [rank]
  | grow =>
    simp only [step] at h
    split at h
    · split at h <;> cases h <;> simp [rank]
    · split at h <;> cases h <;> simp [rank]
  | memcpy | terminate | addEntry | kfree =>
    cases h
    simp [rank]
  | unlock => cases h

end CallPc

/-- The code of a file operation under `dev->lock`, on a file at `p`. -/
def callMonitor (K : Kernel) (p : Int) : Monitor CallPc Driver ReadResult where
  step pc s := CallPc.step K p s pc
  rank := CallPc.rank
  rank_lt := CallPc.rank_lt

@[simp] theorem callMonitor_step (K : Kernel) (p : Int) (pc : CallPc) (s : Driver) :
    (callMonitor K p).step pc s = pc.step K p s := rfl

/-! ## What the code does alone -/

section

variable {K : Kernel} {s : Driver} {p : Int} {c : FileCall}

namespace FileCall

/-- The error of a call that returns before it waits for the lock. -/
def refused : FileCall → Option Int
  | read _ none => some (-einval)
  | read _ (some _) => none
  | write _ none => some (-einval)
  | write _ (some chunk) => if chunk.length = 0 then some (-einval) else none
  | llseek .. => none
  | ioctl env cmd _ =>
    if cmd = aesdcharIocseekto then if env.copyFails then some (-efault) else none
    else some (-enotty)

/-- `mutex_lock_interruptible` is interrupted. -/
def interrupted : FileCall → Bool
  | read env _ => env.interrupted
  | write env _ => env.interrupted
  | llseek interrupted _ _ => interrupted
  | ioctl env _ _ => env.interrupted

/-- The first statement under the lock. -/
def start : FileCall → CallPc
  | read env buf => .findCount env (buf.getD 0)
  | write env buf => .kmalloc env (buf.getD [])
  | llseek _ offset whence => .totalCount offset.toInt whence.toInt
  | ioctl _ _ arg => .ioctlCount arg

theorem run_of_refused {e : Int} (h : c.refused = some e) : c.run K s p = (⟨e, [], p⟩, s) := by
  cases c with
  | read env buf =>
    cases buf with
    | none =>
      cases h
      rfl
    | some count => cases h
  | write env buf =>
    cases buf with
    | none =>
      cases h
      rfl
    | some chunk =>
      simp only [refused, Option.ite_none_right_eq_some, Option.some.injEq] at h
      obtain ⟨hlen, rfl⟩ := h
      simp only [run, aesdWrite, if_pos hlen]
  | llseek => cases h
  | ioctl env cmd arg =>
    simp only [refused] at h
    split at h
    · rename_i hcmd
      split at h
      · rename_i hcopy
        cases h
        simp only [run, aesdUnlockedIoctl, if_pos hcmd, if_pos hcopy]
      · cases h
    · rename_i hcmd
      cases h
      simp only [run, aesdUnlockedIoctl, if_neg hcmd]

end FileCall

namespace CallPc

theorem finish_unlock (res : ReadResult) :
    (callMonitor K p).finish (.unlock res) s = (res, s.mutexUnlock) :=
  Monitor.finish_of_returns rfl

theorem finish_find (env : CallEnv) (count charOffset n currentPos : Nat) (currentIdx : UInt8) :
    (callMonitor K p).finish (.find env count charOffset n currentPos currentIdx) s =
      match findLoop K s.dev.buffer charOffset n currentPos currentIdx with
      | none => (⟨0, [], p⟩, s.mutexUnlock)
      | some (idx, entryOffset) => (callMonitor K p).finish (.copyToUser env count idx entryOffset) s := by
  induction n generalizing currentPos currentIdx with
  | zero =>
    rw [Monitor.finish_of_goesOn rfl, finish_unlock]
    rfl
  | succ n ih =>
    simp only [findLoop]
    by_cases hlt : charOffset < K.sizeT (currentPos + (s.dev.buffer.slot currentIdx.toNat).size)
    · rw [if_pos hlt]
      exact Monitor.finish_of_goesOn (if_pos hlt)
    · rw [if_neg hlt, ← ih]
      exact Monitor.finish_of_goesOn (if_neg hlt)

theorem finish_total (offset whence : Int) (n totalSize : Nat) (currentIdx : UInt8) :
    (callMonitor K p).finish (.total offset whence n totalSize currentIdx) s =
      (callMonitor K p).finish
        (.seekTo offset whence (totalLoop K s.dev.buffer n totalSize currentIdx)) s := by
  induction n generalizing totalSize currentIdx with
  | zero => exact Monitor.finish_of_goesOn rfl
  | succ n ih =>
    rw [Monitor.finish_of_goesOn rfl]
    exact ih _ _

theorem finish_ioctlSeek (seekto : AesdSeekto) (n : Nat) (newPos : Int) (currentIdx : UInt8) :
    (callMonitor K p).finish (.ioctlSeek seekto n newPos currentIdx) s =
      (callMonitor K p).finish
        (.ioctlOffset seekto (Aesd.seekLoop s.dev.buffer n newPos currentIdx).1
          (Aesd.seekLoop s.dev.buffer n newPos currentIdx).2) s := by
  induction n generalizing newPos currentIdx with
  | zero => exact Monitor.finish_of_goesOn rfl
  | succ n ih =>
    rw [Monitor.finish_of_goesOn rfl]
    exact ih _ _

/-- `aesd_read` under the lock. -/
theorem finish_read (env : CallEnv) (count : Nat) (hi : env.interrupted = false) :
    (callMonitor K p).finish (.findCount env count) s.mutexLock = aesdRead K env s p (some count) := by
  rw [Monitor.finish_of_goesOn rfl, finish_find]
  simp only [aesdRead, hi, Bool.false_eq_true, ↓reduceIte, aesdCircularBufferFindEntryOffsetForFpos]
  generalize findLoop K s.mutexLock.dev.buffer _ _ _ _ = found
  cases found with
  | none => rfl
  | some f =>
    by_cases hcopy : env.copyFails = true
    · simp only [if_pos hcopy]
      rw [Monitor.finish_of_goesOn (if_pos hcopy), finish_unlock]
    · simp only [if_neg hcopy]
      exact (Monitor.finish_of_goesOn (if_neg hcopy)).trans (finish_unlock _)

theorem finish_seekTo (offset whence : Int) (totalSize : Nat) :
    (callMonitor K p).finish (.seekTo offset whence totalSize) s =
      match llseekPos p offset whence totalSize with
      | none => (⟨-einval, [], p⟩, s.mutexUnlock)
      | some newPos =>
        if newPos < 0 ∨ exceedsTotal K newPos totalSize then (⟨-einval, [], p⟩, s.mutexUnlock)
        else (⟨newPos, [], newPos⟩, s.mutexUnlock) := by
  rw [Monitor.finish_eq]
  cases hpos : llseekPos p offset whence totalSize with
  | none => simp only [callMonitor_step, step, hpos, finish_unlock]
  | some newPos =>
    by_cases hbound : newPos < 0 ∨ exceedsTotal K newPos totalSize = true
    · simp only [callMonitor_step, step, hpos, if_pos hbound, finish_unlock]
    · simp only [callMonitor_step, step, hpos, if_neg hbound, finish_unlock]

theorem aesdLlseek_eq (offset whence : Int) :
    aesdLlseek K false s p offset whence =
      let totalSize := aesdGetTotalBufferSize K s.mutexLock.dev.buffer
      match llseekPos p offset whence totalSize with
      | none => (-einval, p, s.mutexLock.mutexUnlock)
      | some newPos =>
        if newPos < 0 ∨ exceedsTotal K newPos totalSize then (-einval, p, s.mutexLock.mutexUnlock)
        else (newPos, newPos, s.mutexLock.mutexUnlock) := rfl

/-- `aesd_llseek` under the lock. -/
theorem finish_llseek (offset whence : Int) :
    (callMonitor K p).finish (.totalCount offset whence) s.mutexLock =
      let res := aesdLlseek K false s p offset whence
      (⟨res.1, [], res.2.1⟩, res.2.2) := by
  rw [Monitor.finish_of_goesOn rfl, finish_total, ← aesdGetTotalBufferSize, finish_seekTo,
    aesdLlseek_eq]
  dsimp only
  generalize aesdGetTotalBufferSize K s.mutexLock.dev.buffer = totalSize
  cases llseekPos p offset whence totalSize with
  | none => rfl
  | some newPos =>
    simp only
    split <;> rfl

/-- `aesd_unlocked_ioctl` under the lock. -/
theorem finish_ioctl (env : CallEnv) (arg : AesdSeekto) (hc : env.copyFails = false)
    (hi : env.interrupted = false) :
    (callMonitor K p).finish (.ioctlCount arg) s.mutexLock =
      let res := aesdUnlockedIoctl env s p aesdcharIocseekto arg
      (⟨res.1, [], res.2.1⟩, res.2.2) := by
  simp only [aesdUnlockedIoctl, hc, hi, Bool.false_eq_true, ↓reduceIte]
  by_cases hcount : s.mutexLock.dev.buffer.count ≤ arg.writeCmd.toNat
  · simp only [if_pos hcount]
    rw [Monitor.finish_of_goesOn (if_pos hcount), finish_unlock]
  · simp only [if_neg hcount]
    rw [Monitor.finish_of_goesOn (if_neg hcount), finish_ioctlSeek]
    generalize Aesd.seekLoop s.mutexLock.dev.buffer _ _ _ = found
    by_cases hsize :
        (s.mutexLock.dev.buffer.slot found.2.toNat).size ≤ arg.writeCmdOffset.toNat
    · simp only [if_pos hsize]
      rw [Monitor.finish_of_goesOn (if_pos hsize), finish_unlock]
    · simp only [if_neg hsize]
      rw [Monitor.finish_of_goesOn (if_neg hsize), finish_unlock]

/-- `out_free`, and the return. -/
theorem finish_kfree (tmpBuf : Nat) (retval : Int) :
    (callMonitor K p).finish (.kfree tmpBuf retval) s =
      (⟨retval, [], p⟩, Driver.mutexUnlock { s with heap := s.heap.free tmpBuf }) := by
  rw [Monitor.finish_of_goesOn rfl, finish_unlock]

/-- `aesd_handle_complete_command`, and what follows it. -/
theorem finish_evict (chunk : Bytes) (tmpBuf : Nat) :
    (callMonitor K p).finish (.evict chunk tmpBuf) s =
      (callMonitor K p).finish (.kfree tmpBuf (K.ssizeT chunk.length))
        (aesdHandleCompleteCommand s) := by
  unfold aesdHandleCompleteCommand
  cases hwb : s.dev.writeBuf with
  | none =>
    refine Monitor.finish_of_goesOn ?_
    simp only [callMonitor_step, step, hwb]
  | some wb =>
    have hstep : (callMonitor K p).step (.evict chunk tmpBuf) s =
        .goesOn (.addEntry chunk tmpBuf ⟨some wb, s.dev.writeBufSize⟩)
          (if s.dev.buffer.full then s.freeSlot s.dev.buffer.outOffs.toNat else s) := by
      simp only [callMonitor_step, step, hwb]
    rw [Monitor.finish_of_goesOn hstep, Monitor.finish_of_goesOn rfl]

/-- `memchr` over `write_buf`, and what follows it. -/
theorem finish_memchr (chunk : Bytes) (tmpBuf : Nat) :
    (callMonitor K p).finish (.memchr chunk tmpBuf) s =
      (callMonitor K p).finish (.kfree tmpBuf (K.ssizeT chunk.length))
        (if s.memchrNewline.1 then aesdHandleCompleteCommand s.memchrNewline.2
          else s.memchrNewline.2) := by
  rw [Monitor.finish_eq]
  simp only [callMonitor_step, step]
  generalize s.memchrNewline = found
  obtain ⟨_ | _, s⟩ := found
  · rfl
  · exact finish_evict chunk tmpBuf

/-- `memcpy` and the terminating zero, and what follows them. -/
theorem finish_memcpy (chunk : Bytes) (tmpBuf newBuf at_ newSize : Nat) :
    (callMonitor K p).finish (.memcpy chunk tmpBuf newBuf at_ newSize) s =
      (callMonitor K p).finish (.memchr chunk tmpBuf)
        (Driver.terminate
          { dev := { s.dev with writeBuf := some newBuf, writeBufSize := newSize }
            heap := (s.heap.load tmpBuf 0 chunk.length).2.store newBuf at_
              (s.heap.load tmpBuf 0 chunk.length).1 } newBuf) :=
  (Monitor.finish_of_goesOn rfl).trans (Monitor.finish_of_goesOn rfl)

/-- `aesd_handle_write_buffer`, and what follows it. -/
theorem finish_grow (env : WriteEnv) (chunk : Bytes) (tmpBuf : Nat) :
    (callMonitor K p).finish (.grow env chunk tmpBuf) s =
      let res := aesdHandleWriteBuffer K env.grow s (some tmpBuf) chunk.length
      if res.1 < 0 then (callMonitor K p).finish (.kfree tmpBuf res.1) res.2
      else (callMonitor K p).finish (.memchr chunk tmpBuf) res.2 := by
  have hneg : -enomem < 0 := by decide
  unfold aesdHandleWriteBuffer
  rw [Monitor.finish_eq, callMonitor_step, step]
  cases hwb : s.dev.writeBuf with
  | none =>
    simp only
    rcases s.heap.alloc K.mem env.grow (K.sizeT (chunk.length + 1)) with ⟨_ | wb, h⟩
    · simp only [if_pos hneg]
    · simp only [finish_memcpy, Int.lt_irrefl, if_false]
  | some wb =>
    simp only
    rcases s.heap.realloc K.mem env.grow wb
      (K.sizeT (K.sizeT (s.dev.writeBufSize + chunk.length) + 1)) with ⟨_ | newBuf, h⟩
    · simp only [if_pos hneg]
    · simp only [finish_memcpy, Int.lt_irrefl, if_false]

/-- `aesd_write` between its `kmalloc` and `out_free`, and what follows it. -/
theorem finish_copyFromUser (env : WriteEnv) (chunk : Bytes) (tmpBuf : Nat) :
    (callMonitor K p).finish (.copyFromUser env chunk tmpBuf) s =
      let res := aesdWriteCopied K env s tmpBuf chunk
      (callMonitor K p).finish (.kfree tmpBuf res.1) res.2 := by
  unfold aesdWriteCopied
  by_cases hcopy : env.copyFails = true
  · rw [Monitor.finish_of_goesOn (if_pos hcopy)]
    simp only [if_pos hcopy]
  · rw [Monitor.finish_of_goesOn (if_neg hcopy), finish_grow]
    simp only [if_neg hcopy]
    split
    · rfl
    · rw [finish_memchr]

/-- `aesd_write` under the lock. -/
theorem finish_write (env : WriteEnv) (chunk : Bytes) (hc : chunk.length ≠ 0)
    (hi : env.interrupted = false) :
    (callMonitor K p).finish (.kmalloc env chunk) s.mutexLock =
      let res := aesdWrite K env s (some chunk)
      (⟨res.1, [], p⟩, res.2) := by
  rw [Monitor.finish_eq]
  simp only [callMonitor_step, step, aesdWrite, if_neg hc, hi, Bool.false_eq_true, ↓reduceIte]
  generalize s.mutexLock.heap.alloc K.mem env.tmp _ = res
  obtain ⟨_ | tmpBuf, h⟩ := res
  · simp only [finish_unlock]
  · simp only [finish_copyFromUser, finish_kfree]

end CallPc

/-- A call that gets the lock does what its code under the lock does alone. -/
theorem FileCall.run_eq_finish (hr : c.refused = none) (hi : c.interrupted = false) :
    c.run K s p = (callMonitor K p).finish c.start s.mutexLock := by
  cases c with
  | read env buf =>
    cases buf with
    | none => cases hr
    | some count => exact (CallPc.finish_read env count hi).symm
  | write env buf =>
    cases buf with
    | none => cases hr
    | some chunk =>
      have hc : chunk.length ≠ 0 := fun h => by simp [refused, h] at hr
      exact (CallPc.finish_write env chunk hc hi).symm
  | llseek interrupted offset whence =>
    obtain rfl : interrupted = false := hi
    exact (CallPc.finish_llseek offset.toInt whence.toInt).symm
  | ioctl env cmd arg =>
    simp only [refused] at hr
    split at hr
    · rename_i hcmd
      subst hcmd
      split at hr
      · cases hr
      · rename_i hcopy
        exact (CallPc.finish_ioctl env arg (by simpa using hcopy) hi).symm
    · cases hr

theorem FileCall.run_of_interrupted (hr : c.refused = none) (hi : c.interrupted = true) :
    c.run K s p = (⟨-erestartsys, [], p⟩, s) := by
  cases c with
  | read env buf =>
    cases buf with
    | none => cases hr
    | some count => simp only [run, aesdRead, show env.interrupted = true from hi, if_true]
  | write env buf =>
    cases buf with
    | none => cases hr
    | some chunk =>
      have hc : chunk.length ≠ 0 := fun h => by simp [refused, h] at hr
      simp only [run, aesdWrite, if_neg hc, show env.interrupted = true from hi, if_true]
  | llseek interrupted offset whence =>
    obtain rfl : interrupted = true := hi
    rfl
  | ioctl env cmd arg =>
    simp only [refused] at hr
    split at hr
    · rename_i hcmd
      split at hr
      · cases hr
      · rename_i hcopy
        simp only [run, aesdUnlockedIoctl, if_pos hcmd, if_neg hcopy,
          show env.interrupted = true from hi, if_true]
    · cases hr

/-! ## What a statement keeps -/

/-- The lock is as before, and no fault of the heap is forgotten. -/
structure CallPc.Kept (s s' : Driver) : Prop where
  lock : s'.dev.lock = s.dev.lock
  faults : s.heap.faults <+: s'.heap.faults

namespace CallPc

theorem Kept.refl (s : Driver) : Kept s s := ⟨rfl, List.prefix_rfl⟩

theorem kept_freeSlot (i : Nat) : Kept s (s.freeSlot i) := by
  unfold Driver.freeSlot
  split
  · exact .refl s
  · exact ⟨rfl, Heap.faults_free _⟩

theorem kept_memchrNewline : Kept s s.memchrNewline.2 := by
  unfold Driver.memchrNewline
  split
  · exact ⟨rfl, Heap.faults_fault _⟩
  · exact ⟨rfl, Heap.faults_load _ _ _⟩

variable {s' : Driver} {pc pc' : CallPc} {res : ReadResult}

theorem kept_of_goesOn (h : pc.step K p s = .goesOn pc' s') : Kept s s' := by
  cases pc with
  | findCount | totalCount | kfree =>
    cases h
    first | exact .refl s | exact ⟨rfl, Heap.faults_free _⟩
  | find env count charOffset n currentPos currentIdx =>
    cases n with
    | zero =>
      cases h
      exact .refl s
    | succ n =>
      simp only [step] at h
      split at h <;> cases h <;> exact .refl s
  | copyToUser env count idx entryOffset =>
    simp only [step] at h
    split at h
    · cases h
      exact .refl s
    · cases h
      refine ⟨rfl, ?_⟩
      split
      · exact Heap.faults_load _ _ _
      · exact Heap.faults_fault _
  | total offset whence n totalSize currentIdx => cases n <;> cases h <;> exact .refl s
  | seekTo =>
    simp only [step] at h
    split at h
    · cases h
      exact .refl s
    · split at h <;> cases h <;> exact .refl s
  | ioctlCount | ioctlOffset =>
    simp only [step] at h
    split at h <;> cases h <;> exact .refl s
  | ioctlSeek seekto n newPos currentIdx => cases n <;> cases h <;> exact .refl s
  | kmalloc env chunk =>
    have hf := Heap.faults_alloc (h := s.heap) K.mem env.tmp chunk.length
    simp only [step] at h
    split at h
    all_goals
      rename_i heq
      cases h
      rw [heq] at hf
      exact ⟨rfl, hf⟩
  | copyFromUser =>
    simp only [step] at h
    split at h <;> cases h
    · exact .refl s
    · exact ⟨rfl, Heap.faults_store _ _ _⟩
  | grow env chunk tmpBuf =>
    simp only [step] at h
    split at h
    · rename_i wb hwb
      have hf := Heap.faults_realloc (h := s.heap) K.mem env.grow wb
        (K.sizeT (K.sizeT (s.dev.writeBufSize + chunk.length) + 1))
      split at h
      all_goals
        rename_i heq
        cases h
        rw [heq] at hf
        exact ⟨rfl, hf⟩
    · have hf := Heap.faults_alloc (h := s.heap) K.mem env.grow (K.sizeT (chunk.length + 1))
      split at h
      all_goals
        rename_i heq
        cases h
        rw [heq] at hf
        exact ⟨rfl, hf⟩
  | memcpy =>
    cases h
    exact ⟨rfl, (Heap.faults_load _ _ _).trans (Heap.faults_store _ _ _)⟩
  | terminate =>
    cases h
    exact ⟨rfl, Heap.faults_store _ _ _⟩
  | memchr =>
    simp only [step] at h
    split at h <;> cases h <;> exact kept_memchrNewline
  | evict =>
    simp only [step] at h
    split at h
    · cases h
      exact .refl s
    · cases h
      split
      · exact kept_freeSlot _
      · exact .refl s
  | addEntry =>
    cases h
    exact ⟨rfl, List.prefix_rfl⟩
  | unlock => cases h

/-- Only the last statement returns, and it gives the lock back. -/
theorem of_returns (h : pc.step K p s = .returns res s') : pc = .unlock res ∧ s' = s.mutexUnlock := by
  cases pc with
  | unlock =>
    cases h
    exact ⟨rfl, rfl⟩
  | find env count charOffset n currentPos currentIdx =>
    cases n with
    | zero => cases h
    | succ n =>
      simp only [step] at h
      split at h <;> cases h
  | total offset whence n totalSize currentIdx => cases n <;> cases h
  | ioctlSeek seekto n newPos currentIdx => cases n <;> cases h
  | findCount | totalCount | memcpy | terminate | addEntry | kfree => cases h
  | seekTo | grow =>
    simp only [step] at h
    split at h
    · first | cases h | split at h <;> cases h
    · split at h <;> cases h
  | _ =>
    simp only [step] at h
    split at h <;> cases h

/-- The faults of the heap at any statement are among those at the end. -/
theorem faults_finish (K : Kernel) (p : Int) (pc : CallPc) (s : Driver) :
    s.heap.faults <+: ((callMonitor K p).finish pc s).2.heap.faults := by
  induction hn : pc.rank using Nat.strongRecOn generalizing pc s with
  | _ n ih =>
    subst hn
    cases hs : pc.step K p s with
    | goesOn pc' s' =>
      rw [Monitor.finish_of_goesOn hs]
      exact (kept_of_goesOn hs).faults.trans (ih _ (rank_lt hs) pc' s' rfl)
    | returns res s' =>
      rw [Monitor.finish_of_returns hs, (of_returns hs).2]
      exact List.prefix_rfl

end CallPc

end

end Aesd
