import Aesd.Driver.Device

/-!
# File operations on the device (`aesd-char-fileops.c`, `aesd-circular-buffer-find.c`)

`aesd_read`, `aesd_llseek` and `aesd_unlocked_ioctl` on an open file, which is its position: a
64-bit `loff_t`. `aesd_write` is in `Aesd/Driver/Device.lean`.
-/

namespace Aesd

/-- A conversion to `loff_t`: 64 bits on every target. -/
def loffT (p : Int) : Int := Int.bmod p (2 ^ 64)

/-- A conversion of a `loff_t` to `size_t`. -/
def Kernel.sizeOfLoff (K : Kernel) (p : Int) : Nat := (p % 2 ^ K.sizeBits).toNat

/-- The difference of two `size_t`. -/
def Kernel.sizeSub (K : Kernel) (a b : Nat) : Nat := K.sizeOfLoff (a - b)

/-! ## `aesd-circular-buffer-find.c` -/

/-- The loop of `aesd_circular_buffer_find_entry_offset_for_fpos` over the next `n` entries: the slot
number of the entry it returns, and `*entry_offset_byte_rtn`. -/
def findLoop (K : Kernel) (b : AesdCircularBuffer) (charOffset : Nat) :
    Nat → Nat → UInt8 → Option (Nat × Nat)
  | 0, _, _ => none
  | n + 1, currentPos, currentIdx =>
    let entrySize := (b.slot currentIdx.toNat).size
    if charOffset < K.sizeT (currentPos + entrySize) then
      some (currentIdx.toNat, K.sizeSub charOffset currentPos)
    else findLoop K b charOffset n (K.sizeT (currentPos + entrySize)) (incOffs currentIdx)

/-- `aesd_circular_buffer_find_entry_offset_for_fpos`. -/
def aesdCircularBufferFindEntryOffsetForFpos (K : Kernel) (b : AesdCircularBuffer)
    (charOffset : Nat) : Option (Nat × Nat) :=
  findLoop K b charOffset b.count 0 b.outOffs

/-! ## `aesd_read` -/

/-- What the kernel chooses in one call that takes the lock and copies to or from user space. -/
structure CallEnv where
  /-- `mutex_lock_interruptible` is interrupted. -/
  interrupted : Bool
  /-- `copy_to_user` or `copy_from_user` faults. -/
  copyFails : Bool
  deriving DecidableEq, Repr

/-- What a read gives: the return value, the bytes in the user buffer, the new file position. -/
structure ReadResult where
  retval : Int
  bytes : Bytes
  fPos : Int
  deriving DecidableEq, Repr

/-- `aesd_read` at the position `fPos`, into a user buffer of `count` bytes (`none` for `NULL`). -/
def aesdRead (K : Kernel) (env : CallEnv) (s : Driver) (fPos : Int) (buf : Option Nat) :
    ReadResult × Driver :=
  match buf with
  | none => (⟨-einval, [], fPos⟩, s)
  | some count =>
    if env.interrupted then (⟨-erestartsys, [], fPos⟩, s)
    else
      let s := s.mutexLock
      match aesdCircularBufferFindEntryOffsetForFpos K s.dev.buffer (K.sizeOfLoff fPos) with
      | none => (⟨0, [], fPos⟩, s.mutexUnlock)
      | some (idx, entryOffset) =>
        let entry := s.dev.buffer.slot idx
        let bytesToRead := min count (K.sizeSub entry.size entryOffset)
        if env.copyFails then (⟨-efault, [], fPos⟩, s.mutexUnlock)
        else
          let (bytes, h) := match entry.buffptr with
            | some p => s.heap.load p entryOffset bytesToRead
            | none => ([], s.heap.fault (.badAccess 0))
          (⟨K.ssizeT bytesToRead, bytes, loffT (fPos + bytesToRead)⟩,
            Driver.mutexUnlock { s with heap := h })

/-! ## `aesd_llseek` -/

/-- The loop of `aesd_get_total_buffer_size` over the next `n` entries. -/
def totalLoop (K : Kernel) (b : AesdCircularBuffer) : Nat → Nat → UInt8 → Nat
  | 0, totalSize, _ => totalSize
  | n + 1, totalSize, currentIdx =>
    totalLoop K b n (K.sizeT (totalSize + (b.slot currentIdx.toNat).size)) (incOffs currentIdx)

/-- `aesd_get_total_buffer_size`. -/
def aesdGetTotalBufferSize (K : Kernel) (b : AesdCircularBuffer) : Nat :=
  totalLoop K b b.count 0 b.outOffs

/-- `new_pos > total_size`: on a 64-bit target both are converted to `size_t`, on a narrower one to
`loff_t`. -/
def exceedsTotal (K : Kernel) (newPos : Int) (totalSize : Nat) : Bool :=
  if 64 ≤ K.sizeBits then totalSize < K.sizeOfLoff newPos else (totalSize : Int) < newPos

/-- `aesd_llseek` of a file at `fPos`: the return value and the new position. -/
def aesdLlseek (K : Kernel) (interrupted : Bool) (s : Driver) (fPos offset : Int) (whence : Int) :
    Int × Int × Driver :=
  if interrupted then (-erestartsys, fPos, s)
  else
    let s := s.mutexLock
    let totalSize := aesdGetTotalBufferSize K s.dev.buffer
    let newPos := match whence with
      | 0 => some offset
      | 1 => some (loffT (fPos + offset))
      | 2 => some (loffT (totalSize + offset))
      | _ => none
    match newPos with
    | none => (-einval, fPos, s.mutexUnlock)
    | some newPos =>
      if newPos < 0 ∨ exceedsTotal K newPos totalSize then (-einval, fPos, s.mutexUnlock)
      else (newPos, newPos, s.mutexUnlock)

/-! ## `aesd_unlocked_ioctl` -/

/-- `struct aesd_seekto`. -/
structure AesdSeekto where
  writeCmd : UInt32
  writeCmdOffset : UInt32
  deriving DecidableEq, Repr

/-- `AESDCHAR_IOCSEEKTO`: `_IOWR(0x16, 1, struct aesd_seekto)`. -/
def aesdcharIocseekto : UInt32 := 0xC0081601

/-- The loop of `aesd_unlocked_ioctl` over the next `n` entries: `new_pos` and `current_idx`. -/
def seekLoop (b : AesdCircularBuffer) : Nat → Int → UInt8 → Int × UInt8
  | 0, newPos, currentIdx => (newPos, currentIdx)
  | n + 1, newPos, currentIdx =>
    seekLoop b n (loffT (newPos + (b.slot currentIdx.toNat).size)) (incOffs currentIdx)

/-- `aesd_unlocked_ioctl` of a file at `fPos`, with the structure behind `arg`: the return value and
the new position. -/
def aesdUnlockedIoctl (env : CallEnv) (s : Driver) (fPos : Int) (cmd : UInt32) (seekto : AesdSeekto) :
    Int × Int × Driver :=
  if cmd = aesdcharIocseekto then
    if env.copyFails then (-efault, fPos, s)
    else if env.interrupted then (-erestartsys, fPos, s)
    else
      let s := s.mutexLock
      if s.dev.buffer.count ≤ seekto.writeCmd.toNat then (-einval, fPos, s.mutexUnlock)
      else
        let (newPos, currentIdx) := seekLoop s.dev.buffer seekto.writeCmd.toNat 0 s.dev.buffer.outOffs
        if (s.dev.buffer.slot currentIdx.toNat).size ≤ seekto.writeCmdOffset.toNat then
          (-einval, fPos, s.mutexUnlock)
        else
          let newPos := loffT (newPos + seekto.writeCmdOffset.toNat)
          (0, newPos, s.mutexUnlock)
  else (-enotty, fPos, s)

end Aesd
