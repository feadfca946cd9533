import Aesd.Driver.CircularBuffer
import Aesd.Lib.Heap

/-!
# The device: its state and the write path (`char-driver/`)

`struct aesd_dev` over the kernel heap, `aesd_write` with the two functions of
`aesd-char-buffer.c` that it calls, and `aesd_cleanup_device`. Pointers are ids of heap blocks;
`size_t` has the width of the target (`Kernel.sizeBits`), and its arithmetic wraps.

The kernel is a parameter: how much memory it has, and in each call (`WriteEnv`) whether the lock is
interrupted, which allocations fail, whether a reallocation stays in place, what fresh memory
holds and whether the copy from user space faults.
-/

namespace Aesd

/-- The bytes that files and sockets carry. -/
abbrev Bytes := List UInt8

/-- The character `'\n'`. -/
def newline : UInt8 := 10

/-- `c == '\n'`. -/
def isNewline (c : UInt8) : Bool := c == newline

/-- The kernel that the driver is loaded into. All heap blocks lie in the kernel's half of the
address space, so together they have less than half of `2 ^ sizeBits` bytes. -/
structure Kernel where
  /-- The width of `size_t`. -/
  sizeBits : Nat
  /-- The bytes that `kmalloc` can have given out at one time. -/
  mem : Nat
  sizeBits_pos : 0 < sizeBits
  sizeBits_le : sizeBits ≤ 64
  mem_lt : mem < 2 ^ (sizeBits - 1)

/-- A 64-bit kernel. -/
def kernel64 : Kernel where
  sizeBits := 64
  mem := 2 ^ 62
  sizeBits_pos := by decide
  sizeBits_le := by decide
  mem_lt := by decide

/-- A conversion to `size_t`. -/
def Kernel.sizeT (K : Kernel) (n : Nat) : Nat := n % 2 ^ K.sizeBits

/-- A conversion of a `size_t` to `ssize_t`. -/
def Kernel.ssizeT (K : Kernel) (n : Nat) : Int := Int.bmod n (2 ^ K.sizeBits)

/-! ## Error numbers -/

def einval : Int := 22
def enomem : Int := 12
def efault : Int := 14
def enotty : Int := 25
def erestartsys : Int := 512

@[simp] theorem einval_pos : 0 < einval := by decide
@[simp] theorem enomem_pos : 0 < enomem := by decide
@[simp] theorem efault_pos : 0 < efault := by decide
@[simp] theorem enotty_pos : 0 < enotty := by decide
@[simp] theorem erestartsys_pos : 0 < erestartsys := by decide

/-! ## State -/

/-- `struct aesd_dev`, without the `cdev` that only the registration reads. -/
structure AesdDev where
  buffer : AesdCircularBuffer
  /-- The mutex is held. -/
  lock : Bool
  writeBuf : Option Nat
  writeBufSize : Nat
  deriving DecidableEq, Repr

/-- The device and the kernel heap. -/
structure Driver where
  dev : AesdDev
  heap : Heap UInt8
  deriving DecidableEq, Repr

/-- The device after `aesd_init`: zeroed memory, `mutex_init`, `aesd_circular_buffer_init`. -/
def aesdInit : Driver :=
  { dev := { buffer := aesdCircularBufferInit, lock := false, writeBuf := none, writeBufSize := 0 }
    heap := .empty }

def Driver.mutexLock (s : Driver) : Driver := { s with dev := { s.dev with lock := true } }

def Driver.mutexUnlock (s : Driver) : Driver := { s with dev := { s.dev with lock := false } }

/-! ## `aesd-char-buffer.c` -/

/-- `dev->write_buf[dev->write_buf_size] = '\0'`, at the end of `aesd_handle_write_buffer`. -/
def Driver.terminate (s : Driver) (wb : Nat) : Driver :=
  { s with heap := s.heap.store wb s.dev.writeBufSize [0] }

/-- `aesd_handle_write_buffer`: append `count` bytes of the block `new_data` to `write_buf`. -/
def aesdHandleWriteBuffer (K : Kernel) (c : Heap.Choice UInt8) (s : Driver) (newData : Option Nat)
    (count : Nat) : Int × Driver :=
  match newData with
  | none => (-einval, s)
  | some newData =>
    match s.dev.writeBuf with
    | some wb =>
      let newSize := K.sizeT (s.dev.writeBufSize + count)
      match s.heap.realloc K.mem c wb (K.sizeT (newSize + 1)) with
      | (none, h) => (-enomem, { s with heap := h })
      | (some newBuf, h) =>
        let (data, h) := h.load newData 0 count
        let h := h.store newBuf s.dev.writeBufSize data
        let dev := { s.dev with writeBuf := some newBuf, writeBufSize := newSize }
        (0, Driver.terminate { dev := dev, heap := h } newBuf)
    | none =>
      match s.heap.alloc K.mem c (K.sizeT (count + 1)) with
      | (none, h) => (-enomem, { s with heap := h })
      | (some wb, h) =>
        let (data, h) := h.load newData 0 count
        let h := h.store wb 0 data
        let dev := { s.dev with writeBuf := some wb, writeBufSize := count }
        (0, Driver.terminate { dev := dev, heap := h } wb)

/-- `kfree` of the entry in slot `i`, and the slot cleared; nothing for a `NULL` entry. -/
def Driver.freeSlot (s : Driver) (i : Nat) : Driver :=
  match (s.dev.buffer.slot i).buffptr with
  | none => s
  | some p =>
    { dev := { s.dev with
        buffer := { s.dev.buffer with entry := s.dev.buffer.entry.setIfInBounds i .null } }
      heap := s.heap.free p }

/-- `aesd_handle_complete_command`: move `write_buf` to the ring; a full ring frees its oldest entry
first. -/
def aesdHandleCompleteCommand (s : Driver) : Driver :=
  match s.dev.writeBuf with
  | none => s
  | some wb =>
    let entry : AesdBufferEntry := ⟨some wb, s.dev.writeBufSize⟩
    let s := if s.dev.buffer.full then s.freeSlot s.dev.buffer.outOffs.toNat else s
    { s with dev := { s.dev with
        writeBuf := none
        writeBufSize := 0
        buffer := aesdCircularBufferAddEntry s.dev.buffer entry } }

/-! ## `aesd_write` -/

/-- What the kernel chooses in one call of `aesd_write`. -/
structure WriteEnv where
  /-- `mutex_lock_interruptible` is interrupted. -/
  interrupted : Bool
  /-- The `kmalloc` of the temporary buffer. -/
  tmp : Heap.Choice UInt8
  /-- `copy_from_user` faults. -/
  copyFails : Bool
  /-- The `krealloc` or `kmalloc` of `aesd_handle_write_buffer`. -/
  grow : Heap.Choice UInt8
  deriving DecidableEq, Repr

/-- Nothing fails. -/
def WriteEnv.succeeds : WriteEnv :=
  { interrupted := false, tmp := ⟨false, false, 0⟩, copyFails := false, grow := ⟨false, false, 0⟩ }

/-- `memchr(dev->write_buf, '\n', dev->write_buf_size)`. -/
def Driver.memchrNewline (s : Driver) : Bool × Driver :=
  match s.dev.writeBuf with
  | none => (false, { s with heap := s.heap.fault (.badAccess 0) })
  | some wb =>
    let (bs, h) := s.heap.load wb 0 s.dev.writeBufSize
    (bs.any isNewline, { s with heap := h })

/-- `aesd_write` between its `kmalloc` and `out_free`. -/
def aesdWriteCopied (K : Kernel) (env : WriteEnv) (s : Driver) (tmpBuf : Nat) (chunk : Bytes) :
    Int × Driver :=
  if env.copyFails then (-efault, s)
  else
    let s := { s with heap := s.heap.store tmpBuf 0 chunk }
    let (result, s) := aesdHandleWriteBuffer K env.grow s (some tmpBuf) chunk.length
    if result < 0 then (result, s)
    else
      let (newline, s) := s.memchrNewline
      (K.ssizeT chunk.length, if newline then aesdHandleCompleteCommand s else s)

/-- `aesd_write` of the user buffer `buf` (`none` for `NULL`); `count` is its length. -/
def aesdWrite (K : Kernel) (env : WriteEnv) (s : Driver) (buf : Option Bytes) : Int × Driver :=
  match buf with
  | none => (-einval, s)
  | some chunk =>
    if chunk.length = 0 then (-einval, s)
    else if env.interrupted then (-erestartsys, s)
    else
      let s := s.mutexLock
      match s.heap.alloc K.mem env.tmp chunk.length with
      | (none, h) => (-enomem, Driver.mutexUnlock { s with heap := h })
      | (some tmpBuf, h) =>
        let (retval, s) := aesdWriteCopied K env { s with heap := h } tmpBuf chunk
        (retval, Driver.mutexUnlock { s with heap := s.heap.free tmpBuf })

/-! ## `aesd-char-device.c` -/

/-- `aesd_cleanup_device`: free `write_buf`, then sweep all slots of the ring. -/
def aesdCleanupDevice (s : Driver) : Driver :=
  let s := match s.dev.writeBuf with
    | none => s
    | some wb =>
      { dev := { s.dev with writeBuf := none, writeBufSize := 0 }, heap := s.heap.free wb }
  (List.range maxWriteOperationsSupported).foldl Driver.freeSlot s

/-! ## What the state holds -/

namespace Driver

/-- The bytes of an entry: the first `size` bytes behind `buffptr`. -/
def entryBytes (s : Driver) (e : AesdBufferEntry) : Bytes :=
  ((e.buffptr.bind s.heap.block?).getD []).take e.size

/-- The retained commands, oldest first. -/
def commands (s : Driver) : List Bytes := s.dev.buffer.live.map s.entryBytes

/-- The first `write_buf_size` bytes of `write_buf`. -/
def pendingBytes (s : Driver) : Bytes :=
  ((s.dev.writeBuf.bind s.heap.block?).getD []).take s.dev.writeBufSize

end Driver

end Aesd
