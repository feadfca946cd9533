import Aesd.Driver.Fileops
import Aesd.Driver.WritePath
import Aesd.Lib.Concat
import Mathlib.Algebra.Order.BigOperators.Group.List
import Mathlib.Algebra.Order.Group.Nat

/-!
# The specification of reads and seeks

A reader sees the concatenation of the retained commands. A read returns bytes of one command only
(`readAt`), from the position on; a seek to byte `Y` of command `X` finds its position in the
concatenation (`seekAt`).

* `findEntryOffset_eq`: the search is `Concat.locate`, for every ring whose sizes fit a `size_t`.
* `aesdRead_spec`, `aesdUnlockedIoctl_eq`: the calls, on a device that holds a view; neither
  changes the device.
-/

namespace Aesd

variable {K : Kernel} {s : Driver} {v : View}

/-! ## `size_t` and `loff_t` -/

theorem Kernel.sizeOfLoff_of_lt {n : Nat} (h : n < 2 ^ K.sizeBits) : K.sizeOfLoff n = n := by
  have : ((n : Int) % 2 ^ K.sizeBits) = ((n % 2 ^ K.sizeBits : Nat) : Int) := by simp
  rw [Kernel.sizeOfLoff, this, Int.toNat_natCast, Nat.mod_eq_of_lt h]

theorem Kernel.sizeOfLoff_lt (p : Int) : K.sizeOfLoff p < 2 ^ K.sizeBits := by
  have h : (0 : Int) < 2 ^ K.sizeBits := Int.pow_pos (by decide)
  have h1 := Int.emod_lt_of_pos p h
  have h2 := Int.emod_nonneg p (Int.ne_of_gt h)
  rw [Kernel.sizeOfLoff, ← Int.ofNat_lt, Int.toNat_of_nonneg h2]
  exact_mod_cast h1

theorem Kernel.sizeSub_of_le {a b : Nat} (hb : b ≤ a) (ha : a < 2 ^ K.sizeBits) :
    K.sizeSub a b = a - b := by
  have : (a : Int) - b = ((a - b : Nat) : Int) := by omega
  rw [Kernel.sizeSub, this, Kernel.sizeOfLoff_of_lt (by omega)]

theorem Kernel.mem_lt_loff (K : Kernel) : K.mem < 2 ^ 63 :=
  Nat.lt_of_lt_of_le K.mem_lt
    (Nat.pow_le_pow_right (by decide) (by have := K.sizeBits_le; omega))

theorem loffT_of_lt {n : Nat} (h : n < 2 ^ 63) : loffT n = n := by
  rw [loffT, Int.bmod_eq_of_le] <;> omega

/-! ## The search over the entries -/

/-- The loop, over entries whose sizes do not wrap. -/
theorem findLoop_eq {b : AesdCircularBuffer} {o n pos : Nat} {idx : UInt8}
    (hidx : idx.toNat < maxWriteOperationsSupported) (hpos : pos ≤ o) (ho : o < 2 ^ K.sizeBits)
    (hsum : pos + ((Circular.window maxWriteOperationsSupported b.slot idx.toNat n).map
      (·.size)).sum < 2 ^ K.sizeBits) :
    findLoop K b o n pos idx =
      (Concat.locate ((Circular.window maxWriteOperationsSupported b.slot idx.toNat n).map (·.size))
        (o - pos)).map fun p =>
          (Circular.slot maxWriteOperationsSupported idx.toNat p.1, p.2) := by
  induction n generalizing pos idx with
  | zero => rfl
  | succ n ih =>
    have hslot : Circular.slot maxWriteOperationsSupported idx.toNat 0 = idx.toNat :=
      Circular.slot_zero hidx
    rw [Circular.window_cons, hslot, List.map_cons, List.sum_cons] at hsum
    rw [Circular.window_cons, hslot, List.map_cons, findLoop]
    have hsz : K.sizeT (pos + (b.slot idx.toNat).size) = pos + (b.slot idx.toNat).size :=
      Nat.mod_eq_of_lt (by omega)
    simp only [hsz]
    by_cases hlt : o < pos + (b.slot idx.toNat).size
    · rw [if_pos hlt, Concat.locate_cons_of_lt (by omega), Kernel.sizeSub_of_le hpos ho]
      simp [hslot]
    · have hinc : (incOffs idx).toNat = (idx.toNat + 1) % maxWriteOperationsSupported :=
        incOffs_toNat idx
      rw [if_neg hlt, Concat.locate_cons_of_le (by omega), ih, hinc, Option.map_map, Nat.sub_add_eq]
      · congr 1
        funext p
        simp [Circular.slot_next]
      · rw [hinc]
        exact Nat.mod_lt _ (by decide)
      · omega
      · rw [hinc]
        omega

/-- The search is a search in the sizes of the live entries. -/
theorem findEntryOffset_eq {b : AesdCircularBuffer} {n o : Nat} (h : b.RingInv n)
    (hsum : (b.live.map (·.size)).sum < 2 ^ K.sizeBits) (ho : o < 2 ^ K.sizeBits) :
    aesdCircularBufferFindEntryOffsetForFpos K b o =
      (Concat.locate (b.live.map (·.size)) o).map fun p =>
        (Circular.slot maxWriteOperationsSupported b.outOffs.toNat p.1, p.2) := by
  rw [h.live_eq] at hsum ⊢
  rw [aesdCircularBufferFindEntryOffsetForFpos, h.count_eq,
    findLoop_eq h.out_lt (Nat.zero_le _) ho (by omega)]
  rfl

/-- All retained commands together fit the heap. -/
theorem Rep.sum_sizes_le (hr : Rep K s v []) : v.commands.flatten.length ≤ K.mem := by
  have h1 := hr.owns.total_eq
  have h2 := hr.owns.total
  have h3 : (v.live.map fun b => b.2.length).sum ≤
      (v.live.map fun b => (View.cell b).2.length).sum := by
    exact List.sum_le_sum fun b _ => by simp [View.cell]
  simp only [View.cells, List.nil_append, List.map_append, List.map_map, List.sum_append,
    Function.comp_def] at h1
  simp only [View.commands, List.length_flatten, List.map_map, Function.comp_def]
  omega

theorem Rep.length_live (hr : Rep K s v []) : s.dev.buffer.live.length = v.commands.length := by
  rw [hr.ring.live]
  simp [View.commands]

/-- The entry in the `k`-th live slot is the `k`-th retained command. -/
theorem Rep.slot_eq (hr : Rep K s v []) {k : Nat} {l : Bytes} (hk : v.commands[k]? = some l) :
    ∃ p, s.dev.buffer.slot (Circular.slot maxWriteOperationsSupported s.dev.buffer.outOffs.toNat k) =
      ⟨some p, l.length⟩ ∧ s.heap.block? p = some (l ++ [0]) := by
  obtain ⟨b, hb, rfl⟩ : ∃ b, v.live[k]? = some b ∧ b.2 = l := by
    simpa [View.commands, List.getElem?_map, Option.map_eq_some_iff] using hk
  have hlt : k < (v.live.map View.entry).length := by
    rw [List.length_map]
    exact (List.getElem?_eq_some_iff.mp hb).1
  have hlive := congrArg (·[k]?) (hr.ring.inv.live_eq.symm.trans hr.ring.live)
  simp only [Circular.getElem?_window hlt, List.getElem?_map, hb, Option.map_some,
    Option.some.injEq] at hlive
  exact ⟨b.1, hlive, hr.block? (List.mem_of_getElem? hb)⟩

/-! ## `aesd_read` -/

/-- What a read of `count` bytes at position `o` gives: bytes of the command that holds `o`. -/
def readAt (commands : List Bytes) (count o : Nat) : Bytes :=
  match Concat.locate (commands.map List.length) o with
  | none => []
  | some (k, i) => ((commands[k]?.getD []).drop i).take count

theorem readAt_of_locate {commands : List Bytes} {count o k i : Nat} {l : Bytes}
    (h : Concat.locate (commands.map List.length) o = some (k, i)) (hl : commands[k]? = some l) :
    readAt commands count o = (l.drop i).take count := by
  simp [readAt, h, hl]

theorem length_readAt_le (commands : List Bytes) (count o : Nat) :
    (readAt commands count o).length ≤ count := by
  unfold readAt
  split <;> simp

/-- At the end there is nothing. -/
theorem readAt_of_le {commands : List Bytes} {count o : Nat} (h : commands.flatten.length ≤ o) :
    readAt commands count o = [] := by
  rw [List.length_flatten] at h
  simp [readAt, Concat.locate_eq_none_iff.mpr h]

/-- Before the end a read gives something, and it is what comes next. -/
theorem readAt_of_lt {commands : List Bytes} {count o : Nat} (h : o < commands.flatten.length)
    (hc : 0 < count) :
    0 < (readAt commands count o).length ∧ (readAt commands count o).length ≤ count ∧
      readAt commands count o <+: commands.flatten.drop o := by
  rw [List.length_flatten] at h
  obtain ⟨k, i, hk⟩ := Concat.exists_locate h
  obtain ⟨l, hl, hi, hd⟩ := Concat.drop_flatten_of_locate hk
  rw [readAt_of_locate hk hl, hd]
  refine ⟨?_, by simp, ?_⟩
  · simp
    omega
  · exact (List.take_prefix _ _).trans (List.prefix_append _ _)

/-- A read gives bytes from its position on. -/
theorem readAt_isPrefix (commands : List Bytes) (count o : Nat) :
    readAt commands count o <+: commands.flatten.drop o := by
  by_cases h : o < commands.flatten.length
  · rcases Nat.eq_zero_or_pos count with rfl | hc
    · have hnil := List.length_eq_zero_iff.mp (Nat.le_zero.mp (length_readAt_le commands 0 o))
      rw [hnil]
      exact List.nil_prefix
    · exact (readAt_of_lt h hc).2.2
  · rw [readAt_of_le (by omega)]
    exact List.nil_prefix

/-- The search, on a device that holds a view. -/
theorem Rep.find_eq (hr : Rep K s v []) {o : Nat} (ho : o < 2 ^ K.sizeBits) :
    aesdCircularBufferFindEntryOffsetForFpos K s.dev.buffer o =
      (Concat.locate (v.commands.map List.length) o).map fun p =>
        (Circular.slot maxWriteOperationsSupported s.dev.buffer.outOffs.toNat p.1, p.2) := by
  rw [findEntryOffset_eq hr.ring.inv ?_ ho, hr.sizes_eq]
  rw [hr.sizes_eq, ← List.length_flatten]
  have := hr.sum_sizes_le
  have := K.two_mul_mem_lt
  omega

/-- Why a read fails, and the error it returns; `inside` says that its position is before the end. -/
inductive ReadRefused (env : CallEnv) (inside : Prop) : Option Nat → Int → Prop
  | null : ReadRefused env inside none (-einval)
  | interrupted {count : Nat} (h : env.interrupted = true) :
    ReadRefused env inside (some count) (-erestartsys)
  | faults {count : Nat} (hint : env.interrupted = false) (h : env.copyFails = true)
      (hin : inside) : ReadRefused env inside (some count) (-efault)

theorem ReadRefused.neg {env : CallEnv} {inside : Prop} {buf : Option Nat} {r : Int}
    (h : ReadRefused env inside buf r) : r < 0 := by
  cases h <;> decide

/-- A call of `aesd_read` leaves the device as it was. It fails and reads nothing, or it reads
`readAt` and advances the position. -/
theorem aesdRead_spec (env : CallEnv) {fPos : Int} (buf : Option Nat) (hr : Rep K s v [])
    (hlock : s.dev.lock = false) (hpos : loffT fPos = fPos) :
    (aesdRead K env s fPos buf).2 = s ∧
      let res := (aesdRead K env s fPos buf).1
      ((res.retval < 0 ∧ res.bytes = [] ∧ res.fPos = fPos ∧
          ReadRefused env (K.sizeOfLoff fPos < v.commands.flatten.length) buf res.retval) ∨
        ∃ count, buf = some count ∧ env.interrupted = false ∧
          (K.sizeOfLoff fPos < v.commands.flatten.length → env.copyFails = false) ∧
          res.bytes = readAt v.commands count (K.sizeOfLoff fPos) ∧
          res.retval = res.bytes.length ∧ res.fPos = loffT (fPos + res.bytes.length)) := by
  have hback : s.mutexLock.mutexUnlock = s := by
    simp [Driver.mutexLock, Driver.mutexUnlock, ← hlock]
  have hfind := hr.find_eq (Kernel.sizeOfLoff_lt (K := K) fPos)
  cases buf with
  | none => exact ⟨rfl, .inl ⟨by simp [aesdRead], rfl, rfl, .null⟩⟩
  | some count =>
    unfold aesdRead
    cases hint : env.interrupted with
    | true => exact ⟨rfl, .inl ⟨by simp, rfl, rfl, .interrupted hint⟩⟩
    | false =>
      simp only [Bool.false_eq_true, ↓reduceIte]
      have hfind' : aesdCircularBufferFindEntryOffsetForFpos K s.mutexLock.dev.buffer
          (K.sizeOfLoff fPos) = _ := hfind
      rw [hfind']
      cases hloc : Concat.locate (v.commands.map List.length) (K.sizeOfLoff fPos) with
      | none =>
        have hend := Concat.locate_eq_none_iff.mp hloc
        rw [← List.length_flatten] at hend
        refine ⟨hback, .inr ⟨count, rfl, trivial, fun hin => by omega, ?_, rfl, ?_⟩⟩
        · simp [readAt, hloc]
        · simp [hpos]
      | some p =>
        obtain ⟨k, i⟩ := p
        obtain ⟨l, hl, hi, -⟩ := Concat.drop_flatten_of_locate hloc
        obtain ⟨p, hslot, hblk⟩ := hr.slot_eq hl
        have hle : l.length ≤ K.mem := by
          refine Nat.le_trans ?_ hr.sum_sizes_le
          exact (List.sublist_flatten_of_mem (List.mem_of_getElem? hl)).length_le
        have hmem := K.two_mul_mem_lt
        have hsub : K.sizeSub l.length i = l.length - i := Kernel.sizeSub_of_le (by omega) (by omega)
        have hslot' : s.mutexLock.dev.buffer.slot (Circular.slot maxWriteOperationsSupported
            s.dev.buffer.outOffs.toNat k) = _ := hslot
        simp only [Option.map_some, hslot', hsub]
        have hin : K.sizeOfLoff fPos < v.commands.flatten.length := by
          by_contra hend
          rw [List.length_flatten, not_lt] at hend
          rw [Concat.locate_eq_none_iff.mpr hend] at hloc
          cases hloc
        cases hcopy : env.copyFails with
        | true => exact ⟨hback, .inl ⟨by simp, rfl, rfl, .faults hint hcopy hin⟩⟩
        | false =>
          have hload : s.mutexLock.heap.load p i (min count (l.length - i)) =
              ((l.drop i).take count, s.heap) := by
            show s.heap.load p i (min count (l.length - i)) = _
            rw [Heap.load, hblk]
            simp only
            rw [if_pos (by simp; omega), List.drop_append_of_le_length (by omega),
              List.take_append_of_le_length (by simp), ← List.length_drop, ← List.take_eq_take_min]
          have hlen : ((l.drop i).take count).length = min count (l.length - i) := by simp
          simp only [Bool.false_eq_true, ↓reduceIte, hload]
          refine ⟨hback, .inr ⟨count, rfl, trivial, fun _ => trivial,
            (readAt_of_locate hloc hl).symm, ?_, ?_⟩⟩
          · rw [hlen]
            exact Kernel.ssizeT_of_le (by omega)
          · rw [hlen]

/-! ## `aesd_unlocked_ioctl` -/

/-- The loop adds up the sizes of the entries it passes. -/
theorem seekLoop_eq {b : AesdCircularBuffer} (n pos : Nat) (idx : UInt8)
    (hidx : idx.toNat < maxWriteOperationsSupported)
    (hsum : pos + ((Circular.window maxWriteOperationsSupported b.slot idx.toNat n).map
      (·.size)).sum < 2 ^ 63) :
    (seekLoop b n pos idx).1 = ((pos + ((Circular.window maxWriteOperationsSupported b.slot
        idx.toNat n).map (·.size)).sum : Nat) : Int) ∧
      (seekLoop b n pos idx).2.toNat = Circular.slot maxWriteOperationsSupported idx.toNat n := by
  induction n generalizing pos idx with
  | zero => exact ⟨rfl, (Circular.slot_zero hidx).symm⟩
  | succ n ih =>
    have hslot : Circular.slot maxWriteOperationsSupported idx.toNat 0 = idx.toNat :=
      Circular.slot_zero hidx
    have hinc : (incOffs idx).toNat = (idx.toNat + 1) % maxWriteOperationsSupported :=
      incOffs_toNat idx
    rw [Circular.window_cons, hslot, List.map_cons, List.sum_cons] at hsum ⊢
    have hpos : loffT ((pos : Int) + (b.slot idx.toNat).size) =
        ((pos + (b.slot idx.toNat).size : Nat) : Int) := by
      rw [← Int.natCast_add, loffT_of_lt (by omega)]
    rw [seekLoop, hpos]
    have := ih (pos + (b.slot idx.toNat).size) (incOffs idx)
      (by rw [hinc]; exact Nat.mod_lt _ (by decide)) (by rw [hinc]; omega)
    rwa [hinc, Circular.slot_next, Nat.add_assoc] at this

/-- The position of byte `y` of command `x`, if there is one. -/
def seekAt (commands : List Bytes) (x y : Nat) : Option Nat :=
  match commands[x]? with
  | none => none
  | some l => if y < l.length then some ((commands.take x).flatten.length + y) else none

/-- What comes after the position of byte `y` of command `x`. -/
theorem drop_seekAt {commands : List Bytes} {x y p : Nat} (h : seekAt commands x y = some p) :
    p < commands.flatten.length ∧
      commands.flatten.drop p = (commands.drop x).flatten.drop y := by
  unfold seekAt at h
  split at h
  · cases h
  · rename_i l hl
    split at h
    · rename_i hy
      cases h
      have hx : x < commands.length := (List.getElem?_eq_some_iff.mp hl).1
      have hd : commands.drop x = l :: commands.drop (x + 1) := by
        rw [List.drop_eq_getElem_cons hx, (List.getElem?_eq_some_iff.mp hl).2]
      have hlen := Concat.length_flatten_take x commands
      rw [hd, List.flatten_cons, List.length_append] at hlen
      refine ⟨by omega, ?_⟩
      rw [Concat.drop_flatten_of_getElem? hl (by omega), hd, List.flatten_cons,
        List.drop_append_of_le_length (by omega)]
    · cases h

/-- The loop, on a device that holds a view: the position of command `x` and its slot. -/
theorem Rep.seekLoop_eq (hr : Rep K s v []) {x : Nat} {l : Bytes} (hl : v.commands[x]? = some l) :
    (seekLoop s.dev.buffer x 0 s.dev.buffer.outOffs).1 = (v.commands.take x).flatten.length ∧
      (s.dev.buffer.slot (seekLoop s.dev.buffer x 0 s.dev.buffer.outOffs).2.toNat).size =
        l.length := by
  have hx : x < v.commands.length := (List.getElem?_eq_some_iff.mp hl).1
  have hsizes : ((Circular.window maxWriteOperationsSupported s.dev.buffer.slot
      s.dev.buffer.outOffs.toNat x).map (·.size)).sum = (v.commands.take x).flatten.length := by
    have hlive := hr.ring.inv.live_eq
    have hlen : (v.live.map View.entry).length = v.commands.length := by simp [View.commands]
    rw [hlen] at hlive
    rw [← Circular.take_window (Nat.le_of_lt hx), ← hlive, List.map_take, hr.sizes_eq,
      List.length_flatten, List.map_take]
  have hle := Concat.length_flatten_take x v.commands
  have hmem := hr.sum_sizes_le
  have h63 := K.mem_lt_loff
  obtain ⟨h1, h2⟩ := Aesd.seekLoop_eq (b := s.dev.buffer) x 0 _ hr.ring.inv.out_lt
    (by omega)
  obtain ⟨p, hslot, -⟩ := hr.slot_eq hl
  rw [hsizes, Nat.zero_add] at h1
  rw [Int.natCast_zero] at h1 h2
  exact ⟨h1, by rw [h2, hslot]⟩

/-- `aesd_unlocked_ioctl` without a failure of the kernel: the position of the byte, or `-EINVAL`
when there is none. The device stays as it was. -/
theorem aesdUnlockedIoctl_eq {env : CallEnv} (fPos : Int) (seekto : AesdSeekto)
    (hr : Rep K s v []) (hlock : s.dev.lock = false) (hint : env.interrupted = false)
    (hcopy : env.copyFails = false) :
    aesdUnlockedIoctl env s fPos aesdcharIocseekto seekto =
      match seekAt v.commands seekto.writeCmd.toNat seekto.writeCmdOffset.toNat with
      | none => (-einval, fPos, s)
      | some p => (0, (p : Int), s) := by
  have hback : s.mutexLock.mutexUnlock = s := by
    simp [Driver.mutexLock, Driver.mutexUnlock, ← hlock]
  have hcount : s.dev.buffer.count = v.commands.length := by
    rw [← hr.length_live, AesdCircularBuffer.length_live]
  have hdev : s.mutexLock.dev.buffer = s.dev.buffer := rfl
  unfold aesdUnlockedIoctl seekAt
  simp only [hint, hcopy, hback, hdev, hcount, ↓reduceIte, Bool.false_eq_true]
  cases hl : v.commands[seekto.writeCmd.toNat]? with
  | none => rw [if_pos (List.getElem?_eq_none_iff.mp hl)]
  | some l =>
    have hx := (List.getElem?_eq_some_iff.mp hl).1
    obtain ⟨h1, h2⟩ := hr.seekLoop_eq hl
    rw [if_neg (by omega)]
    simp only [h1, h2]
    by_cases hy : seekto.writeCmdOffset.toNat < l.length
    · have hp : seekAt v.commands seekto.writeCmd.toNat seekto.writeCmdOffset.toNat =
          some ((v.commands.take seekto.writeCmd.toNat).flatten.length +
            seekto.writeCmdOffset.toNat) := by
        simp [seekAt, hl, hy]
      have h63 := K.mem_lt_loff
      have hmem := hr.sum_sizes_le
      have hlt := (drop_seekAt hp).1
      rw [if_neg (by omega), if_pos hy, ← Int.natCast_add, loffT_of_lt (by omega)]
    · rw [if_pos (by omega), if_neg hy]

/-- `aesd_unlocked_ioctl` with another command or a failure of the kernel changes nothing. -/
theorem aesdUnlockedIoctl_fails {env : CallEnv} {cmd : UInt32} (s : Driver) (fPos : Int)
    (seekto : AesdSeekto)
    (h : cmd ≠ aesdcharIocseekto ∨ env.interrupted = true ∨ env.copyFails = true) :
    ∃ r < 0, aesdUnlockedIoctl env s fPos cmd seekto = (r, fPos, s) := by
  unfold aesdUnlockedIoctl
  by_cases hcmd : cmd = aesdcharIocseekto
  · rw [if_pos hcmd]
    cases hcopy : env.copyFails with
    | true => exact ⟨-efault, by simp, rfl⟩
    | false =>
      have hint : env.interrupted = true := by
        rcases h with h | h | h
        · exact absurd hcmd h
        · exact h
        · rw [hcopy] at h
          cases h
      exact ⟨-erestartsys, by simp, by simp [hint]⟩
  · exact ⟨-enotty, by simp, by simp [hcmd]⟩

end Aesd
