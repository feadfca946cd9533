import Aesd.Driver.Kmalloc
import Aesd.Driver.Reading
import Mathlib.Data.Set.Function

/-!
# The specification of seeks

Three loops add up entry sizes: the search, `aesd_get_total_buffer_size` and the one of
`aesd_unlocked_ioctl`. They agree on every ring.

* `llseek_exact`: `aesd_llseek` is exact for every 64-bit offset, and the total it uses is where
  reads end.
* `seekto_read_agree`: the position that `AESDCHAR_IOCSEEKTO` sets is the one that the search and
  the reads take for the same byte; pairs of a command and an offset are the positions.
-/

namespace Aesd

variable {K : Kernel} {s : Driver} {v : View} {p f offset : Int}

/-! ## `aesd_get_total_buffer_size` -/

/-- The loop, over entries whose sizes do not wrap. -/
theorem totalLoop_eq {b : AesdCircularBuffer} {n total : Nat} {idx : UInt8}
    (hidx : idx.toNat < maxWriteOperationsSupported)
    (hsum : total + ((Circular.window maxWriteOperationsSupported b.slot idx.toNat n).map
      (·.size)).sum < 2 ^ K.sizeBits) :
    totalLoop K b n total idx =
      total + ((Circular.window maxWriteOperationsSupported b.slot idx.toNat n).map (·.size)).sum := by
  induction n generalizing total idx with
  | zero => rfl
  | succ n ih =>
    have hslot : Circular.slot maxWriteOperationsSupported idx.toNat 0 = idx.toNat :=
      Circular.slot_zero hidx
    have hinc : (incOffs idx).toNat = (idx.toNat + 1) % maxWriteOperationsSupported :=
      incOffs_toNat idx
    rw [Circular.window_cons, hslot, List.map_cons, List.sum_cons] at hsum ⊢
    have hsz : K.sizeT (total + (b.slot idx.toNat).size) = total + (b.slot idx.toNat).size :=
      Nat.mod_eq_of_lt (by omega)
    rw [totalLoop, hsz, ih, hinc, Nat.add_assoc]
    · rw [hinc]
      exact Nat.mod_lt _ (by decide)
    · rw [hinc]
      omega

theorem Rep.total_eq (hr : Rep K s v []) :
    aesdGetTotalBufferSize K s.dev.buffer = s.content.length := by
  have hcl := hr.content_le_mem
  have hmem := K.two_mul_mem_lt
  have htot := hr.totalSize_eq
  rw [Driver.totalSize, hr.ring.inv.live_eq] at htot
  rw [aesdGetTotalBufferSize, hr.ring.inv.count_eq,
    totalLoop_eq hr.ring.inv.out_lt (by omega), htot, Nat.zero_add]

/-! ## `aesd_llseek` -/

/-- Where a seek starts from. -/
def seekBase (total f : Int) : Int → Option Int
  | 0 => some 0
  | 1 => some f
  | 2 => some total
  | _ => none

/-- A sum of a position and an offset in 64 bits: it is exact, or it comes out negative. -/
theorem loffT_cases (h0 : -2 ^ 63 ≤ p) (h1 : p < 2 ^ 64) :
    loffT p = p ∧ p < 2 ^ 63 ∨ loffT p < 0 ∧ 2 ^ 63 ≤ p := by
  by_cases hp : p < 2 ^ 63
  · refine .inl ⟨?_, hp⟩
    rw [loffT, Int.bmod_eq_of_le] <;> omega
  · refine .inr ⟨?_, by omega⟩
    have hbmod : loffT (p - (2 ^ 64 : Nat)) = loffT p := Int.sub_bmod_right p _
    rw [← hbmod, loffT, Int.bmod_eq_of_le] <;> omega

theorem exceedsTotal_eq {total : Nat} (h0 : 0 ≤ p) (h1 : p < 2 ^ 63) :
    exceedsTotal K p total = decide ((total : Int) < p) := by
  unfold exceedsTotal
  split
  · rename_i h64
    have hle := K.sizeBits_le
    have hbits : K.sizeBits = 64 := by omega
    rw [Kernel.sizeOfLoff_of_nonneg h0 (by rw [hbits]; omega), decide_eq_decide]
    omega
  · rfl

/-- The check of `aesd_llseek`, on a sum in 64 bits, is the check of the sum. -/
theorem outOfBounds_iff (K : Kernel) {total : Nat} (htot : total < 2 ^ 63) (h0 : -2 ^ 63 ≤ p)
    (h1 : p < 2 ^ 64) :
    (loffT p < 0 ∨ exceedsTotal K (loffT p) total = true) ↔ ¬ (0 ≤ p ∧ p ≤ total) := by
  rcases loffT_cases h0 h1 with ⟨heq, hlt⟩ | ⟨hneg, hle⟩
  · rw [heq]
    by_cases hp : 0 ≤ p
    · rw [exceedsTotal_eq hp hlt, decide_eq_true_iff]
      omega
    · exact iff_of_true (.inl (by omega)) (by omega)
  · exact iff_of_true (.inl hneg) (by omega)

/-- `aesd_llseek`, when it gets the lock: the exact sum if it is inside the content, else
`-EINVAL`. -/
theorem Rep.llseek_eq (hr : Rep K s v []) (hlock : s.dev.lock = false) (hf0 : 0 ≤ f)
    (hf1 : f < 2 ^ 63) (ho0 : -2 ^ 63 ≤ offset) (ho1 : offset < 2 ^ 63) (whence : Int) :
    aesdLlseek K false s f offset whence =
      match seekBase s.content.length f whence with
      | none => (-einval, f, s)
      | some base =>
        if 0 ≤ base + offset ∧ base + offset ≤ s.content.length then
          (base + offset, base + offset, s)
        else (-einval, f, s) := by
  have hback : s.mutexLock.mutexUnlock = s := by
    simp [Driver.mutexLock, Driver.mutexUnlock, ← hlock]
  have hcl := hr.content_le_mem
  have h63 := K.mem_lt_loff
  have htot : aesdGetTotalBufferSize K s.mutexLock.dev.buffer = s.content.length := hr.total_eq
  have hcheck : ∀ base : Int, 0 ≤ base → base < 2 ^ 63 →
      (if loffT (base + offset) < 0 ∨
          exceedsTotal K (loffT (base + offset)) s.content.length = true then (-einval, f, s)
        else (loffT (base + offset), loffT (base + offset), s)) =
      if 0 ≤ base + offset ∧ base + offset ≤ s.content.length then
        (base + offset, base + offset, s)
      else (-einval, f, s) := by
    intro base hb0 hb1
    have htotal : s.content.length < 2 ^ 63 := by omega
    have hout := outOfBounds_iff K htotal (p := base + offset) (by omega) (by omega)
    by_cases hin : 0 ≤ base + offset ∧ base + offset ≤ s.content.length
    · rw [if_neg (by rwa [hout, not_not]), if_pos hin, loffT_of_nonneg hin.1 (by omega)]
    · rw [if_pos (hout.mpr hin), if_neg hin]
  have hset : loffT (0 + offset) = offset := by
    rcases loffT_cases (p := 0 + offset) (by omega) (by omega) with h | h <;> omega
  have hw : whence = 0 ∨ whence = 1 ∨ whence = 2 ∨ whence ≠ 0 ∧ whence ≠ 1 ∧ whence ≠ 2 := by omega
  unfold aesdLlseek
  simp only [Bool.false_eq_true, ↓reduceIte, htot, hback]
  rcases hw with rfl | rfl | rfl | ⟨h0, h1, h2⟩
  · have := hcheck 0 (by omega) (by omega)
    rwa [hset] at this
  · exact hcheck f hf0 hf1
  · exact hcheck s.content.length (by omega) (by omega)
  · simp [seekBase]

/-- The search finds nothing exactly from the total on. -/
theorem Rep.find_eq_none_iff (hr : Rep K s v []) {o : Nat} (ho : o < 2 ^ K.sizeBits) :
    aesdCircularBufferFindEntryOffsetForFpos K s.dev.buffer o = none ↔ s.content.length ≤ o := by
  rw [hr.find_eq ho, Option.map_eq_none_iff, Concat.locate_eq_none_iff, hr.content_eq,
    List.length_flatten]

/-- The end is the first position that reads nothing. -/
theorem Rep.read_at_end (hr : Rep K s v []) (hlock : s.dev.lock = false) {count : Nat}
    (hc : 0 < count) :
    (aesdRead K .succeeds s s.content.length (some count)).1 = ⟨0, [], s.content.length⟩ ∧
      ∀ o < s.content.length, 0 < (aesdRead K .succeeds s o (some count)).1.retval := by
  refine ⟨?_, fun o ho => ?_⟩
  · obtain ⟨-, hread⟩ := hr.read_eq_of_le hlock (Nat.le_refl _) count
    rw [hread, readAt_of_le (Nat.le_of_eq (by rw [hr.content_eq]))]
    rfl
  · obtain ⟨-, hread⟩ := hr.read_eq_of_le hlock (Nat.le_of_lt ho) count
    rw [hr.content_eq] at ho
    rw [hread]
    exact Int.natCast_pos.mpr (readAt_of_lt ho hc).1

/-- After any writes, `aesd_llseek` gives the exact sum if it is inside the content, for every 64-bit
position and offset, and else fails and leaves the position. Its total is the position from which
the search finds nothing, and the first one that reads nothing. -/
theorem llseek_exact (K : Kernel) (ws : List WriteCall) (f offset whence : Int) (hf0 : 0 ≤ f)
    (hf1 : f < 2 ^ 63) (ho0 : -2 ^ 63 ≤ offset) (ho1 : offset < 2 ^ 63) :
    let s := (runWrites K aesdInit ws).2
    let total := aesdGetTotalBufferSize K s.dev.buffer
    (aesdLlseek K false s f offset whence =
      match seekBase total f whence with
      | none => (-einval, f, s)
      | some base =>
        if 0 ≤ base + offset ∧ base + offset ≤ total then (base + offset, base + offset, s)
        else (-einval, f, s)) ∧
    total = s.totalSize ∧
    (∀ o < 2 ^ K.sizeBits,
      aesdCircularBufferFindEntryOffsetForFpos K s.dev.buffer o = none ↔ total ≤ o) ∧
    aesdLlseek K false s f 0 2 = (↑total, ↑total, s) ∧
    ∀ count, 0 < count → (aesdRead K .succeeds s total (some count)).1 = ⟨0, [], total⟩ ∧
      ∀ o < total, 0 < (aesdRead K .succeeds s o (some count)).1.retval := by
  intro s total
  obtain ⟨v, hr, hlock⟩ : ∃ v, Rep K s v [] ∧ s.dev.lock = false := runWrites_rep K ws
  clear_value s
  have htotal : total = s.content.length := hr.total_eq
  rw [htotal]
  refine ⟨hr.llseek_eq hlock hf0 hf1 ho0 ho1 whence, hr.totalSize_eq.symm,
    fun o ho => hr.find_eq_none_iff ho, ?_, fun count hc => hr.read_at_end hlock hc⟩
  rw [hr.llseek_eq hlock hf0 hf1 (by decide) (by decide)]
  simp [seekBase]

/-- `SEEK_CUR` over the largest offset does not wrap around into the content. -/
theorem llseek_exact_largest_offset :
    (aesdLlseek kernel64 false (runWrites kernel64 aesdInit [⟨[97, 10], .succeeds⟩]).2 2
      (2 ^ 63 - 1) 1).1 = -einval := by
  have h := (llseek_exact kernel64 [⟨[97, 10], .succeeds⟩] 2 (2 ^ 63 - 1) 1 (by decide) (by decide)
    (by decide) (by decide)).1
  rw [h]
  decide

/-! ## `AESDCHAR_IOCSEEKTO` -/

/-- The seek of a byte and the search of its position are inverse to each other. -/
theorem seekAt_eq_some_iff {commands : List Bytes} {x y o : Nat} :
    seekAt commands x y = some o ↔
      Concat.locate (commands.map List.length) o = some (x, y) := by
  rw [Concat.locate_eq_some_iff, List.getElem?_map, ← List.map_take, ← List.length_flatten]
  unfold seekAt
  cases commands[x]? with
  | none => simp
  | some l =>
    simp only [Option.map_some, Option.some.injEq, exists_eq_left']
    by_cases hy : y < l.length
    · simp [hy, eq_comm]
    · simp [hy]

/-- There is a byte `y` of command `x`. -/
theorem exists_seekAt_iff {commands : List Bytes} {x y : Nat} :
    (∃ o, seekAt commands x y = some o) ↔ ∃ l, commands[x]? = some l ∧ y < l.length := by
  unfold seekAt
  cases commands[x]? with
  | none => simp
  | some l => by_cases hy : y < l.length <;> simp [hy]

/-- Position `p` is byte `y` of the `x`-th oldest command `l`: for the search, for a read, and for
`aesd_llseek`. -/
structure Addresses (K : Kernel) (s : Driver) (x y : Nat) (l : Bytes) (p : Int) : Prop where
  command : s.commands[x]? = some l
  find : aesdCircularBufferFindEntryOffsetForFpos K s.dev.buffer (K.sizeOfLoff p) =
    some (Circular.slot maxWriteOperationsSupported s.dev.buffer.outOffs.toNat x, y)
  entry : s.dev.buffer.live[x]? = some (s.dev.buffer.slot
    (Circular.slot maxWriteOperationsSupported s.dev.buffer.outOffs.toNat x))
  size : (s.dev.buffer.slot
    (Circular.slot maxWriteOperationsSupported s.dev.buffer.outOffs.toNat x)).size = l.length
  read : ∀ count, aesdRead K .succeeds s p (some count) =
    (⟨(min count (l.length - y) : Nat), (l.drop y).take count,
      p + (min count (l.length - y) : Nat)⟩, s)
  llseek : ∀ f, 0 ≤ f → f < 2 ^ 63 → aesdLlseek K false s f p 0 = (p, p, s)

theorem Rep.addresses (hr : Rep K s v []) (hlock : s.dev.lock = false) {x y o : Nat}
    (h : seekAt v.commands x y = some o) : ∃ l, Addresses K s x y l o := by
  have hloc := seekAt_eq_some_iff.mp h
  obtain ⟨l, hl, hy, -⟩ := Concat.drop_flatten_of_locate hloc
  obtain ⟨q, hslot, -⟩ := hr.slot_eq hl
  have hlt := (drop_seekAt h).1
  rw [← hr.content_eq] at hlt
  have hcl := hr.content_le_mem
  have hmem := K.two_mul_mem_lt
  have h63 := K.mem_lt_loff
  have hx : x < (v.live.map View.entry).length := by
    have := (List.getElem?_eq_some_iff.mp hl).1
    simpa [View.commands] using this
  refine ⟨l, by rw [hr.commands_eq, hl], ?_, ?_, by rw [hslot], fun count => ?_,
    fun f hf0 hf1 => ?_⟩
  · rw [Kernel.sizeOfLoff_of_lt (by omega), hr.find_eq (by omega), hloc]
    rfl
  · rw [hr.ring.inv.live_eq, Circular.getElem?_window hx]
  · obtain ⟨-, hread⟩ := hr.read_eq_of_le hlock (Nat.le_of_lt hlt) count
    rw [hread, readAt_of_locate hloc hl]
    simp
  · rw [hr.llseek_eq hlock hf0 hf1 (by omega) (by omega)]
    simp only [seekBase]
    rw [if_pos (by omega), Int.zero_add]

/-- A position belongs to one pair only. -/
theorem Addresses.unique {x y x' y' : Nat} {l l' : Bytes}
    (hcount : s.dev.buffer.count ≤ maxWriteOperationsSupported)
    (h : Addresses K s x y l p) (h' : Addresses K s x' y' l' p) : x = x' ∧ y = y' := by
  have hfind := h.find.symm.trans h'.find
  simp only [Option.some.injEq, Prod.mk.injEq] at hfind
  have hx := (List.getElem?_eq_some_iff.mp h.entry).1
  have hx' := (List.getElem?_eq_some_iff.mp h'.entry).1
  rw [AesdCircularBuffer.length_live] at hx hx'
  exact ⟨Circular.slot_inj (by omega) (by omega) hfind.1, hfind.2⟩

/-- The byte that a seek names is there. -/
def HasByte (s : Driver) (k : AesdSeekto) : Prop :=
  ∃ l, s.commands[k.writeCmd.toNat]? = some l ∧ k.writeCmdOffset.toNat < l.length

/-- The ioctl, on a device that holds a view: it succeeds exactly for a byte that is there, and
sets its position. -/
theorem Rep.ioctl_cases (hr : Rep K s v []) (hlock : s.dev.lock = false) (env : CallEnv) (f : Int)
    (k : AesdSeekto) :
    (∃ o, seekAt v.commands k.writeCmd.toNat k.writeCmdOffset.toNat = some o ∧ HasByte s k ∧
        env.interrupted = false ∧ env.copyFails = false ∧
        aesdUnlockedIoctl env s f aesdcharIocseekto k = (0, ↑o, s)) ∨
      ((env.interrupted = true ∨ env.copyFails = true ∨ ¬ HasByte s k) ∧
        ∃ r < 0, aesdUnlockedIoctl env s f aesdcharIocseekto k = (r, f, s)) := by
  by_cases henv : env.interrupted = true ∨ env.copyFails = true
  · refine .inr ⟨by tauto, aesdUnlockedIoctl_fails s f k (.inr henv)⟩
  · rw [not_or, Bool.not_eq_true, Bool.not_eq_true] at henv
    have hioctl := aesdUnlockedIoctl_eq f k hr hlock henv.1 henv.2
    have hbyte : (∃ o, seekAt v.commands k.writeCmd.toNat k.writeCmdOffset.toNat = some o) ↔
        HasByte s k := by
      rw [exists_seekAt_iff, HasByte, hr.commands_eq]
    cases hseek : seekAt v.commands k.writeCmd.toNat k.writeCmdOffset.toNat with
    | none =>
      rw [hseek] at hioctl
      refine .inr ⟨.inr (.inr fun hb => ?_), -einval, by decide, hioctl⟩
      obtain ⟨o, ho⟩ := hbyte.mpr hb
      rw [hseek] at ho
      cases ho
    | some o =>
      rw [hseek] at hioctl
      exact .inl ⟨o, rfl, hbyte.mp ⟨o, hseek⟩, henv.1, henv.2, hioctl⟩

/-- Every position before the end is a byte of one command, and of one only. -/
theorem Rep.existsUnique_addresses (hr : Rep K s v []) (hlock : s.dev.lock = false) (h0 : 0 ≤ p)
    (hp : p < s.content.length) : ∃! q : Nat × Nat, ∃ l, Addresses K s q.1 q.2 l p := by
  obtain ⟨o, rfl⟩ := Int.eq_ofNat_of_zero_le h0
  have ho : o < (v.commands.map List.length).sum := by
    rw [← List.length_flatten, ← hr.content_eq]
    exact_mod_cast hp
  obtain ⟨x, y, hloc⟩ := Concat.exists_locate ho
  obtain ⟨l, hl⟩ := hr.addresses hlock (seekAt_eq_some_iff.mpr hloc)
  refine ⟨(x, y), ⟨l, hl⟩, ?_⟩
  rintro ⟨x', y'⟩ ⟨l', hl'⟩
  have hcount : s.dev.buffer.count ≤ maxWriteOperationsSupported := by
    rw [hr.ring.inv.count_eq]
    exact hr.ring.inv.le
  obtain ⟨rfl, rfl⟩ := hl.unique hcount hl'
  rfl

/-- The seeks to a byte that is there are the positions before the end, when the numbers of every
command's bytes fit 32 bits. -/
theorem Rep.seekto_bijOn (hr : Rep K s v []) (hlock : s.dev.lock = false)
    (hlen : ∀ l ∈ s.commands, l.length < 2 ^ 32) :
    Set.BijOn (fun k => (aesdUnlockedIoctl .succeeds s 0 aesdcharIocseekto k).2.1)
      {k | HasByte s k} {p | 0 ≤ p ∧ p < s.content.length} := by
  have hpos : ∀ k, HasByte s k → ∃ o : Nat,
      seekAt v.commands k.writeCmd.toNat k.writeCmdOffset.toNat = some o ∧
        (aesdUnlockedIoctl .succeeds s 0 aesdcharIocseekto k).2.1 = o := by
    intro k hk
    rcases hr.ioctl_cases hlock .succeeds 0 k with ⟨o, ho, -, -, -, heq⟩ | ⟨h | h | h, -⟩
    · exact ⟨o, ho, by rw [heq]⟩
    · cases h
    · cases h
    · exact absurd hk h
  refine ⟨fun k hk => ?_, fun k hk k' hk' heq => ?_, fun p hp => ?_⟩
  · obtain ⟨o, ho, heq⟩ := hpos k hk
    have hlt := (drop_seekAt ho).1
    rw [← hr.content_eq] at hlt
    simp only [heq]
    exact ⟨by omega, by omega⟩
  · obtain ⟨o, ho, h1⟩ := hpos k hk
    obtain ⟨o', ho', h2⟩ := hpos k' hk'
    have hoo : o = o' := by
      have := h1.symm.trans (heq.trans h2)
      exact_mod_cast this
    subst hoo
    have hpair := (seekAt_eq_some_iff.mp ho).symm.trans (seekAt_eq_some_iff.mp ho')
    simp only [Option.some.injEq, Prod.mk.injEq, UInt32.toNat_inj] at hpair
    cases k
    cases k'
    simpa using hpair
  · obtain ⟨o, rfl⟩ := Int.eq_ofNat_of_zero_le hp.1
    have ho : o < (v.commands.map List.length).sum := by
      rw [← List.length_flatten, ← hr.content_eq]
      exact_mod_cast hp.2
    obtain ⟨x, y, hloc⟩ := Concat.exists_locate ho
    obtain ⟨l, hl, hy, -⟩ := Concat.drop_flatten_of_locate hloc
    have hx : x < v.commands.length := (List.getElem?_eq_some_iff.mp hl).1
    have hcount : v.commands.length ≤ maxWriteOperationsSupported := by
      have := hr.ring.inv.le
      simpa [View.commands] using this
    have hl32 := hlen l (by rw [hr.commands_eq]; exact List.mem_of_getElem? hl)
    simp only [maxWriteOperationsSupported] at hcount
    have hx32 : (UInt32.ofNat x).toNat = x :=
      UInt32.toNat_ofNat_of_lt' (show x < 2 ^ 32 by omega)
    have hy32 : (UInt32.ofNat y).toNat = y :=
      UInt32.toNat_ofNat_of_lt' (show y < 2 ^ 32 by omega)
    have hk : HasByte s ⟨UInt32.ofNat x, UInt32.ofNat y⟩ := by
      refine ⟨l, ?_, ?_⟩
      · rw [hr.commands_eq, hx32, hl]
      · rw [hy32]
        exact hy
    obtain ⟨o', ho', heq⟩ := hpos _ hk
    rw [hx32, hy32, seekAt_eq_some_iff.mpr hloc] at ho'
    cases ho'
    exact ⟨_, hk, heq⟩

/-- After any writes, `AESDCHAR_IOCSEEKTO` succeeds exactly for a byte that is there; the position it
sets is that byte for the search, for reads and for `aesd_llseek`; a failure leaves the position.
Every position before the end belongs to one byte. If the allocator refuses more than 4 GiB at once,
the 32-bit pairs are all the positions. -/
theorem seekto_read_agree (K : Kernel) (ws : List WriteCall) :
    let s := (runWrites K aesdInit ws).2
    (∀ env f k, let res := aesdUnlockedIoctl env s f aesdcharIocseekto k
      (res.1 = 0 ↔ env.interrupted = false ∧ env.copyFails = false ∧ HasByte s k) ∧
      (res.1 = 0 → ∃ l, Addresses K s k.writeCmd.toNat k.writeCmdOffset.toNat l res.2.1) ∧
      (res.1 ≠ 0 → res.1 < 0 ∧ res.2.1 = f) ∧ res.2.2 = s) ∧
    (∀ p : Int, 0 ≤ p → p < s.totalSize → ∃! q : Nat × Nat, ∃ l, Addresses K s q.1 q.2 l p) ∧
    ((writesLts K).Along (KmallocRefuses K (2 ^ 32)) aesdInit ws →
      Set.BijOn (fun k => (aesdUnlockedIoctl .succeeds s 0 aesdcharIocseekto k).2.1)
        {k | HasByte s k} {p | 0 ≤ p ∧ p < s.totalSize}) := by
  intro s
  obtain ⟨v, hr, hlock⟩ : ∃ v, Rep K s v [] ∧ s.dev.lock = false := runWrites_rep K ws
  have hfits : (writesLts K).Along (KmallocRefuses K (2 ^ 32)) aesdInit ws → Fits (2 ^ 32) s :=
    runWrites_fits (by decide)
  clear_value s
  rw [hr.totalSize_eq]
  refine ⟨fun env f k => ?_, fun p h0 hp => hr.existsUnique_addresses hlock h0 hp,
    fun hk => hr.seekto_bijOn hlock (hfits hk).commands⟩
  rcases hr.ioctl_cases hlock env f k with ⟨o, ho, hb, hint, hcopy, heq⟩ | ⟨hno, r, hr0, heq⟩
  · rw [heq]
    exact ⟨iff_of_true rfl ⟨hint, hcopy, hb⟩, fun _ => hr.addresses hlock ho, by simp, rfl⟩
  · rw [heq]
    refine ⟨iff_of_false (Int.ne_of_lt hr0) ?_, fun h => absurd h (Int.ne_of_lt hr0),
      fun _ => ⟨hr0, rfl⟩, rfl⟩
    rintro ⟨hint, hcopy, hb⟩
    simp [hint, hcopy, hb] at hno

/-- Two commands: the second byte of the second one is at position 4. -/
theorem seekto_read_agree_two_commands :
    let s := (runWrites kernel64 aesdInit
      [⟨[97, 98, 10], .succeeds⟩, ⟨[99, 100, 10], .succeeds⟩]).2
    Set.BijOn (fun k => (aesdUnlockedIoctl .succeeds s 0 aesdcharIocseekto k).2.1)
        {k | HasByte s k} {p | 0 ≤ p ∧ p < s.totalSize} ∧
      (aesdUnlockedIoctl .succeeds s 0 aesdcharIocseekto ⟨1, 1⟩).2.1 = 4 :=
  ⟨(seekto_read_agree kernel64 [⟨[97, 98, 10], .succeeds⟩, ⟨[99, 100, 10], .succeeds⟩]).2.2
    (by decide), by decide⟩

end Aesd
