import Aesd.Driver.History
import Aesd.Driver.ReadPath
import Aesd.Lib.Cursor

/-!
# Reading a device that nobody writes to

* `read_eof_iff`: for which 64-bit positions a read behind the end is end of file. The search takes
  a `size_t`, so on a 32-bit target the position loses its high half.
* `reads_reconstruct`: repeated reads give the stored content from their start position on, whatever
  their counts.
-/

namespace Aesd

/-- Nothing fails. -/
def CallEnv.succeeds : CallEnv := { interrupted := false, copyFails := false }

/-- A 32-bit kernel. -/
def kernel32 : Kernel where
  sizeBits := 32
  mem := 2 ^ 30
  sizeBits_pos := by decide
  sizeBits_le := by decide
  mem_lt := by decide

namespace Driver

/-- The stored content: the retained commands, one after the other. -/
def content (s : Driver) : Bytes := s.commands.flatten

/-- The total stored size. -/
def totalSize (s : Driver) : Nat := (s.dev.buffer.live.map (·.size)).sum

end Driver

variable {K : Kernel} {s : Driver} {v : View} {env : CallEnv} {count : Nat} {p : Int}

theorem Rep.content_eq (hr : Rep K s v []) : s.content = v.commands.flatten := by
  rw [Driver.content, hr.commands_eq]

theorem Rep.totalSize_eq (hr : Rep K s v []) : s.totalSize = s.content.length := by
  rw [Driver.totalSize, hr.sizes_eq, hr.content_eq, List.length_flatten]

theorem Rep.content_le_mem (hr : Rep K s v []) : s.content.length ≤ K.mem := by
  rw [hr.content_eq]
  exact hr.sum_sizes_le

theorem loffT_of_nonneg (h0 : 0 ≤ p) (h1 : p < 2 ^ 63) : loffT p = p := by
  obtain ⟨n, rfl⟩ := Int.eq_ofNat_of_zero_le h0
  exact loffT_of_lt (by omega)

/-- A read without a failure of the kernel. -/
theorem Rep.read_eq (hr : Rep K s v []) (hlock : s.dev.lock = false)
    (hint : env.interrupted = false) (hcopy : env.copyFails = false) (h0 : 0 ≤ p)
    (h1 : p < 2 ^ 63) (count : Nat) :
    let bytes := readAt v.commands count (K.sizeOfLoff p)
    aesdRead K env s p (some count) = (⟨bytes.length, bytes, loffT (p + bytes.length)⟩, s) := by
  intro bytes
  obtain ⟨hs, hres⟩ := aesdRead_spec env (some count) hr hlock (loffT_of_nonneg h0 h1)
  rcases hres with ⟨-, -, -, hfail⟩ | ⟨n, hn, -, -, hb, hret, hpos⟩
  · generalize (aesdRead K env s p (some count)).1.retval = r at hfail
    cases hfail with
    | interrupted h => simp [hint] at h
    | faults _ h => simp [hcopy] at h
  · cases hn
    refine Prod.ext ?_ hs
    generalize (aesdRead K env s p (some count)).1 = res at hb hret hpos
    obtain ⟨retval, bs, fPos⟩ := res
    simp only at hb hret hpos
    subst hb
    rw [hret, hpos]

/-! ## End of file -/

/-- A read of `count` bytes at `p` is end of file exactly when `p` is not before the end, and else
gives the bytes from `p` on. -/
def ReadsAt (K : Kernel) (s : Driver) (p : Int) (count : Nat) : Prop :=
  let res := (aesdRead K .succeeds s p (some count)).1
  (res.retval = 0 ∧ res.fPos = p ↔ (s.totalSize : Int) ≤ p) ∧
    (p < s.totalSize → 0 < res.retval ∧ res.retval = res.bytes.length ∧
      res.bytes <+: s.content.drop p.toNat)

theorem Kernel.sizeOfLoff_eq_emod (K : Kernel) (p : Int) :
    (K.sizeOfLoff p : Int) = p % 2 ^ K.sizeBits := by
  refine Int.toNat_of_nonneg (Int.emod_nonneg p ?_)
  exact Int.ne_of_gt (Int.pow_pos (by decide))

/-- Below the width of `size_t` a position is not changed. -/
theorem Kernel.sizeOfLoff_of_nonneg (h0 : 0 ≤ p) (h1 : p < 2 ^ K.sizeBits) :
    K.sizeOfLoff p = p.toNat := by
  rw [Kernel.sizeOfLoff, Int.emod_eq_of_lt h0 h1]

/-- A read whose position is searched as it is. -/
theorem Rep.readsAt_of_lt (hr : Rep K s v []) (hlock : s.dev.lock = false) (h0 : 0 ≤ p)
    (h1 : p < 2 ^ 63) (hc : 0 < count) (hlt : p < 2 ^ K.sizeBits) : ReadsAt K s p count := by
  have hcl := hr.content_le_mem
  have h63 := K.mem_lt_loff
  unfold ReadsAt
  rw [hr.read_eq hlock rfl rfl h0 h1, Kernel.sizeOfLoff_of_nonneg h0 hlt, hr.totalSize_eq]
  simp only
  by_cases hend : s.content.length ≤ p.toNat
  · rw [readAt_of_le (by rwa [← hr.content_eq])]
    refine ⟨?_, fun h => by omega⟩
    simp only [List.length_nil, Int.natCast_zero, Int.add_zero, loffT_of_nonneg h0 h1, true_and,
      true_iff]
    omega
  · have hbefore : p.toNat < v.commands.flatten.length := by
      rw [← hr.content_eq]
      omega
    obtain ⟨hpos, -, hpre⟩ := readAt_of_lt hbefore hc
    rw [← hr.content_eq] at hpre
    refine ⟨?_, fun _ => ⟨by omega, trivial, hpre⟩⟩
    constructor
    · rintro ⟨hzero, -⟩
      omega
    · intro hle
      omega

/-- A read whose position loses its high bits. -/
theorem Rep.readsAt_iff_of_le (hr : Rep K s v []) (hlock : s.dev.lock = false) (h0 : 0 ≤ p)
    (h1 : p < 2 ^ 63) (hc : 0 < count) (hle : 2 ^ K.sizeBits ≤ p) :
    ReadsAt K s p count ↔ (s.totalSize : Int) ≤ p % 2 ^ K.sizeBits := by
  have hcl := hr.content_le_mem
  have hmem : (K.mem : Int) < 2 ^ K.sizeBits := by
    have := K.two_mul_mem_lt
    exact_mod_cast (by omega : K.mem < 2 ^ K.sizeBits)
  unfold ReadsAt
  rw [hr.read_eq hlock rfl rfl h0 h1, hr.totalSize_eq, ← K.sizeOfLoff_eq_emod]
  simp only
  by_cases hend : s.content.length ≤ K.sizeOfLoff p
  · rw [readAt_of_le (by rwa [← hr.content_eq])]
    refine iff_of_true ⟨?_, fun h => by omega⟩ (by omega)
    simp only [List.length_nil, Int.natCast_zero, Int.add_zero, loffT_of_nonneg h0 h1, true_and,
      true_iff]
    omega
  · have hbefore : K.sizeOfLoff p < v.commands.flatten.length := by
      rw [← hr.content_eq]
      omega
    obtain ⟨hpos, -⟩ := readAt_of_lt hbefore hc
    refine iff_of_false (fun h => ?_) (by omega)
    have := (h.1.mpr (by omega)).1
    omega

/-- After any writes, a read at a position `p` behaves as it should exactly when `p` fits a `size_t`,
or what is left of it in a `size_t` is not before the end either. -/
theorem read_eof_iff (K : Kernel) (ws : List WriteCall) (p : Int) (count : Nat) (h0 : 0 ≤ p)
    (h1 : p < 2 ^ 63) (hc : 0 < count) :
    let s := (runWrites K aesdInit ws).2
    ReadsAt K s p count ↔ p < 2 ^ K.sizeBits ∨ (s.totalSize : Int) ≤ p % 2 ^ K.sizeBits := by
  intro s
  obtain ⟨v, hr, hlock⟩ : ∃ v, Rep K s v [] ∧ s.dev.lock = false := runWrites_rep K ws
  clear_value s
  by_cases hlt : p < 2 ^ K.sizeBits
  · exact iff_of_true (hr.readsAt_of_lt hlock h0 h1 hc hlt) (.inl hlt)
  · rw [hr.readsAt_iff_of_le hlock h0 h1 hc (not_lt.mp hlt)]
    exact (or_iff_right hlt).symm

/-- On a 64-bit kernel every position is fine, the largest one too. -/
theorem read_eof_last_position :
    ReadsAt kernel64 (runWrites kernel64 aesdInit [⟨[97, 10], .succeeds⟩]).2 (2 ^ 63 - 1) 1 :=
  (read_eof_iff kernel64 [⟨[97, 10], .succeeds⟩] (2 ^ 63 - 1) 1 (by decide) (by decide)
    (by decide)).mpr (.inl (by decide))

/-- On a 32-bit kernel a read 4 GiB behind the start gives the first byte. -/
theorem read_wraps :
    let s := (runWrites kernel32 aesdInit [⟨[97, 10], .succeeds⟩]).2
    s.totalSize = 2 ∧
      (aesdRead kernel32 .succeeds s (2 ^ 32) (some 1)).1 = ⟨1, [97], 2 ^ 32 + 1⟩ ∧
      ¬ ReadsAt kernel32 s (2 ^ 32) 1 := by
  refine ⟨by decide, by decide, fun h => ?_⟩
  exact absurd (h.1.mpr (by decide)).1 (by decide)

/-! ## Repeated reads -/

/-- The position and the device before the `n`-th of the reads with the counts `counts`. -/
def readSeq (K : Kernel) (s : Driver) (p : Int) (counts : Nat → Nat) : Nat → Int × Driver
  | 0 => (p, s)
  | n + 1 =>
    let (q, s') := readSeq K s p counts n
    let (res, s'') := aesdRead K .succeeds s' q (some (counts n))
    (res.fPos, s'')

/-- What the `n`-th read gives. -/
def readSeqResult (K : Kernel) (s : Driver) (p : Int) (counts : Nat → Nat) (n : Nat) : ReadResult :=
  let (q, s') := readSeq K s p counts n
  (aesdRead K .succeeds s' q (some (counts n))).1

variable {counts : Nat → Nat}

/-- A read inside the content stays inside it. -/
theorem Rep.read_eq_of_le (hr : Rep K s v []) (hlock : s.dev.lock = false) {o : Nat}
    (ho : o ≤ s.content.length) (count : Nat) :
    o + (readAt v.commands count o).length ≤ s.content.length ∧
      aesdRead K .succeeds s o (some count) =
        (⟨(readAt v.commands count o).length, readAt v.commands count o,
          ((o + (readAt v.commands count o).length : Nat) : Int)⟩, s) := by
  have hcl := hr.content_le_mem
  have hmem := K.two_mul_mem_lt
  have h63 := K.mem_lt_loff
  have hle := (readAt_isPrefix v.commands count o).length_le
  rw [← hr.content_eq, List.length_drop] at hle
  refine ⟨by omega, ?_⟩
  rw [hr.read_eq hlock rfl rfl (by omega) (by omega), Kernel.sizeOfLoff_of_lt (by omega),
    ← Int.natCast_add, loffT_of_lt (by omega)]

theorem Rep.readSeq_eq (hr : Rep K s v []) (hlock : s.dev.lock = false) {o : Nat}
    (ho : o ≤ s.content.length) (counts : Nat → Nat) (n : Nat) :
    ∃ q : Nat, readSeq K s o counts n = (↑q, s) ∧ q ≤ s.content.length := by
  induction n with
  | zero => exact ⟨o, rfl, ho⟩
  | succ n ih =>
    obtain ⟨q, hq, hle⟩ := ih
    obtain ⟨hle', hread⟩ := hr.read_eq_of_le hlock hle (counts n)
    refine ⟨_, ?_, hle'⟩
    rw [readSeq, hq]
    simp only [hread]

/-- The reads are a cursor over the content. -/
theorem Rep.readSeq_cursor (hr : Rep K s v []) (hlock : s.dev.lock = false) {o : Nat}
    (ho : o ≤ s.content.length) (hc : ∀ n, 0 < counts n) :
    ∃ c : Cursor s.content, c.pos 0 = o ∧ ∀ n, readSeq K s o counts n = (↑(c.pos n), s) ∧
      (readSeqResult K s o counts n).bytes = c.piece n ∧
      (readSeqResult K s o counts n).retval = (c.piece n).length := by
  choose pos hpos hle using hr.readSeq_eq hlock ho counts
  have hread := fun n => (hr.read_eq_of_le hlock (hle n) (counts n)).2
  let c : Cursor s.content :=
    { pos := pos
      piece := fun n => readAt v.commands (counts n) (pos n)
      pos_succ := fun n => by
        have hnext := hpos (n + 1)
        rw [readSeq, hpos n] at hnext
        simp only [hread] at hnext
        exact_mod_cast (Prod.mk.inj hnext).1.symm
      piece_le := fun n => by
        rw [hr.content_eq]
        exact readAt_isPrefix _ _ _
      piece_ne_nil := fun n hn => by
        rw [hr.content_eq] at hn
        exact List.length_pos_iff.mp (readAt_of_lt hn (hc n)).1 }
  have hstart := hpos 0
  rw [readSeq] at hstart
  refine ⟨c, by exact_mod_cast (Prod.mk.inj hstart).1.symm, fun n => ⟨hpos n, ?_⟩⟩
  rw [readSeqResult, hpos n]
  simp only [hread]
  exact ⟨rfl, rfl⟩

/-- After any writes, reads with any positive counts from a position `p` inside the content give
something until they are at its end, and nothing from then on; together they give the content from
`p` on. -/
theorem reads_reconstruct (K : Kernel) (ws : List WriteCall) (p : Int) (counts : Nat → Nat)
    (h0 : 0 ≤ p) (hp : p ≤ (runWrites K aesdInit ws).2.totalSize) (hc : ∀ n, 0 < counts n) :
    let s := (runWrites K aesdInit ws).2
    let pos := fun n => (readSeq K s p counts n).1
    let res := readSeqResult K s p counts
    ∃ N, (∀ n < N, 0 < (res n).retval ∧ pos n < s.totalSize) ∧
      (∀ n, N ≤ n → (res n).retval = 0 ∧ pos n = s.totalSize) ∧
      ((List.range N).map fun n => (res n).bytes).flatten = s.content.drop p.toNat ∧
      ∀ n, (res n).retval = (res n).bytes.length ∧ (readSeq K s p counts n).2 = s := by
  intro s pos res
  have hp : p ≤ s.totalSize := hp
  obtain ⟨v, hr, hlock⟩ : ∃ v, Rep K s v [] ∧ s.dev.lock = false := runWrites_rep K ws
  clear_value s
  obtain ⟨o, rfl⟩ := Int.eq_ofNat_of_zero_le h0
  have htot : s.totalSize = s.content.length := hr.totalSize_eq
  have ho : o ≤ s.content.length := by
    rw [← htot]
    exact_mod_cast hp
  obtain ⟨c, hstart, hcur⟩ := hr.readSeq_cursor hlock ho hc
  obtain ⟨N, hbefore, hafter, hall⟩ := c.exists_reads_all (by rw [hstart]; exact ho)
  have hpos : ∀ n, pos n = c.pos n := fun n => congrArg Prod.fst (hcur n).1
  have hbytes : ∀ n, (res n).bytes = c.piece n := fun n => (hcur n).2.1
  have hret : ∀ n, (res n).retval = (c.piece n).length := fun n => (hcur n).2.2
  refine ⟨N, fun n hn => ?_, fun n hn => ?_, ?_, fun n => ⟨?_, congrArg Prod.snd (hcur n).1⟩⟩
  · obtain ⟨hlt, hne⟩ := hbefore n hn
    have := List.length_pos_iff.mpr hne
    rw [hret, hpos, htot]
    omega
  · obtain ⟨hend, hnil⟩ := hafter n hn
    rw [hret, hpos, htot, hnil, hend]
    exact ⟨rfl, rfl⟩
  · rw [hstart] at hall
    rw [funext hbytes]
    exact hall
  · rw [hret, hbytes]

/-- Reads of two bytes each, over two commands of three bytes. -/
theorem reads_reconstruct_two_commands :
    let s := (runWrites kernel64 aesdInit [⟨[97, 98, 10], .succeeds⟩, ⟨[99, 100, 10], .succeeds⟩]).2
    ∃ N, ((List.range N).map fun n => (readSeqResult kernel64 s 1 (fun _ => 2) n).bytes).flatten =
      [98, 10, 99, 100, 10] := by
  obtain ⟨N, -, -, h, -⟩ := reads_reconstruct kernel64
    [⟨[97, 98, 10], .succeeds⟩, ⟨[99, 100, 10], .succeeds⟩] 1 (fun _ => 2) (by decide) (by decide)
    (fun _ => by decide)
  exact ⟨N, h⟩

end Aesd
