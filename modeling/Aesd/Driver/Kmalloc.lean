import Aesd.Driver.History
import Aesd.Lib.Lts

/-!
# Writes under a limit of the allocator

`kmalloc` and `krealloc` refuse every request above a fixed size (`KMALLOC_MAX_SIZE`). The write path
asks for one byte more than it stores, the terminating zero (`growRequest`).

* `aesdWrite_refused`: a write fails when a function of the kernel does.
* `Fits.aesdWrite`, `Fits.run`: under the limit every stored command is shorter than it.
* `newline_commits_iff`: when the next newline commits the pending command.
-/

namespace Aesd

/-- The size that `aesd_handle_write_buffer` asks for. -/
def growRequest (K : Kernel) (s : Driver) (count : Nat) : Nat :=
  match s.dev.writeBuf with
  | some _ => K.sizeT (K.sizeT (s.dev.writeBufSize + count) + 1)
  | none => K.sizeT (count + 1)

/-- The allocator refuses requests of more than `M` bytes. -/
def KmallocRefuses (K : Kernel) (M : Nat) (s : Driver) (w : WriteCall) : Prop :=
  (M < w.chunk.length → w.env.tmp.fails = true) ∧
    (M < growRequest K s w.chunk.length → w.env.grow.fails = true)

/-- The allocator refuses requests of more than `M` bytes, and no others. -/
def KmallocMax (K : Kernel) (M : Nat) (s : Driver) (w : WriteCall) : Prop :=
  (w.env.tmp.fails = true ↔ M < w.chunk.length) ∧
    (w.env.grow.fails = true ↔ M < growRequest K s w.chunk.length)

/-- The system of writes to one device. -/
def writesLts (K : Kernel) : Lts Driver WriteCall where
  next s w := some (aesdWrite K w.env s (some w.chunk)).2

variable {K : Kernel} {M : Nat} {s s' : Driver} {v : View} {g : LineLog UInt8} {w : WriteCall}
  {ws : List WriteCall} {chunk : Bytes} {env : WriteEnv}

instance : Decidable (KmallocRefuses K M s w) := inferInstanceAs (Decidable (_ ∧ _))

instance : Decidable (KmallocMax K M s w) := inferInstanceAs (Decidable (_ ∧ _))

theorem KmallocMax.refuses (h : KmallocMax K M s w) : KmallocRefuses K M s w :=
  ⟨h.1.mpr, h.2.mpr⟩

theorem writesLts_run : (writesLts K).run s ws = some (runWrites K s ws).2 := by
  induction ws generalizing s with
  | nil => rfl
  | cons w ws ih =>
    rw [Lts.run_cons]
    exact ih

/-! ## Refused allocations -/

/-- A refused allocation makes `aesd_handle_write_buffer` fail. -/
theorem aesdHandleWriteBuffer_refused {c : Heap.Choice UInt8} (hc : c.fails = true) (s : Driver)
    (newData : Option Nat) (count : Nat) :
    (aesdHandleWriteBuffer K c s newData count).1 < 0 := by
  unfold aesdHandleWriteBuffer
  cases newData with
  | none => simp
  | some newData =>
    cases s.dev.writeBuf with
    | none => simp [Heap.alloc_of_fails hc]
    | some wb =>
      simp only
      have hn : (s.heap.realloc K.mem c wb
          (K.sizeT (K.sizeT (s.dev.writeBufSize + count) + 1))).1 = none :=
        Heap.realloc_of_fails hc
      generalize s.heap.realloc K.mem c wb _ = res at hn
      obtain ⟨q, h⟩ := res
      cases hn
      simp

/-- A write in which a function of the kernel fails fails. -/
theorem aesdWrite_refused (s : Driver) (chunk : Bytes)
    (h : env.interrupted = true ∨ env.copyFails = true ∨ env.tmp.fails = true ∨
      env.grow.fails = true) :
    (aesdWrite K env s (some chunk)).1 < 0 := by
  unfold aesdWrite
  by_cases hlen : chunk.length = 0
  · simp [hlen]
  · simp only [if_neg hlen]
    cases hint : env.interrupted with
    | true => simp
    | false =>
      simp only [Bool.false_eq_true, ↓reduceIte]
      split
      · simp
      · rename_i tmp heap ha
        unfold aesdWriteCopied
        cases hcopy : env.copyFails with
        | true => simp
        | false =>
          have hgrow : env.grow.fails = true := by
            rcases h with h | h | h | h
            · rw [hint] at h
              cases h
            · rw [hcopy] at h
              cases h
            · rw [Heap.alloc_of_fails h] at ha
              cases ha
            · exact h
          have hneg := aesdHandleWriteBuffer_refused (K := K) hgrow
            { s.mutexLock with heap := heap.store tmp 0 chunk } (some tmp) chunk.length
          simp only [Bool.false_eq_true, ↓reduceIte]
          rw [if_pos hneg]
          exact hneg

/-! ## What is stored under the limit -/

/-- Every stored command and the pending bytes are shorter than `M`. -/
structure Fits (M : Nat) (s : Driver) : Prop where
  commands : ∀ l ∈ s.commands, l.length < M
  pending : s.dev.writeBufSize < M

theorem aesdInit_fits (hM : 0 < M) : Fits M aesdInit :=
  ⟨by rw [(aesdInit_holds (K := kernel64)).commands_eq]; simp [LineLog.empty, List.rtake], hM⟩

theorem Holds.writeBufSize_eq (h : Holds K s g) : s.dev.writeBufSize = g.pending.length := by
  obtain ⟨v, hr, hlog⟩ := h.rep
  rw [hr.writeBufSize]
  exact congrArg List.length (congrArg LineLog.pending hlog)

/-- A stored command and its terminating zero fit the heap. -/
theorem Holds.length_lt_mem (h : Holds K s g) {l : Bytes} (hl : l ∈ s.commands) :
    l.length + 1 ≤ K.mem := by
  obtain ⟨v, hr, -⟩ := h.rep
  rw [hr.commands_eq] at hl
  obtain ⟨b, hb, rfl⟩ := List.mem_map.mp hl
  have hm : View.cell b ∈ [] ++ v.cells := by
    simp only [View.cells, List.map_append, List.nil_append, List.mem_append]
    exact .inr (List.mem_map_of_mem hb)
  simpa [View.cell] using hr.owns.length_le hm

/-- The pending bytes and their terminating zero fit the heap. -/
theorem Holds.writeBufSize_lt_mem (h : Holds K s g) (hne : s.dev.writeBufSize ≠ 0) :
    s.dev.writeBufSize + 1 ≤ K.mem := by
  obtain ⟨⟨pend, live⟩, hr, -⟩ := h.rep
  have hsz := hr.writeBufSize
  cases pend with
  | none => exact absurd hsz hne
  | some b =>
    have hm : View.cell b ∈ [] ++ (View.mk (some b) live).cells := by simp [View.cells_some]
    rw [hsz]
    simpa [View.cell] using hr.owns.length_le hm

theorem Holds.growRequest_eq (h : Holds K s g) {n : Nat}
    (hn : s.dev.writeBufSize + n + 1 ≤ K.mem) :
    growRequest K s n = s.dev.writeBufSize + n + 1 := by
  obtain ⟨v, hr, -⟩ := h.rep
  unfold growRequest
  cases hwb : s.dev.writeBuf with
  | none =>
    have hz : s.dev.writeBufSize = 0 := hr.writeBuf_eq_none_iff.mp hwb
    rw [hz, Nat.zero_add] at hn ⊢
    exact Kernel.sizeT_of_le hn
  | some wb =>
    simp only
    rw [Kernel.sizeT_of_le (n := s.dev.writeBufSize + n) (by omega), Kernel.sizeT_of_le hn]

/-- What a write does to the stored data: nothing when it fails; otherwise the allocator granted the
block, and the bytes are pending or the newest command. -/
theorem Holds.aesdWrite_stores {r : Int} (h : Holds K s g) (hk : KmallocRefuses K M s w)
    (hw : Aesd.aesdWrite K w.env s (some w.chunk) = (r, s')) :
    (r < 0 ∧ s'.dev = s.dev ∧ s'.commands = s.commands) ∨
      (r = w.chunk.length ∧ s.dev.writeBufSize + w.chunk.length + 1 ≤ M ∧
        ((w.chunk.any isNewline = true ∧ s'.dev.writeBufSize = 0 ∧ s'.pendingBytes = [] ∧
            s'.commands =
              Fifo.push maxWriteOperationsSupported s.commands (s.pendingBytes ++ w.chunk)) ∨
          (w.chunk.any isNewline = false ∧ s'.commands = s.commands ∧
            s'.dev.writeBufSize = s.dev.writeBufSize + w.chunk.length))) := by
  obtain ⟨h', hres⟩ := h.aesdWrite hw
  by_cases hneg : r < 0
  · rw [logCall, if_pos hneg] at h'
    rcases hres with ⟨-, hdev⟩ | hcnt
    · exact .inl ⟨hneg, hdev, by rw [h'.commands_eq, h.commands_eq]⟩
    · omega
  · rw [logCall, if_neg hneg] at h'
    have hcnt : r = w.chunk.length := hres.resolve_left fun h => hneg h.1
    have hc : w.chunk.length ≠ 0 := by
      intro h0
      rw [Aesd.aesdWrite] at hw
      simp only [h0, ↓reduceIte, Prod.mk.injEq] at hw
      exact hneg (by rw [← hw.1]; decide)
    have hgrant : growRequest K s w.chunk.length ≤ M := by
      by_contra hlt
      have := aesdWrite_refused (K := K) s w.chunk (.inr (.inr (.inr (hk.2 (by omega)))))
      exact hneg (by rwa [hw] at this)
    refine .inr ⟨hcnt, ?_⟩
    cases hn : w.chunk.any isNewline with
    | true =>
      rw [LineLog.write_of_any hn] at h'
      have hcmd : s'.commands =
          Fifo.push maxWriteOperationsSupported s.commands (s.pendingBytes ++ w.chunk) := by
        rw [h'.commands_eq, h.commands_eq, h.pendingBytes_eq, Fifo.push_rtake (by decide)]
      have hmem := h'.length_lt_mem (l := s.pendingBytes ++ w.chunk)
        (by rw [hcmd]; exact Fifo.mem_push_self ..)
      rw [List.length_append, h.pendingBytes_eq, ← h.writeBufSize_eq] at hmem
      rw [h.growRequest_eq hmem] at hgrant
      exact ⟨hgrant, .inl ⟨rfl, h'.writeBufSize_eq, h'.pendingBytes_eq, hcmd⟩⟩
    | false =>
      rw [LineLog.write_of_not_any hn] at h'
      have hsz : s'.dev.writeBufSize = s.dev.writeBufSize + w.chunk.length := by
        rw [h'.writeBufSize_eq, h.writeBufSize_eq, List.length_append]
      have hmem : s.dev.writeBufSize + w.chunk.length + 1 ≤ K.mem := by
        rw [← hsz]
        exact h'.writeBufSize_lt_mem (by omega)
      rw [h.growRequest_eq hmem] at hgrant
      exact ⟨hgrant, .inr ⟨rfl, by rw [h'.commands_eq, h.commands_eq], hsz⟩⟩

/-- A write keeps everything below the limit. -/
theorem Fits.write {r : Int} (hf : Fits M s) (h : Holds K s g) (hk : KmallocRefuses K M s w)
    (hw : aesdWrite K w.env s (some w.chunk) = (r, s')) : Fits M s' := by
  rcases h.aesdWrite_stores hk hw with ⟨-, hdev, hcmd⟩ | ⟨-, hle, hres⟩
  · exact ⟨by rw [hcmd]; exact hf.commands, by rw [hdev]; exact hf.pending⟩
  · rcases hres with ⟨-, hsz, -, hcmd⟩ | ⟨-, hcmd, hsz⟩
    · refine ⟨fun l hl => ?_, by omega⟩
      rw [hcmd] at hl
      rcases Fifo.mem_push hl with hl | rfl
      · exact hf.commands l hl
      · rw [List.length_append, h.pendingBytes_eq, ← h.writeBufSize_eq]
        omega
    · exact ⟨by rw [hcmd]; exact hf.commands, by omega⟩

/-- What a step of the writes keeps, for an assertion about devices that hold a log. -/
theorem writesLts_invariant {C : Driver → WriteCall → Prop} {I : Driver → Prop} (h0 : I aesdInit)
    (step : ∀ s g w r s', Holds K s g → I s → C s w →
      aesdWrite K w.env s (some w.chunk) = (r, s') → I s')
    (hws : (writesLts K).Along C aesdInit ws) :
    I (runWrites K aesdInit ws).2 ∧ ∃ g, Holds K (runWrites K aesdInit ws).2 g := by
  refine Lts.run_invariant_of (I := fun s => I s ∧ ∃ g, Holds K s g) ?_
    ⟨h0, _, aesdInit_holds⟩ hws writesLts_run
  rintro s w s' ⟨hi, g, h⟩ hC hs
  have hw : aesdWrite K w.env s (some w.chunk) = (_, s') := Prod.ext rfl (Option.some.inj hs)
  exact ⟨step s g w _ s' h hi hC hw, _, (h.aesdWrite hw).1⟩

theorem runWrites_fits (hM : 0 < M)
    (hws : (writesLts K).Along (KmallocRefuses K M) aesdInit ws) :
    Fits M (runWrites K aesdInit ws).2 :=
  (writesLts_invariant (aesdInit_fits hM) (fun _ _ _ _ _ h hf hk hw => hf.write h hk hw) hws).1

/-! ## Which writes succeed -/

/-- The blocks of ten commands and of the pending bytes. -/
theorem Fits.total_le (hf : Fits M s) (h : Holds K s g) :
    s.heap.total ≤ maxWriteOperationsSupported * M + (s.dev.writeBufSize + 1) := by
  obtain ⟨⟨pend, live⟩, hr, -⟩ := h.rep
  have hlive : (live.map fun b => (View.cell b).2.length).sum ≤ live.length * M := by
    have hle : ∀ n ∈ live.map fun b => (View.cell b).2.length, n ≤ M := by
      intro n hn
      obtain ⟨b, hb, rfl⟩ := List.mem_map.mp hn
      have := hf.commands b.2 (by rw [hr.commands_eq]; exact List.mem_map_of_mem hb)
      simp only [View.cell, List.length_append, List.length_singleton]
      omega
    simpa using List.sum_le_card_nsmul _ M hle
  have hlen : live.length * M ≤ maxWriteOperationsSupported * M := by
    have hle := hr.ring.inv.le
    rw [List.length_map] at hle
    exact Nat.mul_le_mul_right M hle
  have htot := hr.owns.total_eq
  rw [hr.writeBufSize]
  cases pend with
  | none =>
    simp only [View.cells, Option.toList_none, List.nil_append, List.map_map,
      Function.comp_def] at htot
    omega
  | some b =>
    simp only [View.cells_some, View.pending_some, List.nil_append, List.map_cons, List.sum_cons,
      List.map_map, Function.comp_def] at htot ⊢
    have hb : (View.cell b).2.length = b.2.length + 1 := by simp [View.cell]
    omega

/-- Under the limit, and with memory for twelve blocks, a write that is not interrupted and whose
copy does not fault succeeds exactly when its bytes and the zero fit behind the pending ones. -/
theorem Fits.write_succeeds_iff (hf : Fits M s) (h : Holds K s g) (hmem : 12 * M ≤ K.mem)
    (hk : KmallocMax K M s w) (hint : w.env.interrupted = false) (hcopy : w.env.copyFails = false)
    (hc : w.chunk ≠ []) :
    0 ≤ (aesdWrite K w.env s (some w.chunk)).1 ↔
      s.dev.writeBufSize + w.chunk.length + 1 ≤ M := by
  constructor
  · intro hr
    generalize hw : aesdWrite K w.env s (some w.chunk) = res at hr
    obtain ⟨r, s'⟩ := res
    rcases h.aesdWrite_stores hk.refuses hw with ⟨hneg, -⟩ | ⟨-, hle, -⟩
    · simp only at hr
      omega
    · exact hle
  · intro hle
    obtain ⟨v, hr, -⟩ := h.rep
    have htot := hf.total_le h
    simp only [maxWriteOperationsSupported] at htot
    have hsz := hr.writeBufSize
    have htmp : w.env.tmp.fails = false := by
      rw [← Bool.not_eq_true, hk.1]
      omega
    have hgrow : w.env.grow.fails = false := by
      rw [← Bool.not_eq_true, hk.2, h.growRequest_eq (by omega)]
      omega
    have hroom : s.HasRoom K w.chunk.length := by
      unfold Driver.HasRoom
      omega
    rw [aesdWrite_retval w.env hr hc hroom, WriteEnv.retval, hint, htmp, hcopy, hgrow]
    simp

/-! ## An overlong command -/

/-- The next newline, when nothing but the limit can refuse it, completes the pending command. -/
def NewlineCommits (K : Kernel) (M : Nat) (s : Driver) : Prop :=
  ∀ env r s', env.interrupted = false → env.copyFails = false →
    KmallocMax K M s ⟨[newline], env⟩ → aesdWrite K env s (some [newline]) = (r, s') →
      r = 1 ∧ s'.pendingBytes = [] ∧
        s'.commands =
          Fifo.push maxWriteOperationsSupported s.commands (s.pendingBytes ++ [newline])

/-- No later write succeeds. -/
def Wedged (K : Kernel) (M : Nat) (s : Driver) : Prop :=
  ∀ ws, (writesLts K).Along (KmallocMax K M) s ws → ∀ r ∈ (runWrites K s ws).1, r < 0

/-- The choices of an allocator with the limit `M`, and no other failure. -/
def limitedEnv (K : Kernel) (M : Nat) (s : Driver) (chunk : Bytes) : WriteEnv :=
  { interrupted := false
    tmp := ⟨decide (M < chunk.length), false, 0⟩
    copyFails := false
    grow := ⟨decide (M < growRequest K s chunk.length), false, 0⟩ }

theorem limitedEnv_kmallocMax (chunk : Bytes) :
    KmallocMax K M s ⟨chunk, limitedEnv K M s chunk⟩ := by
  simp [KmallocMax, limitedEnv]

/-- With room for the newline and the zero, the next newline commits. -/
theorem Fits.newlineCommits (hf : Fits M s) (h : Holds K s g) (hmem : 12 * M ≤ K.mem)
    (hle : s.dev.writeBufSize + 2 ≤ M) : NewlineCommits K M s := by
  intro env r s' hint hcopy hk hw
  have hsucc := (hf.write_succeeds_iff h hmem hk hint hcopy (by simp)).mpr hle
  simp only [hw] at hsucc
  rcases h.aesdWrite_stores hk.refuses hw with ⟨hneg, -⟩ | ⟨hcnt, -, hres⟩
  · omega
  · rcases hres with ⟨-, -, hpend, hcmd⟩ | ⟨hn, -⟩
    · exact ⟨hcnt, hpend, hcmd⟩
    · exact absurd hn (by simp [isNewline])

/-- Without that room every write fails, and the device stays as it is. -/
theorem Holds.write_fails_of_full (h : Holds K s g) (hk : KmallocMax K M s w)
    (hfull : M < s.dev.writeBufSize + 2) {r : Int}
    (hw : Aesd.aesdWrite K w.env s (some w.chunk) = (r, s')) : r < 0 ∧ s'.dev = s.dev := by
  rcases h.aesdWrite_stores hk.refuses hw with ⟨hneg, hdev, -⟩ | ⟨hcnt, hle, -⟩
  · exact ⟨hneg, hdev⟩
  · have hc : w.chunk.length = 0 := by omega
    rw [Aesd.aesdWrite] at hw
    simp only [hc, ↓reduceIte, Prod.mk.injEq] at hw
    obtain ⟨rfl, rfl⟩ := hw
    exact ⟨by decide, rfl⟩

/-- A full device is wedged: what one failing write leaves, all of them leave. -/
theorem Holds.wedged_of_full (h : Holds K s g) (hfull : M < s.dev.writeBufSize + 2) :
    Wedged K M s := by
  intro ws hws
  induction ws generalizing s g with
  | nil => simp [runWrites]
  | cons w ws ih =>
    generalize hw : Aesd.aesdWrite K w.env s (some w.chunk) = res
    obtain ⟨r, s'⟩ := res
    obtain ⟨hneg, hdev⟩ := h.write_fails_of_full hws.1 hfull hw
    have hrest := ih (h.aesdWrite hw).1 (by rw [hdev]; exact hfull)
      (hws.2 s' (by simp [writesLts, hw]))
    rw [runWrites]
    simp only [hw, List.mem_cons, forall_eq_or_imp]
    exact ⟨hneg, hrest⟩

theorem Fits.newlineCommits_iff (hf : Fits M s) (h : Holds K s g) (hmem : 12 * M ≤ K.mem) :
    NewlineCommits K M s ↔ s.dev.writeBufSize + 2 ≤ M := by
  refine ⟨fun hn => ?_, hf.newlineCommits h hmem⟩
  by_contra hfull
  have hk : KmallocMax K M s ⟨[newline], _⟩ := limitedEnv_kmallocMax [newline]
  generalize hw : aesdWrite K (limitedEnv K M s [newline]) s (some [newline]) = res
  obtain ⟨r, s'⟩ := res
  obtain ⟨hneg, -⟩ := h.write_fails_of_full hk (by omega) hw
  obtain ⟨hone, -⟩ := hn _ r s' rfl rfl hk hw
  omega

theorem Fits.wedged_iff (hf : Fits M s) (h : Holds K s g) (hmem : 12 * M ≤ K.mem) :
    Wedged K M s ↔ ¬ s.dev.writeBufSize + 2 ≤ M := by
  refine ⟨fun hwedged hle => ?_, fun hfull => h.wedged_of_full (by omega)⟩
  have hk : KmallocMax K M s ⟨[newline], _⟩ := limitedEnv_kmallocMax [newline]
  have hsucc := (hf.write_succeeds_iff h hmem hk rfl rfl (by simp)).mpr hle
  have hneg := hwedged [⟨[newline], limitedEnv K M s [newline]⟩] ⟨hk, fun _ _ => trivial⟩ _
    (List.mem_singleton_self _)
  exact absurd hneg (not_lt_of_ge hsucc)

/-- A write that does not make the pending bytes `M - 1` leaves room for the next newline. -/
theorem Holds.write_room {r : Int} (h : Holds K s g) (hk : KmallocRefuses K M s w)
    (hle : s.dev.writeBufSize + 2 ≤ M)
    (hstep : w.chunk.any isNewline = true ∨ s.dev.writeBufSize + w.chunk.length + 1 ≠ M)
    (hw : Aesd.aesdWrite K w.env s (some w.chunk) = (r, s')) : s'.dev.writeBufSize + 2 ≤ M := by
  rcases h.aesdWrite_stores hk hw with ⟨-, hdev, -⟩ | ⟨-, hroom, hres⟩
  · rw [hdev]
    exact hle
  · rcases hres with ⟨-, hsz, -⟩ | ⟨hn, -, hsz⟩
    · omega
    · have hne := hstep.resolve_left (by simp [hn])
      omega

/-- Under a limit of `M` bytes, in every state that writes reach: the next newline commits the
pending command exactly when there are at most `M - 2` pending bytes, and the device is wedged
exactly when there are more. In a run none of whose writes makes them `M - 1`, the next newline
always commits. -/
theorem newline_commits_iff (K : Kernel) (M : Nat) (ws : List WriteCall) (hM : 2 ≤ M)
    (hmem : 12 * M ≤ K.mem) (hws : (writesLts K).Along (KmallocMax K M) aesdInit ws) :
    let s := (runWrites K aesdInit ws).2
    (NewlineCommits K M s ↔ s.dev.writeBufSize + 2 ≤ M) ∧
      (Wedged K M s ↔ ¬ s.dev.writeBufSize + 2 ≤ M) ∧
      ((writesLts K).Along (fun s w => w.chunk.any isNewline = true ∨
        s.dev.writeBufSize + w.chunk.length + 1 ≠ M) aesdInit ws → NewlineCommits K M s) := by
  intro s
  have hM' : 0 < M := by omega
  obtain ⟨hf, g, h⟩ := writesLts_invariant (aesdInit_fits hM')
    (fun _ _ _ _ _ h hf hk hw => hf.write h hk.refuses hw) hws
  refine ⟨hf.newlineCommits_iff h hmem, hf.wedged_iff h hmem, fun hsteps => ?_⟩
  obtain ⟨⟨-, hle⟩, -⟩ := writesLts_invariant (K := K)
    (I := fun s => Fits M s ∧ s.dev.writeBufSize + 2 ≤ M) ⟨aesdInit_fits hM', hM⟩
    (fun _ _ _ _ _ h hi hC hw => ⟨hi.1.write h hC.1.refuses hw,
      h.write_room hC.1.refuses hi.2 hC.2 hw⟩) (hws.and hsteps)
  exact hf.newlineCommits h hmem hle

/-- A limit of 4 bytes: two pending bytes leave room for the newline. -/
theorem newline_commits_two_pending :
    let s := (runWrites kernel64 aesdInit [⟨[97, 98], .succeeds⟩]).2
    NewlineCommits kernel64 4 s ∧ ¬ Wedged kernel64 4 s := by
  obtain ⟨h1, h2, -⟩ := newline_commits_iff kernel64 4 [⟨[97, 98], .succeeds⟩] (by decide)
    (by decide) (by decide)
  exact ⟨h1.mpr (by decide), fun h => h2.mp h (by decide)⟩

/-- A limit of 4 bytes: the write of three bytes is granted, and no later write is. -/
theorem three_pending_wedge :
    let ws : List WriteCall := [⟨[97, 98, 99], .succeeds⟩]
    (writesLts kernel64).Along (KmallocMax kernel64 4) aesdInit ws ∧
      (runWrites kernel64 aesdInit ws).1 = [3] ∧
      ¬ NewlineCommits kernel64 4 (runWrites kernel64 aesdInit ws).2 ∧
      Wedged kernel64 4 (runWrites kernel64 aesdInit ws).2 := by
  intro ws
  have hwedged : Wedged kernel64 4 (runWrites kernel64 aesdInit ws).2 :=
    (runWrites_holds aesdInit_holds rfl).1.wedged_of_full (by decide)
  refine ⟨by decide, by decide, fun hn => ?_, hwedged⟩
  have hk : KmallocMax kernel64 4 (runWrites kernel64 aesdInit ws).2
      ⟨[newline], { WriteEnv.succeeds with grow := ⟨true, false, 0⟩ }⟩ := by decide
  exact absurd (hn _ _ _ rfl rfl hk rfl).1 (by decide)

end Aesd
