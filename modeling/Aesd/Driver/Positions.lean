import Aesd.Driver.Streaming

/-!
# Positions and the end of the stored data

Every operation on a file leaves its position inside the stored data. A write does not know the
positions: when it evicts more bytes than it commits, the data can end before one of them.

* `Holds.totalSize_write`: the total size after a write (`sizeAfter`), from the state before it.
* `inBounds_step_iff`: which steps keep a position inside the data.
* `positions_in_bounds`: the run lemma, and what a reader at the end sees after a commit.
-/

namespace Aesd

variable {φ : Type*} [DecidableEq φ] {K : Kernel} {s s' : Driver} {g : LineLog UInt8}
  {st st' : Files φ} {f : φ} {p : Int} {c : FileCall} {res : ReadResult} {e : FileEvent φ}
  {es : List (FileEvent φ)} {chunk : Bytes}

/-- The size of the command that the next commit evicts. -/
def evictedSize (s : Driver) : Nat :=
  if s.commands.length = maxWriteOperationsSupported then (s.commands.headD []).length else 0

/-- The total size after a write of `chunk` that succeeds. -/
def sizeAfter (s : Driver) (chunk : Bytes) : Nat :=
  if chunk.any isNewline then s.totalSize - evictedSize s + (s.dev.writeBufSize + chunk.length)
  else s.totalSize

theorem length_flatten_push (ls : List Bytes) (l : Bytes) :
    (Fifo.push maxWriteOperationsSupported ls l).flatten.length =
      ls.flatten.length -
        (if ls.length = maxWriteOperationsSupported then (ls.headD []).length else 0) + l.length := by
  by_cases h : ls.length = maxWriteOperationsSupported
  · rw [Fifo.push_of_length_eq h, if_pos h]
    cases ls with
    | nil => simp
    | cons l' ls => simp
  · rw [Fifo.push, if_neg h, if_neg h]
    simp

theorem Holds.totalSize_write (h : Holds K s g) (h' : Holds K s' (g.write isNewline chunk)) :
    s'.totalSize = sizeAfter s chunk := by
  rw [h'.totalSize_eq, sizeAfter, h.totalSize_eq, Driver.content, Driver.content, h'.commands_eq]
  cases hc : chunk.any isNewline with
  | true =>
    rw [LineLog.write_of_any hc, if_pos rfl, ← Fifo.push_rtake (by decide), ← h.commands_eq,
      length_flatten_push, ← evictedSize, List.length_append, h.writeBufSize_eq]
  | false => rw [LineLog.write_of_not_any hc, if_neg (by simp), ← h.commands_eq]

/-! ## Steps -/

/-- The position of the file `f`, if it is open, is inside the stored data. -/
def InBounds (st : Files φ) (f : φ) : Prop := ∀ p, st.fPos f = some p → p ≤ st.driver.totalSize

/-- The step is a write after which the data ends before the position `p`. -/
def Overtakes (st : Files φ) (p : Int) : FileEvent φ → Prop
  | .called _ (.write _ (some chunk)) res => 0 ≤ res.retval ∧ (sizeAfter st.driver chunk : Int) < p
  | _ => False

/-- Of the calls only a write can leave the position of its own file outside. -/
theorem Outcome.fPos_le {g' : LineLog UInt8} (ho : Outcome K s g p c res s' g') (h : Holds K s g)
    (hc : c.isWrite = false) :
    s'.totalSize = s.totalSize ∧ (res.fPos = p ∨ res.fPos ≤ s.totalSize) := by
  have htot := h.totalSize_eq
  cases ho with
  | failed _ hdev => exact ⟨by rw [Driver.totalSize, Driver.totalSize, hdev], .inl rfl⟩
  | @read env count =>
    refine ⟨rfl, ?_⟩
    by_cases hend : s.content.length ≤ p.toNat
    · have hnil : readAt s.commands count p.toNat = [] := readAt_of_le hend
      exact .inl (by simp [hnil])
    · have hlen := (readAt_isPrefix s.commands count p.toNat).length_le
      rw [List.length_drop, ← Driver.content] at hlen
      exact .inr (by simp only; omega)
  | write => cases hc
  | llseek _ h0 h1 => exact ⟨rfl, .inr (by simp only; omega)⟩
  | ioctl _ _ ho =>
    have hlt : _ < s.content.length := (drop_seekAt ho).1
    exact ⟨rfl, .inr (by simp only; omega)⟩

/-- A write leaves the position of its own file; the data ends where `sizeAfter` says. -/
theorem Outcome.write_totalSize {env : WriteEnv} {buf : Option Bytes} {g' : LineLog UInt8}
    (ho : Outcome K s g p (.write env buf) res s' g') (h : Holds K s g) :
    res.fPos = p ∧ ((res.retval < 0 ∧ s'.totalSize = s.totalSize) ∨
      (0 ≤ res.retval ∧ ∃ chunk, buf = some chunk ∧ s'.totalSize = sizeAfter s chunk)) := by
  cases ho with
  | failed hr hdev =>
    exact ⟨rfl, .inl ⟨hr.neg, by rw [Driver.totalSize, Driver.totalSize, hdev]⟩⟩
  | write _ _ _ _ h' => exact ⟨rfl, .inr ⟨by simp, _, rfl, h.totalSize_write h'⟩⟩

theorem InBounds.update {f' : φ} {q : Option Int} (hin : InBounds st f)
    (hpos : st'.fPos = Function.update st.fPos f' q)
    (htot : st'.driver.totalSize = st.driver.totalSize)
    (hq : f = f' → ∀ x, q = some x → x ≤ st.driver.totalSize) : InBounds st' f := by
  intro p hp
  rw [htot]
  rw [hpos] at hp
  by_cases hf : f = f'
  · subst hf
    rw [Function.update_self] at hp
    exact hq rfl p hp
  · rw [Function.update_of_ne hf] at hp
    exact hin p hp

omit [DecidableEq φ] in
theorem not_overtakes {f' : φ} (hc : c.isWrite = false) : ¬ Overtakes st p (.called f' c res) := by
  cases c with
  | write => cases hc
  | _ => exact id

/-- A step keeps a position inside the data exactly when it is not a write that overtakes it. -/
theorem inBounds_step_iff (h : st.Ok K g) (hs : (filesLts K).next st e = some st')
    (hin : InBounds st f) :
    InBounds st' f ↔ ∀ p, st.fPos f = some p → ¬ Overtakes st p e := by
  cases e with
  | opened f' =>
    obtain ⟨-, rfl⟩ := next_opened.mp hs
    refine iff_of_true (hin.update rfl rfl fun _ x hx => ?_) (fun _ _ => id)
    obtain rfl : 0 = x := Option.some.inj hx
    omega
  | released f' =>
    obtain ⟨-, rfl⟩ := next_released.mp hs
    exact iff_of_true (hin.update rfl rfl fun _ _ hx => nomatch hx) (fun _ _ => id)
  | called f' c res =>
    obtain ⟨q, hq, hpos, ho⟩ := h.called hs
    cases hc : c.isWrite with
    | false =>
      obtain ⟨htot, hres⟩ := ho.fPos_le h.holds hc
      refine iff_of_true (hin.update hpos htot ?_) fun _ _ => not_overtakes hc
      rintro rfl x hx
      cases hx
      rcases hres with heq | hle
      · rw [heq]
        exact hin q hq
      · exact hle
    | true =>
      cases c with
      | write env buf =>
        obtain ⟨heq, hres⟩ := ho.write_totalSize h.holds
        rw [heq, ← hq, Function.update_eq_self] at hpos
        rcases hres with ⟨hneg, htot⟩ | ⟨h0, chunk, rfl, htot⟩
        · refine iff_of_true (fun p hp => ?_) fun p _ hover => ?_
          · rw [htot]
            exact hin p (by rw [← hpos, hp])
          · cases buf with
            | none => exact hover
            | some chunk => exact absurd hneg (not_lt_of_ge hover.1)
        · rw [InBounds, hpos, htot]
          simp [Overtakes, h0]
      | _ => cases hc

/-- The step is an `open` of the file or a seek on it that succeeds. -/
def Repositions (f : φ) : FileEvent φ → Prop
  | .opened f' => f' = f
  | .called f' (.llseek ..) res => f' = f ∧ 0 ≤ res.retval
  | .called f' (.ioctl ..) res => f' = f ∧ 0 ≤ res.retval
  | _ => False

/-- A new position is inside the data, wherever the old one was. -/
theorem Files.Ok.inBounds_of_repositions (h : st.Ok K g)
    (hs : (filesLts K).next st e = some st') (he : Repositions f e) : InBounds st' f := by
  cases e with
  | opened f' =>
    obtain ⟨-, rfl⟩ := next_opened.mp hs
    obtain rfl : f' = f := he
    intro p hp
    simp only [Function.update_self, Option.some.injEq] at hp
    simp only [← hp]
    omega
  | released f' => exact he.elim
  | called f' c res =>
    obtain ⟨q, -, hpos, ho⟩ := h.called hs
    have htot := h.holds.totalSize_eq
    have hself : f' = f → res.fPos ≤ st'.driver.totalSize → InBounds st' f := by
      rintro rfl hle p hp
      rw [hpos, Function.update_self] at hp
      cases hp
      exact hle
    generalize st'.driver = s', logEvent g (.called f' c res) = g' at ho hself
    cases ho with
    | failed hr =>
      cases c with
      | llseek => exact absurd hr.neg (not_lt_of_ge he.2)
      | ioctl => exact absurd hr.neg (not_lt_of_ge he.2)
      | _ => exact he.elim
    | llseek _ h0 h1 => exact hself he.1 (by simp only; omega)
    | ioctl _ _ ho =>
      have hlt : _ < st.driver.content.length := (drop_seekAt ho).1
      exact hself he.1 (by simp only; omega)
    | _ => exact he.elim

/-! ## Runs -/

/-- In a run without a step that overtakes a position, all positions are inside the data. -/
theorem inBounds_of_along (hrun : (filesLts K).run Files.init es = some st)
    (hC : (filesLts K).Along (fun st e => ∀ f p, st.fPos f = some p → ¬ Overtakes st p e)
      Files.init es) (f : φ) : InBounds st f := by
  have hstep : ∀ st e st', ((∃ g, st.Ok K g) ∧ ∀ f, InBounds st f) →
      (∀ f p, st.fPos f = some p → ¬ Overtakes st p e) →
      (filesLts K).next st e = some st' → (∃ g, st'.Ok K g) ∧ ∀ f : φ, InBounds st' f := by
    rintro st e st' ⟨⟨g, h⟩, hin⟩ hover hs
    exact ⟨⟨_, h.step hs⟩, fun f => (inBounds_step_iff h hs (hin f)).mpr (hover f)⟩
  exact (Lts.run_invariant_of hstep ⟨⟨_, Files.init_ok⟩, fun _ _ hp => nomatch hp⟩ hC hrun).2 f

/-- After a write that succeeds, a read of a file at `p` gives something exactly when `p` is before
the new end, unless it is interrupted or its copy faults. -/
theorem Files.Ok.read_after_write (h : st.Ok K g) {w : φ} {env : WriteEnv} {env' : CallEnv}
    {count : Nat} {res' : ReadResult} {st'' : Files φ} (hp : st.fPos f = some p)
    (hw : (filesLts K).next st (.called w (.write env (some chunk)) res) = some st')
    (hres : 0 ≤ res.retval) (hc : 0 < count)
    (hr : (filesLts K).next st' (.called f (.read env' (some count)) res') = some st'') :
    (env'.interrupted = false → env'.copyFails = false → 0 ≤ res'.retval) ∧
      (0 ≤ res'.retval → (res'.bytes ≠ [] ↔ p < sizeAfter st.driver chunk)) := by
  obtain ⟨q, hq, hpos, ho⟩ := h.called hw
  obtain ⟨heq, ⟨hneg, -⟩ | ⟨-, chunk', hchunk, htot⟩⟩ := ho.write_totalSize h.holds
  · exact absurd hneg (not_lt_of_ge hres)
  · obtain rfl : chunk = chunk' := Option.some.inj hchunk
    rw [heq, ← hq, Function.update_eq_self] at hpos
    have h' := h.step hw
    obtain ⟨p', hp', -, ho'⟩ := h'.called hr
    obtain rfl : p = p' := Option.some.inj (hp.symm.trans (by rw [← hpos, hp']))
    obtain ⟨h0, -⟩ := h.fPos f p hp
    refine ⟨ho'.read_nonneg, fun hres' => ?_⟩
    obtain ⟨-, hbytes⟩ := ho'.read_bytes hres'
    obtain ⟨-, hbefore, hend⟩ := h'.holds.readAt_stream hc p.toNat
    rw [← htot, h'.holds.totalSize_eq, hbytes]
    constructor
    · intro hne
      by_contra hle
      exact hne (hend (by omega))
    · intro hlt
      exact hbefore (by omega)

theorem Holds.evictedSize_le (h : Holds K s g) : evictedSize s ≤ s.totalSize := by
  rw [h.totalSize_eq, Driver.content, evictedSize]
  split
  · cases s.commands with
    | nil => simp
    | cons l ls => simp
  · exact Nat.zero_le _

/-- In every reachable state no position is negative. An `open` and a seek put a position inside the
stored data, and every step keeps one there, but for a write that ends the data before it
(`Overtakes`); without such writes all positions are inside. A reader at or behind the end, whose read
is not interrupted and does not fault, reads something after the next commit exactly when its position
is before the new end; at the end, when the commit is longer than what it evicts. -/
theorem positions_in_bounds (K : Kernel) (es : List (FileEvent φ)) (st : Files φ)
    (hrun : (filesLts K).run Files.init es = some st) :
    (∀ f p, st.fPos f = some p → 0 ≤ p) ∧
    (∀ f e st', (filesLts K).next st e = some st' →
      (Repositions f e → InBounds st' f) ∧
        (InBounds st f → (InBounds st' f ↔ ∀ p, st.fPos f = some p → ¬ Overtakes st p e))) ∧
    ((filesLts K).Along (fun st e => ∀ f p, st.fPos f = some p → ¬ Overtakes st p e) Files.init es →
      ∀ f, InBounds st f) ∧
    (∀ f p w env chunk res st' env' count res' st'', st.fPos f = some p →
      (filesLts K).next st (.called w (.write env (some chunk)) res) = some st' → 0 ≤ res.retval →
      0 < count → (filesLts K).next st' (.called f (.read env' (some count)) res') = some st'' →
      (env'.interrupted = false → env'.copyFails = false → 0 ≤ res'.retval) ∧
        (0 ≤ res'.retval → (res'.bytes ≠ [] ↔ p < sizeAfter st.driver chunk))) ∧
    ∀ chunk, chunk.any isNewline = true → (st.driver.totalSize < sizeAfter st.driver chunk ↔
      evictedSize st.driver < st.driver.dev.writeBufSize + chunk.length) := by
  have h := files_ok hrun
  refine ⟨fun f p hp => (h.fPos f p hp).1, fun f e st' hs => ⟨h.inBounds_of_repositions hs,
    inBounds_step_iff h hs⟩, inBounds_of_along hrun, ?_, fun chunk hn => ?_⟩
  · intro f p w env chunk res st' env' count res' st'' hp hw hres hc hr
    exact h.read_after_write hp hw hres hc hr
  · have hle := h.holds.evictedSize_le
    rw [sizeAfter, if_pos hn]
    omega

/-- The writer 1 fills the ring with a command of five bytes and nine of two. The reader 0 goes to the
end, where it reads nothing. The eleventh command evicts the first one, and the reader still reads
nothing. -/
def overtakenTrace : List (FileEvent Nat) :=
  [.opened 0, .opened 1,
    .called 1 (.write .succeeds (some [97, 98, 99, 100, 10])) ⟨5, [], 0⟩] ++
    List.replicate 9 (.called 1 (.write .succeeds (some [98, 10])) ⟨2, [], 0⟩) ++
    [.called 0 (.llseek false 0 2) ⟨23, [], 23⟩,
      .called 0 (.read .succeeds (some 4)) ⟨0, [], 23⟩,
      .called 1 (.write .succeeds (some [99, 10])) ⟨2, [], 0⟩,
      .called 0 (.read .succeeds (some 4)) ⟨0, [], 23⟩]

theorem overtakenTrace_run :
    ∃ st : Files Nat, (filesLts kernel64).run Files.init overtakenTrace = some st ∧
      st.fPos 0 = some 23 ∧ st.driver.totalSize = 20 := by
  obtain ⟨st, hrun⟩ : ∃ st, (filesLts kernel64).run Files.init overtakenTrace = some st := by
    rw [← Option.isSome_iff_exists]
    decide
  have hboth : ((filesLts kernel64).run Files.init overtakenTrace).map
      (fun st : Files Nat => (st.fPos 0, st.driver.totalSize)) = some (some 23, 20) := by decide
  rw [hrun] at hboth
  obtain ⟨hpos, htot⟩ := Prod.mk.inj (Option.some.inj hboth)
  exact ⟨st, hrun, hpos, htot⟩

/-- In the state behind that trace nothing is negative. -/
theorem positions_in_bounds_overtaken :
    ∃ st : Files Nat, (filesLts kernel64).run Files.init overtakenTrace = some st ∧
      ∀ f p, st.fPos f = some p → 0 ≤ p := by
  obtain ⟨st, hrun, -⟩ := overtakenTrace_run
  exact ⟨st, hrun, (positions_in_bounds kernel64 _ st hrun).1⟩

/-- The position of the reader is behind the end, and a commit gave it nothing. -/
theorem reader_overtaken :
    ∃ st : Files Nat, (filesLts kernel64).run Files.init overtakenTrace = some st ∧
      ¬ InBounds st 0 := by
  obtain ⟨st, hrun, hpos, htot⟩ := overtakenTrace_run
  refine ⟨st, hrun, fun hin => ?_⟩
  have hle := hin 23 hpos
  rw [htot] at hle
  exact absurd hle (by decide)

end Aesd
