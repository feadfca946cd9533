import Aesd.Driver.Seeking

/-!
# Open files of one device

Any number of open files, each with its own position, and calls on them in any order with any
failures: `filesLts`. A call is one step, since it holds the mutex of the device while it works.

* `FileCall.Refused`, `Outcome`: how a call can end, with the reason of each error.
* `FileCall.run_cases`: every call ends so.
* `files_ok`: the run lemma; the device holds the log of the writes (`fileLog`), and every position
  is one of a byte the kernel could hold.
* `file_call_frame`: a call that fails changes nothing; otherwise a read or a seek moves one
  position, and a write none. No call keeps the lock.
-/

namespace Aesd

/-- A file operation, with its arguments and what the kernel chooses. -/
inductive FileCall where
  | read (env : CallEnv) (buf : Option Nat)
  | write (env : WriteEnv) (buf : Option Bytes)
  | llseek (interrupted : Bool) (offset : Int64) (whence : Int32)
  | ioctl (env : CallEnv) (cmd : UInt32) (arg : AesdSeekto)
  deriving DecidableEq

namespace FileCall

/-- The operation on a file at `fPos`: what it returns, the bytes in the user buffer and the new
position, and the device. `aesd_write` does not use its `f_pos`. -/
def run (K : Kernel) (s : Driver) (fPos : Int) : FileCall → ReadResult × Driver
  | read env buf => aesdRead K env s fPos buf
  | write env buf =>
    let (retval, s') := aesdWrite K env s buf
    (⟨retval, [], fPos⟩, s')
  | llseek interrupted offset whence =>
    let (retval, newPos, s') := aesdLlseek K interrupted s fPos offset.toInt whence.toInt
    (⟨retval, [], newPos⟩, s')
  | ioctl env cmd arg =>
    let (retval, newPos, s') := aesdUnlockedIoctl env s fPos cmd arg
    (⟨retval, [], newPos⟩, s')

def isWrite : FileCall → Bool
  | write .. => true
  | _ => false

/-- The call gets the lock. -/
def locks : FileCall → Bool
  | read env buf => buf.isSome && !env.interrupted
  | write env buf => (buf.any fun chunk => chunk.length ≠ 0) && !env.interrupted
  | llseek interrupted _ _ => !interrupted
  | ioctl env cmd _ => cmd == aesdcharIocseekto && !env.copyFails && !env.interrupted

end FileCall

/-- The device, and the position of every open file. -/
structure Files (φ : Type*) where
  driver : Driver
  fPos : φ → Option Int

/-- A step: `aesd_open`, a call with its result, or `aesd_release`. -/
inductive FileEvent (φ : Type*) where
  | opened (f : φ)
  | called (f : φ) (c : FileCall) (res : ReadResult)
  | released (f : φ)
  deriving DecidableEq

variable {φ : Type*} [DecidableEq φ]

/-- The device just initialised, before the first `open`. -/
def Files.init : Files φ := { driver := aesdInit, fPos := fun _ => none }

/-- All interleavings of calls on open files. -/
def filesLts (K : Kernel) : Lts (Files φ) (FileEvent φ) where
  next st
    | .opened f =>
      match st.fPos f with
      | some _ => none
      | none => some { st with fPos := Function.update st.fPos f (some 0) }
    | .called f c res =>
      match st.fPos f with
      | none => none
      | some p =>
        let (res', s') := c.run K st.driver p
        if res' = res then
          some { driver := s', fPos := Function.update st.fPos f (some res'.fPos) }
        else none
    | .released f =>
      match st.fPos f with
      | none => none
      | some _ => some { st with fPos := Function.update st.fPos f none }

variable {K : Kernel} {s s' : Driver} {g : LineLog UInt8} {st st' : Files φ} {f : φ} {p : Int}
  {c : FileCall} {res : ReadResult} {e : FileEvent φ} {es : List (FileEvent φ)}

/-! ## Steps -/

theorem next_opened : (filesLts K).next st (.opened f) = some st' ↔
    st.fPos f = none ∧ st' = { st with fPos := Function.update st.fPos f (some 0) } := by
  simp only [filesLts]
  cases st.fPos f <;> simp [eq_comm]

theorem next_released : (filesLts K).next st (.released f) = some st' ↔
    st.fPos f ≠ none ∧ st' = { st with fPos := Function.update st.fPos f none } := by
  simp only [filesLts]
  cases st.fPos f <;> simp [eq_comm]

theorem next_called : (filesLts K).next st (.called f c res) = some st' ↔
    ∃ p, st.fPos f = some p ∧ c.run K st.driver p = (res, st'.driver) ∧
      st'.fPos = Function.update st.fPos f (some res.fPos) := by
  simp only [filesLts]
  cases st.fPos f with
  | none => simp
  | some p =>
    simp only [Option.some.injEq, exists_eq_left']
    generalize c.run K st.driver p = out
    obtain ⟨res', s'⟩ := out
    by_cases hres : res' = res
    · subst hres
      cases st'
      simp [eq_comm]
    · simp [hres]

/-! ## What a call does -/

/-- Why a call on a file at `p` fails, and the error it returns. -/
inductive FileCall.Refused (K : Kernel) (s : Driver) (p : Int) : FileCall → Int → Prop
  | read {env buf r} (h : ReadRefused env (p < s.content.length) buf r) :
    Refused K s p (.read env buf) r
  | writeEmpty {env buf} (h : buf.getD [] = []) : Refused K s p (.write env buf) (-einval)
  | writeInterrupted {env buf} (h : env.interrupted = true) :
    Refused K s p (.write env buf) (-erestartsys)
  | writeNoMemory {env chunk} (hint : env.interrupted = false)
      (h : env.tmp.fails = true ∨ env.grow.fails = true ∨ ¬ s.HasRoom K chunk.length) :
    Refused K s p (.write env (some chunk)) (-enomem)
  | writeFaults {env buf} (hint : env.interrupted = false) (h : env.copyFails = true) :
    Refused K s p (.write env buf) (-efault)
  | llseekInterrupted {offset whence} : Refused K s p (.llseek true offset whence) (-erestartsys)
  | llseekOutside {interrupted} {offset : Int64} {whence : Int32}
      (h : ∀ base, seekBase s.content.length p whence.toInt = some base →
        ¬ (0 ≤ base + offset.toInt ∧ base + offset.toInt ≤ s.content.length)) :
    Refused K s p (.llseek interrupted offset whence) (-einval)
  | ioctlCmd {env cmd arg} (h : cmd ≠ aesdcharIocseekto) :
    Refused K s p (.ioctl env cmd arg) (-enotty)
  | ioctlFaults {env arg} (h : env.copyFails = true) :
    Refused K s p (.ioctl env aesdcharIocseekto arg) (-efault)
  | ioctlInterrupted {env arg} (h : env.interrupted = true) :
    Refused K s p (.ioctl env aesdcharIocseekto arg) (-erestartsys)
  | ioctlNoByte {env} {arg : AesdSeekto} (h : ¬ HasByte s arg) :
    Refused K s p (.ioctl env aesdcharIocseekto arg) (-einval)

theorem FileCall.Refused.neg {r : Int} (h : c.Refused K s p r) : r < 0 := by
  cases h with
  | read h => exact h.neg
  | _ => decide

/-- How a call on a file at `p` can end, on a device that holds the log `g`: with an error that has
its reason, or as the operation should. The last argument is the log after it. -/
inductive Outcome (K : Kernel) (s : Driver) (g : LineLog UInt8) (p : Int) :
    FileCall → ReadResult → Driver → LineLog UInt8 → Prop
  | failed {c retval s'} (hr : c.Refused K s p retval) (hdev : s'.dev = s.dev) (h : Holds K s' g) :
      Outcome K s g p c ⟨retval, [], p⟩ s' g
  | read {env count} (hint : env.interrupted = false)
      (hcopy : p < s.content.length → env.copyFails = false) :
      Outcome K s g p (.read env (some count))
        ⟨(readAt s.commands count p.toNat).length, readAt s.commands count p.toNat,
          p + (readAt s.commands count p.toNat).length⟩ s g
  | write {env chunk s'} (hc : chunk ≠ []) (hint : env.interrupted = false)
      (hcopy : env.copyFails = false) (hmem : env.tmp.fails = false ∧ env.grow.fails = false)
      (h : Holds K s' (g.write isNewline chunk)) :
      Outcome K s g p (.write env (some chunk)) ⟨chunk.length, [], p⟩ s' (g.write isNewline chunk)
  | llseek {offset whence base} (hbase : seekBase s.content.length p whence.toInt = some base)
      (h0 : 0 ≤ base + offset.toInt) (h1 : base + offset.toInt ≤ (s.content.length : Int)) :
      Outcome K s g p (.llseek false offset whence)
        ⟨base + offset.toInt, [], base + offset.toInt⟩ s g
  | ioctl {env arg o} (hint : env.interrupted = false) (hcopy : env.copyFails = false)
      (ho : seekAt s.commands arg.writeCmd.toNat arg.writeCmdOffset.toNat = some o) :
      Outcome K s g p (.ioctl env aesdcharIocseekto arg) ⟨0, [], o⟩ s g

theorem Holds.content_le_mem (h : Holds K s g) : s.content.length ≤ K.mem := by
  obtain ⟨v, hr, -⟩ := h.rep
  exact hr.content_le_mem

theorem Holds.read_outcome (h : Holds K s g) (h0 : 0 ≤ p) (hp : p ≤ K.mem) (env : CallEnv)
    (buf : Option Nat) (hrun : aesdRead K env s p buf = (res, s')) :
    Outcome K s g p (.read env buf) res s' g := by
  obtain ⟨v, hr, -⟩ := h.rep
  have h63 := K.mem_lt_loff
  have hmem := K.two_mul_mem_lt
  obtain ⟨o, rfl⟩ := Int.eq_ofNat_of_zero_le h0
  have hsz : K.sizeOfLoff o = o := Kernel.sizeOfLoff_of_lt (by omega)
  have hself : loffT (o : Int) = o := loffT_of_lt (by omega)
  obtain ⟨hs, hres⟩ := aesdRead_spec env buf hr h.unlocked hself
  rw [hrun] at hs hres
  obtain ⟨retval, bytes, fPos⟩ := res
  simp only at hs hres
  subst hs
  have hin : K.sizeOfLoff o < v.commands.flatten.length ↔ (o : Int) < s'.content.length := by
    rw [hsz, hr.content_eq, Int.ofNat_lt]
  rcases hres with ⟨-, rfl, rfl, hwhy⟩ | ⟨count, rfl, hint, hcopy, hb, hret, hpos⟩
  · rw [hin] at hwhy
    exact .failed (.read hwhy) rfl h
  · rw [hin] at hcopy
    rw [hsz, ← hr.commands_eq] at hb
    have hlen := (readAt_isPrefix s'.commands count o).length_le
    rw [List.length_drop, ← Driver.content] at hlen
    have hcl := hr.content_le_mem
    rw [← Int.natCast_add, loffT_of_lt (by rw [hb]; omega), Int.natCast_add] at hpos
    subst hb hret hpos
    exact .read hint hcopy

/-- The reason of a write that fails. -/
theorem Holds.write_refused (h : Holds K s g) {env : WriteEnv} {chunk : Bytes} {retval : Int}
    (hc : chunk ≠ []) (hrun : Aesd.aesdWrite K env s (some chunk) = (retval, s'))
    (hneg : retval < 0) : FileCall.Refused K s p (.write env (some chunk)) retval := by
  obtain ⟨v, hr, hlog⟩ := h.rep
  have hpend : v.pending = g.pending := congrArg LineLog.pending hlog
  obtain ⟨-, v', -, hres⟩ := aesdWrite_spec hr h.unlocked hc (hpend ▸ h.noNewline) hrun
  rcases hres with ⟨-, -, -, ⟨rfl, hint⟩ | ⟨hint, ⟨rfl, hcopy⟩ | rfl⟩⟩ | ⟨hcnt, -⟩
  · exact .writeInterrupted hint
  · exact .writeFaults hint hcopy
  · refine .writeNoMemory hint ?_
    by_contra hno
    simp only [not_or, not_not, Bool.not_eq_true] at hno
    obtain ⟨htmp, hgrow, hroom⟩ := hno
    have hret := aesdWrite_retval env hr hc hroom
    rw [hrun] at hret
    simp only [WriteEnv.retval, hint, htmp, hgrow, Bool.false_eq_true, ↓reduceIte] at hret
    -- no allocation failed: `-ENOMEM` is neither `-EFAULT` nor the length
    split at hret
    · cases hret
    · have := enomem_pos
      omega
  · omega

theorem Holds.write_outcome (h : Holds K s g) (env : WriteEnv) (buf : Option Bytes) {retval : Int}
    (hrun : Aesd.aesdWrite K env s buf = (retval, s')) :
    ∃ g', Outcome K s g p (.write env buf) ⟨retval, [], p⟩ s' g' := by
  cases buf with
  | none =>
    cases hrun
    exact ⟨g, .failed (.writeEmpty rfl) rfl h⟩
  | some chunk =>
    by_cases hc : chunk = []
    · subst hc
      cases hrun
      exact ⟨g, .failed (.writeEmpty rfl) rfl h⟩
    · have hcall := h.aesdWrite (w := ⟨chunk, env⟩) hrun
      by_cases hneg : retval < 0
      · obtain ⟨h', hres⟩ := hcall
        rw [logCall, if_pos hneg] at h'
        have hdev : s'.dev = s.dev := (hres.resolve_right (by omega)).2
        exact ⟨g, .failed (h.write_refused hc hrun hneg) hdev h'⟩
      · obtain ⟨h', hres⟩ := hcall
        rw [logCall, if_neg hneg] at h'
        obtain rfl : retval = chunk.length := hres.resolve_left fun h => hneg h.1
        have hall : ∀ b : Bool, (b = true → (Aesd.aesdWrite K env s (some chunk)).1 < 0) →
            b = false := fun b hb => by
          rw [← Bool.not_eq_true]
          intro hbt
          exact hneg (by simpa only [hrun] using hb hbt)
        exact ⟨_, .write hc (hall _ fun hb => aesdWrite_refused s chunk (.inl hb))
          (hall _ fun hb => aesdWrite_refused s chunk (.inr (.inl hb)))
          ⟨hall _ fun hb => aesdWrite_refused s chunk (.inr (.inr (.inl hb))),
            hall _ fun hb => aesdWrite_refused s chunk (.inr (.inr (.inr hb)))⟩ h'⟩

theorem Holds.llseek_outcome (h : Holds K s g) (h0 : 0 ≤ p) (hp : p ≤ K.mem) (interrupted : Bool)
    (offset : Int64) (whence : Int32) {retval newPos : Int}
    (hrun : aesdLlseek K interrupted s p offset.toInt whence.toInt = (retval, newPos, s')) :
    Outcome K s g p (.llseek interrupted offset whence) ⟨retval, [], newPos⟩ s' g := by
  obtain ⟨v, hr, -⟩ := h.rep
  have h63 := K.mem_lt_loff
  cases interrupted with
  | true =>
    cases hrun
    exact .failed .llseekInterrupted rfl h
  | false =>
    have ho0 := offset.le_toInt
    have ho1 := offset.toInt_lt
    rw [hr.llseek_eq h.unlocked h0 (by omega) (by omega) (by omega)] at hrun
    cases hbase : seekBase s.content.length p whence.toInt with
    | none =>
      simp only [hbase] at hrun
      cases hrun
      refine .failed (.llseekOutside fun base hb => ?_) rfl h
      rw [hbase] at hb
      cases hb
    | some base =>
      simp only [hbase] at hrun
      by_cases hin : 0 ≤ base + offset.toInt ∧ base + offset.toInt ≤ s.content.length
      · rw [if_pos hin] at hrun
        cases hrun
        exact .llseek hbase hin.1 hin.2
      · rw [if_neg hin] at hrun
        cases hrun
        refine .failed (.llseekOutside fun base' hb => ?_) rfl h
        rw [hbase] at hb
        cases hb
        exact hin

theorem Holds.ioctl_outcome (h : Holds K s g) (env : CallEnv) (cmd : UInt32) (arg : AesdSeekto)
    {retval newPos : Int} (hrun : aesdUnlockedIoctl env s p cmd arg = (retval, newPos, s')) :
    Outcome K s g p (.ioctl env cmd arg) ⟨retval, [], newPos⟩ s' g := by
  obtain ⟨v, hr, -⟩ := h.rep
  by_cases hcmd : cmd = aesdcharIocseekto
  · subst hcmd
    cases hcopy : env.copyFails with
    | true =>
      simp only [aesdUnlockedIoctl, hcopy, ↓reduceIte] at hrun
      cases hrun
      exact .failed (.ioctlFaults hcopy) rfl h
    | false =>
      cases hint : env.interrupted with
      | true =>
        simp only [aesdUnlockedIoctl, hcopy, hint, Bool.false_eq_true, ↓reduceIte] at hrun
        cases hrun
        exact .failed (.ioctlInterrupted hint) rfl h
      | false =>
        rw [aesdUnlockedIoctl_eq p arg hr h.unlocked hint hcopy, ← hr.commands_eq] at hrun
        cases hseek : seekAt s.commands arg.writeCmd.toNat arg.writeCmdOffset.toNat with
        | none =>
          simp only [hseek] at hrun
          cases hrun
          refine .failed (.ioctlNoByte fun hb => ?_) rfl h
          obtain ⟨o, ho⟩ := exists_seekAt_iff.mpr hb
          rw [hseek] at ho
          cases ho
        | some o =>
          simp only [hseek] at hrun
          cases hrun
          exact .ioctl hint hcopy hseek
  · rw [aesdUnlockedIoctl, if_neg hcmd] at hrun
    cases hrun
    exact .failed (.ioctlCmd hcmd) rfl h

/-- Every call, on a file with a position that the kernel could hold. -/
theorem FileCall.run_cases (h : Holds K s g) (h0 : 0 ≤ p) (hp : p ≤ K.mem)
    (hrun : c.run K s p = (res, s')) : ∃ g', Outcome K s g p c res s' g' := by
  cases c with
  | read env buf => exact ⟨g, h.read_outcome h0 hp env buf hrun⟩
  | write env buf =>
    obtain ⟨rfl, rfl⟩ := Prod.mk.inj hrun
    exact h.write_outcome env buf rfl
  | llseek interrupted offset whence =>
    obtain ⟨rfl, rfl⟩ := Prod.mk.inj hrun
    exact ⟨g, h.llseek_outcome h0 hp interrupted offset whence rfl⟩
  | ioctl env cmd arg =>
    obtain ⟨rfl, rfl⟩ := Prod.mk.inj hrun
    exact ⟨g, h.ioctl_outcome env cmd arg rfl⟩

/-! ## Runs -/

/-- The log of the writes in a trace: a write that failed is not in it. -/
def logEvent (g : LineLog UInt8) : FileEvent φ → LineLog UInt8
  | .called _ (.write _ (some chunk)) res => if res.retval < 0 then g else g.write isNewline chunk
  | _ => g

/-- The log of a trace. -/
def fileLog (es : List (FileEvent φ)) : LineLog UInt8 := es.foldl logEvent .empty

omit [DecidableEq φ] in
@[simp] theorem fileLog_snoc (es : List (FileEvent φ)) (e : FileEvent φ) :
    fileLog (es ++ [e]) = logEvent (fileLog es) e := by
  simp [fileLog]

omit [DecidableEq φ] in
/-- The log in an outcome is the one that the trace gives. -/
theorem Outcome.log_eq {g' : LineLog UInt8} (h : Outcome K s g p c res s' g') (f : φ) :
    g' = logEvent g (.called f c res) := by
  cases h with
  | @failed c retval s' hr =>
    have hneg := hr.neg
    cases c with
    | write env buf => cases buf <;> simp [logEvent, hneg]
    | _ => rfl
  | write => simp [logEvent]
  | _ => rfl

/-- After a call the device holds the log, and the position is again one that the kernel could
hold. -/
theorem Outcome.ok {g' : LineLog UInt8} (ho : Outcome K s g p c res s' g') (h : Holds K s g)
    (h0 : 0 ≤ p) (hp : p ≤ K.mem) : Holds K s' g' ∧ 0 ≤ res.fPos ∧ res.fPos ≤ K.mem := by
  have hcl := h.content_le_mem
  cases ho with
  | failed _ _ h' => exact ⟨h', h0, hp⟩
  | @read env count =>
    refine ⟨h, by simp only; omega, ?_⟩
    have hlen := (readAt_isPrefix s.commands count p.toNat).length_le
    rw [List.length_drop, ← Driver.content] at hlen
    simp only
    omega
  | write _ _ _ _ h' => exact ⟨h', h0, hp⟩
  | llseek _ h0 h1 => exact ⟨h, h0, by simp only; omega⟩
  | ioctl _ _ ho =>
    have hlt : _ < s.content.length := (drop_seekAt ho).1
    exact ⟨h, by simp only; omega, by simp only; omega⟩

/-- The device holds the log `g`, and every position is one that the kernel could hold. -/
structure Files.Ok (K : Kernel) (st : Files φ) (g : LineLog UInt8) : Prop where
  holds : Holds K st.driver g
  fPos : ∀ f p, st.fPos f = some p → 0 ≤ p ∧ p ≤ K.mem

omit [DecidableEq φ] in
theorem Files.init_ok : (Files.init : Files φ).Ok K .empty := ⟨aesdInit_holds, nofun⟩

theorem forall_update {q : Int} {pos : φ → Option Int} {P : Int → Prop}
    (h : ∀ f p, pos f = some p → P p)
    (hq : P q) {f' : φ} (hp : Function.update pos f (some q) f' = some p) : P p := by
  by_cases hf : f' = f
  · subst hf
    rw [Function.update_self] at hp
    cases hp
    exact hq
  · rw [Function.update_of_ne hf] at hp
    exact h f' p hp

/-- A call of a trace, as an outcome. -/
theorem Files.Ok.called (h : st.Ok K g)
    (hs : (filesLts K).next st (.called f c res) = some st') :
    ∃ p, st.fPos f = some p ∧ st'.fPos = Function.update st.fPos f (some res.fPos) ∧
      Outcome K st.driver g p c res st'.driver (logEvent g (.called f c res)) := by
  obtain ⟨p, hp, hrun, hpos⟩ := next_called.mp hs
  obtain ⟨h0, hle⟩ := h.fPos f p hp
  obtain ⟨g', ho⟩ := FileCall.run_cases h.holds h0 hle hrun
  exact ⟨p, hp, hpos, ho.log_eq f ▸ ho⟩

theorem Files.Ok.step (h : st.Ok K g) (hs : (filesLts K).next st e = some st') :
    st'.Ok K (logEvent g e) := by
  cases e with
  | opened f =>
    obtain ⟨-, rfl⟩ := next_opened.mp hs
    exact ⟨h.holds, fun f' p hp => forall_update h.fPos ⟨Int.le_refl _, by omega⟩ hp⟩
  | called f c res =>
    obtain ⟨p, hp, hpos, ho⟩ := h.called hs
    obtain ⟨h0, hle⟩ := h.fPos f p hp
    obtain ⟨h', hres⟩ := ho.ok h.holds h0 hle
    refine ⟨h', fun f' p' hp' => ?_⟩
    rw [hpos] at hp'
    exact forall_update h.fPos hres hp'
  | released f =>
    obtain ⟨-, rfl⟩ := next_released.mp hs
    refine ⟨h.holds, fun f' p hp => ?_⟩
    by_cases hf : f' = f
    · subst hf
      simp at hp
    · simp only [Function.update_of_ne hf] at hp
      exact h.fPos f' p hp

/-- In every reachable state the device holds the log of the trace. -/
theorem files_ok (h : (filesLts K).run Files.init es = some st) : st.Ok K (fileLog es) := by
  refine Lts.run_history (I := fun es st => st.Ok K (fileLog es)) Files.init_ok ?_ h
  intro es st e st' _ hok hs
  rw [fileLog_snoc]
  exact hok.step hs

/-! ## Failing calls -/

/-- A call that does not get the lock fails, whatever the state of the device and its lock. -/
theorem FileCall.run_of_not_locks (K : Kernel) (s : Driver) (p : Int) (hl : c.locks = false) :
    ∃ retval < 0, c.run K s p = (⟨retval, [], p⟩, s) := by
  cases c with
  | read env buf =>
    cases buf with
    | none => exact ⟨-einval, by decide, rfl⟩
    | some count =>
      have hint : env.interrupted = true := by simpa [locks] using hl
      exact ⟨-erestartsys, by decide, by simp [run, aesdRead, hint]⟩
  | write env buf =>
    cases buf with
    | none => exact ⟨-einval, by decide, rfl⟩
    | some chunk =>
      by_cases hc : chunk.length = 0
      · exact ⟨-einval, by decide, by simp [run, aesdWrite, hc]⟩
      · have hint : env.interrupted = true := by
          simpa [locks, List.length_eq_zero_iff.not.mp hc] using hl
        exact ⟨-erestartsys, by decide, by simp [run, aesdWrite, hc, hint]⟩
  | llseek interrupted offset whence =>
    have hint : interrupted = true := by simpa [locks] using hl
    exact ⟨-erestartsys, by decide, by simp [run, aesdLlseek, hint]⟩
  | ioctl env cmd arg =>
    have hfail : cmd ≠ aesdcharIocseekto ∨ env.interrupted = true ∨ env.copyFails = true := by
      by_contra hno
      simp only [not_or, not_not, Bool.not_eq_true] at hno
      simp [locks, hno] at hl
    obtain ⟨r, hneg, heq⟩ := aesdUnlockedIoctl_fails s p arg hfail
    exact ⟨r, hneg, by simp [run, heq]⟩

/-- What a call leaves as it was. -/
theorem Outcome.frame {g' : LineLog UInt8} (ho : Outcome K s g p c res s' g') (h : Holds K s g) :
    (res.retval < 0 → s'.dev = s.dev ∧ s'.commands = s.commands ∧
      s'.pendingBytes = s.pendingBytes ∧ res.fPos = p) ∧
    (0 ≤ res.retval → c.isWrite = false → s' = s) ∧
    (0 ≤ res.retval → c.isWrite = true → res.fPos = p) ∧
    s'.dev.lock = s.dev.lock := by
  cases ho with
  | failed hr hdev h' =>
    refine ⟨fun _ => ⟨hdev, ?_, ?_, rfl⟩, fun h0 => ?_, fun _ _ => rfl, by rw [hdev]⟩
    · rw [h'.commands_eq, h.commands_eq]
    · rw [h'.pendingBytes_eq, h.pendingBytes_eq]
    · exact absurd hr.neg (not_lt_of_ge h0)
  | read => exact ⟨fun hneg => by simp only at hneg; omega, fun _ _ => rfl, nofun, rfl⟩
  | write _ _ _ _ h' =>
    exact ⟨fun hneg => by simp only at hneg; omega, nofun, fun _ _ => rfl,
      h'.unlocked.trans h.unlocked.symm⟩
  | llseek _ h0 => exact ⟨fun hneg => absurd hneg (not_lt_of_ge h0), fun _ _ => rfl, nofun, rfl⟩
  | ioctl => exact ⟨fun hneg => absurd hneg (by simp), fun _ _ => rfl, nofun, rfl⟩

/-- In every reachable state, for every call with any failures: if it fails, the ring, `write_buf`
and every position are as before; if a read or a seek succeeds, only its position changes; if a
write succeeds, no position does; and the lock is as before. A call that does not get the lock
leaves it to the thread that holds it. A read at any other position `q` (`pread`, whose `*f_pos` is not
that of the file) leaves the device, too, and fails without moving `q`. -/
theorem file_call_frame (K : Kernel) (es : List (FileEvent φ)) (st : Files φ)
    (hrun : (filesLts K).run Files.init es = some st) (f : φ) (p : Int) (hf : st.fPos f = some p)
    (c : FileCall) :
    (∃ res st', (filesLts K).next st (.called f c res) = some st' ∧
      (res.retval < 0 → st'.driver.dev = st.driver.dev ∧
        st'.driver.commands = st.driver.commands ∧
        st'.driver.pendingBytes = st.driver.pendingBytes ∧ st'.fPos = st.fPos) ∧
      (0 ≤ res.retval → c.isWrite = false →
        st'.driver = st.driver ∧ ∀ f', f' ≠ f → st'.fPos f' = st.fPos f') ∧
      (0 ≤ res.retval → c.isWrite = true → st'.fPos = st.fPos) ∧
      st'.driver.dev.lock = st.driver.dev.lock) ∧
    (c.locks = false → ∀ s, (c.run K s p).1.retval < 0 ∧ (c.run K s p).1.fPos = p ∧
      (c.run K s p).2 = s) ∧
    ∀ env q buf, loffT q = q → (aesdRead K env st.driver q buf).2 = st.driver ∧
      ((aesdRead K env st.driver q buf).1.retval < 0 →
        (aesdRead K env st.driver q buf).1.fPos = q) := by
  have hok := files_ok hrun
  have hself : Function.update st.fPos f (some p) = st.fPos := by
    rw [← hf, Function.update_eq_self]
  refine ⟨?_, fun hl s => ?_, fun env q buf hq => ?_⟩
  · obtain ⟨st', hnext⟩ : ∃ st', (filesLts K).next st (.called f c (c.run K st.driver p).1) =
        some st' :=
      ⟨⟨_, _⟩, next_called.mpr ⟨p, hf, rfl, rfl⟩⟩
    obtain ⟨q, hq, hpos, ho⟩ := hok.called hnext
    obtain rfl : q = p := Option.some.inj (hq.symm.trans hf)
    obtain ⟨hfail, hother, hwrite, hlock⟩ := ho.frame hok.holds
    refine ⟨_, st', hnext, fun hneg => ?_, fun h0 hc => ⟨hother h0 hc, fun f' hne => ?_⟩,
      fun h0 hc => ?_, hlock⟩
    · obtain ⟨hdev, hcmd, hpend, hp⟩ := hfail hneg
      exact ⟨hdev, hcmd, hpend, by rw [hpos, hp, hself]⟩
    · rw [hpos, Function.update_of_ne hne]
    · rw [hpos, hwrite h0 hc, hself]
  · obtain ⟨r, hneg, heq⟩ := FileCall.run_of_not_locks K s p hl
    rw [heq]
    exact ⟨hneg, rfl, rfl⟩
  · obtain ⟨v, hr, -⟩ := hok.holds.rep
    obtain ⟨hsame, hread⟩ := aesdRead_spec env buf hr hok.holds.unlocked hq
    refine ⟨hsame, fun hneg => ?_⟩
    rcases hread with ⟨-, -, hpos, -⟩ | ⟨count, -, -, -, -, hret, -⟩
    · exact hpos
    · rw [hret] at hneg
      exact absurd hneg (not_lt_of_ge (Int.natCast_nonneg _))

/-- A write whose `krealloc` fails leaves the byte that is pending. -/
theorem file_call_frame_krealloc :
    ∃ (st st' : Files Nat) (res : ReadResult), st.driver.pendingBytes = [97] ∧
      (filesLts kernel64).next st (.called 0 (.write { WriteEnv.succeeds with
        grow := ⟨true, false, 0⟩ } (some [98])) res) = some st' ∧ res.retval = -enomem ∧
      st'.driver.pendingBytes = [97] := by
  obtain ⟨st, hrun⟩ : ∃ st : Files Nat, (filesLts kernel64).run Files.init
      [.opened 0, .called 0 (.write .succeeds (some [97])) ⟨1, [], 0⟩] = some st := ⟨_, rfl⟩
  have hpos : st.fPos 0 = some 0 := by
    cases hrun
    rfl
  have hpend : st.driver.pendingBytes = [97] := by
    cases hrun
    decide
  have hout : (FileCall.run kernel64 st.driver 0 (.write { WriteEnv.succeeds with
      grow := ⟨true, false, 0⟩ } (some [98]))).1.retval = -enomem := by
    cases hrun
    decide
  obtain ⟨⟨res, st', hnext, hfail, -⟩, -⟩ := file_call_frame kernel64 _ st hrun 0 0 hpos
    (.write { WriteEnv.succeeds with grow := ⟨true, false, 0⟩ } (some [98]))
  have hret : res.retval = -enomem := by
    obtain ⟨p, hp, hres, -⟩ := next_called.mp hnext
    obtain rfl : 0 = p := Option.some.inj (hpos.symm.trans hp)
    rw [← hout, hres]
  obtain ⟨-, -, hp, -⟩ := hfail (by rw [hret]; decide)
  exact ⟨st, st', res, hpend, hnext, hret, hp.trans hpend⟩

end Aesd
