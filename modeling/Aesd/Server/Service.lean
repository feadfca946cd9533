import Aesd.Driver.History
import Aesd.Driver.ReadPath
import Aesd.Server.HandleClient

/-!
# Client threads over the shared device

The server in the device build: any number of client threads, in any interleaving of their calls,
over one device and the two mutexes. A thread has at most one file open at a time, so an open file
is its thread's position.

* `deviceCall`: what a call does to the device and the thread's file.
* `service`: the same with the mutexes; a thread blocks on a mutex that another one holds.
* `Holds.deviceCall`: only a write that succeeds changes the log of the device.
-/

namespace Aesd

/-- What the kernel chooses in one system call. -/
structure Env where
  write : WriteEnv
  call : CallEnv
  deriving DecidableEq, Repr

/-- The kernel does not fail. -/
def Env.succeeds : Env := { write := .succeeds, call := { interrupted := false, copyFails := false } }

/-- The result of a system call for what the driver returned: an interrupted lock is `EINTR`. -/
def sysResult (ret : Int) : Int := if ret = -erestartsys then -eintr else ret

/-- What `read` gave to the thread. -/
def readBytes (res : ReadResult) : Option Bytes := if res.retval < 0 then none else some res.bytes

/-- A call's effect on the device and on the position of the thread's file; `none` if the call
cannot have the result that it has. -/
def deviceCall (K : Kernel) (env : Env) (d : Driver) (fPos : Int) : Sys → Option (Driver × Int)
  | .open ok => some (d, if ok then 0 else fPos)
  | .ioctl seekto ok =>
    let (ret, fPos, d) := aesdUnlockedIoctl env.call d fPos aesdcharIocseekto seekto
    if ok = decide (0 ≤ ret) then some (d, fPos) else none
  | .write bs ret =>
    let (ret', d) := aesdWrite K env.write d (some bs)
    if ret = sysResult ret' then some (d, fPos) else none
  | .read bs =>
    let (res, d) := aesdRead K env.call d fPos (some (bufferSize - 1))
    if bs = readBytes res then some (d, res.fPos) else none
  -- only the file build calls `lseek`
  | .lseek _ => none
  | _ => some (d, fPos)

/-- What the threads share. -/
structure Shared (τ : Type*) where
  driver : Driver
  fileMutex : Option τ
  listMutex : Option τ
  /-- The position of the file that a thread has open. -/
  fPos : τ → Int

section

variable {τ : Type*} [DecidableEq τ]

/-- A call's effect on the mutexes: `lock` blocks while the mutex is held. -/
def mutexCall (k : Shared τ) (t : τ) : Sys → Option (Shared τ)
  | .lock .file true => if k.fileMutex = none then some { k with fileMutex := some t } else none
  | .lock .list true => if k.listMutex = none then some { k with listMutex := some t } else none
  | .unlock .file => some { k with fileMutex := none }
  | .unlock .list => some { k with listMutex := none }
  | _ => some k

/-- A call of thread `t`. -/
def service (K : Kernel) (k : Shared τ) (t : τ) (ev : Sys) (env : Env) : Option (Shared τ) :=
  (mutexCall k t ev).bind fun k' =>
    (deviceCall K env k'.driver (k'.fPos t) ev).map fun r =>
      { k' with driver := r.1, fPos := Function.update k'.fPos t r.2 }

/-- The server in the device build. -/
def server (τ : Type*) [DecidableEq τ] (K : Kernel) : Threads τ Client (Shared τ) Sys Env where
  thread := Client.lts .charDevice
  service := service K

/-- Before the first connection. -/
def server.init (τ : Type*) : Threads.State τ Client (Shared τ) where
  local_ _ := .start
  shared := { driver := aesdInit, fileMutex := none, listMutex := none, fPos := fun _ => 0 }

end

/-- Calls of one thread, in which the kernel does not fail. -/
def calls {τ : Type*} (t : τ) (evs : List Sys) : List (Threads.Label τ Sys Env) :=
  evs.map fun ev => { tid := t, ev := ev, env := .succeeds }

/-- A thread up to its first `recv`. -/
def toFirstRecv : List Sys := [.malloc true, .lock .list true, .link, .unlock .list, .malloc true]

/-- A thread that receives a chunk and writes it. -/
def writesChunk (chunk : Bytes) : List Sys :=
  [.recv (some chunk), .lock .file true, .open true, .write chunk chunk.length]

/-- A thread that sends `bs` in response to a chunk. -/
def responds (bs : Bytes) : List Sys :=
  [.close, .open true, .read (some bs), .send bs bs.length, .read (some [])]

/-- A thread that asks for a seek and gets nothing. -/
def seeks (seekto : AesdSeekto) (chunk : Bytes) : List Sys :=
  [.recv (some chunk), .lock .file true, .open true, .ioctl seekto true, .read (some [])]

/-- The end of a critical section. -/
def releases : List Sys := [.close, .unlock .file]

/-! ## The log of the device -/

variable {K : Kernel} {d d' : Driver} {g : LineLog UInt8} {env : Env} {fPos fPos' : Int} {ev : Sys}

/-- The bytes that a call wrote to the device: a write that succeeded. -/
def accepted : Sys → Option Bytes
  | .write bs ret => if 0 ≤ ret then some bs else none
  | _ => none

/-- The log after a call. -/
def logSys (g : LineLog UInt8) (ev : Sys) : LineLog UInt8 :=
  match accepted ev with
  | none => g
  | some bs => g.write isNewline bs

theorem sysResult_neg_iff {ret : Int} : sysResult ret < 0 ↔ ret < 0 := by
  unfold sysResult erestartsys eintr
  split <;> omega

/-- A seek of the device: the device stays as it was. -/
theorem Holds.ioctl (h : Holds K d g) (env : Env) (hpos : loffT fPos = fPos)
    (seekto : AesdSeekto) :
    ∃ ret p, aesdUnlockedIoctl env.call d fPos aesdcharIocseekto seekto = (ret, p, d) ∧
      loffT p = p := by
  obtain ⟨v, hr, -⟩ := h.rep
  by_cases hf : env.call.interrupted = true ∨ env.call.copyFails = true
  · obtain ⟨r, -, hres⟩ : ∃ r < 0, aesdUnlockedIoctl env.call d fPos aesdcharIocseekto seekto =
        (r, fPos, d) := aesdUnlockedIoctl_fails d fPos seekto (.inr hf)
    exact ⟨r, fPos, hres, hpos⟩
  · simp only [not_or, Bool.not_eq_true] at hf
    have hres := aesdUnlockedIoctl_eq fPos seekto hr h.unlocked hf.1 hf.2
    cases hs : seekAt v.commands seekto.writeCmd.toNat seekto.writeCmdOffset.toNat with
    | none =>
      rw [hs] at hres
      exact ⟨-einval, fPos, hres, hpos⟩
    | some p =>
      rw [hs] at hres
      have h1 := (drop_seekAt hs).1
      have h2 := hr.sum_sizes_le
      have h3 := K.mem_lt_loff
      exact ⟨0, p, hres, loffT_of_lt (by omega)⟩

/-- A call of the device, which holds `g`: afterwards it holds `g` with what the call wrote. Only a
write changes the device. -/
theorem Holds.deviceCall (h : Holds K d g) (hpos : loffT fPos = fPos)
    (hc : deviceCall K env d fPos ev = some (d', fPos')) :
    Holds K d' (logSys g ev) ∧ loffT fPos' = fPos' ∧
      ((∀ bs ret, ev ≠ .write bs ret) → d' = d) := by
  cases ev with
  | write bs ret =>
    simp only [Aesd.deviceCall] at hc
    generalize hw : Aesd.aesdWrite K env.write d (some bs) = res at hc
    obtain ⟨r, d₁⟩ := res
    simp only [Option.ite_none_right_eq_some, Option.some.injEq, Prod.mk.injEq] at hc
    obtain ⟨rfl, rfl, rfl⟩ := hc
    have h1 := (h.aesdWrite (w := ⟨bs, env.write⟩) hw).1
    refine ⟨?_, hpos, fun hne => absurd rfl (hne _ _)⟩
    unfold logCall at h1
    simp only [logSys, accepted, Int.not_lt.symm, sysResult_neg_iff] at h1 ⊢
    split at h1
    · rename_i hneg
      simpa [hneg] using h1
    · rename_i hneg
      simpa [hneg] using h1
  | ioctl seekto ok =>
    obtain ⟨ret, p, hres, hp⟩ := h.ioctl env hpos seekto
    simp only [Aesd.deviceCall, hres, Option.ite_none_right_eq_some, Option.some.injEq,
      Prod.mk.injEq] at hc
    obtain ⟨-, rfl, rfl⟩ := hc
    exact ⟨h, hp, fun _ => rfl⟩
  | read bs =>
    obtain ⟨v, hr, -⟩ := h.rep
    obtain ⟨hd, hres⟩ := aesdRead_spec env.call (some (bufferSize - 1)) hr h.unlocked hpos
    simp only [Aesd.deviceCall, hd, Option.ite_none_right_eq_some, Option.some.injEq,
      Prod.mk.injEq] at hc
    obtain ⟨-, rfl, rfl⟩ := hc
    refine ⟨h, ?_, fun _ => rfl⟩
    rcases hres with ⟨-, -, hp, -⟩ | ⟨_, -, -, -, -, -, hp⟩
    · rw [hp, hpos]
    · rw [hp]
      exact Int.bmod_bmod
  | «open» ok =>
    simp only [Aesd.deviceCall, Option.some.injEq, Prod.mk.injEq] at hc
    obtain ⟨rfl, rfl⟩ := hc
    refine ⟨h, ?_, fun _ => rfl⟩
    cases ok with
    | true => rfl
    | false => exact hpos
  | lseek ok => cases hc
  | _ =>
    cases hc
    exact ⟨h, hpos, fun _ => rfl⟩

end Aesd
