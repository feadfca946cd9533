import Aesd.Server.Backend

/-!
# The regular file and the device

With `USE_AESD_CHAR_DEVICE` 0 the client threads append to a regular file, and answer a newline from
its start; with 1 they write to the device, which keeps the last ten commands. Both are back ends of
`Backend`:

* `file_backend`: the file shows all chunks.
* `device_backend`: the device shows the last ten commands. `server_locked` carries the server of
  `Service` over to it.
* `backends_agree`: for the same chunks in the same order, the device's response is the file's without
  the evicted commands.
-/

namespace Aesd

open Threads (State Label)

/-- A call's effect on the file at `FILE_PATH`, `none` while it is absent, and on the position of the
thread's open file; `none` if the call cannot have the result that it has. -/
def fileCall (_ : Env) (file : Option Bytes) (fPos : Int) : Sys → Option (Option Bytes × Int)
  -- O_CREAT
  | .open ok => some (if ok then (some (file.getD []), 0) else (file, fPos))
  -- O_APPEND
  | .write bs ret =>
    file.map fun data =>
      (some (data ++ bs.take ret.toNat), if 0 < ret then (data.length + ret.toNat : Nat) else fPos)
  | .read none => some (file, fPos)
  | .read (some bs) =>
    file.bind fun data =>
      if bs <+: data.drop fPos.toNat ∧ (bs = [] → data.length ≤ fPos.toNat) then
        some (file, fPos + bs.length)
      else none
  | .lseek ok => some (file, if ok then 0 else fPos)
  -- only the device build calls `ioctl`
  | .ioctl _ _ => none
  | _ => some (file, fPos)

/-- The server in the file build. -/
def fileServer (τ : Type*) [DecidableEq τ] : Threads τ Client (Locked (Option Bytes) τ) Sys Env :=
  lockedServer τ .file fileCall

/-- Before the first connection: there is no file. -/
def fileServer.init (τ : Type*) : State τ Client (Locked (Option Bytes) τ) := lockedServer.init τ none

/-- The file shows all that was written. -/
theorem file_backend :
    Backend fileCall (fun file cs part => file.getD [] = cs.flatten ++ part) List.flatten where
  apart := by
    intro env file p ev r hev h
    cases ev with
    | «open» | ioctl | write | read | lseek => cases hev
    | _ =>
      cases h
      rfl
  opened := by
    intro env file p cs part r hst h
    cases h
    exact ⟨hst, rfl⟩
  rewound := by
    intro env file p cs part r hst h
    cases h
    exact ⟨hst, rfl⟩
  more := by
    intro env file p cs c n k r hst _ _ h
    obtain ⟨data, rfl, rfl⟩ := Option.map_eq_some_iff.mp h
    simp only [Option.getD_some, Int.toNat_natCast] at hst ⊢
    rw [hst, List.append_assoc, List.take_add]
  done := by
    intro env file p cs c n k r hst _ hk h
    obtain ⟨data, rfl, rfl⟩ := Option.map_eq_some_iff.mp h
    simp only [Option.getD_some, Int.toNat_natCast] at hst ⊢
    have htake : (c.drop n).take k = c.drop n := List.take_of_length_le (by simp; omega)
    rw [hst, htake, List.append_assoc, List.take_append_drop]
    simp
  read := by
    intro env file cs q bs r hst hq h
    obtain ⟨data, rfl, h⟩ := Option.bind_eq_some_iff.mp h
    simp only [Option.ite_none_right_eq_some, Option.some.injEq, Int.toNat_natCast] at h
    obtain ⟨⟨hbs, hend⟩, rfl⟩ := h
    simp only [Option.getD_some, List.append_nil] at hst
    subst hst
    refine ⟨by simp, by simp, hbs, fun hnil => ?_⟩
    have := hend hnil
    omega

/-! ## The device -/

variable {K : Kernel}

/-- The device that holds the log of the chunks; no chunk is written in part. -/
def DeviceStores (K : Kernel) (d : Driver) (cs : List Bytes) (part : Bytes) : Prop :=
  part = [] ∧ Holds K d (LineLog.empty.writes isNewline cs)

/-- The last ten commands of the chunks. -/
def lastCommands (cs : List Bytes) : Bytes :=
  ((LineLog.empty.writes isNewline cs).last maxWriteOperationsSupported).committed.flatten

theorem device_backend : Backend (deviceCall K) (DeviceStores K) lastCommands where
  apart := by
    intro env d p ev r hev h
    cases ev with
    | «open» | ioctl | write | read | lseek => cases hev
    | _ =>
      cases h
      rfl
  opened := by
    intro env d p cs part r hst h
    cases h
    exact ⟨hst, rfl⟩
  rewound := by
    intro env d p cs part r hst h
    cases h
  more := by
    rintro env d p cs c n k ⟨d', p'⟩ ⟨hpart, hg⟩ hk hlt h
    have := (deviceCall_write hg h (by omega)).1
    simp only [List.length_drop] at this
    omega
  done := by
    rintro env d p cs c n k ⟨d', p'⟩ ⟨hpart, hg⟩ hk hlen h
    have hn : n = 0 := by
      have := congrArg List.length hpart
      simp only [List.length_take, List.length_nil] at this
      omega
    subst hn
    refine ⟨rfl, ?_⟩
    rw [LineLog.writes_snoc]
    exact (deviceCall_write hg h (by omega)).2.1
  read := by
    rintro env d cs q bs ⟨d', p'⟩ ⟨-, hg⟩ hq h
    have hshows : d.commands.flatten = lastCommands cs := by rw [hg.commands_eq]; rfl
    rw [← hshows] at hq ⊢
    obtain ⟨rfl, hp, hbs, hend⟩ := deviceCall_read hg hq h
    exact ⟨⟨rfl, hg⟩, hp, hbs, hend⟩

variable {τ : Type*} [DecidableEq τ]

/-- What the threads of the device build share, as a store behind the mutex. -/
def Shared.locked (k : Shared τ) : Locked Driver τ where
  store := k.driver
  fileMutex := k.fileMutex
  listMutex := k.listMutex
  fPos := k.fPos

/-- The server of the device build, as one over a store. -/
def lockedState (s : State τ Client (Shared τ)) : State τ Client (Locked Driver τ) where
  local_ := s.local_
  shared := s.shared.locked

omit [DecidableEq τ] in
theorem locked_mutexCall (k : Shared τ) (t : τ) (ev : Sys) :
    k.locked.mutexCall t ev = (mutexCall k t ev).map Shared.locked := by
  unfold mutexCall
  split
  · rw [apply_ite (Option.map Shared.locked)]
    rfl
  · rw [apply_ite (Option.map Shared.locked)]
    rfl
  · rfl
  · rfl
  · rename_i h1 h2 h3 h4
    unfold Locked.mutexCall
    split
    · exact absurd rfl h1
    · exact absurd rfl h2
    · exact absurd rfl h3
    · exact absurd rfl h4
    · rfl

/-- The steps of the device build are those over the store. -/
theorem server_locked (s : State τ Client (Shared τ)) (l : Label τ Sys Env) :
    (lockedServer τ .charDevice (deviceCall K)).lts.next (lockedState s) l =
      ((server τ K).lts.next s l).map lockedState := by
  simp only [Threads.lts, lockedServer, server, service, lockedState, locked_mutexCall]
  cases (Client.lts .charDevice).next (s.local_ l.tid) l.ev with
  | none => rfl
  | some c =>
    cases mutexCall s.shared l.tid l.ev with
    | none => rfl
    | some k =>
      simp only [Option.bind_some, Option.map_some, Shared.locked]
      cases deviceCall K l.env k.driver (k.fPos l.tid) l.ev <;> rfl

/-! ## Both builds -/

variable {trD trF : List (Label τ Sys Env)} {sD : State τ Client (Shared τ)}
  {sF : State τ Client (Locked (Option Bytes) τ)} {cs : List (τ × Bytes)} {t : τ} {c : Bytes}

/-- The response of the device build. -/
theorem device_response (hrun : (server τ K).lts.run (server.init τ) trD = some sD)
    (hplain : ∀ l ∈ trD, Plain l.ev)
    (hcs : cs ++ [(t, c)] <+: processed (server τ K) (server.init τ) trD)
    (hnl : c.any isNewline = true) (hout : (sD.local_ t).pc.holdsFile = false) :
    sentTo t trD = lastCommands (cs.map Prod.snd ++ [c]) := by
  have hrun' : (lockedServer τ .charDevice (deviceCall K)).lts.run (lockedServer.init τ aesdInit) trD =
      some (lockedState sD) := by
    have := Lts.run_map (server_locked (K := K)) (server.init τ) trD
    rwa [hrun] at this
  have hprocessed : processed (lockedServer τ .charDevice (deviceCall K)) (lockedServer.init τ aesdInit)
      trD = processed (server τ K) (server.init τ) trD :=
    Lts.outputs_map (server_locked (K := K)) (fun _ _ => rfl) (server.init τ) trD
  have hinit : DeviceStores K aesdInit [] [] := ⟨rfl, aesdInit_holds⟩
  have h := Consistent.run (device_backend (K := K)) hinit hplain hrun'
  rw [hprocessed] at h
  exact h.response hcs hnl hout

/-- The response of the file build. -/
theorem file_response (hrun : (fileServer τ).lts.run (fileServer.init τ) trF = some sF)
    (hplain : ∀ l ∈ trF, Plain l.ev)
    (hcs : cs ++ [(t, c)] <+: processed (fileServer τ) (fileServer.init τ) trF)
    (hnl : c.any isNewline = true) (hout : (sF.local_ t).pc.holdsFile = false) :
    sentTo t trF = (cs.map Prod.snd ++ [c]).flatten := by
  have hinit : (none : Option Bytes).getD [] = [].flatten ++ [] := rfl
  exact (Consistent.run file_backend hinit hplain hrun).response hcs hnl hout

/-- Both builds, on the same chunks in the same order up to the chunk `c` of thread `t`, which has a
newline: once both have handled it, the file's response is the evicted commands and then the device's
response. -/
theorem backends_agree (K : Kernel) (trD trF : List (Label τ Sys Env))
    (sD : State τ Client (Shared τ)) (sF : State τ Client (Locked (Option Bytes) τ))
    (hD : (server τ K).lts.run (server.init τ) trD = some sD)
    (hF : (fileServer τ).lts.run (fileServer.init τ) trF = some sF)
    (hplainD : ∀ l ∈ trD, Plain l.ev) (hplainF : ∀ l ∈ trF, Plain l.ev)
    (cs : List (τ × Bytes)) (t : τ) (c : Bytes)
    (hcsD : cs ++ [(t, c)] <+: processed (server τ K) (server.init τ) trD)
    (hcsF : cs ++ [(t, c)] <+: processed (fileServer τ) (fileServer.init τ) trF)
    (hnl : c.any isNewline = true) (houtD : (sD.local_ t).pc.holdsFile = false)
    (houtF : (sF.local_ t).pc.holdsFile = false) :
    let g := LineLog.empty.writes isNewline (cs.map Prod.snd ++ [c])
    let newlines := ((cs.map Prod.snd ++ [c]).filter (·.any isNewline)).length
    sentTo t trD <:+ sentTo t trF ∧
      (newlines ≤ maxWriteOperationsSupported → sentTo t trD = sentTo t trF) ∧
      sentTo t trF = (g.evicted maxWriteOperationsSupported).flatten ++ sentTo t trD ∧
      (g.evicted maxWriteOperationsSupported).length = newlines - maxWriteOperationsSupported := by
  intro g newlines
  have hlen : g.committed.length = newlines := (LineLog.committed_forall₂ isNewline _).length_eq
  have hevicted : (g.evicted maxWriteOperationsSupported).length =
      newlines - maxWriteOperationsSupported := by
    rw [LineLog.evicted, List.rdrop, List.length_take, hlen]
    omega
  -- nothing that the file shows is pending in the device
  have hpending : g.pending = [] := by
    show (LineLog.empty.writes isNewline (cs.map Prod.snd ++ [c])).pending = []
    rw [LineLog.writes_snoc, LineLog.write_of_any hnl]
  have hstream : sentTo t trF = g.stream := by
    rw [file_response hF hplainF hcsF hnl houtF, ← LineLog.writes_flatten isNewline]
    show g.committed.flatten ++ g.pending = g.stream
    rw [hpending, List.append_nil, LineLog.stream]
  have hsplit : sentTo t trF = (g.evicted maxWriteOperationsSupported).flatten ++ sentTo t trD := by
    rw [hstream, device_response hD hplainD hcsD hnl houtD]
    exact (LineLog.evicted_append_last _ g).symm
  refine ⟨⟨_, hsplit.symm⟩, fun hle => ?_, hsplit, hevicted⟩
  have hnil : g.evicted maxWriteOperationsSupported = [] := by
    rw [← List.length_eq_zero_iff, hevicted]
    omega
  rw [hsplit, hnil, List.flatten_nil, List.nil_append]

/-- A thread of the file build that sends `bs` in response to a chunk. -/
def fileResponds (bs : Bytes) : List Sys :=
  [.lseek true, .read (some bs), .send bs bs.length, .read (some [])]

/-- One connection sends `"a"`, another one `"b\n"`, in the device build. -/
def deviceTwoClients : List (Label Nat Sys Env) :=
  calls 0 (toFirstRecv ++ writesChunk [97] ++ releases) ++
    calls 1 (toFirstRecv ++ writesChunk [98, 10] ++ responds [97, 98, 10] ++ releases)

/-- The same in the file build. -/
def fileTwoClients : List (Label Nat Sys Env) :=
  calls 0 (toFirstRecv ++ writesChunk [97] ++ releases) ++
    calls 1 (toFirstRecv ++ writesChunk [98, 10] ++ fileResponds [97, 98, 10] ++ releases)

theorem backends_agree_two_clients :
    (∃ sD, (server Nat kernel64).lts.run (server.init Nat) deviceTwoClients = some sD) ∧
      (∃ sF, (fileServer Nat).lts.run (fileServer.init Nat) fileTwoClients = some sF) ∧
      sentTo 1 deviceTwoClients = [97, 98, 10] ∧
      sentTo 1 deviceTwoClients = sentTo 1 fileTwoClients := by
  have hD : (((server Nat kernel64).lts.run (server.init Nat) deviceTwoClients).map fun s =>
      (s.local_ 1).pc.holdsFile) = some false := by decide
  have hF : (((fileServer Nat).lts.run (fileServer.init Nat) fileTwoClients).map fun s =>
      (s.local_ 1).pc.holdsFile) = some false := by decide
  obtain ⟨sD, hD, houtD⟩ := Option.map_eq_some_iff.mp hD
  obtain ⟨sF, hF, houtF⟩ := Option.map_eq_some_iff.mp hF
  have h := backends_agree kernel64 deviceTwoClients fileTwoClients sD sF hD hF (by decide) (by decide)
    [(0, [97])] 1 [98, 10] (by decide) (by decide) (by decide) houtD houtF
  exact ⟨⟨sD, hD⟩, ⟨sF, hF⟩, by decide, h.2.1 (by decide)⟩

end Aesd
