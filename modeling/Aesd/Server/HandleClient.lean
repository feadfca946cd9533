import Aesd.Lib.Lts
import Aesd.Server.Sscanf

/-!
# A client thread (`thread_manager.c`, `socket_ops.c`)

`handle_client`, with `add_thread_to_list` and the loops of `write_all` inlined, as a program over
system calls: a state is the place in the source with the live variables there (`Pc`), a label is
the next call with its result (`Sys`). The results are the choices of the environment; every failure
has its branch. `Build` is `USE_AESD_CHAR_DEVICE`.
-/

namespace Aesd

/-- `USE_AESD_CHAR_DEVICE`: 1 or 0. -/
inductive Build where
  | charDevice
  | file
  deriving DecidableEq, Repr

/-- `BUFFER_SIZE`. -/
def bufferSize : Nat := 1024

/-- `"AESDCHAR_IOCSEEKTO:"`. -/
def seekPrefix : Bytes := [65, 69, 83, 68, 67, 72, 65, 82, 95, 73, 79, 67, 83, 69, 69, 75, 84, 79, 58]

/-- `EINTR`. -/
def eintr : Int := 4

/-- `file_mutex` and `thread_list_mutex`. -/
inductive Mutex where
  | file
  | list
  deriving DecidableEq, Repr

/-- A call with its result. A number that is negative stands for -1 with that `errno`. -/
inductive Sys where
  | malloc (ok : Bool)
  | lock (m : Mutex) (ok : Bool)
  | unlock (m : Mutex)
  /-- `node->next = thread_list_head; thread_list_head = node`. -/
  | link
  /-- `my_node->completed = 1`. -/
  | mark
  /-- `recv`; `none` for 0 or an error. -/
  | recv (chunk : Option Bytes)
  /-- `open(FILE_PATH, …)`. -/
  | open (ok : Bool)
  | ioctl (seekto : AesdSeekto) (ok : Bool)
  /-- `write(file_desc, bs, …)`. -/
  | write (bs : Bytes) (ret : Int)
  /-- `write(client_socket, bs, …)`. -/
  | send (bs : Bytes) (ret : Int)
  /-- `read(file_desc, …)`; `none` for an error. -/
  | read (bs : Option Bytes)
  | lseek (ok : Bool)
  /-- `close(file_desc)`. -/
  | close
  /-- `close(data->client_socket)`. -/
  | closeSocket
  | free
  deriving DecidableEq, Repr

/-- Where `handle_client` goes on after a critical section of `file_mutex`. -/
inductive After where
  /-- To the next `recv`. -/
  | recv
  /-- To `cleanup`. -/
  | cleanup
  deriving DecidableEq, Repr

/-- The next call of the thread, with the variables that are still needed. -/
inductive Pc where
  /-- `add_thread_to_list`. -/
  | addMalloc
  | addLock
  | addLink
  | addUnlock
  /-- `malloc(buffer_size)`. -/
  | malloc
  /-- The head of the main loop. -/
  | recv
  | seekLock (seekto : AesdSeekto)
  | seekOpen (seekto : AesdSeekto)
  | ioctl (seekto : AesdSeekto)
  | dataLock (chunk : Bytes)
  | dataOpen (chunk : Bytes)
  /-- In `write_all` to the file, after `written` bytes of the chunk. -/
  | write (chunk : Bytes) (written : Nat)
  /-- `close` before the device is opened again. -/
  | reclose
  | reopen
  | lseek
  /-- The head of the loop that sends the response. -/
  | read (after : After)
  /-- In `write_all` to the socket, after `written` of the bytes read. -/
  | send (after : After) (bs : Bytes) (written : Nat)
  | close (after : After)
  | unlock (after : After)
  /-- `cleanup`: `free(buffer)`. -/
  | freeBuffer
  | closeSocket
  | freeData
  | markLock
  | mark
  | markUnlock
  | exited
  deriving DecidableEq, Repr

/-- A client thread. -/
structure Client where
  pc : Pc
  /-- `my_node != NULL`. -/
  node : Bool
  deriving DecidableEq, Repr

namespace Pc

/-- The chunk that the thread is about to write, or is writing. -/
def chunk : Pc → Option Bytes
  | .dataLock chunk | .dataOpen chunk | .write chunk _ => some chunk
  | _ => none

/-- Between `pthread_mutex_lock(&file_mutex)` and the unlock. -/
def holdsFile : Pc → Bool
  | .seekOpen _ | .ioctl _ | .dataOpen _ | .write _ _ | .reclose | .reopen | .lseek | .read _
  | .send _ _ _ | .close _ | .unlock _ => true
  | _ => false

/-- In the response loop. -/
def responding : Pc → Bool
  | .read _ | .send _ _ _ => true
  | _ => false

/-- The response loop, and what follows it in the critical section. -/
def answering : Pc → Bool
  | .read _ | .send _ _ _ | .close _ | .unlock _ => true
  | _ => false

/-- Back at the main `recv`, or behind the main loop. -/
def served : Pc → Bool
  | .recv | .freeBuffer | .closeSocket | .freeData | .markLock | .mark | .markUnlock
  | .exited => true
  | _ => false

end Pc

namespace Client

/-- At the start of `handle_client`. -/
def start : Client := { pc := .addMalloc, node := false }

/-! ## `write_all` -/

/-- An iteration of the loop of `write_all`: it goes on with `written` bytes done, or returns. -/
inductive WriteAll where
  | more (written : Nat)
  | done (result : Int)
  deriving DecidableEq, Repr

/-- The loop body of `write_all` with `count - written` bytes to go, when `write` returns `ret`. -/
def writeAllStep (count written : Nat) (ret : Int) : WriteAll :=
  if ret < 0 then if ret = -eintr then .more written else .done (-1)
  else if ret = 0 then .done written
  else if written + ret.toNat < count then .more (written + ret.toNat)
  else .done (written + ret.toNat : Nat)

/-- A short write. -/
theorem writeAllStep_of_lt {count written n : Nat} (hn : 0 < n) (h : written + n < count) :
    writeAllStep count written n = .more (written + n) := by
  rw [writeAllStep, if_neg (by omega), if_neg (by omega), Int.toNat_natCast, if_pos h]

/-- The last write. -/
theorem writeAllStep_of_eq {count written n : Nat} (hn : 0 < n) (h : written + n = count) :
    writeAllStep count written n = .done count := by
  rw [writeAllStep, if_neg (by omega), if_neg (by omega), Int.toNat_natCast, if_neg (by omega), h]

/-! ## `handle_client` -/

/-- The branch for a chunk: a seek command, with a pair (else it is a format error, which breaks), or
data. -/
def dispatch (chunk : Bytes) : Pc :=
  if seekPrefix <+: chunk then
    match sscanfSeekto (chunk.drop seekPrefix.length) with
    | none => .freeBuffer
    | some seekto => .seekLock seekto
  else .dataLock chunk

/-- After the chunk is written: a response for a chunk with a newline. -/
def afterWrite (b : Build) (chunk : Bytes) : Pc :=
  if chunk.any isNewline then
    match b with
    | .charDevice => .reclose
    | .file => .lseek
  else .close .recv

/-- After the chunk's `write_all` made an iteration. -/
def afterWriteAll (b : Build) (chunk : Bytes) : WriteAll → Pc
  | .more written => .write chunk written
  | .done result => if result = chunk.length then afterWrite b chunk else .close .cleanup

/-- After a `read` of the response loop. -/
def afterRead (after : After) : Option Bytes → Pc
  | none => .close after
  | some bs => if bs = [] then .close after else .send after bs 0

/-- After the response's `write_all` made an iteration; an error breaks the response loop. -/
def afterSendAll (after : After) (bs : Bytes) : WriteAll → Pc
  | .more written => .send after bs written
  | .done result => if result = bs.length then .read after else .close after

/-- After `pthread_mutex_unlock(&file_mutex)`. -/
def afterUnlock : After → Pc
  | .recv => .recv
  | .cleanup => .freeBuffer

/-- What a buffer of `BUFFER_SIZE - 1` bytes can get from one call. -/
def fits (bs : Bytes) : Prop := bs.length ≤ bufferSize - 1

instance : DecidablePred fits := fun bs => inferInstanceAs (Decidable (bs.length ≤ bufferSize - 1))

/-- The next place, when the thread's next call is `ev`. -/
def nextPc (b : Build) (node : Bool) : Pc → Sys → Option Pc
  | .addMalloc, .malloc ok => some (if ok then .addLock else .malloc)
  | .addLock, .lock .list _ => some .addLink
  | .addLink, .link => some .addUnlock
  | .addUnlock, .unlock .list => some .malloc
  | .malloc, .malloc ok => some (if ok then .recv else .freeBuffer)
  | .recv, .recv none => some .freeBuffer
  | .recv, .recv (some chunk) => if chunk ≠ [] ∧ fits chunk then some (dispatch chunk) else none
  | .seekLock seekto, .lock .file ok =>
    some (if ok then match b with
        | .charDevice => .seekOpen seekto
        | .file => .unlock .recv
      else .freeBuffer)
  | .seekOpen seekto, .open ok => some (if ok then .ioctl seekto else .unlock .cleanup)
  | .ioctl seekto, .ioctl seekto' ok =>
    if seekto' = seekto then some (if ok then .read .recv else .close .cleanup) else none
  | .dataLock chunk, .lock .file ok => some (if ok then .dataOpen chunk else .freeBuffer)
  | .dataOpen chunk, .open ok => some (if ok then .write chunk 0 else .unlock .cleanup)
  | .write chunk written, .write bs ret =>
    if bs = chunk.drop written ∧ ret ≤ bs.length then
      some (afterWriteAll b chunk (writeAllStep chunk.length written ret))
    else none
  | .reclose, .close => some .reopen
  | .reopen, .open ok => some (if ok then .read .cleanup else .unlock .cleanup)
  | .lseek, .lseek ok => some (if ok then .read .cleanup else .close .cleanup)
  | .read after, .read bs => if fits (bs.getD []) then some (afterRead after bs) else none
  | .send after bs written, .send bs' ret =>
    if bs' = bs.drop written ∧ ret ≤ bs'.length then
      some (afterSendAll after bs (writeAllStep bs.length written ret))
    else none
  | .close after, .close => some (.unlock after)
  | .unlock after, .unlock .file => some (afterUnlock after)
  | .freeBuffer, .free => some .closeSocket
  | .closeSocket, .closeSocket => some .freeData
  | .freeData, .free => some (if node then .markLock else .exited)
  | .markLock, .lock .list _ => some .mark
  | .mark, .mark => some .markUnlock
  | .markUnlock, .unlock .list => some .exited
  | _, _ => none

/-- `my_node` after the call: `add_thread_to_list` returns the node at its end. -/
def nextNode (c : Client) : Bool := c.node || c.pc == .addUnlock

/-- A client thread as a system of its calls. -/
def lts (b : Build) : Lts Client Sys where
  next c ev := (nextPc b c.node c.pc ev).map fun pc => { pc := pc, node := c.nextNode }

/-! ## What a step can do -/

/-- The transitions of `nextPc`, one constructor for each branch of the source. -/
inductive Step (b : Build) (node : Bool) : Pc → Sys → Pc → Prop
  | addMalloc : Step b node .addMalloc (.malloc true) .addLock
  | addFails : Step b node .addMalloc (.malloc false) .malloc
  | addLock (ok : Bool) : Step b node .addLock (.lock .list ok) .addLink
  | addLink : Step b node .addLink .link .addUnlock
  | addUnlock : Step b node .addUnlock (.unlock .list) .malloc
  | malloc : Step b node .malloc (.malloc true) .recv
  | mallocFails : Step b node .malloc (.malloc false) .freeBuffer
  | recvEnd : Step b node .recv (.recv none) .freeBuffer
  | recv {chunk : Bytes} (hne : chunk ≠ []) (hfits : fits chunk) :
    Step b node .recv (.recv (some chunk)) (dispatch chunk)
  | seekLock {seekto : AesdSeekto} (hb : b = .charDevice) :
    Step b node (.seekLock seekto) (.lock .file true) (.seekOpen seekto)
  | seekSkip {seekto : AesdSeekto} (hb : b = .file) :
    Step b node (.seekLock seekto) (.lock .file true) (.unlock .recv)
  | seekLockFails {seekto : AesdSeekto} :
    Step b node (.seekLock seekto) (.lock .file false) .freeBuffer
  | seekOpen {seekto : AesdSeekto} : Step b node (.seekOpen seekto) (.open true) (.ioctl seekto)
  | seekOpenFails {seekto : AesdSeekto} :
    Step b node (.seekOpen seekto) (.open false) (.unlock .cleanup)
  | ioctl {seekto : AesdSeekto} : Step b node (.ioctl seekto) (.ioctl seekto true) (.read .recv)
  | ioctlFails {seekto : AesdSeekto} :
    Step b node (.ioctl seekto) (.ioctl seekto false) (.close .cleanup)
  | dataLock {chunk : Bytes} : Step b node (.dataLock chunk) (.lock .file true) (.dataOpen chunk)
  | dataLockFails {chunk : Bytes} :
    Step b node (.dataLock chunk) (.lock .file false) .freeBuffer
  | dataOpen {chunk : Bytes} : Step b node (.dataOpen chunk) (.open true) (.write chunk 0)
  | dataOpenFails {chunk : Bytes} :
    Step b node (.dataOpen chunk) (.open false) (.unlock .cleanup)
  | write {chunk : Bytes} {written : Nat} {ret : Int} (hret : ret ≤ (chunk.drop written).length) :
    Step b node (.write chunk written) (.write (chunk.drop written) ret)
      (afterWriteAll b chunk (writeAllStep chunk.length written ret))
  | reclose : Step b node .reclose .close .reopen
  | reopen : Step b node .reopen (.open true) (.read .cleanup)
  | reopenFails : Step b node .reopen (.open false) (.unlock .cleanup)
  | lseek : Step b node .lseek (.lseek true) (.read .cleanup)
  | lseekFails : Step b node .lseek (.lseek false) (.close .cleanup)
  | read {after : After} {bs : Option Bytes} (hfits : fits (bs.getD [])) :
    Step b node (.read after) (.read bs) (afterRead after bs)
  | send {after : After} {bs : Bytes} {written : Nat} {ret : Int}
      (hret : ret ≤ (bs.drop written).length) :
    Step b node (.send after bs written) (.send (bs.drop written) ret)
      (afterSendAll after bs (writeAllStep bs.length written ret))
  | close {after : After} : Step b node (.close after) .close (.unlock after)
  | unlock {after : After} : Step b node (.unlock after) (.unlock .file) (afterUnlock after)
  | freeBuffer : Step b node .freeBuffer .free .closeSocket
  | closeSocket : Step b node .closeSocket .closeSocket .freeData
  | freeData (hn : node = true) : Step b node .freeData .free .markLock
  | exit (hn : node = false) : Step b node .freeData .free .exited
  | markLock (ok : Bool) : Step b node .markLock (.lock .list ok) .mark
  | mark : Step b node .mark .mark .markUnlock
  | markUnlock : Step b node .markUnlock (.unlock .list) .exited

variable {b : Build} {node : Bool} {pc pc' : Pc} {ev : Sys} {c c' : Client}

/-- The calls with a result that decides the branch. -/
theorem step_of_nextPc (h : nextPc b node pc ev = some pc') : Step b node pc ev pc' := by
  unfold nextPc at h
  split at h
  case h_1 ok => cases ok <;> cases h <;> constructor
  case h_5 ok => cases ok <;> cases h <;> constructor
  case h_7 chunk =>
    split at h
    · rename_i hc
      cases h
      exact .recv hc.1 hc.2
    · cases h
  case h_8 seekto ok =>
    cases ok with
    | false => cases h; exact .seekLockFails
    | true =>
      cases b <;> cases h
      · exact .seekLock rfl
      · exact .seekSkip rfl
  case h_9 seekto ok => cases ok <;> cases h <;> constructor
  case h_10 seekto seekto' ok =>
    split at h
    · rename_i hk
      subst hk
      cases ok <;> cases h <;> constructor
    · cases h
  case h_11 chunk ok => cases ok <;> cases h <;> constructor
  case h_12 chunk ok => cases ok <;> cases h <;> constructor
  case h_13 chunk written bs ret =>
    split at h
    · rename_i hb
      obtain ⟨rfl, hret⟩ := hb
      cases h
      exact .write hret
    · cases h
  case h_15 ok => cases ok <;> cases h <;> constructor
  case h_16 ok => cases ok <;> cases h <;> constructor
  case h_17 after bs =>
    split at h
    · rename_i hf
      cases h
      exact .read hf
    · cases h
  case h_18 after bs written bs' ret =>
    split at h
    · rename_i hb
      obtain ⟨rfl, hret⟩ := hb
      cases h
      exact .send hret
    · cases h
  case h_23 =>
    cases node <;> cases h
    · exact .exit rfl
    · exact .freeData rfl
  all_goals cases h
  all_goals constructor

/-- What a step of a client thread does. -/
theorem next_eq_some (h : (lts b).next c ev = some c') :
    Step b c.node c.pc ev c'.pc ∧ c'.node = c.nextNode := by
  simp only [lts, Option.map_eq_some_iff] at h
  obtain ⟨pc, hpc, rfl⟩ := h
  exact ⟨step_of_nextPc hpc, rfl⟩

/-! ## Where a step can lead

What holds of every place that a branch can lead to, holds of the next place. -/

section

variable {P : Pc → Prop} {chunk : Bytes} {after : After}

theorem dispatch_elim (hfree : P .freeBuffer) (hseek : ∀ seekto, P (.seekLock seekto))
    (hdata : P (.dataLock chunk)) : P (dispatch chunk) := by
  unfold dispatch
  split
  · split
    · exact hfree
    · exact hseek _
  · exact hdata

theorem afterWriteAll_elim (w : WriteAll) (hmore : ∀ written, P (.write chunk written))
    (hreclose : P .reclose) (hlseek : P .lseek) (hclose : ∀ after, P (.close after)) :
    P (afterWriteAll b chunk w) := by
  unfold afterWriteAll afterWrite
  split
  · exact hmore _
  · split
    · split
      · cases b
        · exact hreclose
        · exact hlseek
      · exact hclose _
    · exact hclose _

theorem afterRead_elim (bs : Option Bytes) (hclose : P (.close after))
    (hsend : ∀ bs, P (.send after bs 0)) : P (afterRead after bs) := by
  unfold afterRead
  split
  · exact hclose
  · split
    · exact hclose
    · exact hsend _

theorem afterSendAll_elim (bs : Bytes) (w : WriteAll) (hmore : ∀ written, P (.send after bs written))
    (hread : P (.read after)) (hclose : P (.close after)) : P (afterSendAll after bs w) := by
  unfold afterSendAll
  split
  · exact hmore _
  · split
    · exact hread
    · exact hclose

end

/-! ## The chunk at hand, and `file_mutex` -/

/-- The chunk of a place is the chunk that it was received as. -/
theorem chunk_dispatch {chunk chunk' : Bytes} (h : (dispatch chunk).chunk = some chunk') :
    chunk = chunk' := by
  have helim : (dispatch chunk).chunk = some chunk' → chunk = chunk' :=
    dispatch_elim (P := fun pc => pc.chunk = some chunk' → chunk = chunk') nofun (fun _ => nofun)
      Option.some.inj
  exact helim h

theorem chunk_afterWriteAll {chunk chunk' : Bytes} {w : WriteAll}
    (h : (afterWriteAll b chunk w).chunk = some chunk') : chunk = chunk' := by
  have helim : (afterWriteAll b chunk w).chunk = some chunk' → chunk = chunk' :=
    afterWriteAll_elim (P := fun pc => pc.chunk = some chunk' → chunk = chunk') w
      (fun _ => Option.some.inj) nofun nofun (fun _ => nofun)
  exact helim h

/-- The chunk at hand is the last one received. -/
theorem Step.chunk {chunk : Bytes} (h : Step b node pc ev pc') (hc : pc'.chunk = some chunk) :
    pc.chunk = some chunk ∨ ev = .recv (some chunk) := by
  cases h with
  | recv hne hfits => exact .inr (by rw [chunk_dispatch hc])
  | write hret => exact .inl (congrArg some (chunk_afterWriteAll hc))
  | read hfits =>
    rw [afterRead_elim (P := fun pc => pc.chunk = none) _ rfl (fun _ => rfl)] at hc
    cases hc
  | send hret =>
    rw [afterSendAll_elim (P := fun pc => pc.chunk = none) _ _ (fun _ => rfl) rfl rfl] at hc
    cases hc
  | @unlock after => cases after <;> cases hc
  | dataLock => exact .inl hc
  | dataOpen => exact .inl hc
  | _ => cases hc

/-- A write to the file is of the rest of the chunk at hand. -/
theorem Step.write_suffix {bs : Bytes} {ret : Int} (h : Step b node pc (.write bs ret) pc') :
    ∃ chunk, pc.chunk = some chunk ∧ bs <:+ chunk := by
  cases h with
  | write hret => exact ⟨_, rfl, List.drop_suffix _ _⟩

/-- Only the calls on `file_mutex` begin and end a critical section. -/
theorem Step.holdsFile (h : Step b node pc ev pc') :
    (ev = .lock .file true ∧ pc.holdsFile = false ∧ pc'.holdsFile = true) ∨
      (ev = .unlock .file ∧ pc.holdsFile = true ∧ pc'.holdsFile = false) ∨
      (ev ≠ .lock .file true ∧ ev ≠ .unlock .file ∧ pc'.holdsFile = pc.holdsFile) := by
  cases h with
  | recv => exact .inr (.inr ⟨by simp, by simp, dispatch_elim
      (P := fun pc => pc.holdsFile = false) rfl (fun _ => rfl) rfl⟩)
  | write => exact .inr (.inr ⟨by simp, by simp, afterWriteAll_elim
      (P := fun pc => pc.holdsFile = true) _ (fun _ => rfl) rfl rfl (fun _ => rfl)⟩)
  | read => exact .inr (.inr ⟨by simp, by simp, afterRead_elim
      (P := fun pc => pc.holdsFile = true) _ rfl (fun _ => rfl)⟩)
  | send => exact .inr (.inr ⟨by simp, by simp, afterSendAll_elim
      (P := fun pc => pc.holdsFile = true) _ _ (fun _ => rfl) rfl rfl⟩)
  | seekLock => exact .inl ⟨rfl, rfl, rfl⟩
  | seekSkip => exact .inl ⟨rfl, rfl, rfl⟩
  | dataLock => exact .inl ⟨rfl, rfl, rfl⟩
  | @unlock after => cases after <;> exact .inr (.inl ⟨rfl, rfl, rfl⟩)
  | _ => exact .inr (.inr ⟨by simp, by simp, rfl⟩)

end Client

end Aesd
