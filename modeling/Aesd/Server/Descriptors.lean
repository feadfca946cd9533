import Aesd.Server.Frames
import Aesd.Server.Resources

/-!
# The descriptors of the process (`aesdsocket.c`, `thread_manager.c`, `signal_handler.c`)

The process with the numbers that `socket`, `accept` and `open` return, the kernel's table of what
they refer to, the variables that they are kept in, and the `thread_data_t` blocks in which `main`
hands a connection on to its thread. A number is free again as soon as it is closed, and the kernel
may return it at once; but `server_socket` keeps its number, and `cleanup_on_signal` closes it every
time. The C library has descriptors of its own, such as the socket of `syslog`, and takes and closes
them at any time.

* `lts`: the system, over the one of `Process`.
* `Effect`, `effect_of_next`: what a step can do to the table, the blocks and the variables.
* `Ready`: where `main` is, and `server_socket` before `socket`.
-/

namespace Aesd

/-- What a descriptor refers to. -/
inductive Object (γ : Type*) where
  /-- The socket of `setup_server_socket`. -/
  | socket
  /-- The connection that `accept` returned with the address of the client. -/
  | connection (addr : γ)
  /-- `FILE_PATH`. -/
  | file
  /-- What the C library opened for itself. -/
  | library
  deriving DecidableEq, Repr

/-- `thread_data_t`; -1 is `none`. -/
structure ThreadData (γ : Type*) where
  clientSocket : Option Nat
  clientIp : γ
  deriving DecidableEq, Repr

/-- The iteration of `timestamp_thread` between the lock and the unlock. -/
inductive TimerFile where
  /-- Before `open`. -/
  | opening
  /-- Before the `close` of `file_desc`. -/
  | writing (fileDesc : Nat)
  | closed
  deriving DecidableEq, Repr

/-- The process with its descriptors. A pointer is the address of its block; `NULL` is `none`. -/
structure Descriptors (τ γ : Type*) where
  process : Process τ
  /-- What the numbers refer to that are in use. -/
  table : Nat → Option (Object γ)
  /-- The `thread_data_t` blocks by their addresses. -/
  data : Nat → Option (ThreadData γ)
  /-- A freed block was used or freed. -/
  fault : Bool
  /-- `server_socket`. -/
  serverSocket : Option Nat
  /-- `client_socket`, `client_addr` and `thread_data` of `main`. -/
  clientSocket : Option Nat
  clientAddr : γ
  threadData : Option Nat
  /-- The argument of `handle_client`, and its `file_desc`. -/
  arg : τ → Option Nat
  fileDesc : τ → Option Nat
  timerFile : TimerFile
  /-- The descriptors of the C library. -/
  library : Nat → Option Nat

/-- A step. -/
inductive DescriptorEvent (τ γ : Type*) where
  /-- A step of the process: `fresh` is the number or the address that a successful call returns,
  `addr` the address that `accept` does. -/
  | process (a : Action τ) (fresh : Nat) (addr : γ)
  /-- `open` and `close` of `timestamp_thread`. -/
  | timerOpen (fileDesc : Option Nat)
  | timerClose
  /-- `open` and `close` of the C library. -/
  | libraryOpen (i fd : Nat)
  | libraryClose (i : Nat)
  deriving DecidableEq, Repr

/-- A step of the main thread. -/
def DescriptorEvent.ofMain {τ γ : Type*} : DescriptorEvent τ γ → Bool
  | .process (.main _) _ _ => true
  | _ => false

namespace Descriptors

variable {τ γ : Type*}

/-! ## The calls -/

/-- `close(fd)`; of a number that is not in use it fails, without an effect. -/
def close (st : Descriptors τ γ) : Option Nat → Descriptors τ γ
  | none => st
  | some n => { st with table := Function.update st.table n none }

/-- `free(p)`. -/
def free (st : Descriptors τ γ) : Option Nat → Descriptors τ γ
  | none => st
  | some p =>
    { st with data := Function.update st.data p none, fault := st.fault || (st.data p).isNone }

theorem close_eq (st : Descriptors τ γ) (fd : Option Nat) :
    st.close fd = { st with table := (st.close fd).table } := by
  cases fd <;> rfl

theorem free_some {st : Descriptors τ γ} {p : Nat} {d : ThreadData γ} (h : st.data p = some d) :
    st.free (some p) = { st with data := Function.update st.data p none } := by
  simp [free, h]

@[simp] theorem close_serverSocket (st : Descriptors τ γ) (fd : Option Nat) :
    (st.close fd).serverSocket = st.serverSocket := by
  cases fd <;> rfl

@[simp] theorem free_serverSocket (st : Descriptors τ γ) (p : Option Nat) :
    (st.free p).serverSocket = st.serverSocket := by
  cases p <;> rfl

/-- `*data` in the thread. -/
def thread (st : Descriptors τ γ) (t : τ) : Option (ThreadData γ) := (st.arg t).bind st.data

/-- `data->client_socket`. -/
def socketOf (st : Descriptors τ γ) (t : τ) : Option Nat := (st.thread t).bind (·.clientSocket)

/-- The thread uses `*data`. -/
def useData (st : Descriptors τ γ) (t : τ) : Descriptors τ γ :=
  { st with fault := st.fault || (st.thread t).isNone }

/-- `server_socket` refers to the socket. -/
def listening (st : Descriptors τ γ) : Bool :=
  match st.serverSocket.bind st.table with
  | some .socket => true
  | _ => false

/-- Before `main`, with the descriptors `base` of others. -/
def init (τ : Type*) (base : Nat → Option (Object γ)) (addr : γ) : Descriptors τ γ where
  process := .init τ
  table := base
  data _ := none
  fault := false
  serverSocket := none
  clientSocket := none
  clientAddr := addr
  threadData := none
  arg _ := none
  fileDesc _ := none
  timerFile := .opening
  library _ := none

/-- The main thread's call at the place `p`. A call that returns a number or an address returns a free
one, and `accept` succeeds on the socket only. -/
def mainCall (st : Descriptors τ γ) (ok : Bool) (fresh : Nat) (addr : γ) :
    Place τ → Option (Descriptors τ γ)
  | .socket =>
    if ok then
      if st.table fresh = none then
        some { st with
          table := Function.update st.table fresh (some .socket), serverSocket := some fresh }
      else none
    else some { st with serverSocket := none }
  | .setupClose | .closeServer => some (st.close st.serverSocket)
  | .accept =>
    if ok then
      if st.listening = true ∧ st.table fresh = none then
        some { st with
          table := Function.update st.table fresh (some (.connection addr))
          clientSocket := some fresh
          clientAddr := addr }
      else none
    else some { st with clientSocket := none }
  | .mallocData =>
    if ok then
      if st.data fresh = none then
        some { st with
          data := Function.update st.data fresh (some ⟨st.clientSocket, st.clientAddr⟩)
          threadData := some fresh }
      else none
    else some { st.close st.clientSocket with threadData := none }
  -- `pthread_create` fails
  | .create => some ((st.free st.threadData).close st.clientSocket)
  | _ => some st

variable [DecidableEq τ]

/-- The thread's call at the place `pc`. -/
def clientCall (st : Descriptors τ γ) (t : τ) (fresh : Nat) : Pc → Sys → Option (Descriptors τ γ)
  | _, .open true =>
    if st.table fresh = none then
      some { st with
        table := Function.update st.table fresh (some .file)
        fileDesc := Function.update st.fileDesc t (some fresh) }
    else none
  | _, .open false => some { st with fileDesc := Function.update st.fileDesc t none }
  | _, .close => some (st.close (st.fileDesc t))
  -- and `syslog` with `data->client_ip`
  | _, .closeSocket => some ((st.useData t).close (st.socketOf t))
  | .freeData, .free => some (st.free (st.arg t))
  | _, .recv _ | _, .send _ _ => some (st.useData t)
  -- `syslog` with `data->client_ip`
  | .malloc, .malloc _ => some (st.useData t)
  | _, _ => some st

/-- What a step of the process does to the descriptors and the blocks. -/
def call (st : Descriptors τ γ) (fresh : Nat) (addr : γ) : Action τ → Option (Descriptors τ γ)
  | .main ok =>
    match st.process.stack with
    | [] => none
    | p :: _ => st.mainCall ok fresh addr p
  | .created t => some { st with arg := Function.update st.arg t st.threadData }
  | .client t ev => (st.process.clients t).bind fun c => st.clientCall t fresh c.pc ev
  | .timer _ =>
    if st.process.timer = some .write then
      if st.timerFile = .closed then some { st with timerFile := .opening } else none
    else some st
  | .cancelled | .signal _ => some st

/-- The process with its descriptors. -/
def lts (τ γ : Type*) [DecidableEq τ] (b : Build) (daemonMode : Bool) :
    Lts (Descriptors τ γ) (DescriptorEvent τ γ) where
  next st
    | .process a fresh addr =>
      ((Process.lts b daemonMode).next st.process a).bind fun p =>
        (st.call fresh addr a).map fun st' => { st' with process := p }
    -- both are cancellation points
    | .timerOpen fd =>
      if st.process.stack ≠ [] ∧ st.process.timer = some .write ∧ st.process.timerCancelled = false ∧
          st.timerFile = .opening then
        match fd with
        | none => some { st with timerFile := .closed }
        | some n =>
          if st.table n = none then
            some { st with table := Function.update st.table n (some .file), timerFile := .writing n }
          else none
      else none
    | .timerClose =>
      match st.timerFile with
      | .writing n =>
        if st.process.stack ≠ [] ∧ st.process.timer = some .write ∧
            st.process.timerCancelled = false then
          some { st.close (some n) with timerFile := .closed }
        else none
      | _ => none
    | .libraryOpen i n =>
      if st.process.stack ≠ [] ∧ st.library i = none ∧ st.table n = none then
        some { st with
          table := Function.update st.table n (some .library)
          library := Function.update st.library i (some n) }
      else none
    | .libraryClose i =>
      match st.library i with
      | some n =>
        if st.process.stack ≠ [] then
          some { st.close (some n) with library := Function.update st.library i none }
        else none
      | none => none

variable {b : Build} {daemonMode ok : Bool} {st st' st₁ : Descriptors τ γ} {a : Action τ} {fresh : Nat}
  {addr : γ}

theorem next_process (h : (lts τ γ b daemonMode).next st (.process a fresh addr) = some st') :
    ∃ s' st₁, (Process.lts b daemonMode).next st.process a = some s' ∧
      st.call fresh addr a = some st₁ ∧ st' = { st₁ with process := s' } := by
  simp only [lts, Option.bind_eq_some_iff, Option.map_eq_some_iff] at h
  obtain ⟨s', hs', st₁, hst₁, rfl⟩ := h
  exact ⟨s', st₁, hs', hst₁, rfl⟩

/-! ## The places -/

/-- Between `accept` and the return of `pthread_create`. -/
def hasConnection : Place τ → Bool
  | .mallocData | .create => true
  | _ => false

/-- Between the `malloc` of `thread_data` and the return of `pthread_create`. -/
def hasBlock : Place τ → Bool
  | .create => true
  | _ => false

/-- Before `close(data->client_socket)`. -/
def hasSocket (pc : Pc) : Bool := !(Client.holding pc).socketClosed

/-- Between `open` and `close(file_desc)`. -/
def hasFile (pc : Pc) : Bool := (Client.holding pc).fileDesc

/-- Before `free(data)`. -/
def hasData (pc : Pc) : Bool := decide ((Client.holding pc).freed < 2)

/-- The thread has started, and is at a place of a kind. -/
def threadAt (f : Pc → Bool) (s : Process τ) (t : τ) : Bool :=
  match s.clients t with
  | some c => f c.pc
  | none => false

omit [DecidableEq τ] in
theorem threadAt_congr {s s' : Process τ} (h : s'.clients = s.clients) (f : Pc → Bool) (t : τ) :
    threadAt f s' t = threadAt f s t := by
  rw [threadAt, h, threadAt]

omit [DecidableEq τ] in
@[simp] theorem threadAt_stack (f : Pc → Bool) (s : Process τ) (stack : List (Place τ)) (t : τ) :
    threadAt f { s with stack := stack } t = threadAt f s t := rfl

theorem threadAt_created (f : Pc → Bool) (s : Process τ) (stack : List (Place τ)) (t u : τ) :
    threadAt f { s with clients := Function.update s.clients t (some .start), stack := stack } u =
      if u = t then f .addMalloc else threadAt f s u := by
  by_cases hut : u = t
  · simp [threadAt, hut, Client.start]
  · simp [threadAt, hut]

/-! ## The calls that no descriptor is passed to -/

/-- The places of the main thread that `mainCall` is about. -/
def ofDescriptor : Place τ → Bool
  | .socket | .setupClose | .accept | .mallocData | .create | .closeServer => true
  | _ => false

/-- `main` has not called `socket`. -/
def beforeSocket : Place τ → Bool
  | .sigaction _ | .socket => true
  | _ => false

/-- Nobody comes to a place where he has something else in hand. -/
structure Unmoved (s s' : Process τ) : Prop where
  serverSocket : s'.serverSocket = s.serverSocket
  closes : s'.closes = s.closes
  clients : s'.clients = s.clients
  connection : s'.stack.any hasConnection = s.stack.any hasConnection
  block : s'.stack.any hasBlock = s.stack.any hasBlock
  before : s'.stack.any beforeSocket = true → s.stack.any beforeSocket = true

variable {s s' : Process τ} {p : Place τ} {rest : List (Place τ)}

omit [DecidableEq τ] in
/-- The innermost function goes on at other places. -/
theorem Unmoved.move (new : List (Place τ)) (hp : ofDescriptor p = false)
    (hstack : s.stack = p :: rest) (hstack' : s'.stack = new ++ rest)
    (hnew : new.any hasConnection = false ∧ new.any hasBlock = false)
    (hbefore : new.any beforeSocket = true → beforeSocket p = true)
    (hserver : s'.serverSocket = s.serverSocket) (hcloses : s'.closes = s.closes)
    (hclients : s'.clients = s.clients) : Unmoved s s' := by
  have hp₁ : hasConnection p = false := by cases p <;> first | rfl | cases hp
  have hp₂ : hasBlock p = false := by cases p <;> first | rfl | cases hp
  refine ⟨hserver, hcloses, hclients, ?_, ?_, fun h => ?_⟩
  · rw [hstack, hstack', List.any_append, hnew.1, List.any_cons, hp₁]
  · rw [hstack, hstack', List.any_append, hnew.2, List.any_cons, hp₂]
  · rw [hstack', List.any_append, Bool.or_eq_true] at h
    rw [hstack, List.any_cons, Bool.or_eq_true]
    exact h.imp_left hbefore

omit [DecidableEq τ] in
theorem mainStep_unmoved (hp : ofDescriptor p = false) (hstack : s.stack = p :: rest)
    (h : Process.mainStep b daemonMode s ok rest p = some s') : Unmoved s s' := by
  have one : ∀ q, s'.stack = q :: rest → hasConnection q = false → hasBlock q = false →
      (beforeSocket q = true → beforeSocket p = true) → s'.serverSocket = s.serverSocket →
      s'.closes = s.closes → s'.clients = s.clients → Unmoved s s' := fun q hstack' hq₁ hq₂ hbefore =>
    .move [q] hp hstack hstack' (by simp [hq₁, hq₂]) (by simpa using hbefore)
  have exit : s'.stack = .cleanup :: .ret :: rest → s'.serverSocket = s.serverSocket →
      s'.closes = s.closes → s'.clients = s.clients → Unmoved s s' := fun hstack' =>
    .move [.cleanup, .ret] hp hstack hstack' ⟨rfl, rfl⟩ fun h => by cases h
  have pop : s'.stack = rest → s'.serverSocket = s.serverSocket → s'.closes = s.closes →
      s'.clients = s.clients → Unmoved s s' :=
    fun hstack' => .move [] hp hstack hstack' ⟨rfl, rfl⟩ fun h => by cases h
  have never : false = true → beforeSocket p = true := fun h => by cases h
  cases p with
  | sigaction sig => cases sig <;> cases h <;> exact one _ rfl rfl rfl (fun _ => rfl) rfl rfl rfl
  | removeLock | cleanLock =>
    obtain ⟨m, -, rfl⟩ := Option.map_eq_some_iff.mp h
    exact one _ rfl rfl rfl never rfl rfl rfl
  | listen =>
    cases ok <;> cases h
    · exact one .setupClose rfl rfl rfl never rfl rfl rfl
    · exact one _ rfl (Process.afterSetup_elim (P := (hasConnection · = false)) rfl rfl rfl)
        (Process.afterSetup_elim (P := (hasBlock · = false)) rfl rfl rfl)
        (Process.afterSetup_elim (P := fun q => beforeSocket q = true → _) never never never)
        rfl rfl rfl
  | daemon =>
    cases ok <;> cases h
    · exact exit rfl rfl rfl rfl
    · exact one _ rfl (Process.afterDaemon_elim (P := (hasConnection · = false)) rfl rfl)
        (Process.afterDaemon_elim (P := (hasBlock · = false)) rfl rfl)
        (Process.afterDaemon_elim (P := fun q => beforeSocket q = true → _) never never)
        rfl rfl rfl
  | handler sig =>
    cases h
    exact .move [.cleanup, .handlerEnd sig] hp hstack rfl ⟨rfl, rfl⟩ never rfl rfl rfl
  | socket | setupClose | accept | mallocData | create | closeServer => cases hp
  | _ =>
    simp only [Process.mainStep] at h
    repeat' split at h
    all_goals cases h
    all_goals first
      | exact pop rfl rfl rfl rfl
      | exact exit rfl rfl rfl rfl
      | exact one _ rfl rfl rfl never rfl rfl rfl

/-! ## The calls of a thread -/

/-- The thread has the same in hand at both places. -/
structure Same (pc pc' : Pc) : Prop where
  socket : hasSocket pc' = hasSocket pc
  file : hasFile pc' = hasFile pc
  data : hasData pc' = hasData pc

theorem Same.of_holding {pc pc' : Pc} (h : Client.holding pc' = Client.holding pc) : Same pc pc' :=
  ⟨by rw [hasSocket, h, hasSocket], by rw [hasFile, h, hasFile], by rw [hasData, h, hasData]⟩

/-- What a call of the thread `t` does, on its way from `pc` to `pc'`. -/
inductive Use (st : Descriptors τ γ) (t : τ) (fresh : Nat) (pc pc' : Pc) : Descriptors τ γ → Prop
  | idle (h : Same pc pc') : Use st t fresh pc pc' st
  | data (h : Same pc pc') (hdata : hasData pc = true) : Use st t fresh pc pc' (st.useData t)
  | opens (hsocket : hasSocket pc' = hasSocket pc) (hdata : hasData pc' = hasData pc)
      (hfile : hasFile pc = false) (hfile' : hasFile pc' = true) (hfresh : st.table fresh = none) :
    Use st t fresh pc pc' { st with
      table := Function.update st.table fresh (some .file)
      fileDesc := Function.update st.fileDesc t (some fresh) }
  | openFails (h : Same pc pc') (hfile : hasFile pc = false) :
    Use st t fresh pc pc' { st with fileDesc := Function.update st.fileDesc t none }
  | closes (hsocket : hasSocket pc' = hasSocket pc) (hdata : hasData pc' = hasData pc)
      (hfile : hasFile pc = true) (hfile' : hasFile pc' = false) :
    Use st t fresh pc pc' (st.close (st.fileDesc t))
  | closesSocket (hfile : hasFile pc' = hasFile pc) (hdata : hasData pc' = hasData pc)
      (hin : hasData pc = true) (hsocket : hasSocket pc = true) (hsocket' : hasSocket pc' = false) :
    Use st t fresh pc pc' ((st.useData t).close (st.socketOf t))
  | frees (hfile : hasFile pc' = hasFile pc) (hsocket : hasSocket pc = false)
      (hsocket' : hasSocket pc' = false) (hdata : hasData pc = true) (hdata' : hasData pc' = false) :
    Use st t fresh pc pc' (st.free (st.arg t))

theorem use_of_step {node : Bool} {pc pc' : Pc} {ev : Sys} {t : τ}
    (hstep : Client.Step b node pc ev pc') (h : st.clientCall t fresh pc ev = some st₁) :
    Use st t fresh pc pc' st₁ := by
  cases hstep with
  | seekOpen | dataOpen | reopen =>
    simp only [clientCall, Option.ite_none_right_eq_some, Option.some.injEq] at h
    obtain ⟨hfresh, rfl⟩ := h
    exact .opens rfl rfl rfl rfl hfresh
  | seekOpenFails | dataOpenFails | reopenFails =>
    cases h
    exact .openFails (.of_holding rfl) rfl
  | reclose | close =>
    cases h
    exact .closes rfl rfl rfl rfl
  | closeSocket =>
    cases h
    exact .closesSocket rfl rfl rfl rfl rfl
  | freeData | exit =>
    cases h
    exact .frees rfl rfl rfl rfl rfl
  | malloc | mallocFails | recvEnd =>
    cases h
    exact .data (.of_holding rfl) rfl
  | recv =>
    cases h
    exact .data (.of_holding (Client.holding_dispatch _)) rfl
  | send =>
    cases h
    exact .data (.of_holding (Client.holding_afterSendAll ..)) rfl
  | write =>
    cases h
    exact .idle (.of_holding (Client.holding_afterWriteAll ..))
  | read =>
    cases h
    exact .idle (.of_holding (Client.holding_afterRead ..))
  | @unlock after =>
    cases h
    cases after <;> exact .idle ⟨rfl, rfl, rfl⟩
  | _ =>
    cases h
    exact .idle ⟨rfl, rfl, rfl⟩

/-- The thread `t` goes on from `pc` at `pc'`. -/
structure Moves (s s' : Process τ) (t : τ) (pc pc' : Pc) : Prop where
  serverSocket : s'.serverSocket = s.serverSocket
  closes : s'.closes = s.closes
  stack : s'.stack = s.stack
  here : ∀ f, threadAt f s t = f pc
  there : ∀ f, threadAt f s' t = f pc'
  others : ∀ f u, u ≠ t → threadAt f s' u = threadAt f s u

/-- A call of a thread, on both sides. -/
theorem next_client {t : τ} {ev : Sys}
    (h : (lts τ γ b daemonMode).next st (.process (.client t ev) fresh addr) = some st') :
    ∃ pc pc' s' st₁, Moves st.process s' t pc pc' ∧ Use st t fresh pc pc' st₁ ∧
      st' = { st₁ with process := s' } := by
  obtain ⟨s', st₁, hs', hst₁, rfl⟩ := next_process h
  obtain ⟨-, c, c', s₁, hc, hnext, hcall, rfl⟩ := Process.next_client hs'
  simp only [call, hc, Option.bind_some] at hst₁
  refine ⟨c.pc, c'.pc, _, st₁, ?_, use_of_step (Client.next_eq_some hnext).1 hst₁, rfl⟩
  have hframe := Process.clientCall_frame hcall
  refine ⟨?_, ?_, ?_, fun f => ?_, fun f => ?_, fun f u hu => ?_⟩
  · rw [hframe]
  · rw [hframe]
  · rw [hframe]
  · simp [threadAt, hc]
  · simp [threadAt]
  · rw [hframe]
    simp [threadAt, Function.update_of_ne hu]

/-! ## What a step can do -/

/-- A step, to the table, the blocks and the variables. In its own calls `main` is the only function on
the stack. -/
inductive Effect (st : Descriptors τ γ) (e : DescriptorEvent τ γ) : Descriptors τ γ → Prop
  | idle {s' : Process τ} (h : Unmoved st.process s') : Effect st e { st with process := s' }
  | client {t : τ} {pc pc' : Pc} {s' : Process τ} {st₁ : Descriptors τ γ} {fresh : Nat}
      (hm : Moves st.process s' t pc pc') (hu : Use st t fresh pc pc' st₁) :
    Effect st e { st₁ with process := s' }
  | socket {n : Nat} (hstack : st.process.stack = [.socket]) (hn : st.table n = none) :
    Effect st e { st with
      table := Function.update st.table n (some .socket)
      serverSocket := some n
      process := { st.process with serverSocket := true, closes := 0, stack := [.setsockopt] } }
  | socketFails (hstack : st.process.stack = [.socket]) :
    Effect st e { st with
      serverSocket := none
      process := { st.process with serverSocket := false, stack := [.cleanup, .ret] } }
  | setupClose (hmain : e.ofMain = true) (hstack : st.process.stack = [.setupClose]) :
    Effect st e { st.close st.serverSocket with
      process := { st.process with closes := st.process.closes + 1, stack := [.cleanup, .ret] } }
  | closeServer {rest : List (Place τ)} (hmain : e.ofMain = true)
      (hstack : st.process.stack = .closeServer :: rest) :
    Effect st e { st.close st.serverSocket with
      process := { st.process with
        closes := if st.process.serverSocket then st.process.closes + 1 else st.process.closes
        stack := .cleanLock :: rest } }
  | accept {n : Nat} {addr : γ} (hstack : st.process.stack = [.accept])
      (hlistening : st.listening = true) (hn : st.table n = none) :
    Effect st e { st with
      table := Function.update st.table n (some (.connection addr))
      clientSocket := some n
      clientAddr := addr
      process := { st.process with stack := [.mallocData] } }
  | acceptFails (hstack : st.process.stack = [.accept]) :
    Effect st e { st with
      clientSocket := none, process := { st.process with stack := [.loop] } }
  | malloc {p : Nat} (hstack : st.process.stack = [.mallocData]) (hp : st.data p = none) :
    Effect st e { st with
      data := Function.update st.data p (some ⟨st.clientSocket, st.clientAddr⟩)
      threadData := some p
      process := { st.process with stack := [.create] } }
  | mallocFails (hstack : st.process.stack = [.mallocData]) :
    Effect st e { st.close st.clientSocket with
      threadData := none, process := { st.process with stack := [.loop] } }
  | createFails (hstack : st.process.stack = [.create]) :
    Effect st e { (st.free st.threadData).close st.clientSocket with
      process := { st.process with stack := [.loop] } }
  | created {t : τ} (hstack : st.process.stack = [.create]) (hnew : st.process.clients t = none) :
    Effect st e { st with
      arg := Function.update st.arg t st.threadData
      process := { st.process with
        clients := Function.update st.process.clients t (some .start)
        stack := [.removeLock, .loop] } }
  | timerOpens {n : Nat} (h : st.timerFile = .opening) (hn : st.table n = none) :
    Effect st e { st with
      table := Function.update st.table n (some .file), timerFile := .writing n }
  | timerOpenFails (h : st.timerFile = .opening) : Effect st e { st with timerFile := .closed }
  | timerCloses {n : Nat} (h : st.timerFile = .writing n) :
    Effect st e { st.close (some n) with timerFile := .closed }
  | timerLeaves {s' : Process τ} (h : Unmoved st.process s') (hfile : st.timerFile = .closed) :
    Effect st e { st with timerFile := .opening, process := s' }
  | libraryOpens {i n : Nat} (h : st.library i = none) (hn : st.table n = none) :
    Effect st e { st with
      table := Function.update st.table n (some .library)
      library := Function.update st.library i (some n) }
  | libraryCloses {i n : Nat} (h : st.library i = some n) :
    Effect st e { st.close (some n) with library := Function.update st.library i none }

omit [DecidableEq τ] in
theorem unmoved_timer {pc : TimerPc} (h : Process.timerStep s ok pc = some s') : Unmoved s s' := by
  obtain ⟨m, pc', rfl, -⟩ := Process.timerStep_frame h
  exact ⟨rfl, rfl, rfl, rfl, rfl, id⟩

omit [DecidableEq τ] in
theorem mainCall_idle (hp : ofDescriptor p = false) : st.mainCall ok fresh addr p = some st := by
  cases p <;> first | rfl | cases hp

theorem effect_of_main (hf : Process.Frames st.process) (hstack : st.process.stack = p :: rest)
    (hs' : Process.mainStep b daemonMode st.process ok rest p = some s')
    (hst₁ : st.mainCall ok fresh addr p = some st₁) :
    Effect st (.process (.main ok) fresh addr) { st₁ with process := s' } := by
  have hbottom : Process.ofMain p = true → rest = [] := by
    have hframed := hf.framed
    rw [hstack] at hframed
    exact hframed.1.mp
  cases hp : ofDescriptor p with
  | false =>
    rw [mainCall_idle hp] at hst₁
    cases hst₁
    exact .idle (mainStep_unmoved hp hstack hs')
  | true =>
    cases p with
    | socket =>
      obtain rfl := hbottom rfl
      cases ok <;> cases hs'
      · cases hst₁
        exact .socketFails hstack
      · simp only [mainCall, if_true, Option.ite_none_right_eq_some, Option.some.injEq] at hst₁
        obtain ⟨hn, rfl⟩ := hst₁
        exact .socket hstack hn
    | setupClose =>
      obtain rfl := hbottom rfl
      cases hs'
      cases hst₁
      exact .setupClose rfl hstack
    | closeServer =>
      cases hs'
      cases hst₁
      exact .closeServer rfl hstack
    | accept =>
      obtain rfl := hbottom rfl
      cases ok <;> cases hs'
      · cases hst₁
        exact .acceptFails hstack
      · simp only [mainCall, if_true, Option.ite_none_right_eq_some, Option.some.injEq] at hst₁
        obtain ⟨⟨hl, hn⟩, rfl⟩ := hst₁
        exact .accept hstack hl hn
    | mallocData =>
      obtain rfl := hbottom rfl
      cases ok <;> cases hs'
      · cases hst₁
        exact .mallocFails hstack
      · simp only [mainCall, if_true, Option.ite_none_right_eq_some, Option.some.injEq] at hst₁
        obtain ⟨hn, rfl⟩ := hst₁
        exact .malloc hstack hn
    | create =>
      obtain rfl := hbottom rfl
      cases ok <;> cases hs'
      cases hst₁
      exact .createFails hstack
    | _ => cases hp

theorem effect_of_next {e : DescriptorEvent τ γ} (hf : Process.Frames st.process)
    (h : (lts τ γ b daemonMode).next st e = some st') : Effect st e st' := by
  cases e with
  | process a fresh addr =>
    cases a with
    | client t ev =>
      obtain ⟨pc, pc', s', st₁, hm, hu, rfl⟩ := next_client h
      exact .client hm hu
    | main ok =>
      obtain ⟨s', st₁, hs', hst₁, rfl⟩ := next_process h
      obtain ⟨p, rest, hstack, hstep⟩ := Process.next_main hs'
      simp only [call, hstack] at hst₁
      exact effect_of_main hf hstack hstep hst₁
    | created t =>
      obtain ⟨s', st₁, hs', hst₁, rfl⟩ := next_process h
      obtain ⟨rest, hstack, hnew, rfl⟩ := Process.next_created hs'
      cases hst₁
      have hframed := hf.framed
      rw [hstack] at hframed
      obtain rfl : rest = [] := hframed.1.mp rfl
      exact .created hstack hnew
    | timer ok =>
      obtain ⟨s', st₁, hs', hst₁, rfl⟩ := next_process h
      obtain ⟨-, pc, -, hstep⟩ := Process.next_timer hs'
      simp only [call] at hst₁
      repeat' split at hst₁
      all_goals cases hst₁
      · rename_i _ hclosed
        exact .timerLeaves (unmoved_timer hstep) hclosed
      · exact .idle (unmoved_timer hstep)
    | cancelled =>
      obtain ⟨s', st₁, hs', hst₁, rfl⟩ := next_process h
      obtain ⟨-, rfl⟩ := Process.next_cancelled hs'
      cases hst₁
      exact .idle ⟨rfl, rfl, rfl, rfl, rfl, id⟩
    | signal sig =>
      obtain ⟨s', st₁, hs', hst₁, rfl⟩ := next_process h
      obtain ⟨-, rfl⟩ := Process.next_signal hs'
      cases hst₁
      exact .idle ⟨rfl, rfl, rfl, by simp [hasConnection], by simp [hasBlock], by simp [beforeSocket]⟩
  | timerOpen fd =>
    simp only [lts, Option.ite_none_right_eq_some] at h
    obtain ⟨⟨-, -, -, hopening⟩, h⟩ := h
    split at h
    · cases h
      exact .timerOpenFails hopening
    · simp only [Option.ite_none_right_eq_some, Option.some.injEq] at h
      obtain ⟨hn, rfl⟩ := h
      exact .timerOpens hopening hn
  | timerClose =>
    simp only [lts] at h
    split at h
    · rename_i n hwriting
      simp only [Option.ite_none_right_eq_some, Option.some.injEq] at h
      obtain ⟨-, rfl⟩ := h
      exact .timerCloses hwriting
    · cases h
  | libraryOpen i n =>
    simp only [lts, Option.ite_none_right_eq_some, Option.some.injEq] at h
    obtain ⟨⟨-, hi, hn⟩, rfl⟩ := h
    exact .libraryOpens hi hn
  | libraryClose i =>
    simp only [lts] at h
    split at h
    · rename_i n hi
      simp only [Option.ite_none_right_eq_some, Option.some.injEq] at h
      obtain ⟨-, rfl⟩ := h
      exact .libraryCloses hi
    · cases h

/-! ## Before the accept loop -/

/-- `main` is where it says, and `server_socket` is -1 until `socket` succeeds. -/
structure Ready (st : Descriptors τ γ) : Prop where
  frames : Process.Frames st.process
  serverSocket : st.process.serverSocket = st.serverSocket.isSome
  before : st.process.stack.any beforeSocket = true → st.serverSocket = none

namespace Ready

variable {e : DescriptorEvent τ γ}

omit [DecidableEq τ] in
theorem start (base : Nat → Option (Object γ)) (addr : γ) : Ready (init τ base addr) :=
  ⟨Process.Frames.init, rfl, fun _ => rfl⟩

omit [DecidableEq τ] in
theorem keep (st₁ : Descriptors τ γ) (h : Ready st) (hf : Process.Frames s')
    (hserver : s'.serverSocket = st.process.serverSocket)
    (hst : st₁.serverSocket = st.serverSocket)
    (hbefore : s'.stack.any beforeSocket = true → st.process.stack.any beforeSocket = true) :
    Ready { st₁ with process := s' } :=
  ⟨hf, by rw [hserver, h.serverSocket, hst], fun hb => hst.trans (h.before (hbefore hb))⟩

/-- The frames of the process after a step. -/
theorem frames_next (h : Ready st) (hn : (lts τ γ b daemonMode).next st e = some st') :
    Process.Frames st'.process := by
  cases e with
  | process a fresh addr =>
    obtain ⟨s', st₁, hs', -, rfl⟩ := next_process hn
    exact h.frames.next hs'
  | timerOpen fd =>
    simp only [lts, Option.ite_none_right_eq_some] at hn
    obtain ⟨-, hn⟩ := hn
    repeat' split at hn
    all_goals cases hn
    all_goals exact h.frames
  | timerClose | libraryOpen | libraryClose =>
    simp only [lts] at hn
    repeat' split at hn
    all_goals cases hn
    exact h.frames

theorem next (h : Ready st) (hn : (lts τ γ b daemonMode).next st e = some st') : Ready st' := by
  have hf := h.frames_next hn
  cases effect_of_next h.frames hn with
  | idle hu => exact keep _ h hf hu.serverSocket rfl hu.before
  | timerLeaves hu =>
    exact keep { st with timerFile := .opening } h hf hu.serverSocket rfl hu.before
  | client hm hu =>
    refine keep _ h hf hm.serverSocket ?_ fun hb => by rwa [hm.stack] at hb
    cases hu <;> simp [useData]
  | socket => exact ⟨hf, rfl, nofun⟩
  | socketFails => exact ⟨hf, rfl, fun _ => rfl⟩
  | setupClose => exact keep _ h hf rfl (close_serverSocket ..) nofun
  | closeServer _ hstack =>
    exact keep _ h hf rfl (close_serverSocket ..) fun hb => by simpa [hstack, beforeSocket] using hb
  | mallocFails =>
    exact keep { st.close st.clientSocket with threadData := none } h hf rfl
      (close_serverSocket ..) nofun
  | createFails =>
    exact keep _ h hf rfl ((close_serverSocket ..).trans (free_serverSocket ..)) nofun
  | accept | acceptFails | malloc | created => exact ⟨hf, h.serverSocket, nofun⟩
  | timerOpens | timerOpenFails | timerCloses | libraryOpens | libraryCloses =>
    exact ⟨hf, h.serverSocket, h.before⟩

end Ready

end Descriptors

end Aesd
