import Aesd.Server.HandleClient

/-!
# The server process (`aesdsocket.c`, `signal_handler.c`, `thread_manager.c`, `socket_ops.c`)

The main thread, the client threads and, in the file build, the timer thread, in any interleaving of
their calls, with any results; a signal interrupts the main thread at any point (`Signals` has those
that other threads take). The main thread is a stack of places: where the innermost function is, and
below it where its callers, or the code that a signal interrupted, go on. What the clients do with the
device is left open here.

* `Process.mainStep`: the next call of the main thread, by its place.
* `Process.next_main`, …: what a step is, by who makes it.
-/

namespace Aesd

/-- `SIGINT` and `SIGTERM`. -/
inductive Signal where
  | int
  | term
  deriving DecidableEq, Repr

/-- The threads of the process. -/
inductive Tid (τ : Type*) where
  | main
  | client (t : τ)
  | timer
  deriving DecidableEq, Repr

/-- A mutex. -/
structure MutexState (τ : Type*) where
  owner : Option (Tid τ)
  /-- How often it was destroyed, or tried to. -/
  destroys : Nat
  destroyed : Bool
  /-- It was locked or unlocked after it was destroyed. -/
  misused : Bool

namespace MutexState

variable {τ : Type*}

/-- `PTHREAD_MUTEX_INITIALIZER`. -/
def initializer : MutexState τ where
  owner := none
  destroys := 0
  destroyed := false
  misused := false

/-- `pthread_mutex_lock`: it blocks while somebody holds the mutex, and fails once it is destroyed. -/
def lock (m : MutexState τ) (who : Tid τ) (ok : Bool) : Option (MutexState τ) :=
  if m.destroyed then if ok then none else some { m with misused := true }
  else if ok ∧ m.owner = none then some { m with owner := some who } else none

/-- `pthread_mutex_unlock`. -/
def unlock (m : MutexState τ) : MutexState τ :=
  { m with owner := none, misused := m.misused || m.destroyed }

/-- `pthread_mutex_destroy`: it fails while somebody holds the mutex. -/
def destroy (m : MutexState τ) : MutexState τ :=
  { m with destroys := m.destroys + 1, destroyed := m.destroyed || m.owner.isNone }

variable {m m' : MutexState τ} {who : Tid τ} {ok : Bool}

/-- What a lock does: it fails on a destroyed mutex, and takes a free one. -/
theorem lock_eq_some (h : m.lock who ok = some m') :
    (m.destroyed = true ∧ ok = false ∧ m' = { m with misused := true }) ∨
      (m.destroyed = false ∧ ok = true ∧ m.owner = none ∧ m' = { m with owner := some who }) := by
  unfold lock at h
  split at h
  · rename_i hd
    cases ok with
    | true => cases h
    | false =>
      cases h
      exact .inl ⟨hd, rfl, rfl⟩
  · rename_i hd
    simp only [Option.ite_none_right_eq_some, Option.some.injEq] at h
    exact .inr ⟨by simpa using hd, h.1.1, h.1.2, h.2.symm⟩

@[simp] theorem unlock_owner : m.unlock.owner = none := rfl

@[simp] theorem unlock_destroyed : m.unlock.destroyed = m.destroyed := rfl

@[simp] theorem unlock_destroys : m.unlock.destroys = m.destroys := rfl

@[simp] theorem destroy_destroys : m.destroy.destroys = m.destroys + 1 := rfl

@[simp] theorem destroy_owner : m.destroy.owner = m.owner := rfl

theorem destroy_destroyed :
    m.destroy.destroyed = true ↔ m.destroyed = true ∨ m.owner = none := by
  simp [destroy]

end MutexState

/-- `struct thread_node`. -/
structure ThreadNode (τ : Type*) where
  thread : τ
  completed : Bool
  deriving DecidableEq, Repr

/-- The next call of a function of the main thread. -/
inductive Place (τ : Type*) where
  /-- `init_signal_handlers`. -/
  | sigaction (sig : Signal)
  /-- `setup_server_socket`. -/
  | socket
  | setsockopt
  | bind
  | listen
  /-- `close(server_socket)` before an error return. -/
  | setupClose
  /-- `main`. -/
  | daemon
  | timerCreate
  /-- `while (keep_running)`. -/
  | loop
  | accept
  | mallocData
  | create
  | ret
  /-- `remove_completed_threads`, with the number of nodes before `current`. -/
  | removeLock
  | removeLoop (i : Nat)
  | removeJoin (t : τ) (i : Nat)
  | removeUnlock
  /-- `cleanup_on_signal`. -/
  | cleanup
  | timerJoin
  | closeServer
  /-- `cleanup_thread_list`. -/
  | cleanLock
  | cleanLoop
  | cleanJoin (t : τ)
  | cleanUnlock
  /-- The rest of `cleanup_on_signal`. -/
  | destroyFile
  | destroyList
  /-- `signal_handler`. -/
  | handler (sig : Signal)
  | handlerEnd (sig : Signal)
  deriving DecidableEq, Repr

/-- The place in `timestamp_thread`. -/
inductive TimerPc where
  /-- `while (keep_running)`. -/
  | check
  | lock
  /-- `open`, `write_all` and `close`. -/
  | write
  | unlock
  | sleep
  | ended
  deriving DecidableEq, Repr

/-- The process. -/
structure Process (τ : Type*) where
  /-- The main thread; it returned from `main` if there is nothing. -/
  stack : List (Place τ)
  /-- The signals that have their handler. -/
  handlers : Signal → Bool
  keepRunning : Bool
  /-- `server_socket != -1`. -/
  serverSocket : Bool
  /-- How often the descriptor in `server_socket` was closed since the last `socket`. -/
  closes : Nat
  /-- `timer_thread != 0`. -/
  timerThread : Bool
  timer : Option TimerPc
  timerCancelled : Bool
  timerJoins : Nat
  fileMutex : MutexState τ
  listMutex : MutexState τ
  /-- The nodes from `thread_list_head` on. -/
  threadList : List (ThreadNode τ)
  clients : τ → Option Client

/-- A step of the process. -/
inductive Action (τ : Type*) where
  /-- The main thread's next call, and whether it succeeds. -/
  | main (ok : Bool)
  /-- `pthread_create` starts the client thread `t`. -/
  | created (t : τ)
  | client (t : τ) (ev : Sys)
  | timer (ok : Bool)
  /-- The timer thread ends at a cancellation point. -/
  | cancelled
  /-- The main thread is interrupted. -/
  | signal (sig : Signal)
  deriving DecidableEq, Repr

namespace Process

variable {τ : Type*} [DecidableEq τ]

/-- Before `main`. -/
def init (τ : Type*) : Process τ where
  stack := [.sigaction .int]
  handlers _ := false
  keepRunning := true
  serverSocket := false
  closes := 0
  timerThread := false
  timer := none
  timerCancelled := false
  timerJoins := 0
  fileMutex := .initializer
  listMutex := .initializer
  threadList := []
  clients _ := none

/-- The thread has ended, so that `pthread_join` returns. -/
def exited (s : Process τ) (t : τ) : Bool :=
  match s.clients t with
  | some c => c.pc == .exited
  | none => false

/-- `main` after `init_signal_handlers` sets the handler of `sig`. -/
def afterSigaction : Signal → Place τ
  | .int => .sigaction .term
  | .term => .socket

/-- `main` after `daemon`. -/
def afterDaemon : Build → Place τ
  | .charDevice => .loop
  | .file => .timerCreate

/-- `main` after `setup_server_socket`. -/
def afterSetup (b : Build) (daemonMode : Bool) : Place τ := if daemonMode then .daemon else afterDaemon b

/-- The main thread's next call, at the place `p` of its innermost function. -/
def mainStep (b : Build) (daemonMode : Bool) (s : Process τ) (ok : Bool) (rest : List (Place τ)) :
    Place τ → Option (Process τ)
  | .sigaction sig =>
    some { s with
      handlers := Function.update s.handlers sig ok, stack := afterSigaction sig :: rest }
  | .socket =>
    some (if ok then { s with serverSocket := true, closes := 0, stack := .setsockopt :: rest }
      else { s with serverSocket := false, stack := .cleanup :: .ret :: rest })
  | .setsockopt => some { s with stack := (if ok then .bind else .setupClose) :: rest }
  | .bind => some { s with stack := (if ok then .listen else .setupClose) :: rest }
  | .listen => some { s with stack := (if ok then afterSetup b daemonMode else .setupClose) :: rest }
  | .setupClose => some { s with closes := s.closes + 1, stack := .cleanup :: .ret :: rest }
  | .daemon =>
    some { s with stack := if ok then afterDaemon b :: rest else .cleanup :: .ret :: rest }
  | .timerCreate =>
    some (if ok then { s with timerThread := true, timer := some .check, stack := .loop :: rest }
      else { s with stack := .cleanup :: .ret :: rest })
  | .loop => some { s with stack := if s.keepRunning then .accept :: rest else .cleanup :: .ret :: rest }
  | .accept => some { s with stack := (if ok then .mallocData else .loop) :: rest }
  | .mallocData => some { s with stack := (if ok then .create else .loop) :: rest }
  -- with a new thread it is `Action.created`
  | .create => if ok then none else some { s with stack := .loop :: rest }
  | .ret => some { s with stack := rest }
  | .removeLock =>
    (s.listMutex.lock .main ok).map fun m => { s with listMutex := m, stack := .removeLoop 0 :: rest }
  | .removeLoop i =>
    match s.threadList[i]? with
    | none => some { s with stack := .removeUnlock :: rest }
    | some n =>
      some (if n.completed then
          { s with threadList := s.threadList.eraseIdx i, stack := .removeJoin n.thread i :: rest }
        else { s with stack := .removeLoop (i + 1) :: rest })
  | .removeJoin t i => if s.exited t then some { s with stack := .removeLoop i :: rest } else none
  | .removeUnlock => some { s with listMutex := s.listMutex.unlock, stack := rest }
  | .cleanup =>
    some (if s.timerThread then { s with timerCancelled := true, stack := .timerJoin :: rest }
      else { s with stack := .closeServer :: rest })
  | .timerJoin =>
    if s.timer = some .ended then
      some { s with timerJoins := s.timerJoins + 1, stack := .closeServer :: rest }
    else none
  | .closeServer =>
    some { s with
      closes := if s.serverSocket then s.closes + 1 else s.closes, stack := .cleanLock :: rest }
  | .cleanLock =>
    (s.listMutex.lock .main ok).map fun m => { s with listMutex := m, stack := .cleanLoop :: rest }
  | .cleanLoop =>
    match s.threadList with
    | [] => some { s with stack := .cleanUnlock :: rest }
    | n :: l => some { s with threadList := l, stack := .cleanJoin n.thread :: rest }
  | .cleanJoin t => if s.exited t then some { s with stack := .cleanLoop :: rest } else none
  | .cleanUnlock => some { s with listMutex := s.listMutex.unlock, stack := .destroyFile :: rest }
  | .destroyFile => some { s with fileMutex := s.fileMutex.destroy, stack := .destroyList :: rest }
  | .destroyList => some { s with listMutex := s.listMutex.destroy, stack := rest }
  | .handler sig =>
    some { s with keepRunning := false, stack := .cleanup :: .handlerEnd sig :: rest }
  | .handlerEnd _ => some { s with stack := rest }

/-- The effect of a client's call on the mutexes and the list. -/
def clientCall (s : Process τ) (t : τ) : Sys → Option (Process τ)
  | .lock .file ok => (s.fileMutex.lock (.client t) ok).map fun m => { s with fileMutex := m }
  | .lock .list ok => (s.listMutex.lock (.client t) ok).map fun m => { s with listMutex := m }
  | .unlock .file => some { s with fileMutex := s.fileMutex.unlock }
  | .unlock .list => some { s with listMutex := s.listMutex.unlock }
  | .link => some { s with threadList := ⟨t, false⟩ :: s.threadList }
  | .mark =>
    some { s with
      threadList := s.threadList.map fun n => if n.thread = t then { n with completed := true } else n }
  | _ => some s

/-- A call of the timer thread. With a cancel request pending it does not get past the `open` of its
section, nor past `nanosleep`: it ends there, which is `Action.cancelled`. -/
def timerStep (s : Process τ) (ok : Bool) : TimerPc → Option (Process τ)
  | .check => some { s with timer := some (if s.keepRunning then .lock else .ended) }
  | .lock => (s.fileMutex.lock .timer ok).map fun m => { s with fileMutex := m, timer := some .write }
  | .write => if s.timerCancelled then none else some { s with timer := some .unlock }
  | .unlock => some { s with fileMutex := s.fileMutex.unlock, timer := some .sleep }
  | .sleep => if s.timerCancelled then none else some { s with timer := some .check }
  | .ended => none

/-- The process, until `main` returns. -/
def lts (b : Build) (daemonMode : Bool) : Lts (Process τ) (Action τ) where
  next s
    | .main ok =>
      match s.stack with
      | [] => none
      | p :: rest => mainStep b daemonMode s ok rest p
    | .created t =>
      match s.stack with
      | .create :: rest =>
        if s.clients t = none then
          some { s with
            clients := Function.update s.clients t (some .start)
            stack := .removeLock :: .loop :: rest }
        else none
      | _ => none
    | .client t ev =>
      if s.stack = [] then none
      else (s.clients t).bind fun c => ((Client.lts b).next c ev).bind fun c' =>
        (clientCall s t ev).map fun s' =>
          { s' with clients := Function.update s'.clients t (some c') }
    | .timer ok => if s.stack = [] then none else s.timer.bind (timerStep s ok)
    | .cancelled =>
      if s.stack ≠ [] ∧ s.timerCancelled ∧ (s.timer = some .write ∨ s.timer = some .sleep) then
        some { s with timer := some .ended }
      else none
    | .signal sig =>
      -- a signal is blocked while its handler runs
      if s.stack ≠ [] ∧ s.handlers sig ∧ .handler sig ∉ s.stack ∧ .handlerEnd sig ∉ s.stack then
        some { s with stack := .handler sig :: s.stack }
      else none

variable {b : Build} {daemonMode ok : Bool} {s s' : Process τ} {t : τ} {ev : Sys} {sig : Signal}

/-! ## What a step is -/

theorem next_main (h : (lts b daemonMode).next s (.main ok) = some s') :
    ∃ p rest, s.stack = p :: rest ∧ mainStep b daemonMode s ok rest p = some s' := by
  simp only [lts] at h
  split at h
  · cases h
  · rename_i p rest hstack
    exact ⟨p, rest, hstack, h⟩

theorem next_created (h : (lts b daemonMode).next s (.created t) = some s') :
    ∃ rest, s.stack = .create :: rest ∧ s.clients t = none ∧
      s' = { s with
        clients := Function.update s.clients t (some .start)
        stack := .removeLock :: .loop :: rest } := by
  simp only [lts] at h
  split at h
  · rename_i rest hstack
    simp only [Option.ite_none_right_eq_some, Option.some.injEq] at h
    exact ⟨rest, hstack, h.1, h.2.symm⟩
  · cases h

theorem next_client (h : (lts b daemonMode).next s (.client t ev) = some s') :
    s.stack ≠ [] ∧ ∃ c c' s₁, s.clients t = some c ∧ (Client.lts b).next c ev = some c' ∧
      clientCall s t ev = some s₁ ∧
      s' = { s₁ with clients := Function.update s₁.clients t (some c') } := by
  simp only [lts, Option.ite_none_left_eq_some, Option.bind_eq_some_iff,
    Option.map_eq_some_iff] at h
  obtain ⟨hstack, c, hc, c', hc', s₁, hs₁, rfl⟩ := h
  exact ⟨hstack, c, c', s₁, hc, hc', hs₁, rfl⟩

theorem next_timer (h : (lts b daemonMode).next s (.timer ok) = some s') :
    s.stack ≠ [] ∧ ∃ pc, s.timer = some pc ∧ timerStep s ok pc = some s' := by
  simpa only [lts, Option.ite_none_left_eq_some, Option.bind_eq_some_iff] using h

theorem next_cancelled (h : (lts b daemonMode).next s .cancelled = some s') :
    s.timer ≠ none ∧ s' = { s with timer := some .ended } := by
  simp only [lts, Option.ite_none_right_eq_some, Option.some.injEq] at h
  obtain ⟨⟨-, -, ht⟩, rfl⟩ := h
  refine ⟨?_, rfl⟩
  rcases ht with ht | ht <;> simp [ht]

theorem next_signal (h : (lts b daemonMode).next s (.signal sig) = some s') :
    s.stack ≠ [] ∧ s' = { s with stack := .handler sig :: s.stack } := by
  simp only [lts, Option.ite_none_right_eq_some, Option.some.injEq] at h
  exact ⟨h.1.1, h.2.symm⟩

/-! ## Where the setup goes on -/

section

variable {P : Place τ → Prop}

omit [DecidableEq τ]

theorem afterSigaction_elim (sigaction : P (.sigaction .term)) (socket : P .socket) :
    P (afterSigaction sig) := by
  cases sig
  · exact sigaction
  · exact socket

theorem afterDaemon_elim (timerCreate : P .timerCreate) (loop : P .loop) : P (afterDaemon b) := by
  cases b
  · exact loop
  · exact timerCreate

theorem afterSetup_elim (daemon : P .daemon) (timerCreate : P .timerCreate) (loop : P .loop) :
    P (afterSetup b daemonMode) := by
  cases daemonMode
  · exact afterDaemon_elim timerCreate loop
  · exact daemon

end

/-! ## Where the main thread goes on -/

/-- `main`, with what it calls before the accept loop. -/
def ofMain : Place τ → Bool
  | .sigaction _ | .socket | .setsockopt | .bind | .listen | .setupClose | .daemon | .timerCreate
  | .loop | .accept | .mallocData | .create | .ret => true
  | _ => false

/-- The next call is on `thread_list_mutex` or the list. -/
def usesList : Place τ → Bool
  | .removeLock | .removeLoop _ | .removeJoin _ _ | .removeUnlock | .cleanLock | .cleanLoop
  | .cleanJoin _ | .cleanUnlock | .destroyList => true
  | _ => false

/-- From a place of another call, the places at which the main thread goes on. -/
inductive Goes : Place τ → List (Place τ) → Prop
  | main {p q : Place τ} (hp : ofMain p = true) (hne : p ≠ .ret) (hq : ofMain q = true ∧ q ≠ .ret) :
    Goes p [q]
  | exit {p : Place τ} (hp : ofMain p = true) (hne : p ≠ .ret) : Goes p [.cleanup, .ret]
  | ret : Goes .ret []
  | handler (sig : Signal) : Goes (.handler sig) [.cleanup, .handlerEnd sig]
  | handlerEnd (sig : Signal) : Goes (.handlerEnd sig) []
  | cancel : Goes .cleanup [.timerJoin]
  | cleanup : Goes .cleanup [.closeServer]
  | timerJoin : Goes .timerJoin [.closeServer]
  | closeServer : Goes .closeServer [.cleanLock]
  | destroyFile : Goes .destroyFile [.destroyList]

/-- What such a call leaves as it was. -/
structure Kept (s s' : Process τ) : Prop where
  clients : s'.clients = s.clients
  threadList : s'.threadList = s.threadList
  listMutex : s'.listMutex = s.listMutex
  fileOwner : s'.fileMutex.owner = s.fileMutex.owner

section

omit [DecidableEq τ]

variable {p : Place τ} {rest : List (Place τ)}

/-- The main thread leaves the list alone where it does not call on it. -/
theorem mainStep_goes (hp : usesList p = false) (h : mainStep b daemonMode s ok rest p = some s') :
    ∃ new, Goes p new ∧ s'.stack = new ++ rest ∧ Kept s s' := by
  cases p with
  | sigaction sig =>
    cases h
    exact ⟨[afterSigaction sig], .main rfl nofun (afterSigaction_elim
      (P := fun q => ofMain q = true ∧ q ≠ .ret) ⟨rfl, nofun⟩ ⟨rfl, nofun⟩), rfl,
      ⟨rfl, rfl, rfl, rfl⟩⟩
  | socket | timerCreate =>
    cases ok <;> cases h
    · exact ⟨_, .exit rfl nofun, rfl, ⟨rfl, rfl, rfl, rfl⟩⟩
    · exact ⟨[_], .main rfl nofun ⟨rfl, by simp⟩, rfl, ⟨rfl, rfl, rfl, rfl⟩⟩
  | setsockopt | bind | accept | mallocData =>
    cases ok <;> cases h <;>
      exact ⟨[_], .main rfl nofun ⟨rfl, by simp⟩, rfl, ⟨rfl, rfl, rfl, rfl⟩⟩
  | listen =>
    cases ok <;> cases h
    · exact ⟨[_], .main rfl nofun ⟨rfl, by simp⟩, rfl, ⟨rfl, rfl, rfl, rfl⟩⟩
    · exact ⟨[afterSetup b daemonMode], .main rfl nofun (afterSetup_elim
        (P := fun q => ofMain q = true ∧ q ≠ .ret) ⟨rfl, nofun⟩ ⟨rfl, nofun⟩ ⟨rfl, nofun⟩), rfl,
        ⟨rfl, rfl, rfl, rfl⟩⟩
  | daemon =>
    cases ok <;> cases h
    · exact ⟨_, .exit rfl nofun, rfl, ⟨rfl, rfl, rfl, rfl⟩⟩
    · exact ⟨[afterDaemon b], .main rfl nofun (afterDaemon_elim
        (P := fun q => ofMain q = true ∧ q ≠ .ret) ⟨rfl, nofun⟩ ⟨rfl, nofun⟩), rfl,
        ⟨rfl, rfl, rfl, rfl⟩⟩
  | setupClose =>
    cases h
    exact ⟨_, .exit rfl nofun, rfl, ⟨rfl, rfl, rfl, rfl⟩⟩
  | loop =>
    simp only [mainStep] at h
    split at h <;> cases h
    · exact ⟨[_], .main rfl nofun ⟨rfl, by simp⟩, rfl, ⟨rfl, rfl, rfl, rfl⟩⟩
    · exact ⟨_, .exit rfl nofun, rfl, ⟨rfl, rfl, rfl, rfl⟩⟩
  | create =>
    cases ok <;> cases h
    exact ⟨[_], .main rfl nofun ⟨rfl, by simp⟩, rfl, ⟨rfl, rfl, rfl, rfl⟩⟩
  | ret =>
    cases h
    exact ⟨[], .ret, rfl, ⟨rfl, rfl, rfl, rfl⟩⟩
  | cleanup =>
    simp only [mainStep] at h
    split at h <;> cases h
    · exact ⟨[_], .cancel, rfl, ⟨rfl, rfl, rfl, rfl⟩⟩
    · exact ⟨[_], .cleanup, rfl, ⟨rfl, rfl, rfl, rfl⟩⟩
  | timerJoin =>
    simp only [mainStep, Option.ite_none_right_eq_some, Option.some.injEq] at h
    obtain ⟨-, rfl⟩ := h
    exact ⟨[_], .timerJoin, rfl, ⟨rfl, rfl, rfl, rfl⟩⟩
  | closeServer =>
    cases h
    exact ⟨[_], .closeServer, rfl, ⟨rfl, rfl, rfl, rfl⟩⟩
  | destroyFile =>
    cases h
    exact ⟨[_], .destroyFile, rfl, ⟨rfl, rfl, rfl, rfl⟩⟩
  | handler sig =>
    cases h
    exact ⟨_, .handler sig, rfl, ⟨rfl, rfl, rfl, rfl⟩⟩
  | handlerEnd sig =>
    cases h
    exact ⟨[], .handlerEnd sig, rfl, ⟨rfl, rfl, rfl, rfl⟩⟩
  | _ => cases hp

end

/-! ## What a call of the timer thread does -/

section

variable {pc : TimerPc}

omit [DecidableEq τ]

theorem timerStep_write (h : timerStep s ok .write = some s') :
    s.timerCancelled = false ∧ s' = { s with timer := some .unlock } := by
  simp only [timerStep, Option.ite_none_left_eq_some, Option.some.injEq] at h
  exact ⟨by simpa using h.1, h.2.symm⟩

theorem timerStep_sleep (h : timerStep s ok .sleep = some s') :
    s.timerCancelled = false ∧ s' = { s with timer := some .check } := by
  simp only [timerStep, Option.ite_none_left_eq_some, Option.some.injEq] at h
  exact ⟨by simpa using h.1, h.2.symm⟩

/-- It goes on elsewhere, and locks or unlocks `file_mutex` at most. -/
theorem timerStep_frame (h : timerStep s ok pc = some s') :
    ∃ m pc', s' = { s with fileMutex := m, timer := some pc' } ∧
      (m = s.fileMutex ∨ s.fileMutex.lock .timer ok = some m ∨ m = s.fileMutex.unlock) := by
  cases pc with
  | check =>
    cases h
    exact ⟨s.fileMutex, _, rfl, .inl rfl⟩
  | lock =>
    obtain ⟨m, hm, rfl⟩ := Option.map_eq_some_iff.mp h
    exact ⟨m, _, rfl, .inr (.inl hm)⟩
  | write =>
    obtain ⟨-, rfl⟩ := timerStep_write h
    exact ⟨s.fileMutex, _, rfl, .inl rfl⟩
  | unlock =>
    cases h
    exact ⟨_, _, rfl, .inr (.inr rfl)⟩
  | sleep =>
    obtain ⟨-, rfl⟩ := timerStep_sleep h
    exact ⟨s.fileMutex, _, rfl, .inl rfl⟩
  | ended => cases h

end

/-! ## What a client's call does -/

variable {s₁ : Process τ}

/-- Only to the mutexes and the list, anything. -/
theorem clientCall_frame (h : clientCall s t ev = some s₁) :
    s₁ = { s with
      fileMutex := s₁.fileMutex, listMutex := s₁.listMutex, threadList := s₁.threadList } := by
  unfold clientCall at h
  split at h
  · obtain ⟨m, -, rfl⟩ := Option.map_eq_some_iff.mp h
    rfl
  · obtain ⟨m, -, rfl⟩ := Option.map_eq_some_iff.mp h
    rfl
  all_goals
    cases h
    rfl

/-- To `thread_list_mutex`, an own lock or unlock. -/
theorem clientCall_listMutex (h : clientCall s t ev = some s₁) :
    (∃ ok, ev = .lock .list ok ∧ s.listMutex.lock (.client t) ok = some s₁.listMutex) ∨
      (ev = .unlock .list ∧ s₁.listMutex = s.listMutex.unlock) ∨
      ((∀ ok, ev ≠ .lock .list ok) ∧ ev ≠ .unlock .list ∧ s₁.listMutex = s.listMutex) := by
  unfold clientCall at h
  split at h
  · obtain ⟨m, -, rfl⟩ := Option.map_eq_some_iff.mp h
    exact .inr (.inr ⟨by simp, by simp, rfl⟩)
  · obtain ⟨m, hm, rfl⟩ := Option.map_eq_some_iff.mp h
    exact .inl ⟨_, rfl, hm⟩
  · cases h
    exact .inr (.inr ⟨by simp, by simp, rfl⟩)
  · cases h
    exact .inr (.inl ⟨rfl, rfl⟩)
  · cases h
    exact .inr (.inr ⟨by simp, by simp, rfl⟩)
  · cases h
    exact .inr (.inr ⟨by simp, by simp, rfl⟩)
  · rename_i _ h1 _ h2 _ _
    cases h
    exact .inr (.inr ⟨h1, h2, rfl⟩)

/-- To `file_mutex`, the same. -/
theorem clientCall_fileMutex (h : clientCall s t ev = some s₁) :
    (∃ ok, ev = .lock .file ok ∧ s.fileMutex.lock (.client t) ok = some s₁.fileMutex) ∨
      (ev = .unlock .file ∧ s₁.fileMutex = s.fileMutex.unlock) ∨
      ((∀ ok, ev ≠ .lock .file ok) ∧ ev ≠ .unlock .file ∧ s₁.fileMutex = s.fileMutex) := by
  unfold clientCall at h
  split at h
  · obtain ⟨m, hm, rfl⟩ := Option.map_eq_some_iff.mp h
    exact .inl ⟨_, rfl, hm⟩
  · obtain ⟨m, -, rfl⟩ := Option.map_eq_some_iff.mp h
    exact .inr (.inr ⟨by simp, by simp, rfl⟩)
  · cases h
    exact .inr (.inl ⟨rfl, rfl⟩)
  · cases h
    exact .inr (.inr ⟨by simp, by simp, rfl⟩)
  · cases h
    exact .inr (.inr ⟨by simp, by simp, rfl⟩)
  · cases h
    exact .inr (.inr ⟨by simp, by simp, rfl⟩)
  · rename_i h1 _ h2 _ _ _
    cases h
    exact .inr (.inr ⟨h1, h2, rfl⟩)

/-- To the list: a new node, or a mark on its own. -/
theorem clientCall_threadList (h : clientCall s t ev = some s₁) :
    (ev = .link ∧ s₁.threadList = ⟨t, false⟩ :: s.threadList) ∨
      (ev = .mark ∧ s₁.threadList =
        s.threadList.map fun n => if n.thread = t then { n with completed := true } else n) ∨
      (ev ≠ .link ∧ ev ≠ .mark ∧ s₁.threadList = s.threadList) := by
  unfold clientCall at h
  split at h
  · obtain ⟨m, -, rfl⟩ := Option.map_eq_some_iff.mp h
    exact .inr (.inr ⟨by simp, by simp, rfl⟩)
  · obtain ⟨m, -, rfl⟩ := Option.map_eq_some_iff.mp h
    exact .inr (.inr ⟨by simp, by simp, rfl⟩)
  · cases h
    exact .inr (.inr ⟨by simp, by simp, rfl⟩)
  · cases h
    exact .inr (.inr ⟨by simp, by simp, rfl⟩)
  · cases h
    exact .inl ⟨rfl, rfl⟩
  · cases h
    exact .inr (.inl ⟨rfl, rfl⟩)
  · rename_i h1 h2
    cases h
    exact .inr (.inr ⟨h1, h2, rfl⟩)

end Process

end Aesd
