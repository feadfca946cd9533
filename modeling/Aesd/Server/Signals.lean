import Aesd.Server.Process

/-!
# Signals that another thread takes

No thread blocks `SIGINT` or `SIGTERM`, so that the kernel may give a signal to any of them, also
while the main thread is in `signal_handler`: there the signal is blocked for the main thread alone.
Here client threads and the timer thread run the handler, too, each on its own stack, in any
interleaving with the process.

* `Signalled.handlerStep`: the next call of a handler, which is that of the main thread but for
  whom it locks and joins.
* `Signalled.next_undisturbed`: without such a signal nothing but the process makes steps.
-/

namespace Aesd

/-- The thread that makes the step. -/
def Action.actor {τ : Type*} : Action τ → Tid τ
  | .main _ | .created _ | .signal _ => .main
  | .client t _ => .client t
  | .timer _ | .cancelled => .timer

/-- The process, with the handlers that its other threads run. -/
structure Signalled (τ : Type*) where
  process : Process τ
  /-- Where the handlers of a thread go on, the innermost first; for the main thread it is
  `process.stack`. -/
  frames : Tid τ → List (Place τ)

/-- A step, also of a handler. -/
inductive Event (τ : Type*) where
  /-- What the threads do outside these handlers. -/
  | process (a : Action τ)
  /-- A client thread or the timer thread is interrupted. -/
  | signal (who : Tid τ) (sig : Signal)
  /-- The next call of its handler, and whether it succeeds. -/
  | handler (who : Tid τ) (ok : Bool)
  deriving DecidableEq, Repr

namespace Signalled

variable {τ : Type*} [DecidableEq τ]

/-- Before `main`. -/
def init (τ : Type*) : Signalled τ where
  process := .init τ
  frames _ := []

/-- A thread, not the main thread, that was started and has not ended. -/
def runs (s : Process τ) : Tid τ → Bool
  | .main => false
  | .client t => (s.clients t).isSome && !s.exited t
  | .timer => s.timer.isSome && s.timer != some .ended

/-- A signal is blocked for the thread whose handler for it runs. -/
def blocked (frames : List (Place τ)) (sig : Signal) : Bool :=
  frames.contains (.handler sig) || frames.contains (.handlerEnd sig)

/-- `pthread_join` fails with `EDEADLK`: the thread joins itself, or one that is joining it. -/
def joinFails (st : Signalled τ) (who : Tid τ) (t : τ) : Bool :=
  who == .client t ||
    match who, st.frames (.client t) with
    | .client u, .cleanJoin v :: _ => u == v
    | _, _ => false

/-- `syslog`, `pthread_join` and `close` are cancellation points. -/
def cancellationPoint : Place τ → Bool
  | .handler _ | .timerJoin | .closeServer => true
  | _ => false

/-- The next call of the handler that `who` runs, at the place `p` of its innermost function. -/
def handlerStep (b : Build) (daemonMode : Bool) (st : Signalled τ) (who : Tid τ) (ok : Bool)
    (p : Place τ) (rest : List (Place τ)) : Option (Signalled τ) :=
  -- the request may be its own: the handler cancels the timer thread also where that runs it
  if who = .timer ∧ st.process.timerCancelled ∧ cancellationPoint p then
    some {
      process := { st.process with timer := some .ended }
      frames := Function.update st.frames who [] }
  else
    match p with
    | .cleanLock =>
      (st.process.listMutex.lock who ok).map fun m =>
        { process := { st.process with listMutex := m }
          frames := Function.update st.frames who (.cleanLoop :: rest) }
    | .cleanJoin t =>
      if st.process.exited t ∨ st.joinFails who t then
        some { st with frames := Function.update st.frames who (.cleanLoop :: rest) }
      else none
    | p =>
      (Process.mainStep b daemonMode st.process ok rest p).map fun s =>
        { process := { s with stack := st.process.stack }
          frames := Function.update st.frames who s.stack }

/-- The process with all its handlers, until `main` returns. -/
def lts (b : Build) (daemonMode : Bool) : Lts (Signalled τ) (Event τ) where
  next st
    | .process a =>
      -- a thread in a handler goes on when that has returned
      if st.frames a.actor = [] then
        ((Process.lts b daemonMode).next st.process a).map fun s => { st with process := s }
      else none
    | .signal who sig =>
      if st.process.stack ≠ [] ∧ runs st.process who ∧ st.process.handlers sig ∧
          blocked (st.frames who) sig = false then
        some { st with frames := Function.update st.frames who (.handler sig :: st.frames who) }
      else none
    | .handler who ok =>
      if st.process.stack = [] then none
      else
        match st.frames who with
        | [] => none
        | p :: rest => handlerStep b daemonMode st who ok p rest

variable {b : Build} {daemonMode ok : Bool} {st st' : Signalled τ} {a : Action τ} {e : Event τ}
  {who : Tid τ}

/-- No thread but the main thread is in a handler. -/
def Undisturbed (st : Signalled τ) : Prop := ∀ who, st.frames who = []

omit [DecidableEq τ] in
theorem undisturbed_init : (init τ).Undisturbed := fun _ => rfl

/-- A handler that does not run makes no step. -/
theorem next_handler (h : st.Undisturbed) : (lts b daemonMode).next st (.handler who ok) = none := by
  simp [lts, h who]

/-- As long as no signal interrupts another thread, the steps are those of the process. -/
theorem next_undisturbed (h : st.Undisturbed) (he : ∀ who sig, e ≠ .signal who sig)
    (hs : (lts b daemonMode).next st e = some st') :
    ∃ a, e = .process a ∧ (Process.lts b daemonMode).next st.process a = some st'.process ∧
      st'.Undisturbed := by
  cases e with
  | process a =>
    simp only [lts, h a.actor, if_true, Option.map_eq_some_iff] at hs
    obtain ⟨s, hs, rfl⟩ := hs
    exact ⟨a, rfl, hs, h⟩
  | signal who sig => exact absurd rfl (he who sig)
  | handler who ok =>
    rw [next_handler h] at hs
    cases hs

end Signalled

end Aesd
