import Aesd.Server.Process

/-!
# Shutdown and what it releases

`cleanup_on_signal` joins the timer thread, closes `server_socket` and destroys the mutexes. `main`
calls it before every return, and so does the signal handler; `setup_server_socket` closes the
descriptor before its error returns, too. Every place of the main thread has its releases that are
still to come (`pending`); they and those made stay the same, but for a signal and a failed setup.

`releasedOnce_iff`: without these, every state has released everything once at most; and a run of
`main` up to its return that did so was without these.
-/

namespace Aesd

namespace MutexState

variable {τ : Type*} {m m' : MutexState τ} {who : Tid τ} {ok : Bool}

/-- It is not destroyed, and was not misused. -/
def Usable (m : MutexState τ) : Prop := m.destroyed = false ∧ m.misused = false

/-- It was locked or unlocked, at most. -/
structure Used (m m' : MutexState τ) : Prop where
  destroys : m'.destroys = m.destroys
  usable : m.Usable → m'.Usable

theorem Used.refl (m : MutexState τ) : m.Used m := ⟨rfl, id⟩

theorem used_lock (h : m.lock who ok = some m') : m.Used m' := by
  rcases lock_eq_some h with ⟨hd, -, rfl⟩ | ⟨-, -, -, rfl⟩
  · refine ⟨rfl, fun hm => ?_⟩
    rw [hm.1] at hd
    cases hd
  · exact ⟨rfl, id⟩

theorem used_unlock (m : MutexState τ) : m.Used m.unlock :=
  ⟨rfl, fun hm => ⟨hm.1, by simp [unlock, hm.1, hm.2]⟩⟩

end MutexState

namespace Process

variable {τ : Type*}

/-- What shutdown releases was released once at most, and no mutex was used after that. -/
structure ReleasedOnce (s : Process τ) : Prop where
  closes : s.closes ≤ 1
  timerJoins : s.timerJoins ≤ 1
  fileDestroys : s.fileMutex.destroys ≤ 1
  listDestroys : s.listMutex.destroys ≤ 1
  fileMisused : s.fileMutex.misused = false
  listMisused : s.listMutex.misused = false

/-- `setup_server_socket` with a socket. -/
def settingUp : Place τ → Bool
  | .setsockopt | .bind | .listen => true
  | _ => false

/-- No signal comes, and `setsockopt`, `bind` and `listen` do not fail. -/
def Clean (s : Process τ) : Action τ → Prop
  | .signal _ => False
  | .main ok => ok = false → ∀ p ∈ s.stack.head?, settingUp p = false
  | _ => True

/-! ## The releases to come -/

/-- How often a place of the main thread leads to the destruction of `thread_list_mutex`. -/
def destroysList : Place τ → Nat
  | .ret | .removeLock | .removeLoop _ | .removeJoin _ _ | .removeUnlock | .handlerEnd _ => 0
  | _ => 1

/-- The same of `file_mutex`. -/
def destroysFile : Place τ → Nat
  | .destroyList => 0
  | p => destroysList p

/-- How often it leads to a join of the timer thread, at most. -/
def joinsTimer : Place τ → Nat
  | .closeServer | .cleanLock | .cleanLoop | .cleanJoin _ | .cleanUnlock | .destroyFile
  | .destroyList => 0
  | p => destroysList p

/-- How often it closes the server socket, at most. -/
def closesSocket : Place τ → Nat
  | .setupClose => 2
  | .closeServer => 1
  | p => joinsTimer p

/-- What is still to come from the whole stack. -/
def pending (w : Place τ → Nat) (stack : List (Place τ)) : Nat := (stack.map w).sum

variable {w : Place τ → Nat} {p : Place τ} {stack rest : List (Place τ)}

@[simp] theorem pending_nil : pending w [] = 0 := rfl

@[simp] theorem pending_cons : pending w (p :: stack) = w p + pending w stack := by
  simp [pending]

/-- A new client thread changes nothing. -/
theorem pending_created (hlock : w .removeLock = 0) (hloop : w .loop = w .create) :
    pending w (.removeLock :: .loop :: rest) = pending w (.create :: rest) := by
  simp [hlock, hloop]

/-- Every release is still to come from the place. -/
structure OwesAll (p : Place τ) : Prop where
  list : destroysList p = 1
  file : destroysFile p = 1
  timer : joinsTimer p = 1
  socket : closesSocket p = 1

variable {b : Build} {daemonMode ok : Bool} {sig : Signal}

theorem owesAll_afterSigaction : OwesAll (afterSigaction sig : Place τ) :=
  afterSigaction_elim ⟨rfl, rfl, rfl, rfl⟩ ⟨rfl, rfl, rfl, rfl⟩

theorem owesAll_afterDaemon : OwesAll (afterDaemon b : Place τ) :=
  afterDaemon_elim ⟨rfl, rfl, rfl, rfl⟩ ⟨rfl, rfl, rfl, rfl⟩

theorem owesAll_afterSetup : OwesAll (afterSetup b daemonMode : Place τ) :=
  afterSetup_elim ⟨rfl, rfl, rfl, rfl⟩ ⟨rfl, rfl, rfl, rfl⟩ ⟨rfl, rfl, rfl, rfl⟩

variable {s s' : Process τ}

/-- The main thread makes the releases that were to come from it. -/
theorem mainStep_releases (h : mainStep b daemonMode s ok rest p = some s') :
    s'.listMutex.destroys + pending destroysList s'.stack =
        s.listMutex.destroys + pending destroysList (p :: rest) ∧
      s'.fileMutex.destroys + pending destroysFile s'.stack =
        s.fileMutex.destroys + pending destroysFile (p :: rest) ∧
      s'.timerJoins + pending joinsTimer s'.stack ≤
        s.timerJoins + pending joinsTimer (p :: rest) := by
  cases p with
  | removeLock | cleanLock =>
    obtain ⟨m, hm, rfl⟩ := Option.map_eq_some_iff.mp h
    simp [(MutexState.used_lock hm).destroys, destroysList, destroysFile, joinsTimer]
  | sigaction sig =>
    cases h
    have hq : OwesAll (afterSigaction sig : Place τ) := owesAll_afterSigaction
    simp only [pending_cons, hq.list, hq.file, hq.timer]
    exact ⟨rfl, rfl, le_rfl⟩
  | listen =>
    have hq : OwesAll (afterSetup b daemonMode : Place τ) := owesAll_afterSetup
    cases ok <;> cases h
    · exact ⟨rfl, rfl, le_rfl⟩
    · simp only [if_true, pending_cons, hq.list, hq.file, hq.timer]
      exact ⟨rfl, rfl, le_rfl⟩
  | daemon =>
    have hq : OwesAll (afterDaemon b : Place τ) := owesAll_afterDaemon
    cases ok <;> cases h
    · simp [destroysList, destroysFile, joinsTimer]
    · simp only [if_true, pending_cons, hq.list, hq.file, hq.timer]
      exact ⟨rfl, rfl, le_rfl⟩
  | destroyFile | destroyList =>
    cases h
    refine ⟨?_, ?_, ?_⟩ <;>
      simp only [pending_cons, MutexState.destroy_destroys, destroysList, destroysFile, joinsTimer] <;>
      omega
  | timerJoin =>
    simp only [mainStep, Option.ite_none_right_eq_some, Option.some.injEq] at h
    obtain ⟨-, rfl⟩ := h
    simp [destroysList, destroysFile, joinsTimer, Nat.add_assoc]
  | _ =>
    simp only [mainStep] at h
    repeat' split at h
    all_goals cases h
    all_goals simp [destroysList, destroysFile, joinsTimer]

/-- It closes the server socket as often as was to come: at most, if the setup does not fail, and at
least, once there is a socket. -/
theorem mainStep_closes (h : mainStep b daemonMode s ok rest p = some s') :
    ((ok = false → settingUp p = false) →
      s'.closes + pending closesSocket s'.stack ≤ s.closes + pending closesSocket (p :: rest)) ∧
    (s.serverSocket = true → p ≠ .socket →
      s.closes + pending closesSocket (p :: rest) ≤ s'.closes + pending closesSocket s'.stack) := by
  cases p with
  | removeLock | cleanLock =>
    obtain ⟨m, hm, rfl⟩ := Option.map_eq_some_iff.mp h
    exact ⟨fun _ => le_rfl, fun _ _ => le_rfl⟩
  | sigaction sig =>
    cases h
    simp only [pending_cons, owesAll_afterSigaction.socket]
    exact ⟨fun _ => le_rfl, fun _ _ => le_rfl⟩
  | socket =>
    refine ⟨fun _ => ?_, fun _ h => absurd rfl h⟩
    cases ok <;> cases h <;> simp [closesSocket, joinsTimer, destroysList]
  | setsockopt | bind =>
    cases ok <;> cases h
    · refine ⟨fun hclean => ?_, fun _ _ => ?_⟩
      · cases hclean rfl
      · simp [closesSocket, joinsTimer, destroysList]
    · exact ⟨fun _ => le_rfl, fun _ _ => le_rfl⟩
  | listen =>
    cases ok <;> cases h
    · refine ⟨fun hclean => ?_, fun _ _ => ?_⟩
      · cases hclean rfl
      · simp [closesSocket, joinsTimer, destroysList]
    · simp only [if_true, pending_cons, owesAll_afterSetup.socket]
      exact ⟨fun _ => le_rfl, fun _ _ => le_rfl⟩
  | daemon =>
    cases ok <;> cases h
    · simp [closesSocket, joinsTimer, destroysList]
    · simp only [if_true, pending_cons, owesAll_afterDaemon.socket]
      exact ⟨fun _ => le_rfl, fun _ _ => le_rfl⟩
  | closeServer =>
    cases h
    simp only [pending_cons, closesSocket, joinsTimer]
    split
    · exact ⟨fun _ => by omega, fun _ _ => by omega⟩
    · rename_i hsocket
      exact ⟨fun _ => by omega, fun h => absurd h hsocket⟩
  | _ =>
    simp only [mainStep] at h
    repeat' split at h
    all_goals cases h
    all_goals simp only [pending_cons, closesSocket, joinsTimer, destroysList]
    all_goals exact ⟨fun _ => by omega, fun _ _ => by omega⟩

/-- It clears `keep_running` in the handler only. -/
theorem mainStep_keepRunning (hp : ∀ sig, p ≠ .handler sig)
    (h : mainStep b daemonMode s ok rest p = some s') : s'.keepRunning = s.keepRunning := by
  cases p with
  | removeLock | cleanLock =>
    obtain ⟨m, -, rfl⟩ := Option.map_eq_some_iff.mp h
    rfl
  | handler sig => exact absurd rfl (hp sig)
  | _ =>
    simp only [mainStep] at h
    repeat' split at h
    all_goals cases h
    all_goals rfl

/-! ## Who uses the mutexes -/

/-- `main` up to the accept loop. -/
def starting : Place τ → Bool
  | .sigaction _ | .socket | .setsockopt | .bind | .listen | .daemon | .timerCreate => true
  | _ => false

/-- The accept loop. -/
def serving : Place τ → Bool
  | .loop | .accept | .mallocData | .create | .removeLock | .removeLoop _ | .removeJoin _ _
  | .removeUnlock => true
  | _ => false

/-- `cleanup_on_signal`, without a timer thread. -/
def ending : Place τ → Bool
  | .cleanup | .closeServer | .cleanLock | .cleanLoop | .cleanJoin _ | .cleanUnlock | .destroyFile
  | .destroyList => true
  | _ => false

/-- There is only the main thread. -/
structure Alone (s : Process τ) : Prop where
  clients : ∀ t, s.clients t = none
  timer : s.timer = none
  timerThread : s.timerThread = false

/-- How far `main` is when no signal came: other threads run in the accept loop only, which then
does not end. -/
inductive Stage (s : Process τ) : Prop
  | starting {p : Place τ} (hstack : s.stack = [p]) (hp : starting p = true) (halone : s.Alone)
    (hfile : s.fileMutex.Usable) (hlist : s.listMutex.Usable)
    (hsocket : settingUp p = true → s.serverSocket = true)
  | serving (hstack : ∀ p ∈ s.stack, serving p = true) (hfile : s.fileMutex.Usable)
    (hlist : s.listMutex.Usable)
  | ending {p : Place τ} (hstack : s.stack = [p, .ret]) (hp : ending p = true) (halone : s.Alone)
    (hfile : s.fileMutex.misused = false) (hlist : s.listMutex.Usable)
  | ended (hstack : ∀ p ∈ s.stack, p = .ret) (halone : s.Alone)
    (hfile : s.fileMutex.misused = false) (hlist : s.listMutex.misused = false)

namespace Stage

theorem misused (hs : Stage s) : s.fileMutex.misused = false ∧ s.listMutex.misused = false := by
  cases hs with
  | starting hstack hp halone hfile hlist hsocket => exact ⟨hfile.2, hlist.2⟩
  | serving hstack hfile hlist => exact ⟨hfile.2, hlist.2⟩
  | ending hstack hp halone hfile hlist => exact ⟨hfile, hlist.2⟩
  | ended hstack halone hfile hlist => exact ⟨hfile, hlist⟩

/-- Where there are other threads, `main` is in the accept loop. -/
theorem serving_of_not_alone (hs : Stage s) (h : ¬ s.Alone) :
    (∀ p ∈ s.stack, Process.serving p = true) ∧ s.fileMutex.Usable ∧ s.listMutex.Usable := by
  cases hs with
  | serving hstack hfile hlist => exact ⟨hstack, hfile, hlist⟩
  | starting hstack hp halone => exact absurd halone h
  | ending hstack hp halone => exact absurd halone h
  | ended hstack halone => exact absurd halone h

theorem of_starting (halone : s.Alone) (hfile : s.fileMutex.Usable) (hlist : s.listMutex.Usable)
    (hp : Process.starting p = true) (hsocket : settingUp p = true → s.serverSocket = true) :
    Stage { s with stack := [p] } :=
  .starting rfl hp ⟨halone.clients, halone.timer, halone.timerThread⟩ hfile hlist hsocket

theorem of_ending (halone : s.Alone) (hfile : s.fileMutex.misused = false)
    (hlist : s.listMutex.Usable) (hp : Process.ending p = true) :
    Stage { s with stack := [p, .ret] } :=
  .ending rfl hp ⟨halone.clients, halone.timer, halone.timerThread⟩ hfile hlist

theorem of_loop (hfile : s.fileMutex.Usable) (hlist : s.listMutex.Usable) :
    Stage { s with stack := [.loop] } :=
  .serving (List.forall_mem_singleton.mpr rfl) hfile hlist

/-- A step of `main` before the accept loop. -/
theorem starts (hp : Process.starting p = true)
    (hclean : ok = false → settingUp p = false)
    (halone : s.Alone) (hfile : s.fileMutex.Usable) (hlist : s.listMutex.Usable)
    (hsocket : settingUp p = true → s.serverSocket = true)
    (h : mainStep b daemonMode s ok [] p = some s') : Stage s' := by
  cases p with
  | sigaction sig =>
    cases h
    obtain ⟨hp', hsocket'⟩ : Process.starting (afterSigaction sig : Place τ) = true ∧
        settingUp (afterSigaction sig : Place τ) = false :=
      afterSigaction_elim (P := fun q => Process.starting q = true ∧ settingUp q = false)
        ⟨rfl, rfl⟩ ⟨rfl, rfl⟩
    exact .starting rfl hp' ⟨halone.clients, halone.timer, halone.timerThread⟩ hfile hlist
      (by simp [hsocket'])
  | socket =>
    cases ok <;> cases h
    · exact .ending rfl rfl ⟨halone.clients, halone.timer, halone.timerThread⟩ hfile.2 hlist
    · exact .starting rfl rfl ⟨halone.clients, halone.timer, halone.timerThread⟩ hfile hlist
        fun _ => rfl
  | setsockopt | bind =>
    cases ok <;> cases h
    · cases hclean rfl
    · exact of_starting halone hfile hlist rfl fun _ => hsocket rfl
  | listen =>
    cases ok <;> cases h
    · cases hclean rfl
    · exact afterSetup_elim (P := fun q => Stage { s with stack := [q] })
        (of_starting halone hfile hlist rfl nofun) (of_starting halone hfile hlist rfl nofun)
        (of_loop hfile hlist)
  | daemon =>
    cases ok <;> cases h
    · exact of_ending halone hfile.2 hlist rfl
    · exact afterDaemon_elim (P := fun q => Stage { s with stack := [q] })
        (of_starting halone hfile hlist rfl nofun) (of_loop hfile hlist)
  | timerCreate =>
    cases ok <;> cases h
    · exact of_ending halone hfile.2 hlist rfl
    · exact .serving (List.forall_mem_singleton.mpr rfl) hfile hlist
  | _ => cases hp

/-- A step of the accept loop. -/
theorem serves (hp : Process.serving p = true) (hrest : ∀ q ∈ rest, Process.serving q = true)
    (hkeep : s.keepRunning = true) (hfile : s.fileMutex.Usable) (hlist : s.listMutex.Usable)
    (h : mainStep b daemonMode s ok rest p = some s') : Stage s' := by
  have next : ∀ q, Process.serving q = true → ∀ r ∈ q :: rest, Process.serving r = true :=
    fun q hq => List.forall_mem_cons.mpr ⟨hq, hrest⟩
  cases p with
  | loop =>
    simp only [mainStep, hkeep, if_true] at h
    cases h
    exact .serving (next .accept rfl) hfile hlist
  | accept | mallocData =>
    cases ok <;> cases h
    · exact .serving (next .loop rfl) hfile hlist
    · exact .serving (next _ rfl) hfile hlist
  | create =>
    cases ok <;> cases h
    exact .serving (next .loop rfl) hfile hlist
  | removeLock =>
    obtain ⟨m, hm, rfl⟩ := Option.map_eq_some_iff.mp h
    exact .serving (next (.removeLoop 0) rfl) hfile ((MutexState.used_lock hm).usable hlist)
  | removeLoop i =>
    simp only [mainStep] at h
    repeat' split at h
    all_goals
      cases h
      exact .serving (next _ rfl) hfile hlist
  | removeJoin t i =>
    simp only [mainStep, Option.ite_none_right_eq_some, Option.some.injEq] at h
    obtain ⟨-, rfl⟩ := h
    exact .serving (next (.removeLoop i) rfl) hfile hlist
  | removeUnlock =>
    cases h
    exact .serving hrest hfile ((MutexState.used_unlock _).usable hlist)
  | _ => cases hp

/-- A step of `cleanup_on_signal`. -/
theorem ends (hp : Process.ending p = true) (halone : s.Alone)
    (hfile : s.fileMutex.misused = false) (hlist : s.listMutex.Usable)
    (h : mainStep b daemonMode s ok [.ret] p = some s') : Stage s' := by
  have halone' : ∀ {f : Process τ}, f.clients = s.clients → f.timer = s.timer →
      f.timerThread = s.timerThread → f.Alone :=
    fun h1 h2 h3 => ⟨h1 ▸ halone.clients, h2 ▸ halone.timer, h3 ▸ halone.timerThread⟩
  cases p with
  | cleanup =>
    simp only [mainStep] at h
    split at h
    · rename_i htimer
      rw [halone.timerThread] at htimer
      cases htimer
    · cases h
      exact of_ending halone hfile hlist rfl
  | closeServer =>
    cases h
    exact .ending rfl rfl (halone' rfl rfl rfl) hfile hlist
  | cleanLock =>
    obtain ⟨m, hm, rfl⟩ := Option.map_eq_some_iff.mp h
    exact .ending rfl rfl (halone' rfl rfl rfl) hfile ((MutexState.used_lock hm).usable hlist)
  | cleanLoop =>
    simp only [mainStep] at h
    split at h
    all_goals
      cases h
      exact .ending rfl rfl (halone' rfl rfl rfl) hfile hlist
  | cleanJoin t =>
    simp only [mainStep, Option.ite_none_right_eq_some, Option.some.injEq] at h
    obtain ⟨-, rfl⟩ := h
    exact of_ending halone hfile hlist rfl
  | cleanUnlock =>
    cases h
    exact .ending rfl rfl (halone' rfl rfl rfl) hfile ((MutexState.used_unlock _).usable hlist)
  | destroyFile =>
    cases h
    exact .ending rfl rfl (halone' rfl rfl rfl) hfile hlist
  | destroyList =>
    cases h
    exact .ended (List.forall_mem_singleton.mpr rfl) (halone' rfl rfl rfl) hfile hlist.2
  | _ => cases hp

theorem mainStep (hs : Stage s) (hkeep : s.keepRunning = true) (hstack : s.stack = p :: rest)
    (hclean : ok = false → settingUp p = false)
    (h : Process.mainStep b daemonMode s ok rest p = some s') : Stage s' := by
  cases hs with
  | starting hstack' hp halone hfile hlist hsocket =>
    obtain ⟨rfl, rfl⟩ := List.cons.inj (hstack.symm.trans hstack')
    exact starts hp hclean halone hfile hlist hsocket h
  | serving hstack' hfile hlist =>
    rw [hstack, List.forall_mem_cons] at hstack'
    exact serves hstack'.1 hstack'.2 hkeep hfile hlist h
  | ending hstack' hp halone hfile hlist =>
    obtain ⟨rfl, rfl⟩ := List.cons.inj (hstack.symm.trans hstack')
    exact ends hp halone hfile hlist h
  | ended hstack' halone hfile hlist =>
    rw [hstack, List.forall_mem_cons] at hstack'
    obtain ⟨rfl, hrest⟩ := hstack'
    cases h
    exact .ended hrest ⟨halone.clients, halone.timer, halone.timerThread⟩ hfile hlist

/-- The stage of the place on top of the stack. -/
theorem top_cases (hs : Stage s) (hstack : s.stack = p :: rest) :
    (Process.starting p = true ∧ rest = [] ∧
      (Process.settingUp p = true → s.serverSocket = true)) ∨
    (Process.serving p = true ∧ (∀ q ∈ rest, Process.serving q = true) ∧ s.fileMutex.Usable ∧
      s.listMutex.Usable) ∨
    Process.ending p = true ∨ p = .ret := by
  cases hs with
  | starting hstack' hp _ _ _ hsocket =>
    obtain ⟨rfl, rfl⟩ := List.cons.inj (hstack.symm.trans hstack')
    exact .inl ⟨hp, rfl, hsocket⟩
  | serving hstack' hfile hlist =>
    rw [hstack, List.forall_mem_cons] at hstack'
    exact .inr (.inl ⟨hstack'.1, hstack'.2, hfile, hlist⟩)
  | ending hstack' hp =>
    obtain ⟨rfl, -⟩ := List.cons.inj (hstack.symm.trans hstack')
    exact .inr (.inr (.inl hp))
  | ended hstack' =>
    rw [hstack, List.forall_mem_cons] at hstack'
    exact .inr (.inr (.inr hstack'.1))

/-- The signal handler does not run. -/
theorem ne_handler (hs : Stage s) (hstack : s.stack = p :: rest) (sig : Signal) :
    p ≠ .handler sig := by
  rintro rfl
  rcases hs.top_cases hstack with ⟨hp, -⟩ | ⟨hp, -⟩ | hp | hp <;> cases hp

/-- `setup_server_socket` runs at the start, with the socket that it made. -/
theorem settingUp (hs : Stage s) (hstack : s.stack = p :: rest) (hp : Process.settingUp p = true) :
    rest = [] ∧ s.serverSocket = true := by
  cases p with
  | setsockopt | bind | listen =>
    rcases hs.top_cases hstack with ⟨-, hrest, hsocket⟩ | ⟨hp', -⟩ | hp' | hp'
    · exact ⟨hrest, hsocket rfl⟩
    all_goals cases hp'
  | _ => cases hp

end Stage

/-! ## The other threads -/

/-- A step of a client thread or the timer thread releases nothing. -/
structure Aside (s s' : Process τ) : Prop where
  notAlone : ¬ s.Alone
  stack : s'.stack = s.stack
  keepRunning : s'.keepRunning = s.keepRunning
  serverSocket : s'.serverSocket = s.serverSocket
  closes : s'.closes = s.closes
  timerJoins : s'.timerJoins = s.timerJoins
  file : s.fileMutex.Used s'.fileMutex
  list : s.listMutex.Used s'.listMutex

theorem aside_timer {pc : TimerPc} (ht : s.timer = some pc) (h : timerStep s ok pc = some s') :
    Aside s s' := by
  have notAlone : ¬ s.Alone := fun h => by
    rw [h.timer] at ht
    cases ht
  obtain ⟨m, pc', rfl, hm⟩ := timerStep_frame h
  have hused : s.fileMutex.Used m := by
    rcases hm with rfl | hm | rfl
    · exact .refl _
    · exact MutexState.used_lock hm
    · exact MutexState.used_unlock _
  exact ⟨notAlone, rfl, rfl, rfl, rfl, rfl, hused, .refl _⟩

theorem aside_cancelled (ht : s.timer ≠ none) : Aside s { s with timer := some .ended } :=
  ⟨fun h => ht h.timer, rfl, rfl, rfl, rfl, rfl, .refl _, .refl _⟩

variable [DecidableEq τ] {t : τ} {c c' : Client} {ev : Sys} {s₁ : Process τ}

theorem aside_client (hc : s.clients t = some c) (h : clientCall s t ev = some s₁) :
    Aside s { s₁ with clients := Function.update s₁.clients t (some c') } where
  notAlone h := by
    rw [h.clients t] at hc
    cases hc
  stack := by rw [clientCall_frame h]
  keepRunning := by rw [clientCall_frame h]
  serverSocket := by rw [clientCall_frame h]
  closes := by rw [clientCall_frame h]
  timerJoins := by rw [clientCall_frame h]
  file := by
    rcases clientCall_fileMutex h with ⟨ok, -, hm⟩ | ⟨-, hm⟩ | ⟨-, -, hm⟩
    · exact MutexState.used_lock hm
    · exact hm ▸ MutexState.used_unlock _
    · exact hm ▸ .refl _
  list := by
    rcases clientCall_listMutex h with ⟨ok, -, hm⟩ | ⟨-, hm⟩ | ⟨-, -, hm⟩
    · exact MutexState.used_lock hm
    · exact hm ▸ MutexState.used_unlock _
    · exact hm ▸ .refl _

/-- A step of a client thread or the timer thread. -/
def ofOther : Action τ → Bool
  | .client _ _ | .timer _ | .cancelled => true
  | _ => false

theorem next_aside {daemonMode : Bool} {a : Action τ} (ha : ofOther a = true)
    (h : (lts b daemonMode).next s a = some s') : Aside s s' := by
  cases a with
  | client t ev =>
    obtain ⟨-, c, c', s₁, hc, -, hcall, rfl⟩ := next_client h
    exact aside_client hc hcall
  | timer ok =>
    obtain ⟨-, pc, ht, hstep⟩ := next_timer h
    exact aside_timer ht hstep
  | cancelled =>
    obtain ⟨ht, rfl⟩ := next_cancelled h
    exact aside_cancelled ht
  | _ => cases ha

/-! ## Runs without a signal or a failed setup -/

/-- The releases made and to come, in a run without a signal or a failed setup. -/
structure Orderly (s : Process τ) : Prop where
  keepRunning : s.keepRunning = true
  stage : Stage s
  closes : s.closes + pending closesSocket s.stack ≤ 1
  timerJoins : s.timerJoins + pending joinsTimer s.stack ≤ 1
  fileDestroys : s.fileMutex.destroys + pending destroysFile s.stack ≤ 1
  listDestroys : s.listMutex.destroys + pending destroysList s.stack ≤ 1

namespace Orderly

omit [DecidableEq τ]

theorem releasedOnce (ho : Orderly s) : s.ReleasedOnce where
  closes := (Nat.le_add_right _ _).trans ho.closes
  timerJoins := (Nat.le_add_right _ _).trans ho.timerJoins
  fileDestroys := (Nat.le_add_right _ _).trans ho.fileDestroys
  listDestroys := (Nat.le_add_right _ _).trans ho.listDestroys
  fileMisused := ho.stage.misused.1
  listMisused := ho.stage.misused.2

theorem init : Orderly (Process.init τ) where
  keepRunning := rfl
  stage := .starting rfl rfl ⟨fun _ => rfl, rfl, rfl⟩ ⟨rfl, rfl⟩ ⟨rfl, rfl⟩ nofun
  closes := le_rfl
  timerJoins := le_rfl
  fileDestroys := le_rfl
  listDestroys := le_rfl

theorem aside (ho : Orderly s) (h : Aside s s') : Orderly s' where
  keepRunning := h.keepRunning.trans ho.keepRunning
  stage := by
    obtain ⟨hstack, hfile, hlist⟩ := ho.stage.serving_of_not_alone h.notAlone
    exact .serving (by rwa [h.stack]) (h.file.usable hfile) (h.list.usable hlist)
  closes := by
    rw [h.closes, h.stack]
    exact ho.closes
  timerJoins := by
    rw [h.timerJoins, h.stack]
    exact ho.timerJoins
  fileDestroys := by
    rw [h.file.destroys, h.stack]
    exact ho.fileDestroys
  listDestroys := by
    rw [h.list.destroys, h.stack]
    exact ho.listDestroys

theorem main (ho : Orderly s) (hstack : s.stack = p :: rest)
    (hclean : ok = false → settingUp p = false)
    (h : mainStep b daemonMode s ok rest p = some s') : Orderly s' := by
  obtain ⟨hlist, hfile, htimer⟩ := mainStep_releases h
  have hcloses := (mainStep_closes h).1 hclean
  rw [← hstack] at hlist hfile htimer hcloses
  exact {
    keepRunning := (mainStep_keepRunning (ho.stage.ne_handler hstack) h).trans ho.keepRunning
    stage := ho.stage.mainStep ho.keepRunning hstack hclean h
    closes := hcloses.trans ho.closes
    timerJoins := htimer.trans ho.timerJoins
    fileDestroys := hfile.trans_le ho.fileDestroys
    listDestroys := hlist.trans_le ho.listDestroys }

variable [DecidableEq τ]

theorem created (ho : Orderly s) (hstack : s.stack = .create :: rest) :
    Orderly { s with
      clients := Function.update s.clients t (some .start), stack := .removeLock :: .loop :: rest } := by
  obtain ⟨hrest, hfile, hlist⟩ : (∀ p ∈ rest, serving p = true) ∧ s.fileMutex.Usable ∧
      s.listMutex.Usable := by
    rcases ho.stage.top_cases hstack with ⟨hp, -⟩ | ⟨-, h⟩ | hp | hp
    · cases hp
    · exact h
    · cases hp
    · cases hp
  have hcloses := ho.closes
  have htimer := ho.timerJoins
  have hfileDestroys := ho.fileDestroys
  have hlistDestroys := ho.listDestroys
  rw [hstack, ← pending_created rfl rfl] at hcloses htimer hfileDestroys hlistDestroys
  exact {
    keepRunning := ho.keepRunning
    stage := .serving (List.forall_mem_cons.mpr ⟨rfl, List.forall_mem_cons.mpr ⟨rfl, hrest⟩⟩) hfile
      hlist
    closes := hcloses
    timerJoins := htimer
    fileDestroys := hfileDestroys
    listDestroys := hlistDestroys }

theorem next {a : Action τ} (ho : Orderly s) (ha : s.Clean a)
    (h : (lts b daemonMode).next s a = some s') : Orderly s' := by
  cases a with
  | main ok =>
    obtain ⟨p, rest, hstack, hstep⟩ := next_main h
    exact ho.main hstack (fun hok => ha hok p (by rw [hstack]; rfl)) hstep
  | created t =>
    obtain ⟨rest, hstack, -, rfl⟩ := next_created h
    exact ho.created hstack
  | client | timer | cancelled => exact ho.aside (next_aside rfl h)
  | signal sig => exact absurd ha id

end Orderly

/-! ## Runs with a signal -/

/-- The signals of a trace. -/
def signals (tr : List (Action τ)) : Nat :=
  (tr.filter fun | .signal _ => true | _ => false).length

variable {a : Action τ} {tr : List (Action τ)}

/-- A signal brings one more destruction of `thread_list_mutex`. -/
theorem next_listDestroys (h : (lts b daemonMode).next s a = some s') :
    s'.listMutex.destroys + pending destroysList s'.stack =
      s.listMutex.destroys + pending destroysList s.stack + signals [a] := by
  have aside : Aside s s' → s'.listMutex.destroys + pending destroysList s'.stack =
      s.listMutex.destroys + pending destroysList s.stack := fun h => by
    rw [h.list.destroys, h.stack]
  cases a with
  | main ok =>
    obtain ⟨p, rest, hstack, hstep⟩ := next_main h
    rw [hstack]
    exact (mainStep_releases hstep).1
  | created t =>
    obtain ⟨rest, hstack, -, rfl⟩ := next_created h
    rw [hstack, ← pending_created rfl rfl]
    rfl
  | client | timer | cancelled => exact aside (next_aside rfl h)
  | signal sig =>
    obtain ⟨-, rfl⟩ := next_signal h
    simp [signals, destroysList]
    omega

/-- Every signal and the return of `main` destroy `thread_list_mutex`. -/
theorem run_listDestroys (hrun : (lts b daemonMode).run (init τ) tr = some s) :
    s.listMutex.destroys + pending destroysList s.stack = 1 + signals tr := by
  refine Lts.run_history (I := fun tr s =>
    s.listMutex.destroys + pending destroysList s.stack = 1 + signals tr) rfl ?_ hrun
  intro tr m a m' _ ih h
  rw [next_listDestroys h, ih, signals, signals, signals, List.filter_append, List.length_append]
  omega

/-! ## Runs with a failed setup -/

/-- The main thread has called `socket`. -/
def afterSocket : Place τ → Bool
  | .sigaction _ | .socket => false
  | _ => true

/-- The server socket was closed twice, or will be. -/
structure Overdue (s : Process τ) : Prop where
  serverSocket : s.serverSocket = true
  stack : ∀ p ∈ s.stack, afterSocket p = true
  closes : 2 ≤ s.closes + pending closesSocket s.stack

omit [DecidableEq τ] in
theorem mainStep_afterSocket (hp : afterSocket p = true)
    (h : mainStep b daemonMode s ok rest p = some s') (hrest : ∀ q ∈ rest, afterSocket q = true) :
    s'.serverSocket = s.serverSocket ∧ ∀ q ∈ s'.stack, afterSocket q = true := by
  have next : ∀ q, afterSocket q = true → ∀ r ∈ q :: rest, afterSocket r = true :=
    fun q hq => List.forall_mem_cons.mpr ⟨hq, hrest⟩
  have next₂ : ∀ q r, afterSocket q = true → afterSocket r = true →
      ∀ u ∈ q :: r :: rest, afterSocket u = true :=
    fun q r hq hr => List.forall_mem_cons.mpr ⟨hq, next r hr⟩
  cases p with
  | sigaction | socket => cases hp
  | removeLock | cleanLock =>
    obtain ⟨m, -, rfl⟩ := Option.map_eq_some_iff.mp h
    exact ⟨rfl, next _ rfl⟩
  | listen =>
    cases ok <;> cases h
    · exact ⟨rfl, next .setupClose rfl⟩
    · exact ⟨rfl, next _ (afterSetup_elim (P := (afterSocket · = true)) rfl rfl rfl)⟩
  | daemon =>
    cases ok <;> cases h
    · exact ⟨rfl, next₂ .cleanup .ret rfl rfl⟩
    · exact ⟨rfl, next _ (afterDaemon_elim (P := (afterSocket · = true)) rfl rfl)⟩
  | _ =>
    simp only [mainStep] at h
    repeat' split at h
    all_goals cases h
    all_goals first
      | exact ⟨rfl, hrest⟩
      | exact ⟨rfl, next _ rfl⟩
      | exact ⟨rfl, next₂ _ _ rfl rfl⟩

theorem Overdue.next (ho : Overdue s) (h : (lts b daemonMode).next s a = some s') : Overdue s' := by
  have aside : Aside s s' → Overdue s' := fun h => {
    serverSocket := h.serverSocket.trans ho.serverSocket
    stack := by
      rw [h.stack]
      exact ho.stack
    closes := by
      rw [h.closes, h.stack]
      exact ho.closes }
  have hall := ho.stack
  have hcloses := ho.closes
  cases a with
  | main ok =>
    obtain ⟨p, rest, hstack, hstep⟩ := next_main h
    rw [hstack, List.forall_mem_cons] at hall
    rw [hstack] at hcloses
    obtain ⟨hsocket, hall'⟩ := mainStep_afterSocket hall.1 hstep hall.2
    refine ⟨hsocket.trans ho.serverSocket, hall', hcloses.trans ?_⟩
    apply (mainStep_closes hstep).2 ho.serverSocket
    rintro rfl
    cases hall.1
  | created t =>
    obtain ⟨rest, hstack, -, rfl⟩ := next_created h
    rw [hstack, List.forall_mem_cons] at hall
    rw [hstack, ← pending_created rfl rfl] at hcloses
    exact ⟨ho.serverSocket,
      List.forall_mem_cons.mpr ⟨rfl, List.forall_mem_cons.mpr ⟨rfl, hall.2⟩⟩, hcloses⟩
  | client | timer | cancelled => exact aside (next_aside rfl h)
  | signal sig =>
    obtain ⟨-, rfl⟩ := next_signal h
    refine ⟨ho.serverSocket, List.forall_mem_cons.mpr ⟨rfl, hall⟩, hcloses.trans ?_⟩
    simp [closesSocket]

/-- A setup that fails after `socket` leads to it. -/
theorem Orderly.overdue (ho : Orderly s) (hp : settingUp p = true) (hstack : s.stack = p :: rest)
    (h : (lts b daemonMode).next s (.main false) = some s') : Overdue s' := by
  obtain ⟨p', rest', hstack', hstep⟩ := next_main h
  obtain ⟨rfl, rfl⟩ := List.cons.inj (hstack.symm.trans hstack')
  obtain ⟨rfl, hsocket⟩ := ho.stage.settingUp hstack hp
  cases p with
  | setsockopt | bind | listen =>
    cases hstep
    exact ⟨hsocket, List.forall_mem_singleton.mpr rfl, by simp [closesSocket]⟩
  | _ => cases hp

/-- Without a signal and a failed setup every run releases everything once at most, and up to the
return of `main` only such runs do. -/
theorem releasedOnce_iff (hrun : (lts b daemonMode).run (init τ) tr = some s) :
    ((lts b daemonMode).Along Clean (init τ) tr → s.ReleasedOnce) ∧
      (s.stack = [] → s.ReleasedOnce → (lts b daemonMode).Along Clean (init τ) tr) := by
  have horderly : ∀ {tr : List (Action τ)} {s}, (lts b daemonMode).run (init τ) tr = some s →
      (lts b daemonMode).Along Clean (init τ) tr → Orderly s := fun hrun hclean =>
    Lts.run_invariant_of (fun _ _ _ ho ha h => ho.next ha h) Orderly.init hclean hrun
  refine ⟨fun hclean => (horderly hrun hclean).releasedOnce, fun hend hs => ?_⟩
  apply (Lts.along_or_first hrun).resolve_right
  rintro ⟨u, a, v, m, rfl, hu, hclean, ha⟩
  have hm := horderly hu hclean
  obtain ⟨m', hm', hv⟩ := Lts.run_cons_eq_some.mp
    ((Lts.run_append_eq_some.mp hrun).elim fun r hr => by
      rw [hu] at hr
      obtain ⟨h, hr⟩ := hr
      cases h
      exact hr)
  cases a with
  | main ok =>
    -- the setup fails: the descriptor is closed twice in the end
    simp only [Clean, not_forall] at ha
    obtain ⟨rfl, p, hp, hsetting⟩ := ha
    rw [Bool.not_eq_false] at hsetting
    obtain ⟨rest, hstack⟩ := List.head?_eq_some_iff.mp hp
    have hoverdue : Overdue s := Lts.run_invariant (fun _ _ _ ho h => ho.next h)
      (hm.overdue hsetting hstack hm') hv
    have := hoverdue.closes
    rw [hend, pending_nil] at this
    exact absurd hs.closes (by omega)
  | signal sig =>
    -- the handler and the return of `main` both destroy the mutexes
    have := run_listDestroys hrun
    rw [hend, pending_nil, signals, List.filter_append, List.length_append,
      List.filter_cons_of_pos rfl, List.length_cons] at this
    exact absurd hs.listDestroys (by omega)
  | _ => exact ha trivial

instance (s : Process τ) (a : Action τ) : Decidable (s.Clean a) :=
  match a with
  | .signal _ => inferInstanceAs (Decidable False)
  | .main ok => inferInstanceAs (Decidable (ok = false → ∀ p ∈ s.stack.head?, settingUp p = false))
  | .created _ | .client _ _ | .timer _ | .cancelled => inferInstanceAs (Decidable True)

/-! Runs of the device build. -/

/-- `main` up to `accept`. -/
def start : List (Action Nat) := List.replicate 7 (.main true)

/-- `cleanup_on_signal` with no thread listed; `ok` is the lock of `thread_list_mutex`. -/
def cleanupRun (ok : Bool) : List (Action Nat) :=
  .main true :: .main true :: .main ok :: List.replicate 4 (.main true)

/-- `daemon` fails. -/
theorem releasedOnce_iff_daemon :
    ∃ s, (lts .charDevice true).run (init Nat)
        (List.replicate 6 (.main true) ++ .main false :: cleanupRun true ++ [.main true]) = some s ∧
      s.ReleasedOnce := by
  obtain ⟨s, hs⟩ : ∃ s, (lts .charDevice true).run (init Nat)
      (List.replicate 6 (.main true) ++ .main false :: cleanupRun true ++ [.main true]) = some s :=
    Option.isSome_iff_exists.mp (by decide)
  exact ⟨s, hs, (releasedOnce_iff hs).1 (by decide)⟩

/-- `setsockopt` fails, and the descriptor is closed twice. And `SIGINT` comes in `accept` of an idle
server: after the handler, `main` closes the descriptor and destroys the mutexes again. -/
theorem not_releasedOnce :
    (∃ s, (lts .charDevice false).run (init Nat)
        (List.replicate 3 (.main true) ++ .main false :: .main true :: cleanupRun true) = some s ∧
      2 ≤ s.closes ∧ ¬ s.ReleasedOnce) ∧
    ∃ s, (lts .charDevice false).run (init Nat)
        (start ++ .signal .int :: .main true :: cleanupRun true ++
          [.main true, .main false, .main true] ++ cleanupRun false ++ [.main true]) = some s ∧
      2 ≤ s.closes ∧ 2 ≤ s.listMutex.destroys ∧ s.listMutex.misused = true ∧ ¬ s.ReleasedOnce := by
  constructor
  · refine ⟨Option.get _ (by decide), (Option.some_get _).symm, by decide, fun h => ?_⟩
    exact absurd h.closes (by decide)
  · refine ⟨Option.get _ (by decide), (Option.some_get _).symm, by decide, by decide, by decide,
      fun h => ?_⟩
    exact absurd h.closes (by decide)

end Process

end Aesd
