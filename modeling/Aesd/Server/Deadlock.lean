import Aesd.Server.Process

/-!
# Shutdown and `thread_list_mutex`

`cleanup_thread_list` joins the listed threads while it holds `thread_list_mutex`, which each of them
takes once more to mark its node. `remove_completed_threads` does the same, but only with threads
that have marked theirs. `LockInv` is what keeps the main thread from waiting for itself: it holds as
long as no signal comes while the main thread holds the mutex, and `cleanup_thread_list` takes it
only when every listed thread is marked (`Allowed`). `shutdown_not_stuck` is the result for all runs.
-/

namespace Aesd

/-- Between `pthread_mutex_lock(&thread_list_mutex)` and the unlock. -/
def Pc.holdsList : Pc → Bool
  | .addLink | .addUnlock | .mark | .markUnlock => true
  | _ => false

namespace Client

/-- The thread still has to take the mutex, or may have to. -/
def takes (c : Client) : Mutex → Bool
  | .list =>
    match c.pc with
    | .addMalloc | .addLock | .addLink | .addUnlock => true
    | .mark | .markUnlock | .exited => false
    | _ => c.node
  | .file =>
    match c.pc with
    | .freeBuffer | .closeSocket | .freeData | .markLock | .mark | .markUnlock | .exited => false
    | _ => true

variable {b : Build} {node : Bool} {pc pc' : Pc} {ev : Sys}

/-- Only the calls on `thread_list_mutex` begin and end its critical sections, and only in them the
list changes. -/
theorem Step.holdsList (h : Step b node pc ev pc') :
    (∃ ok, ev = .lock .list ok ∧ pc.holdsList = false ∧ pc'.holdsList = true) ∨
      (ev = .unlock .list ∧ pc.holdsList = true ∧ pc'.holdsList = false) ∨
      ((∀ ok, ev ≠ .lock .list ok) ∧ ev ≠ .unlock .list ∧ pc'.holdsList = pc.holdsList ∧
        (ev = .link ∨ ev = .mark → pc.holdsList = true)) := by
  cases h with
  | recv => exact .inr (.inr ⟨by simp, by simp, dispatch_elim
      (P := fun pc => pc.holdsList = false) rfl (fun _ => rfl) rfl, by simp⟩)
  | write => exact .inr (.inr ⟨by simp, by simp, afterWriteAll_elim
      (P := fun pc => pc.holdsList = false) _ (fun _ => rfl) rfl rfl (fun _ => rfl), by simp⟩)
  | read => exact .inr (.inr ⟨by simp, by simp, afterRead_elim
      (P := fun pc => pc.holdsList = false) _ rfl (fun _ => rfl), by simp⟩)
  | send => exact .inr (.inr ⟨by simp, by simp, afterSendAll_elim
      (P := fun pc => pc.holdsList = false) _ _ (fun _ => rfl) rfl rfl, by simp⟩)
  | addLock ok => exact .inl ⟨ok, rfl, rfl, rfl⟩
  | markLock ok => exact .inl ⟨ok, rfl, rfl, rfl⟩
  | addUnlock => exact .inr (.inl ⟨rfl, rfl, rfl⟩)
  | markUnlock => exact .inr (.inl ⟨rfl, rfl, rfl⟩)
  | @unlock after => cases after <;> exact .inr (.inr ⟨by simp, by simp, rfl, by simp⟩)
  | _ => exact .inr (.inr ⟨by simp, by simp, rfl, by simp [Pc.holdsList]⟩)

end Client

namespace Process

variable {τ : Type*}

def mutex (s : Process τ) : Mutex → MutexState τ
  | .file => s.fileMutex
  | .list => s.listMutex

/-- The thread that a place joins. -/
def joins : Place τ → Option τ
  | .removeJoin t _ | .cleanJoin t => some t
  | _ => none

/-- A thread waits for something that needs a mutex which it holds itself: it takes
`thread_list_mutex` again, or it joins a thread that still has to take the mutex; or it waits for
`thread_list_mutex` with a mutex in its hands. -/
inductive Stuck (s : Process τ) : Prop
  | lock {p : Place τ} {rest : List (Place τ)} (hstack : s.stack = p :: rest)
    (hp : p = .removeLock ∨ p = .cleanLock) {m : Mutex} (h : (s.mutex m).owner = some .main)
  | join {p : Place τ} {rest : List (Place τ)} {t : τ} {c : Client} (hstack : s.stack = p :: rest)
    (hp : joins p = some t) (hc : s.clients t = some c) {m : Mutex} (htakes : c.takes m = true)
    (h : (s.mutex m).owner = some .main)
  | client {t : τ} {c : Client} (hc : s.clients t = some c)
    (hpc : c.pc = .addLock ∨ c.pc = .markLock) {m : Mutex}
    (h : (s.mutex m).owner = some (.client t))

/-- The thread has marked its node. -/
def Marked (s : Process τ) (t : τ) : Prop :=
  ∃ c, s.clients t = some c ∧ (c.pc = .markUnlock ∨ c.pc = .exited)

/-- In a critical section of the main thread on `thread_list_mutex`. -/
def inside : Place τ → Bool
  | .removeLoop _ | .removeJoin _ _ | .removeUnlock | .cleanLoop | .cleanJoin _ | .cleanUnlock => true
  | _ => false

/-- What holds in such a critical section: what is joined is marked, and in `cleanup_thread_list` the
whole list is. -/
def InSection (s : Process τ) : Place τ → Prop
  | .removeLoop _ | .removeUnlock => True
  | .removeJoin t _ => s.Marked t
  | .cleanLoop | .cleanUnlock => ∀ n ∈ s.threadList, n.completed = true
  | .cleanJoin t => s.Marked t ∧ ∀ n ∈ s.threadList, n.completed = true
  | _ => False

/-- Who holds the mutexes. -/
structure LockInv (s : Process τ) : Prop where
  destroyed : s.listMutex.destroyed = true → s.listMutex.owner = none
  listClient : ∀ t, s.listMutex.owner = some (.client t) →
    ∃ c, s.clients t = some c ∧ c.pc.holdsList = true
  holdsList : ∀ t c, s.clients t = some c → c.pc.holdsList = true →
    s.listMutex.owner = some (.client t) ∨ s.listMutex.destroyed = true
  completed : ∀ n ∈ s.threadList, n.completed = true → s.Marked n.thread
  main : s.listMutex.owner = some .main → ∃ p rest, s.stack = p :: rest ∧ s.InSection p
  head : s.listMutex.destroyed = false → ∀ p ∈ s.stack.head?, inside p = true →
    s.listMutex.owner = some .main
  tail : s.listMutex.destroyed = false → ∀ p ∈ s.stack.tail, inside p = false
  fileClient : ∀ t, s.fileMutex.owner = some (.client t) →
    ∃ c, s.clients t = some c ∧ c.pc.holdsFile = true
  fileMain : s.fileMutex.owner ≠ some .main

/-- A signal may come when the main thread does not hold `thread_list_mutex`, and
`cleanup_thread_list` may take it when every listed thread has marked its node. -/
def Allowed (s : Process τ) : Action τ → Prop
  | .signal _ => s.listMutex.owner ≠ some .main
  | .main _ => s.stack.head? = some .cleanLock → s.listMutex.destroyed = false →
      ∀ n ∈ s.threadList, n.completed = true
  | _ => True

variable {b : Build} {daemonMode ok : Bool} {s s' : Process τ} {a : Action τ} {t : τ} {p q : Place τ}
  {rest : List (Place τ)}

theorem Marked.takes {c : Client} {m : Mutex} (h : s.Marked t) (hc : s.clients t = some c) :
    c.takes m = false := by
  obtain ⟨c', hc', hpc⟩ := h
  obtain rfl : c = c' := Option.some.inj (hc.symm.trans hc')
  rcases hpc with hpc | hpc <;> cases m <;> simp [Client.takes, hpc]

theorem InSection.inside (h : s.InSection p) : inside p = true := by
  cases p <;> first | rfl | exact absurd h id

theorem InSection.joins (h : s.InSection p) (hp : joins p = some t) : s.Marked t := by
  cases p with
  | removeJoin t' i =>
    cases hp
    exact h
  | cleanJoin t' =>
    cases hp
    exact h.1
  | _ => cases hp

/-- Other calls are outside the critical sections, and do not lead into one. -/
theorem not_inside_of_usesList (h : usesList p = false) : inside p = false := by
  cases p <;> first | rfl | cases h

theorem Goes.outside {new : List (Place τ)} (h : Goes p new) : ∀ q ∈ new, inside q = false := by
  cases h with
  | @main _ q _ _ hq =>
    rw [List.forall_mem_singleton]
    obtain ⟨hq, -⟩ := hq
    cases q <;> first | rfl | cases hq
  | _ => simp [inside]

namespace LockInv

/-- The main thread holds `thread_list_mutex` in its critical sections only. -/
theorem inSection (hi : LockInv s) (hstack : s.stack = p :: rest)
    (h : s.listMutex.owner = some .main) : s.InSection p := by
  obtain ⟨p', rest', hstack', hp⟩ := hi.main h
  rw [hstack] at hstack'
  obtain ⟨rfl, rfl⟩ := List.cons.inj hstack'
  exact hp

theorem not_stuck (hi : LockInv s) : ¬ Stuck s := by
  rintro (⟨hstack, hp, hm⟩ | ⟨hstack, hp, hc, htakes, hm⟩ | ⟨hc, hpc, hm⟩)
  · rename_i m
    cases m with
    | file => exact hi.fileMain hm
    | list =>
      have := (hi.inSection hstack hm).inside
      rcases hp with rfl | rfl <;> cases this
  · rename_i m
    cases m with
    | file => exact hi.fileMain hm
    | list =>
      rw [((hi.inSection hstack hm).joins hp).takes hc] at htakes
      cases htakes
  · rename_i t c m
    have hout : c.pc.holdsFile = false ∧ c.pc.holdsList = false := by
      rcases hpc with hpc | hpc <;> rw [hpc] <;> exact ⟨rfl, rfl⟩
    cases m with
    | file =>
      obtain ⟨c', hc', h⟩ := hi.fileClient t hm
      obtain rfl : c = c' := Option.some.inj (hc.symm.trans hc')
      rw [hout.1] at h
      cases h
    | list =>
      obtain ⟨c', hc', h⟩ := hi.listClient t hm
      obtain rfl : c = c' := Option.some.inj (hc.symm.trans hc')
      rw [hout.2] at h
      cases h

/-! ### The main thread -/

/-- A step outside the critical sections. -/
theorem outside (hi : LockInv s) (new : List (Place τ)) (hstack : s.stack = p :: rest)
    (hp : Process.inside p = false) (hclients : s'.clients = s.clients)
    (hfile : s'.fileMutex.owner = s.fileMutex.owner)
    (howner : s'.listMutex.owner = s.listMutex.owner)
    (hdes : s'.listMutex.destroyed = true → s.listMutex.destroyed = true ∨ s.listMutex.owner = none)
    (hmono : s.listMutex.destroyed = true → s'.listMutex.destroyed = true)
    (hlist : s'.threadList = s.threadList) (hstack' : s'.stack = new ++ rest)
    (hnew : ∀ q ∈ new, Process.inside q = false) : LockInv s' := by
  have hmain : s.listMutex.owner ≠ some .main := by
    intro h
    rw [(hi.inSection hstack h).inside] at hp
    cases hp
  have hall : s'.listMutex.destroyed = false → ∀ q ∈ s'.stack, Process.inside q = false := by
    intro hd q hq
    have hd' : s.listMutex.destroyed = false := by
      rw [← Bool.not_eq_true]
      intro h
      rw [hmono h] at hd
      cases hd
    rw [hstack', List.mem_append] at hq
    rcases hq with hq | hq
    · exact hnew q hq
    · exact hi.tail hd' q (by rw [hstack]; exact hq)
  exact {
    destroyed := fun hd => by
      rw [howner]
      exact (hdes hd).elim hi.destroyed id
    listClient := by
      rw [howner, hclients]
      exact hi.listClient
    holdsList := fun t c hc hpc => by
      rw [hclients] at hc
      rw [howner]
      exact (hi.holdsList t c hc hpc).imp_right hmono
    completed := fun n hn hc => by
      rw [hlist] at hn
      obtain ⟨c, h1, h2⟩ := hi.completed n hn hc
      exact ⟨c, by rw [hclients, h1], h2⟩
    main := fun h => absurd (howner ▸ h) hmain
    head := fun hd q hq h => by
      rw [hall hd q (List.mem_of_mem_head? hq)] at h
      cases h
    tail := fun hd q hq => hall hd q (List.mem_of_mem_tail hq)
    fileClient := by
      rw [hfile, hclients]
      exact hi.fileClient
    fileMain := by
      rw [hfile]
      exact hi.fileMain }

/-- A step inside a critical section. -/
theorem within (hi : LockInv s) (hstack : s.stack = p :: rest) (hp : Process.inside p = true)
    (hclients : s'.clients = s.clients) (hfile : s'.fileMutex = s.fileMutex)
    (hmutex : s'.listMutex = s.listMutex) (hlist : ∀ n ∈ s'.threadList, n ∈ s.threadList)
    (hstack' : s'.stack = q :: rest) (hq : s.InSection p → s'.InSection q) : LockInv s' where
  destroyed := by
    rw [hmutex]
    exact hi.destroyed
  listClient := by
    rw [hmutex, hclients]
    exact hi.listClient
  holdsList := by
    rw [hmutex, hclients]
    exact hi.holdsList
  completed n hn hc := by
    obtain ⟨c, h1, h2⟩ := hi.completed n (hlist n hn) hc
    exact ⟨c, by rw [hclients, h1], h2⟩
  main h := ⟨q, rest, hstack', hq (hi.inSection hstack (hmutex ▸ h))⟩
  head hd _ _ _ := by
    rw [hmutex] at hd ⊢
    exact hi.head hd p (by rw [hstack]; rfl) hp
  tail hd := by
    rw [hmutex] at hd
    rw [hstack']
    have := hi.tail hd
    rw [hstack] at this
    exact this
  fileClient := by
    rw [hfile, hclients]
    exact hi.fileClient
  fileMain := by
    rw [hfile]
    exact hi.fileMain

/-- The lock of a critical section. -/
theorem locked {m : MutexState τ} (hi : LockInv s) (hstack : s.stack = p :: rest)
    (hlock : s.listMutex.lock .main ok = some m)
    (hq : s.listMutex.destroyed = false →
      InSection { s with listMutex := m, stack := q :: rest } q) :
    LockInv { s with listMutex := m, stack := q :: rest } := by
  have htail := hi.tail
  rw [hstack] at htail
  rcases MutexState.lock_eq_some hlock with ⟨hd, -, rfl⟩ | ⟨hd, -, hfree, rfl⟩
  · -- the mutex is destroyed
    have hnone := hi.destroyed hd
    exact {
      destroyed := hi.destroyed
      listClient := hi.listClient
      holdsList := hi.holdsList
      completed := hi.completed
      main := fun h => by
        rw [show s.listMutex.owner = _ from h] at hnone
        cases hnone
      head := fun hd' => by
        rw [show s.listMutex.destroyed = _ from hd'] at hd
        cases hd
      tail := htail
      fileClient := hi.fileClient
      fileMain := hi.fileMain }
  · have hno : ∀ t c, s.clients t = some c → c.pc.holdsList ≠ true := by
      intro t c hc hpc
      rcases hi.holdsList t c hc hpc with h | h
      · rw [hfree] at h
        cases h
      · rw [hd] at h
        cases h
    exact {
      destroyed := fun h => by
        rw [show s.listMutex.destroyed = _ from h] at hd
        cases hd
      listClient := nofun
      holdsList := fun t c hc hpc => absurd hpc (hno t c hc)
      completed := hi.completed
      main := fun _ => ⟨q, rest, rfl, hq hd⟩
      head := fun _ _ _ _ => rfl
      tail := htail
      fileClient := hi.fileClient
      fileMain := hi.fileMain }

/-- The unlock of a critical section. -/
theorem unlocked (hi : LockInv s) (new : List (Place τ)) (hstack : s.stack = p :: rest)
    (hp : Process.inside p = true) (hnew : ∀ q ∈ new, Process.inside q = false) :
    LockInv { s with listMutex := s.listMutex.unlock, stack := new ++ rest } := by
  have hall : s.listMutex.destroyed = false → ∀ q ∈ new ++ rest, Process.inside q = false := by
    intro hd q hq
    rcases List.mem_append.mp hq with hq | hq
    · exact hnew q hq
    · exact hi.tail hd q (by rw [hstack]; exact hq)
  exact {
    destroyed := fun _ => rfl
    listClient := nofun
    holdsList := fun t c hc hpc => by
      rcases hi.holdsList t c hc hpc with h | h
      · refine .inr ?_
        show s.listMutex.destroyed = true
        rw [← Bool.not_eq_false]
        intro hd
        have := hi.head hd p (by rw [hstack]; rfl) hp
        rw [h] at this
        cases this
      · exact .inr h
    completed := hi.completed
    main := nofun
    head := fun hd q hq h => by
      rw [hall hd q (List.mem_of_mem_head? hq)] at h
      cases h
    tail := fun hd q hq => hall hd q (List.mem_of_mem_tail hq)
    fileClient := hi.fileClient
    fileMain := hi.fileMain }

/-- A step that has nothing to do with the list. -/
theorem aside (hi : LockInv s) (new : List (Place τ)) (hstack : s.stack = p :: rest)
    (hp : Process.inside p = false) (hclients : s'.clients = s.clients)
    (hfile : s'.fileMutex.owner = s.fileMutex.owner)
    (hmutex : s'.listMutex = s.listMutex) (hlist : s'.threadList = s.threadList)
    (hstack' : s'.stack = new ++ rest) (hnew : ∀ q ∈ new, Process.inside q = false) : LockInv s' :=
  hi.outside new hstack hp hclients hfile (by rw [hmutex]) (by rw [hmutex]; exact .inl)
    (by rw [hmutex]; exact id) hlist hstack' hnew

theorem mainStep (hi : LockInv s) (hstack : s.stack = p :: rest)
    (hclean : p = .cleanLock → s.listMutex.destroyed = false →
      ∀ n ∈ s.threadList, n.completed = true)
    (h : Process.mainStep b daemonMode s ok rest p = some s') : LockInv s' := by
  cases hp : usesList p with
  | false =>
    obtain ⟨new, hgoes, hstack', hkept⟩ := mainStep_goes hp h
    exact hi.aside new hstack (not_inside_of_usesList hp) hkept.clients hkept.fileOwner
      hkept.listMutex hkept.threadList hstack' hgoes.outside
  | true =>
    cases p with
    | removeLock =>
      obtain ⟨m, hm, rfl⟩ := Option.map_eq_some_iff.mp h
      exact hi.locked hstack hm fun _ => trivial
    | cleanLock =>
      obtain ⟨m, hm, rfl⟩ := Option.map_eq_some_iff.mp h
      exact hi.locked hstack hm (hclean rfl)
    | removeLoop i =>
      simp only [Process.mainStep] at h
      split at h
      · cases h
        exact hi.within hstack rfl rfl rfl rfl (fun _ => id) rfl fun _ => trivial
      · rename_i n hn
        split at h
        · rename_i hc
          cases h
          refine hi.within hstack rfl rfl rfl rfl (fun _ hm => List.mem_of_mem_eraseIdx hm) rfl
            fun _ => ?_
          exact hi.completed n (List.mem_of_getElem? hn) hc
        · cases h
          exact hi.within hstack rfl rfl rfl rfl (fun _ => id) rfl fun _ => trivial
    | removeJoin t i =>
      simp only [Process.mainStep, Option.ite_none_right_eq_some, Option.some.injEq] at h
      obtain ⟨-, rfl⟩ := h
      exact hi.within hstack rfl rfl rfl rfl (fun _ => id) rfl fun _ => trivial
    | removeUnlock =>
      cases h
      exact hi.unlocked [] hstack rfl (List.forall_mem_nil _)
    | cleanLoop =>
      simp only [Process.mainStep] at h
      split at h
      · cases h
        exact hi.within hstack rfl rfl rfl rfl (fun _ => id) rfl id
      · rename_i n l hl
        cases h
        refine hi.within hstack rfl rfl rfl rfl (fun m hm => by rw [hl]; exact List.mem_cons_of_mem _ hm)
          rfl fun hall => ?_
        have hall' : ∀ m ∈ n :: l, m.completed = true := hl ▸ hall
        exact ⟨hi.completed n (by rw [hl]; exact List.mem_cons_self) (hall' n List.mem_cons_self),
          fun m hm => hall' m (List.mem_cons_of_mem _ hm)⟩
    | cleanJoin t =>
      simp only [Process.mainStep, Option.ite_none_right_eq_some, Option.some.injEq] at h
      obtain ⟨-, rfl⟩ := h
      exact hi.within hstack rfl rfl rfl rfl (fun _ => id) rfl And.right
    | cleanUnlock =>
      cases h
      exact hi.unlocked [.destroyFile] hstack rfl (by simp [Process.inside])
    | destroyList =>
      cases h
      refine hi.outside [] hstack rfl rfl rfl rfl ?_ ?_ rfl rfl (List.forall_mem_nil _)
      · exact MutexState.destroy_destroyed.mp
      · exact fun h => MutexState.destroy_destroyed.mpr (.inl h)
    | _ => cases hp

/-! ### The other threads -/

theorem signal (hi : LockInv s) (hmain : s.listMutex.owner ≠ some .main) (sig : Signal) :
    LockInv { s with stack := .handler sig :: s.stack } where
  destroyed := hi.destroyed
  listClient := hi.listClient
  holdsList := hi.holdsList
  completed := hi.completed
  main h := absurd h hmain
  head _ p hp h := by
    cases hp
    cases h
  tail hd p hp := by
    have hhead := hi.head hd
    have htail := hi.tail hd
    cases hs : s.stack with
    | nil =>
      rw [List.tail_cons, hs] at hp
      cases hp
    | cons q rest =>
      rw [List.tail_cons, hs] at hp
      rw [hs] at hhead htail
      rcases List.mem_cons.mp hp with rfl | hp
      · rw [← Bool.not_eq_true]
        exact fun h => hmain (hhead p rfl h)
      · exact htail p hp
  fileClient := hi.fileClient
  fileMain := hi.fileMain

/-- The timer thread only uses `file_mutex`. -/
theorem timer {pc : TimerPc} (hi : LockInv s) (h : timerStep s ok pc = some s') : LockInv s' := by
  have hfile : ∀ m tm, (∀ u, m.owner = some (.client u) →
      ∃ c, s.clients u = some c ∧ c.pc.holdsFile = true) → m.owner ≠ some .main →
      LockInv { s with fileMutex := m, timer := tm } := fun m tm h1 h2 => ⟨hi.destroyed,
    hi.listClient, hi.holdsList, hi.completed, hi.main, hi.head, hi.tail, h1, h2⟩
  obtain ⟨m, pc', rfl, rfl | hm | rfl⟩ := timerStep_frame h
  · exact hfile _ _ hi.fileClient hi.fileMain
  · rcases MutexState.lock_eq_some hm with ⟨-, -, rfl⟩ | ⟨-, -, -, rfl⟩
    · exact hfile _ _ hi.fileClient hi.fileMain
    · exact hfile _ _ nofun nofun
  · exact hfile _ _ nofun nofun

variable [DecidableEq τ] {ev : Sys} {c c' : Client}

/-- A new thread holds nothing. -/
theorem created (hi : LockInv s) (hstack : s.stack = .create :: rest) (hnew : s.clients t = none) :
    LockInv { s with
      clients := Function.update s.clients t (some .start), stack := .removeLock :: .loop :: rest } := by
  have hne : ∀ u c, s.clients u = some c → Function.update s.clients t (some .start) u = some c := by
    intro u c hc
    rw [Function.update_of_ne, hc]
    rintro rfl
    rw [hnew] at hc
    cases hc
  have hmain : s.listMutex.owner ≠ some .main := fun h => hi.inSection hstack h
  have htail := hi.tail
  rw [hstack] at htail
  exact {
    destroyed := hi.destroyed
    listClient := fun u hu => by
      obtain ⟨c, h1, h2⟩ := hi.listClient u hu
      exact ⟨c, hne u c h1, h2⟩
    holdsList := fun u c hc hpc => by
      by_cases hu : u = t
      · subst hu
        simp only [Function.update_self] at hc
        cases hc
        cases hpc
      · simp only [Function.update_of_ne hu] at hc
        exact hi.holdsList u c hc hpc
    completed := fun n hn hc => by
      obtain ⟨c, h1, h2⟩ := hi.completed n hn hc
      exact ⟨c, hne _ c h1, h2⟩
    main := fun h => absurd h hmain
    head := fun _ p hp h => by
      cases hp
      cases h
    tail := fun hd p hp => by
      rcases List.mem_cons.mp hp with rfl | hp
      · rfl
      · exact htail hd p hp
    fileClient := fun u hu => by
      obtain ⟨c, h1, h2⟩ := hi.fileClient u hu
      exact ⟨c, hne u c h1, h2⟩
    fileMain := hi.fileMain }

/-- After a client's step, a thread is where it was, or it made the step. -/
theorem update_clients {f : τ → Option Client} {u : τ} {d : Client}
    (h : Function.update f t (some c') u = some d) : (u = t ∧ d = c') ∨ (u ≠ t ∧ f u = some d) := by
  by_cases hu : u = t
  · subst hu
    rw [Function.update_self] at h
    exact .inl ⟨rfl, (Option.some.inj h).symm⟩
  · rw [Function.update_of_ne hu] at h
    exact .inr ⟨hu, h⟩

/-- What holds of a thread still does, if the step keeps it. -/
theorem exists_update {f : τ → Option Client} {P : Client → Prop} {u : τ} (hc : f t = some c)
    (h : ∃ d, f u = some d ∧ P d) (hP : u = t → P c → P c') :
    ∃ d, Function.update f t (some c') u = some d ∧ P d := by
  obtain ⟨d, hd, hpd⟩ := h
  by_cases hu : u = t
  · subst hu
    obtain rfl : c = d := Option.some.inj (hc.symm.trans hd)
    exact ⟨c', Function.update_self _ _ _, hP rfl hpd⟩
  · exact ⟨d, by rw [Function.update_of_ne hu, hd], hpd⟩

/-- A marked thread stays marked. -/
theorem marked_client {f : Process τ} {u : τ} (h : s.Marked u) (hc : s.clients t = some c)
    (hstep : Client.Step b c.node c.pc ev c'.pc)
    (hf : f.clients = Function.update s.clients t (some c')) : f.Marked u := by
  unfold Marked
  rw [hf]
  refine exists_update hc h fun _ hpc => .inr ?_
  rcases hpc with hpc | hpc <;> rw [hpc] at hstep
  · generalize c'.pc = pc' at hstep
    cases hstep with
    | markUnlock => rfl
  · cases hstep

/-- What a client's call, from `c` to `c'`, does to `thread_list_mutex` and the list. -/
inductive ListCall (s s₁ : Process τ) (t : τ) (c c' : Client) : Prop
  | lock (hd : s.listMutex.destroyed = false) (hfree : s.listMutex.owner = none)
    (hpc' : c'.pc.holdsList = true)
    (hm : s₁.listMutex = { s.listMutex with owner := some (.client t) })
    (hl : s₁.threadList = s.threadList)
  | lockFails (hd : s.listMutex.destroyed = true)
    (hm : s₁.listMutex = { s.listMutex with misused := true }) (hl : s₁.threadList = s.threadList)
  | unlock (hpc : c.pc.holdsList = true) (hpc' : c'.pc.holdsList = false)
    (hm : s₁.listMutex = s.listMutex.unlock) (hl : s₁.threadList = s.threadList)
  | link (hpc : c.pc.holdsList = true) (hpc' : c'.pc.holdsList = true)
    (hm : s₁.listMutex = s.listMutex) (hl : s₁.threadList = ⟨t, false⟩ :: s.threadList)
  | mark (hpc : c.pc.holdsList = true) (hpc' : c'.pc = .markUnlock)
    (hm : s₁.listMutex = s.listMutex)
    (hl : s₁.threadList =
      s.threadList.map fun n => if n.thread = t then { n with completed := true } else n)
  | other (hpc : c'.pc.holdsList = c.pc.holdsList) (hm : s₁.listMutex = s.listMutex)
    (hl : s₁.threadList = s.threadList)

theorem listCall {s₁ : Process τ} (hstep : Client.Step b c.node c.pc ev c'.pc)
    (hcall : clientCall s t ev = some s₁) : ListCall s s₁ t c c' := by
  have hL := clientCall_listMutex hcall
  have hT := clientCall_threadList hcall
  rcases hstep.holdsList with ⟨ok, rfl, hpc, hpc'⟩ | ⟨rfl, hpc, hpc'⟩ | ⟨h1, h2, hpc, hlist⟩
  · obtain ⟨ok', hev, hlock⟩ := hL.resolve_right (by simp)
    obtain ⟨-, -, hl⟩ := (hT.resolve_left (by simp)).resolve_left (by simp)
    rcases MutexState.lock_eq_some hlock with ⟨hd, -, hm⟩ | ⟨hd, -, hfree, hm⟩
    · exact .lockFails hd hm hl
    · exact .lock hd hfree hpc' hm hl
  · obtain ⟨-, hm⟩ := (hL.resolve_left (by simp)).resolve_right (by simp)
    obtain ⟨-, -, hl⟩ := (hT.resolve_left (by simp)).resolve_left (by simp)
    exact .unlock hpc hpc' hm hl
  · obtain ⟨-, -, hm⟩ := (hL.resolve_left (by simp [h1])).resolve_left (by simp [h2])
    rcases hT with ⟨rfl, hl⟩ | ⟨rfl, hl⟩ | ⟨-, -, hl⟩
    · exact .link (hlist (.inl rfl)) (hpc.trans (hlist (.inl rfl))) hm hl
    · refine .mark (hlist (.inr rfl)) ?_ hm hl
      generalize c.pc = pc at hstep
      generalize c'.pc = pc' at hstep ⊢
      cases hstep with
      | mark => rfl
    · exact .other hpc hm hl

theorem ListCall.destroyed {s₁ : Process τ} (h : ListCall s s₁ t c c') :
    s₁.listMutex.destroyed = s.listMutex.destroyed := by
  cases h with
  | unlock hpc hpc' hm hl => rw [hm, MutexState.unlock_destroyed]
  | lock hd hfree hpc' hm hl => rw [hm]
  | lockFails hd hm hl => rw [hm]
  | link hpc hpc' hm hl => rw [hm]
  | mark hpc hpc' hm hl => rw [hm]
  | other hpc hm hl => rw [hm]

/-- A destroyed mutex has no owner. -/
theorem ListCall.owner_of_destroyed {s₁ : Process τ} (h : ListCall s s₁ t c c') (hi : LockInv s)
    (hd : s.listMutex.destroyed = true) : s₁.listMutex.owner = none := by
  have hnone := hi.destroyed hd
  cases h with
  | lock hd' hfree hpc' hm hl =>
    rw [hd] at hd'
    cases hd'
  | unlock hpc hpc' hm hl => rw [hm, MutexState.unlock_owner]
  | lockFails hd' hm hl => rw [hm, hnone]
  | link hpc hpc' hm hl => rw [hm, hnone]
  | mark hpc hpc' hm hl => rw [hm, hnone]
  | other hpc hm hl => rw [hm, hnone]

omit [DecidableEq τ] in
/-- A client in its critical section does not see the main thread hold the mutex. -/
theorem not_main (hi : LockInv s) (hc : s.clients t = some c) (hpc : c.pc.holdsList = true) :
    s.listMutex.owner ≠ some .main := by
  intro h
  rcases hi.holdsList t c hc hpc with h' | h'
  · rw [h'] at h
    cases h
  · rw [hi.destroyed h'] at h
    cases h

/-- While the main thread holds the mutex, nothing changes. -/
theorem ListCall.main {s₁ : Process τ} (h : ListCall s s₁ t c c')
    (hno : c.pc.holdsList = true → s.listMutex.owner ≠ some .main) :
    (s₁.listMutex.owner = some .main ↔ s.listMutex.owner = some .main) ∧
      (s.listMutex.owner = some .main → s₁.threadList = s.threadList) := by
  cases h with
  | lock hd hfree hpc' hm hl => exact ⟨by rw [hm, hfree]; simp, fun _ => hl⟩
  | lockFails hd hm hl => exact ⟨by rw [hm], fun _ => hl⟩
  | unlock hpc hpc' hm hl =>
    refine ⟨?_, fun _ => hl⟩
    rw [hm, MutexState.unlock_owner]
    exact ⟨nofun, fun h => absurd h (hno hpc)⟩
  | link hpc hpc' hm hl => exact ⟨by rw [hm], fun h => absurd h (hno hpc)⟩
  | mark hpc hpc' hm hl => exact ⟨by rw [hm], fun h => absurd h (hno hpc)⟩
  | other hpc hm hl => exact ⟨by rw [hm], fun _ => hl⟩

/-- The owner of the mutex is in its critical section. -/
theorem ListCall.listClient {s₁ : Process τ} {u : τ} (h : ListCall s s₁ t c c') (hi : LockInv s)
    (hc : s.clients t = some c) (hu : s₁.listMutex.owner = some (.client u)) :
    ∃ d, Function.update s.clients t (some c') u = some d ∧ d.pc.holdsList = true := by
  have hold : s₁.listMutex = s.listMutex → (c.pc.holdsList = true → c'.pc.holdsList = true) →
      ∃ d, Function.update s.clients t (some c') u = some d ∧ d.pc.holdsList = true :=
    fun hm hpc => exists_update hc (hi.listClient u (hm ▸ hu)) fun _ => hpc
  cases h with
  | lock hd hfree hpc' hm hl =>
    rw [hm] at hu
    obtain rfl : t = u := by simpa using hu
    exact ⟨c', Function.update_self _ _ _, hpc'⟩
  | lockFails hd hm hl =>
    rw [hm, show _ = none from hi.destroyed hd] at hu
    cases hu
  | unlock hpc hpc' hm hl =>
    rw [hm, MutexState.unlock_owner] at hu
    cases hu
  | link hpc hpc' hm hl => exact hold hm fun _ => hpc'
  | mark hpc hpc' hm hl => exact hold hm fun _ => by rw [hpc']; rfl
  | other hpc hm hl => exact hold hm fun h => hpc.trans h

/-- A client in its critical section owns the mutex. -/
theorem ListCall.holdsList {s₁ : Process τ} {u : τ} {d : Client} (h : ListCall s s₁ t c c')
    (hdestroyed : s.listMutex.destroyed = true → s.listMutex.owner = none)
    (hholds : ∀ t c, s.clients t = some c → c.pc.holdsList = true →
      s.listMutex.owner = some (.client t) ∨ s.listMutex.destroyed = true)
    (hc : s.clients t = some c) (hd : Function.update s.clients t (some c') u = some d)
    (hpcd : d.pc.holdsList = true) :
    s₁.listMutex.owner = some (.client u) ∨ s₁.listMutex.destroyed = true := by
  rw [h.destroyed]
  rcases update_clients hd with ⟨rfl, rfl⟩ | ⟨hut, hd⟩
  · cases h with
    | lock hd hfree hpc' hm hl => exact .inl (by rw [hm])
    | lockFails hd hm hl => exact .inr hd
    | unlock hpc hpc' hm hl =>
      rw [hpc'] at hpcd
      cases hpcd
    | link hpc hpc' hm hl => exact hm ▸ hholds u c hc hpc
    | mark hpc hpc' hm hl => exact hm ▸ hholds u c hc hpc
    | other hpc hm hl => exact hm ▸ hholds u c hc (hpc ▸ hpcd)
  · have hu := hholds u d hd hpcd
    cases h with
    | lock hd hfree hpc' hm hl =>
      rw [hfree] at hu
      exact hu.imp_left nofun
    | lockFails hd hm hl => exact .inr hd
    | unlock hpc hpc' hm hl =>
      -- two clients in their critical sections: the mutex is destroyed
      refine .inr (hu.resolve_left fun h => ?_)
      rcases hholds t c hc hpc with h' | h'
      · rw [h] at h'
        exact hut (by simpa using h')
      · rw [hdestroyed h'] at h
        cases h
    | link hpc hpc' hm hl => exact hm ▸ hu
    | mark hpc hpc' hm hl => exact hm ▸ hu
    | other hpc hm hl => exact hm ▸ hu

/-- The thread of a completed node has marked it. -/
theorem ListCall.completed {f s₁ : Process τ} {n : ThreadNode τ} (h : ListCall s s₁ t c c')
    (hi : LockInv s) (hmarked : ∀ {u}, s.Marked u → f.Marked u)
    (hf : f.clients = Function.update s.clients t (some c')) (hn : n ∈ s₁.threadList)
    (hcompl : n.completed = true) : f.Marked n.thread := by
  have hold : n ∈ s.threadList → f.Marked n.thread := fun hn => hmarked (hi.completed n hn hcompl)
  cases h with
  | link hpc hpc' hm hl =>
    rw [hl] at hn
    rcases List.mem_cons.mp hn with rfl | hn
    · cases hcompl
    · exact hold hn
  | mark hpc hpc' hm hl =>
    rw [hl] at hn
    obtain ⟨n', hn', rfl⟩ := List.mem_map.mp hn
    by_cases ht : n'.thread = t
    · rw [if_pos ht]
      exact ⟨c', by simp [hf, ht], .inl hpc'⟩
    · rw [if_neg ht] at hcompl ⊢
      exact hmarked (hi.completed n' hn' hcompl)
  | lock hd hfree hpc' hm hl => exact hold (hl ▸ hn)
  | lockFails hd hm hl => exact hold (hl ▸ hn)
  | unlock hpc hpc' hm hl => exact hold (hl ▸ hn)
  | other hpc hm hl => exact hold (hl ▸ hn)

/-- The owner of `file_mutex` is in its critical section. -/
theorem fileCall {s₁ : Process τ} {u : τ} (hi : LockInv s) (hc : s.clients t = some c)
    (hstep : Client.Step b c.node c.pc ev c'.pc) (hcall : clientCall s t ev = some s₁)
    (hu : s₁.fileMutex.owner = some (.client u)) :
    ∃ d, Function.update s.clients t (some c') u = some d ∧ d.pc.holdsFile = true := by
  have hold : s.fileMutex.owner = some (.client u) → ev ≠ .unlock .file →
      ∃ d, Function.update s.clients t (some c') u = some d ∧ d.pc.holdsFile = true := by
    intro h hev
    refine exists_update hc (hi.fileClient u h) fun _ hpcd => ?_
    rcases hstep.holdsFile with ⟨-, -, h⟩ | ⟨h, -⟩ | ⟨-, -, h⟩
    · exact h
    · exact absurd h hev
    · exact h.trans hpcd
  rcases clientCall_fileMutex hcall with ⟨ok, rfl, hlock⟩ | ⟨-, hm⟩ | ⟨-, hev, hm⟩
  · rcases MutexState.lock_eq_some hlock with ⟨-, -, hm⟩ | ⟨-, rfl, -, hm⟩
    · exact hold (by rw [hm] at hu; exact hu) (by simp)
    · rw [hm] at hu
      obtain rfl : t = u := by simpa using hu
      refine ⟨c', Function.update_self _ _ _, ?_⟩
      rcases hstep.holdsFile with ⟨-, -, h⟩ | ⟨h, -⟩ | ⟨h, -, -⟩
      · exact h
      · cases h
      · exact absurd rfl h
  · rw [hm, MutexState.unlock_owner] at hu
    cases hu
  · exact hold (hm ▸ hu) hev

/-- No client gives `file_mutex` to the main thread. -/
theorem fileCall_main {s₁ : Process τ} (hi : LockInv s) (hcall : clientCall s t ev = some s₁) :
    s₁.fileMutex.owner ≠ some .main := by
  rcases clientCall_fileMutex hcall with ⟨ok, -, hlock⟩ | ⟨-, hm⟩ | ⟨-, -, hm⟩
  · rcases MutexState.lock_eq_some hlock with ⟨-, -, hm⟩ | ⟨-, -, -, hm⟩
    · rw [hm]
      exact hi.fileMain
    · rw [hm]
      nofun
  · rw [hm]
    nofun
  · rw [hm]
    exact hi.fileMain

theorem client {s₁ : Process τ} (hi : LockInv s) (hc : s.clients t = some c)
    (hstep : Client.Step b c.node c.pc ev c'.pc) (hcall : clientCall s t ev = some s₁) :
    LockInv { s₁ with clients := Function.update s₁.clients t (some c') } := by
  have hstack : s₁.stack = s.stack := by rw [clientCall_frame hcall]
  have hclients : s₁.clients = s.clients := by rw [clientCall_frame hcall]
  have hlist := listCall hstep hcall
  rw [hclients]
  have hmarked : ∀ {u}, s.Marked u →
      Marked { s₁ with clients := Function.update s.clients t (some c') } u :=
    fun h => marked_client h hc hstep rfl
  have hmain := hlist.main (hi.not_main hc)
  have hfileMain := hi.fileCall_main hcall
  exact {
    destroyed := fun hd => hlist.owner_of_destroyed hi (hlist.destroyed ▸ hd)
    listClient := fun u hu => hlist.listClient hi hc hu
    holdsList := fun u d hd hpcd => hlist.holdsList hi.destroyed hi.holdsList hc hd hpcd
    completed := fun n hn hcompl => hlist.completed hi hmarked rfl hn hcompl
    main := fun h => by
      obtain ⟨p, rest, hs, hp⟩ := hi.main (hmain.1.mp h)
      have hl := hmain.2 (hmain.1.mp h)
      refine ⟨p, rest, hstack.trans hs, ?_⟩
      cases p with
      | removeJoin u i => exact hmarked hp
      | cleanJoin u => exact ⟨hmarked hp.1, hl ▸ hp.2⟩
      | cleanLoop => exact hl ▸ hp
      | cleanUnlock => exact hl ▸ hp
      | _ => exact hp
    head := fun hd p hp hin => by
      rw [show _ = s.stack from hstack] at hp
      exact hmain.1.mpr (hi.head (hlist.destroyed ▸ hd) p hp hin)
    tail := fun hd p hp => by
      rw [show _ = s.stack from hstack] at hp
      exact hi.tail (hlist.destroyed ▸ hd) p hp
    fileClient := fun u hu => hi.fileCall hc hstep hcall hu
    fileMain := hfileMain }

/-- What is allowed keeps it. -/
theorem next (hi : LockInv s) (ha : s.Allowed a) (h : (Process.lts b daemonMode).next s a = some s') :
    LockInv s' := by
  cases a with
  | main ok =>
    obtain ⟨p, rest, hstack, hstep⟩ := next_main h
    apply hi.mainStep hstack _ hstep
    rintro rfl
    exact ha (by rw [hstack, List.head?_cons])
  | created t =>
    obtain ⟨rest, hstack, hnew, rfl⟩ := next_created h
    exact hi.created hstack hnew
  | client t ev =>
    obtain ⟨-, c, c', s₁, hc, hnext, hcall, rfl⟩ := next_client h
    obtain ⟨hstep, -⟩ := Client.next_eq_some hnext
    exact hi.client hc hstep hcall
  | timer ok =>
    obtain ⟨-, pc, -, hstep⟩ := next_timer h
    exact hi.timer hstep
  | cancelled =>
    obtain ⟨-, rfl⟩ := next_cancelled h
    exact { hi with }
  | signal sig =>
    obtain ⟨-, rfl⟩ := next_signal h
    exact hi.signal ha sig

omit [DecidableEq τ] in
theorem init : LockInv (Process.init τ) where
  destroyed := nofun
  listClient := nofun
  holdsList := nofun
  completed := nofun
  main := nofun
  head _ p hp h := by
    cases hp
    cases h
  tail := nofun
  fileClient := nofun
  fileMain := nofun

end LockInv

/-- In a run in which signals and `cleanup_thread_list` come as allowed, no thread waits for
itself. -/
theorem shutdown_not_stuck [DecidableEq τ] {tr : List (Action τ)}
    (hallowed : (lts b daemonMode).Along Allowed (init τ) tr)
    (hrun : (lts b daemonMode).run (init τ) tr = some s) : ¬ s.Stuck :=
  (Lts.run_invariant_of (fun _ _ _ hi ha h => LockInv.next hi ha h) LockInv.init hallowed
    hrun).not_stuck

instance [DecidableEq τ] (s : Process τ) (a : Action τ) : Decidable (s.Allowed a) := by
  unfold Allowed
  split <;> infer_instance

/-! Runs of the device build with one client. -/

/-- `main` up to `remove_completed_threads` after the first `pthread_create`. -/
def serve : List (Action Nat) := List.replicate 9 (.main true) ++ [.created 0]

/-- `remove_completed_threads` with an empty list, and on to the next `accept`. -/
def sweep : List (Action Nat) := List.replicate 4 (.main true)

/-- `add_thread_to_list`, and on to `recv`. -/
def register : List (Action Nat) :=
  [.malloc true, .lock .list true, .link, .unlock .list, .malloc true].map (.client 0)

/-- The client disconnects. -/
def leave : List (Action Nat) :=
  [.recv none, .free, .closeSocket, .free, .lock .list true, .mark, .unlock .list].map (.client 0)

/-- `signal_handler` up to `cleanup_thread_list`. -/
def interrupt : List (Action Nat) := .signal .int :: List.replicate 3 (.main true)

/-- The client has left when `SIGINT` comes, so `cleanup_thread_list` joins it. -/
theorem shutdown_not_stuck_left :
    ∃ s, (lts .charDevice false).run (init Nat)
        (serve ++ sweep ++ register ++ leave ++ interrupt ++ List.replicate 3 (.main true)) = some s ∧
      ¬ s.Stuck := by
  obtain ⟨s, hs⟩ : ∃ s, (lts .charDevice false).run (init Nat)
      (serve ++ sweep ++ register ++ leave ++ interrupt ++ List.replicate 3 (.main true)) = some s :=
    Option.isSome_iff_exists.mp (by decide)
  exact ⟨s, hs, shutdown_not_stuck (by decide) hs⟩

/-- `SIGINT` comes while the client is in `recv`: `cleanup_thread_list` joins it with
`thread_list_mutex` in its hands. And `SIGINT` comes in `remove_completed_threads`: the handler waits
for the mutex of the code that it interrupted. -/
theorem shutdown_stuck :
    (∃ s, (lts .charDevice false).run (init Nat)
        (serve ++ sweep ++ register ++ interrupt ++ [.main true, .main true]) = some s ∧ s.Stuck) ∧
      ∃ s, (lts .charDevice false).run (init Nat) (serve ++ .main true :: interrupt) = some s ∧
        s.Stuck := by
  constructor
  · refine ⟨Option.get _ (by decide), (Option.some_get _).symm, ?_⟩
    have hjoin : joins (.cleanJoin 0 : Place Nat) = some 0 := rfl
    have htakes : Client.takes ⟨.recv, true⟩ .list = true := rfl
    refine .join (?_ : _ = _ :: [.handlerEnd .int, .accept]) hjoin ?_ htakes ?_ <;> decide
  · refine ⟨Option.get _ (by decide), (Option.some_get _).symm, ?_⟩
    have hlock : (.cleanLock : Place Nat) = .removeLock ∨ (.cleanLock : Place Nat) = .cleanLock :=
      .inr rfl
    refine .lock (?_ : _ = _ :: [.handlerEnd .int, .removeLoop 0, .loop]) hlock (m := .list) ?_ <;>
      decide

end Process

end Aesd
