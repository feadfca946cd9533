import Aesd.Lib.Progress
import Aesd.Server.Orphans
import Aesd.Server.FileMutex
import Mathlib.Data.Prod.Lex

/-!
# Shutdown comes to its end

Under the condition of `Deadlock` no thread waits for itself; but a chain of threads could still wait
for each other. `shutdown_completes` excludes that for the whole process: as long as signals and
`cleanup_thread_list` come as allowed, and the timer thread is not to be cancelled while its critical
section is still before it, `main` can still return from every state after the handler.

* `Client.exitCall`: for every place of `handle_client` a call that brings the thread nearer to its
  end.
* `Listed`: what the list knows of its threads.
* `Sound.exits`: every listed thread can end as soon as the main thread does not hold the mutex.
-/

namespace Aesd

/-! ## The way out of `handle_client` -/

/-- How far a thread is from its end, if the calls fail from now on. -/
def Pc.exitRank : Pc → Nat
  | .exited => 0
  | .markUnlock => 1
  | .mark => 2
  | .markLock => 3
  | .freeData => 4
  | .closeSocket => 5
  | .freeBuffer => 6
  | .recv | .malloc => 7
  | .unlock _ | .addUnlock => 8
  | .close _ | .seekOpen _ | .dataOpen _ | .reopen | .addLink => 9
  | .ioctl _ | .write _ _ | .lseek | .read _ | .send _ _ _ | .reclose | .addLock => 10
  | .seekLock _ | .dataLock _ | .addMalloc => 11

namespace Client

/-- A call that a thread can make, with a result that brings it nearer to its end. -/
def exitCall : Pc → Sys
  | .addMalloc | .malloc => .malloc false
  | .addLock | .markLock => .lock .list true
  | .addLink => .link
  | .addUnlock | .markUnlock => .unlock .list
  | .recv => .recv none
  | .seekLock _ | .dataLock _ => .lock .file true
  | .seekOpen _ | .dataOpen _ | .reopen => .open false
  | .ioctl seekto => .ioctl seekto false
  | .write chunk written => .write (chunk.drop written) (-1)
  | .reclose | .close _ => .close
  | .lseek => .lseek false
  | .read _ => .read none
  | .send _ bs written => .send (bs.drop written) (-1)
  | .unlock _ => .unlock .file
  | .freeBuffer | .freeData | .exited => .free
  | .closeSocket => .closeSocket
  | .mark => .mark

variable {b : Build} {node ok : Bool} {pc pc' : Pc} {m : Mutex} {c : Client}

/-- A failed `write` ends `write_all`. -/
theorem writeAllStep_fails (count written : Nat) : writeAllStep count written (-1) = .done (-1) := by
  simp [writeAllStep, eintr]

theorem nextPc_exitCall (b : Build) (node : Bool) (hpc : pc ≠ .exited) :
    ∃ pc', nextPc b node pc (exitCall pc) = some pc' ∧ pc'.exitRank < pc.exitRank := by
  cases pc with
  | seekLock seekto =>
    refine ⟨_, rfl, ?_⟩
    cases b <;> simp [Pc.exitRank]
  | write chunk written =>
    refine ⟨_, if_pos ⟨rfl, by omega⟩, ?_⟩
    rw [writeAllStep_fails, afterWriteAll, if_neg (by omega)]
    simp [Pc.exitRank]
  | send after bs written =>
    refine ⟨_, if_pos ⟨rfl, by omega⟩, ?_⟩
    rw [writeAllStep_fails, afterSendAll, if_neg (by omega)]
    simp [Pc.exitRank]
  | unlock after =>
    refine ⟨_, rfl, ?_⟩
    cases after <;> decide
  | freeData =>
    refine ⟨_, rfl, ?_⟩
    cases node <;> decide
  | ioctl seekto => exact ⟨_, if_pos rfl, by simp [Pc.exitRank]⟩
  | read after =>
    have hfits : fits [] := Nat.zero_le _
    refine ⟨.close after, ?_, by simp [Pc.exitRank]⟩
    simp [nextPc, exitCall, hfits, afterRead]
  | exited => exact absurd rfl hpc
  | _ => exact ⟨_, rfl, by simp [Pc.exitRank]⟩

/-- A lock that fails brings it nearer, too. -/
theorem nextPc_lock (b : Build) (node : Bool) (h : pc.waitsFor = some m) (ok : Bool) :
    ∃ pc', nextPc b node pc (.lock m ok) = some pc' ∧ pc'.exitRank < pc.exitRank := by
  cases pc with
  | seekLock seekto =>
    cases h
    refine ⟨_, rfl, ?_⟩
    cases ok
    · simp [Pc.exitRank]
    · cases b <;> simp [Pc.exitRank]
  | dataLock chunk =>
    cases h
    refine ⟨_, rfl, ?_⟩
    cases ok <;> simp [Pc.exitRank]
  | addLock | markLock =>
    cases h
    exact ⟨_, rfl, by simp [Pc.exitRank]⟩
  | _ => cases h

/-- Only at a lock that call is one. -/
theorem exitCall_ne_lock (h : pc.waitsFor = none) : exitCall pc ≠ .lock m ok := by
  cases pc with
  | addLock | seekLock | dataLock | markLock => cases h
  | _ => simp [exitCall]

theorem waitsFor_of_holdsFile (h : pc.holdsFile = true) : pc.waitsFor = none := by
  cases pc <;> first | rfl | cases h

theorem waitsFor_of_holdsList (h : pc.holdsList = true) : pc.waitsFor = none := by
  cases pc <;> first | rfl | cases h

/-- A thread with a node marks it before it ends. -/
theorem Step.marked {ev : Sys} (h : Step b node pc ev pc')
    (hpc' : pc' = .markUnlock ∨ pc' = .exited) :
    ev = .mark ∨ pc = .markUnlock ∨ (pc = .freeData ∧ node = false) := by
  cases h with
  | mark => exact .inl rfl
  | markUnlock => exact .inr (.inl rfl)
  | exit hn => exact .inr (.inr ⟨rfl, hn⟩)
  | recv => exact absurd hpc' (dispatch_elim (P := fun pc => ¬ (pc = .markUnlock ∨ pc = .exited))
      (by simp) (by simp) (by simp))
  | write => exact absurd hpc' (afterWriteAll_elim
      (P := fun pc => ¬ (pc = .markUnlock ∨ pc = .exited)) _ (by simp) (by simp) (by simp) (by simp))
  | read => exact absurd hpc' (afterRead_elim (P := fun pc => ¬ (pc = .markUnlock ∨ pc = .exited)) _
      (by simp) (by simp))
  | send => exact absurd hpc' (afterSendAll_elim
      (P := fun pc => ¬ (pc = .markUnlock ∨ pc = .exited)) _ _ (by simp) (by simp) (by simp))
  | @unlock after => cases after <;> simp [afterUnlock] at hpc'
  | _ => simp at hpc'

theorem Step.link (h : Step b node pc .link pc') : pc' = .addUnlock := by
  cases h
  rfl

end Client

namespace Process

variable {τ : Type*}

/-! ## The listed threads -/

/-- The thread has linked its node, and knows it. -/
def Listed (s : Process τ) (t : τ) : Prop :=
  ∃ c, s.clients t = some c ∧ c.pc.unlinked = false ∧ (c.pc = .addUnlock ∨ c.node = true)

/-- What the main thread will join. -/
structure Attended (s : Process τ) : Prop where
  listed : ∀ n ∈ s.threadList, s.Listed n.thread
  unmarked : ∀ n ∈ s.threadList, n.completed = false → ¬ s.Marked n.thread
  joins : ∀ p ∈ s.stack, ∀ t, joins p = some t → s.Listed t
  timer : s.timerThread = true ∨ .timerJoin ∈ s.stack → s.timer ≠ none

variable {b : Build} {daemonMode ok : Bool} {s s' : Process τ} {a : Action τ} {t u : τ}
  {p q : Place τ} {rest : List (Place τ)} {c c' : Client} {ev : Sys}

namespace Attended

/-- The main thread takes threads from the list at most, to join them. -/
theorem moves (hi : Attended s) (new : List (Place τ)) (hstack : s.stack = p :: rest)
    (hstack' : s'.stack = new ++ rest) (hclients : s'.clients = s.clients)
    (hlist : ∀ n ∈ s'.threadList, n ∈ s.threadList)
    (hjoins : ∀ q ∈ new, ∀ t, Process.joins q = some t →
      Process.joins p = some t ∨ ∃ n ∈ s.threadList, n.thread = t)
    (htimer : s'.timerThread = true ∨ .timerJoin ∈ s'.stack → s'.timer ≠ none) : Attended s' := by
  have hlisted : ∀ t, s.Listed t → s'.Listed t := by
    rintro t ⟨c, hc, h⟩
    exact ⟨c, hclients ▸ hc, h⟩
  exact {
    listed := fun n hn => hlisted _ (hi.listed n (hlist n hn))
    unmarked := fun n hn hcompl => by
      rintro ⟨c, hc, h⟩
      exact hi.unmarked n (hlist n hn) hcompl ⟨c, hclients ▸ hc, h⟩
    joins := fun q hq t ht => by
      rw [hstack'] at hq
      rcases List.mem_append.mp hq with hq | hq
      · rcases hjoins q hq t ht with hp | ⟨n, hn, rfl⟩
        · exact hlisted t (hi.joins p (by simp [hstack]) t hp)
        · exact hlisted _ (hi.listed n hn)
      · exact hlisted t (hi.joins q (by simp [hstack, hq]) t ht)
    timer := htimer }

/-- Where `cleanup_on_signal` joins the timer thread there is one. -/
theorem timer_main (hi : s.timerThread = true ∨ .timerJoin ∈ s.stack → s.timer ≠ none)
    (hstack : s.stack = p :: rest) (h : Process.mainStep b daemonMode s ok rest p = some s') :
    s'.timerThread = true ∨ .timerJoin ∈ s'.stack → s'.timer ≠ none := by
  rw [hstack] at hi
  cases p with
  | removeLock | cleanLock =>
    obtain ⟨m, -, rfl⟩ := Option.map_eq_some_iff.mp h
    simpa using hi
  | sigaction sig =>
    cases h
    cases sig <;> simpa [afterSigaction] using hi
  | listen =>
    cases ok <;> cases h
    · simpa using hi
    · cases b <;> cases daemonMode <;> simpa [afterSetup, afterDaemon] using hi
  | daemon =>
    cases ok <;> cases h
    · simpa using hi
    · cases b <;> simpa [afterDaemon] using hi
  | timerCreate =>
    cases ok <;> cases h
    · simpa using hi
    · simp
  | cleanup =>
    simp only [Process.mainStep] at h
    split at h <;> cases h
    · rename_i hthread
      exact fun _ => hi (.inl hthread)
    · simpa using hi
  | _ =>
    simp only [Process.mainStep] at h
    repeat' split at h
    all_goals cases h
    all_goals simp at hi ⊢
    all_goals tauto

theorem mainStep (hi : Attended s) (hstack : s.stack = p :: rest)
    (h : Process.mainStep b daemonMode s ok rest p = some s') : Attended s' := by
  have htimer := timer_main hi.timer hstack h
  cases hp : usesList p with
  | false =>
    obtain ⟨new, hgoes, hstack', hkept⟩ := mainStep_goes hp h
    refine hi.moves new hstack hstack' hkept.clients (fun n hn => hkept.threadList ▸ hn) ?_ htimer
    intro q hq t ht
    have hout := hgoes.outside q hq
    rw [inside_of_joins ht] at hout
    cases hout
  | true =>
    cases p with
    | removeLock | cleanLock =>
      obtain ⟨m, -, rfl⟩ := Option.map_eq_some_iff.mp h
      exact hi.moves [_] hstack rfl rfl (fun _ => id) (by simp [Process.joins]) htimer
    | removeLoop i =>
      simp only [Process.mainStep] at h
      split at h
      · cases h
        exact hi.moves [_] hstack rfl rfl (fun _ => id) (by simp [Process.joins]) htimer
      · rename_i n hn
        split at h <;> cases h
        · refine hi.moves [_] hstack rfl rfl (fun _ hm => List.mem_of_mem_eraseIdx hm) ?_ htimer
          intro q hq t ht
          rw [List.mem_singleton.mp hq] at ht
          cases ht
          exact .inr ⟨n, List.mem_of_getElem? hn, rfl⟩
        · exact hi.moves [_] hstack rfl rfl (fun _ => id) (by simp [Process.joins]) htimer
    | cleanLoop =>
      simp only [Process.mainStep] at h
      split at h
      · cases h
        exact hi.moves [_] hstack rfl rfl (fun _ => id) (by simp [Process.joins]) htimer
      · rename_i n l hl
        cases h
        refine hi.moves [_] hstack rfl rfl (fun m hm => by simp [hl, hm]) ?_ htimer
        intro q hq t ht
        rw [List.mem_singleton.mp hq] at ht
        cases ht
        exact .inr ⟨n, by simp [hl], rfl⟩
    | removeJoin u i | cleanJoin u =>
      simp only [Process.mainStep, Option.ite_none_right_eq_some, Option.some.injEq] at h
      obtain ⟨-, rfl⟩ := h
      exact hi.moves [_] hstack rfl rfl (fun _ => id) (by simp [Process.joins]) htimer
    | removeUnlock | destroyList =>
      cases h
      exact hi.moves [] hstack rfl rfl (fun _ => id) (by simp) htimer
    | cleanUnlock =>
      cases h
      exact hi.moves [_] hstack rfl rfl (fun _ => id) (by simp [Process.joins]) htimer
    | _ => cases hp

/-- The other threads leave it, up to what they do to the list. -/
theorem aside (hi : Attended s) (hstack : s'.stack = s.stack)
    (hthread : s'.timerThread = s.timerThread) (htimer : s.timer ≠ none → s'.timer ≠ none)
    (hlisted : ∀ t, s.Listed t → s'.Listed t) (hnew : ∀ n ∈ s'.threadList, s'.Listed n.thread)
    (hunmarked : ∀ n ∈ s'.threadList, n.completed = false → ¬ s'.Marked n.thread) : Attended s' where
  listed := hnew
  unmarked := hunmarked
  joins p hp t ht := hlisted t (hi.joins p (hstack ▸ hp) t ht)
  timer h := by
    rw [hthread, hstack] at h
    exact htimer (hi.timer h)

variable [DecidableEq τ] {s₁ : Process τ}

/-- A thread that has linked its node stays so. -/
theorem listed_client (h : s.Listed u) (hc : s.clients t = some c)
    (hstep : Client.Step b c.node c.pc ev c'.pc) (hnode : c'.node = c.nextNode)
    (hclients : s'.clients = Function.update s.clients t (some c')) : s'.Listed u := by
  unfold Listed
  rw [hclients]
  refine LockInv.exists_update hc h fun _ ⟨hlinked, hn⟩ => ⟨?_, .inr ?_⟩
  · rcases hstep.unlinked with h | ⟨h, -⟩ | ⟨h, -⟩
    · exact h.trans hlinked
    · exact h
    · rw [h] at hlinked
      cases hlinked
  · rw [hnode, Client.nextNode]
    rcases hn with h | h <;> simp [h]

theorem client (hi : Attended s) (hc : s.clients t = some c)
    (hstep : Client.Step b c.node c.pc ev c'.pc) (hnode : c'.node = c.nextNode)
    (hcall : clientCall s t ev = some s₁) :
    Attended { s₁ with clients := Function.update s₁.clients t (some c') } := by
  have hframe := clientCall_frame hcall
  have hclients : s₁.clients = s.clients := by rw [hframe]
  have hlisted : ∀ u, s.Listed u →
      Listed { s₁ with clients := Function.update s.clients t (some c') } u :=
    fun u h => listed_client h hc hstep hnode rfl
  have htimer : s₁.timer = s.timer := by rw [hframe]
  -- a thread that is marked now was so before, or marks its node
  have hmarked : ∀ u, s.Listed u →
      Marked { s₁ with clients := Function.update s.clients t (some c') } u →
      s.Marked u ∨ (u = t ∧ ev = .mark) := by
    rintro u ⟨d, hd, hlinked, hn⟩ ⟨d', hd', hpc⟩
    rcases LockInv.update_clients hd' with ⟨rfl, rfl⟩ | ⟨-, hd'⟩
    · obtain rfl : c = d := Option.some.inj (hc.symm.trans hd)
      rcases hstep.marked hpc with hev | hpc | ⟨hpc, hno⟩
      · exact .inr ⟨rfl, hev⟩
      · exact .inl ⟨c, hc, .inl hpc⟩
      · rw [hpc, hno] at hn
        simp at hn
    · exact .inl ⟨d', hd', hpc⟩
  have hold : ∀ n ∈ s.threadList, n.completed = false → (n.thread = t → ev ≠ .mark) →
      ¬ Marked { s₁ with clients := Function.update s.clients t (some c') } n.thread := by
    intro n hn hcompl hev hm
    rcases hmarked _ (hi.listed n hn) hm with hm | ⟨ht, hmark⟩
    · exact hi.unmarked n hn hcompl hm
    · exact hev ht hmark
  rw [hclients]
  refine hi.aside (by rw [hframe]) (by rw [hframe]) (by simp [htimer]) hlisted ?_ ?_
  · intro n hn
    change n ∈ s₁.threadList at hn
    rcases clientCall_threadList hcall with ⟨rfl, hl⟩ | ⟨-, hl⟩ | ⟨-, -, hl⟩
    · rw [hl] at hn
      rcases List.mem_cons.mp hn with rfl | hn
      · have hpc' : c'.pc = .addUnlock := hstep.link
        exact ⟨c', by simp, by simp [hpc', Pc.unlinked], .inl hpc'⟩
      · exact hlisted _ (hi.listed n hn)
    · rw [hl] at hn
      obtain ⟨n', hn', rfl⟩ := List.mem_map.mp hn
      have hthread : (if n'.thread = t then { n' with completed := true } else n').thread =
          n'.thread := by
        split <;> rfl
      rw [hthread]
      exact hlisted _ (hi.listed n' hn')
    · exact hlisted _ (hi.listed n (hl ▸ hn))
  · intro n hn hcompl
    change n ∈ s₁.threadList at hn
    rcases clientCall_threadList hcall with ⟨rfl, hl⟩ | ⟨-, hl⟩ | ⟨-, hev, hl⟩
    · rw [hl] at hn
      rcases List.mem_cons.mp hn with rfl | hn
      · rintro ⟨d, hd, hpc⟩
        have hpc' : c'.pc = .addUnlock := hstep.link
        obtain rfl : c' = d := by simpa using hd
        rw [hpc'] at hpc
        simp at hpc
      · exact hold n hn hcompl (by simp)
    · rw [hl] at hn
      obtain ⟨n', hn', rfl⟩ := List.mem_map.mp hn
      by_cases ht : n'.thread = t
      · rw [if_pos ht] at hcompl
        cases hcompl
      · rw [if_neg ht] at hcompl ⊢
        exact hold n' hn' hcompl fun h => absurd h ht
    · exact hold n (hl ▸ hn) hcompl fun _ => hev

theorem next (hi : Attended s) (h : (lts b daemonMode).next s a = some s') : Attended s' := by
  cases a with
  | main ok =>
    obtain ⟨p, rest, hstack, hstep⟩ := next_main h
    exact hi.mainStep hstack hstep
  | created t =>
    obtain ⟨rest, hstack, hnew, rfl⟩ := next_created h
    have hne : ∀ u, s.clients u ≠ none →
        Function.update s.clients t (some .start) u = s.clients u := by
      intro u hu
      refine Function.update_of_ne ?_ _ _
      rintro rfl
      exact hu hnew
    have hlisted : ∀ u, s.Listed u → Listed { s with
        clients := Function.update s.clients t (some .start)
        stack := .removeLock :: .loop :: rest } u := by
      rintro u ⟨c, hc, hu⟩
      exact ⟨c, (hne u (by simp [hc])).trans hc, hu⟩
    exact {
      listed := fun n hn => hlisted _ (hi.listed n hn)
      unmarked := fun n hn hcompl => by
        rintro ⟨d, hd, hpc⟩
        obtain ⟨c, hc, -⟩ := hi.listed n hn
        exact hi.unmarked n hn hcompl ⟨d, (hne n.thread (by simp [hc])).symm.trans hd, hpc⟩
      joins := fun p hp u hu => by
        simp only [List.mem_cons] at hp
        rcases hp with rfl | rfl | hp
        · cases hu
        · cases hu
        · exact hlisted u (hi.joins p (by simp [hstack, hp]) u hu)
      timer := by simpa [hstack] using hi.timer }
  | client t ev =>
    obtain ⟨-, c, c', s₁, hc, hnext, hcall, rfl⟩ := next_client h
    obtain ⟨hstep, hnode⟩ := Client.next_eq_some hnext
    exact hi.client hc hstep hnode hcall
  | timer ok =>
    obtain ⟨-, pc, ht, hstep⟩ := next_timer h
    obtain ⟨m, pc', rfl, -⟩ := timerStep_frame hstep
    exact hi.aside rfl rfl (by simp) (fun _ => id) hi.listed hi.unmarked
  | cancelled =>
    obtain ⟨-, rfl⟩ := next_cancelled h
    exact hi.aside rfl rfl (by simp) (fun _ => id) hi.listed hi.unmarked
  | signal sig =>
    obtain ⟨-, rfl⟩ := next_signal h
    exact {
      listed := hi.listed
      unmarked := hi.unmarked
      joins := List.forall_mem_cons.mpr ⟨by simp [Process.joins], hi.joins⟩
      timer := by simpa using hi.timer }

omit [DecidableEq τ] in
theorem init : Attended (Process.init τ) where
  listed := List.forall_mem_nil _
  unmarked := List.forall_mem_nil _
  joins := List.forall_mem_singleton.mpr (by simp [Process.joins])
  timer := by simp [Process.init]

end Attended

/-! ## Making room -/

/-- `pthread_cancel(timer_thread)`. -/
def Cancels (s : Process τ) : Action τ → Prop
  | .main _ => s.stack.head? = some .cleanup ∧ s.timerThread = true
  | _ => False

/-- Signals and `cleanup_thread_list` come as allowed, and `cleanup_on_signal` cancels the timer
thread when that neither is in its section of `file_mutex`, with `close` still to come, nor will
enter it before it looks at `keep_running` again. -/
def Careful (s : Process τ) (a : Action τ) : Prop :=
  s.Allowed a ∧ (s.Cancels a → s.timer ≠ some .lock ∧ s.timer ≠ some .write)

/-- While `keep_running` is set, `main` with a timer thread is in its accept loop. -/
def Accepting (s : Process τ) : Prop :=
  s.keepRunning = true → s.timerThread = true →
    ∀ p ∈ s.stack, serving p = true ∨ ∃ sig, p = .handler sig

/-- What holds in every run with such steps. -/
structure Sound (s : Process τ) : Prop where
  lock : LockInv s
  file : FileMutexInv s
  attended : Attended s
  listTimer : s.listMutex.owner ≠ some .timer
  kept : ¬ Orphaned s
  accepting : Accepting s
  cancelled : s.timerCancelled = true →
    s.keepRunning = false ∧ s.timer ≠ some .lock ∧ s.timer ≠ some .write

/-! ### The cancel request -/

/-- In the accept loop `main` stays there. -/
theorem mainStep_serving (hp : serving p = true) (hkeep : s.keepRunning = true)
    (h : mainStep b daemonMode s ok rest p = some s') :
    ∃ new, s'.stack = new ++ rest ∧ ∀ q ∈ new, serving q = true := by
  cases p with
  | loop =>
    simp only [mainStep, hkeep, if_true, Option.some.injEq] at h
    subst h
    exact ⟨[_], rfl, by simp [serving]⟩
  | removeLock =>
    obtain ⟨m, -, rfl⟩ := Option.map_eq_some_iff.mp h
    exact ⟨[_], rfl, by simp [serving]⟩
  | removeUnlock =>
    cases h
    exact ⟨[], rfl, by simp⟩
  | create =>
    cases ok <;> cases h
    exact ⟨[_], rfl, by simp [serving]⟩
  | removeJoin t i =>
    simp only [mainStep, Option.ite_none_right_eq_some, Option.some.injEq] at h
    obtain ⟨-, rfl⟩ := h
    exact ⟨[_], rfl, by simp [serving]⟩
  | accept | mallocData | removeLoop =>
    simp only [mainStep] at h
    repeat' split at h
    all_goals
      cases h
      exact ⟨[_], rfl, by simp [serving]⟩
  | _ => cases hp

/-- `main` starts the timer thread, and `cleanup_on_signal` cancels it; nothing else of the main
thread is about it. -/
theorem mainStep_request (h : mainStep b daemonMode s ok rest p = some s') :
    (s'.timerThread = s.timerThread ∧ s'.timer = s.timer ∧
        (s'.timerCancelled = s.timerCancelled ∨ (p = .cleanup ∧ s.timerThread = true))) ∨
      (p = .timerCreate ∧ s'.timerCancelled = s.timerCancelled ∧ s'.stack = .loop :: rest) := by
  cases p with
  | removeLock | cleanLock =>
    obtain ⟨m, -, rfl⟩ := Option.map_eq_some_iff.mp h
    exact .inl ⟨rfl, rfl, .inl rfl⟩
  | timerCreate =>
    cases ok <;> cases h
    · exact .inl ⟨rfl, rfl, .inl rfl⟩
    · exact .inr ⟨rfl, rfl, rfl⟩
  | cleanup =>
    simp only [mainStep] at h
    split at h <;> cases h
    · rename_i hthread
      exact .inl ⟨rfl, rfl, .inr ⟨rfl, hthread⟩⟩
    · exact .inl ⟨rfl, rfl, .inl rfl⟩
  | _ =>
    simp only [mainStep] at h
    repeat' split at h
    all_goals cases h
    all_goals exact .inl ⟨rfl, rfl, .inl rfl⟩

theorem mainStep_stopped (hstop : s.keepRunning = false)
    (h : mainStep b daemonMode s ok rest p = some s') : s'.keepRunning = false := by
  by_cases hp : ∃ sig, p = .handler sig
  · obtain ⟨sig, rfl⟩ := hp
    cases h
    rfl
  · exact (mainStep_keepRunning (fun sig h => hp ⟨sig, h⟩) h).trans hstop

theorem Accepting.mainStep (hi : Accepting s) (hf : Frames s) (hstack : s.stack = p :: rest)
    (h : Process.mainStep b daemonMode s ok rest p = some s') : Accepting s' := by
  intro hkeep' hthread'
  have hkeep : s.keepRunning = true := by
    rw [← Bool.not_eq_false]
    intro hstop
    rw [mainStep_stopped hstop h] at hkeep'
    cases hkeep'
  rcases mainStep_request h with ⟨hthread, -, -⟩ | ⟨rfl, -, hstack'⟩
  · have hall := hi hkeep (hthread ▸ hthread')
    rw [hstack, List.forall_mem_cons] at hall
    rcases hall.1 with hp | ⟨sig, rfl⟩
    · obtain ⟨new, hstack', hnew⟩ := mainStep_serving hp hkeep h
      rw [hstack']
      exact List.forall_mem_append.mpr ⟨fun q hq => .inl (hnew q hq), hall.2⟩
    · cases h
      cases hkeep'
  · have hfr := hf.framed
    rw [hstack] at hfr
    rw [hstack', hfr.1.mp rfl]
    simp [serving]

variable [DecidableEq τ] {s₁ : Process τ}

theorem Accepting.next (hi : Accepting s) (hf : Frames s)
    (h : (lts b daemonMode).next s a = some s') : Accepting s' := by
  cases a with
  | main ok =>
    obtain ⟨p, rest, hstack, hstep⟩ := next_main h
    exact hi.mainStep hf hstack hstep
  | created t =>
    obtain ⟨rest, hstack, -, rfl⟩ := next_created h
    intro hkeep hthread
    have hall := hi hkeep hthread
    rw [hstack, List.forall_mem_cons] at hall
    exact List.forall_mem_cons.mpr ⟨.inl rfl, List.forall_mem_cons.mpr ⟨.inl rfl, hall.2⟩⟩
  | client t ev =>
    obtain ⟨-, c, c', s₁, -, -, hcall, rfl⟩ := next_client h
    rw [clientCall_frame hcall]
    exact hi
  | timer ok =>
    obtain ⟨-, pc, -, hstep⟩ := next_timer h
    obtain ⟨m, pc', rfl, -⟩ := timerStep_frame hstep
    exact hi
  | cancelled =>
    obtain ⟨-, rfl⟩ := next_cancelled h
    exact hi
  | signal sig =>
    obtain ⟨-, rfl⟩ := next_signal h
    exact fun hkeep hthread => List.forall_mem_cons.mpr ⟨.inr ⟨sig, rfl⟩, hi hkeep hthread⟩

/-- A cancel request comes after the end of the accept loop, and the timer thread takes
`file_mutex` no more. -/
theorem Sound.next_request (hs : Sound s) (ha : s.Careful a)
    (h : (lts b daemonMode).next s a = some s') (hc : s'.timerCancelled = true) :
    s'.keepRunning = false ∧ s'.timer ≠ some .lock ∧ s'.timer ≠ some .write := by
  cases a with
  | main ok =>
    obtain ⟨p, rest, hstack, hstep⟩ := next_main h
    rcases mainStep_request hstep with ⟨-, htimer, hreq | ⟨rfl, hthread⟩⟩ | ⟨rfl, hreq, -⟩
    · rw [htimer]
      exact (hs.cancelled (hreq ▸ hc)).imp_left fun hstop => mainStep_stopped hstop hstep
    · rw [htimer]
      refine ⟨mainStep_stopped ?_ hstep, ha.2 ⟨by rw [hstack]; rfl, hthread⟩⟩
      rw [← Bool.not_eq_true]
      intro hkeep
      simpa [serving] using hs.accepting hkeep hthread .cleanup (by simp [hstack])
    · have hno := (hs.file.starting .timerCreate (by simp [hstack]) rfl).2.2
      rw [hreq, hno] at hc
      cases hc
  | created t =>
    obtain ⟨rest, -, -, rfl⟩ := next_created h
    exact hs.cancelled hc
  | client t ev =>
    obtain ⟨-, c, c', s₁, -, -, hcall, rfl⟩ := next_client h
    rw [clientCall_frame hcall] at hc ⊢
    exact hs.cancelled hc
  | timer ok =>
    obtain ⟨-, pc, htimer, hstep⟩ := next_timer h
    obtain ⟨m, pc', rfl, -⟩ := timerStep_frame hstep
    obtain ⟨hstop, hlock, hwrite⟩ := hs.cancelled hc
    refine ⟨hstop, ?_⟩
    cases pc with
    | check =>
      have hpc : some (if s.keepRunning then TimerPc.lock else .ended) = some pc' :=
        congrArg Process.timer (Option.some.inj hstep)
      rw [hstop] at hpc
      rw [← hpc]
      simp
    | lock => exact absurd htimer hlock
    | write => exact absurd htimer hwrite
    | unlock =>
      cases hstep
      simp
    | sleep =>
      rw [(timerStep_sleep hstep).1] at hc
      cases hc
    | ended => cases hstep
  | cancelled =>
    obtain ⟨-, rfl⟩ := next_cancelled h
    exact ⟨(hs.cancelled hc).1, by simp⟩
  | signal sig =>
    obtain ⟨-, rfl⟩ := next_signal h
    exact hs.cancelled hc

/-- The timer thread does not take `thread_list_mutex`. -/
theorem next_listTimer (h : (lts b daemonMode).next s a = some s')
    (ht : s'.listMutex.owner = some .timer) : s.listMutex.owner = some .timer := by
  cases a with
  | main ok =>
    obtain ⟨p, rest, -, hstep⟩ := next_main h
    cases hp : usesList p with
    | false =>
      obtain ⟨new, -, -, hkept⟩ := mainStep_goes hp hstep
      rwa [hkept.listMutex] at ht
    | true =>
      cases p with
      | removeLock | cleanLock =>
        obtain ⟨m, hm, rfl⟩ := Option.map_eq_some_iff.mp hstep
        rcases MutexState.lock_eq_some hm with ⟨-, -, rfl⟩ | ⟨-, -, -, rfl⟩
        · exact ht
        · cases ht
      | _ =>
        simp only [mainStep] at hstep
        repeat' split at hstep
        all_goals cases hstep
        all_goals first | exact ht | cases ht
  | created t =>
    obtain ⟨rest, -, -, rfl⟩ := next_created h
    exact ht
  | client t ev =>
    obtain ⟨-, c, c', s₁, -, -, hcall, rfl⟩ := next_client h
    change s₁.listMutex.owner = _ at ht
    rcases clientCall_listMutex hcall with ⟨ok, -, hlock⟩ | ⟨-, hm⟩ | ⟨-, -, hm⟩
    · rcases MutexState.lock_eq_some hlock with ⟨-, -, hm⟩ | ⟨-, -, -, hm⟩ <;> rw [hm] at ht
      · exact ht
      · cases ht
    · rw [hm] at ht
      cases ht
    · rwa [hm] at ht
  | timer ok =>
    obtain ⟨-, pc, -, hstep⟩ := next_timer h
    obtain ⟨m, pc', rfl, -⟩ := timerStep_frame hstep
    exact ht
  | cancelled =>
    obtain ⟨-, rfl⟩ := next_cancelled h
    exact ht
  | signal sig =>
    obtain ⟨-, rfl⟩ := next_signal h
    exact ht

theorem Sound.next (hs : Sound s) (ha : s.Careful a) (h : (lts b daemonMode).next s a = some s') :
    Sound s' where
  lock := hs.lock.next ha.1 h
  file := hs.file.next h
  attended := hs.attended.next h
  listTimer ht := hs.listTimer (next_listTimer h ht)
  kept ho := by
    rcases ho.prev hs.file h with ho | ⟨rfl, ht⟩
    · exact hs.kept ho
    · exact (hs.cancelled (next_cancelled_timer h).1).2.2 ht
  accepting := hs.accepting.next hs.file.frames h
  cancelled := hs.next_request ha h

omit [DecidableEq τ] in
theorem Sound.init : Sound (Process.init τ) where
  lock := .init
  file := .init
  attended := .init
  listTimer := by simp [Process.init, MutexState.initializer]
  kept h := by cases h.timer
  accepting _ h := by cases h
  cancelled := nofun

omit [DecidableEq τ] in
theorem exited_eq_true : s.exited t = true ↔ ∃ c, s.clients t = some c ∧ c.pc = .exited := by
  unfold exited
  cases s.clients t <;> simp

/-- From `s` the other threads can go on to `s'`. -/
structure Helps (b : Build) (daemonMode : Bool) (s s' : Process τ) : Prop where
  leads : (lts b daemonMode).Leads Careful s s'
  sound : Sound s'
  stack : s'.stack = s.stack
  keepRunning : s'.keepRunning = s.keepRunning
  destroyed : s'.listMutex.destroyed = s.listMutex.destroyed
  exited : ∀ t, s.exited t = true → s'.exited t = true

namespace Helps

theorem refl (hs : Sound s) : Helps b daemonMode s s :=
  ⟨.refl s, hs, rfl, rfl, rfl, fun _ => id⟩

theorem trans {s'' : Process τ} (h : Helps b daemonMode s s') (h' : Helps b daemonMode s' s'') :
    Helps b daemonMode s s'' where
  leads := h.leads.trans h'.leads
  sound := h'.sound
  stack := h'.stack.trans h.stack
  keepRunning := h'.keepRunning.trans h.keepRunning
  destroyed := h'.destroyed.trans h.destroyed
  exited t ht := h'.exited t (h.exited t ht)

/-- A call of a client. -/
theorem client {pc' : Pc} (hs : Sound s) (hne : s.stack ≠ []) (hc : s.clients t = some c)
    (hpc : Client.nextPc b c.node c.pc ev = some pc') (hcall : clientCall s t ev = some s₁) :
    Helps b daemonMode s
      { s₁ with clients := Function.update s.clients t (some ⟨pc', c.nextNode⟩) } := by
  have hclients : s₁.clients = s.clients := by rw [clientCall_frame hcall]
  have hnext : (lts b daemonMode).next s (.client t ev) =
      some { s₁ with clients := Function.update s.clients t (some ⟨pc', c.nextNode⟩) } := by
    simp [lts, hne, hc, Client.lts, hpc, hcall, hclients]
  have hcareful : s.Careful (.client t ev) := ⟨trivial, False.elim⟩
  refine ⟨.of_next hnext hcareful, hs.next hcareful hnext, by rw [clientCall_frame hcall],
    by rw [clientCall_frame hcall], ?_, fun u hu => ?_⟩
  · rcases clientCall_listMutex hcall with ⟨ok, -, hlock⟩ | ⟨-, hm⟩ | ⟨-, -, hm⟩
    · rcases MutexState.lock_eq_some hlock with ⟨-, -, hm⟩ | ⟨-, -, -, hm⟩ <;> rw [hm]
    · rw [hm, MutexState.unlock_destroyed]
    · rw [hm]
  · obtain ⟨d, hd, hexited⟩ := exited_eq_true.mp hu
    by_cases hut : u = t
    · subst hut
      obtain rfl : c = d := Option.some.inj (hc.symm.trans hd)
      rw [hexited] at hpc
      cases hpc
    · exact exited_eq_true.mpr ⟨d, (Function.update_of_ne hut _ _).trans hd, hexited⟩

/-- A step of the timer thread. -/
theorem timer (ok : Bool) {pc : TimerPc} (hs : Sound s) (hne : s.stack ≠ []) (ht : s.timer = some pc)
    (h : timerStep s ok pc = some s') (hlist : s'.listMutex = s.listMutex)
    (hclients : s'.clients = s.clients) (hstack : s'.stack = s.stack)
    (hkeep : s'.keepRunning = s.keepRunning) : Helps b daemonMode s s' := by
  have hnext : (lts b daemonMode).next s (.timer ok) = some s' := by
    simp [lts, hne, ht, h]
  have hcareful : s.Careful (.timer ok) := ⟨trivial, False.elim⟩
  refine ⟨.of_next hnext hcareful, hs.next hcareful hnext, hstack, hkeep, by rw [hlist], ?_⟩
  intro u hu
  rw [exited_eq_true] at hu ⊢
  rwa [hclients]

/-- A cancelled timer thread ends in its sleep. -/
theorem ends (hs : Sound s) (hne : s.stack ≠ []) (ht : s.timer = some .sleep)
    (hc : s.timerCancelled = true) : Helps b daemonMode s { s with timer := some .ended } := by
  have hnext : (lts b daemonMode).next s .cancelled = some { s with timer := some .ended } := by
    simp [lts, hne, ht, hc]
  have hcareful : s.Careful .cancelled := ⟨trivial, False.elim⟩
  exact ⟨.of_next hnext hcareful, hs.next hcareful hnext, rfl, rfl, rfl, fun _ => id⟩

end Helps

/-! ### `file_mutex` -/

/-- What the others leave as it was to make `file_mutex` free. -/
structure FileFreed (s s' : Process τ) : Prop where
  owner : s'.fileMutex.owner = none
  listMutex : s'.listMutex = s.listMutex
  threadList : s'.threadList = s.threadList
  clients : ∀ t c, s.clients t = some c → c.pc.holdsFile = false → s'.clients t = some c
  timer : s.timer = some .lock → s'.timer = some .lock

/-- In a critical section of `file_mutex` a failing call changes nothing but the mutex. -/
theorem clientCall_exitCall (h : c.pc.holdsFile = true) :
    (Client.exitCall c.pc ≠ .unlock .file ∧ clientCall s t (Client.exitCall c.pc) = some s) ∨
      (Client.exitCall c.pc = .unlock .file ∧
        clientCall s t (Client.exitCall c.pc) = some { s with fileMutex := s.fileMutex.unlock }) := by
  obtain ⟨pc, node⟩ := c
  cases pc with
  | unlock after => exact .inr ⟨rfl, rfl⟩
  | seekOpen | ioctl | dataOpen | write | reclose | reopen | lseek | read | send | close =>
    exact .inl ⟨by simp [Client.exitCall], rfl⟩
  | _ => cases h

/-- The client that has it goes on to its unlock. -/
theorem Sound.clientFrees (hs : Sound s) (hne : s.stack ≠ []) (hc : s.clients u = some c)
    (hholds : c.pc.holdsFile = true) :
    ∃ s', Helps b daemonMode s s' ∧ FileFreed s s' := by
  generalize hr : c.pc.exitRank = r
  induction r using Nat.strong_induction_on generalizing s c with
  | _ r ih =>
    have hexited : c.pc ≠ .exited := by
      intro h
      rw [h] at hholds
      cases hholds
    obtain ⟨pc', hpc, hlt⟩ := Client.nextPc_exitCall b c.node hexited
    have hstep := Client.step_of_nextPc hpc
    have hothers : ∀ t d, s.clients t = some d → d.pc.holdsFile = false →
        Function.update s.clients u (some ⟨pc', c.nextNode⟩) t = some d := by
      intro t d hd hout
      have htu : t ≠ u := by
        rintro rfl
        obtain rfl : c = d := Option.some.inj (hc.symm.trans hd)
        rw [hholds] at hout
        cases hout
      exact (Function.update_of_ne htu _ _).trans hd
    rcases clientCall_exitCall (s := s) (t := u) hholds with ⟨hev, hcall⟩ | ⟨-, hcall⟩
    · have hhelps : Helps b daemonMode s _ := .client hs hne hc hpc hcall
      have hholds' : pc'.holdsFile = true := by
        rcases hstep.holdsFile with ⟨hlock, -⟩ | ⟨hunlock, -⟩ | ⟨-, -, h⟩
        · exact absurd hlock (Client.exitCall_ne_lock (Client.waitsFor_of_holdsFile hholds))
        · exact absurd hunlock hev
        · exact h.trans hholds
      obtain ⟨s', hhelps', hfreed⟩ := ih _ (hr ▸ hlt) hhelps.sound (hhelps.stack ▸ hne)
        (Function.update_self _ _ _) hholds' rfl
      exact ⟨s', hhelps.trans hhelps', hfreed.owner, hfreed.listMutex, hfreed.threadList,
        fun t d hd hout => hfreed.clients t d (hothers t d hd hout) hout, hfreed.timer⟩
    · exact ⟨_, .client hs hne hc hpc hcall, rfl, rfl, rfl, hothers, id⟩

/-- There is no cancel request while the timer thread writes. -/
theorem Sound.timerWrites (hs : Sound s) (hne : s.stack ≠ []) (ht : s.timer = some .write) :
    Helps b daemonMode s { s with timer := some .unlock } := by
  have hno : s.timerCancelled = false := by
    rw [← Bool.not_eq_true]
    exact fun hc => (hs.cancelled hc).2.2 ht
  have hstep : timerStep s true .write = some { s with timer := some .unlock } := by
    simp [timerStep, hno]
  exact .timer true hs hne ht hstep rfl rfl rfl rfl

/-- The timer thread that has it goes on to its unlock. -/
theorem Sound.timerFrees {pc : TimerPc} (hs : Sound s) (hne : s.stack ≠ []) (ht : s.timer = some pc)
    (hholds : pc.holdsFile = true) : ∃ s', Helps b daemonMode s s' ∧ FileFreed s s' := by
  have hunlocks : ∀ {f : Process τ}, Sound f → f.stack = s.stack → f.timer = some .unlock →
      f.listMutex = s.listMutex → f.threadList = s.threadList → f.clients = s.clients →
      ∃ s', Helps b daemonMode f s' ∧ FileFreed s s' := by
    intro f hf hstack htimer hmutex hlist hclients
    refine ⟨_, .timer true hf (hstack ▸ hne) htimer rfl rfl rfl rfl rfl, rfl, hmutex, hlist,
      fun t c hc _ => hclients ▸ hc, fun hlock => ?_⟩
    rw [ht] at hlock
    cases hlock
    cases hholds
  cases pc with
  | write =>
    have hhelps : Helps b daemonMode s { s with timer := some .unlock } := hs.timerWrites hne ht
    obtain ⟨s', hhelps', hfreed⟩ := hunlocks hhelps.sound rfl rfl rfl rfl rfl
    exact ⟨s', hhelps.trans hhelps', hfreed⟩
  | unlock => exact hunlocks hs rfl ht rfl rfl rfl
  | _ => cases hholds

/-- Whoever has `file_mutex` gives it back. -/
theorem Sound.freeFile (b : Build) (daemonMode : Bool) (hs : Sound s) (hne : s.stack ≠ []) :
    ∃ s', Helps b daemonMode s s' ∧ FileFreed s s' := by
  cases howner : s.fileMutex.owner with
  | none => exact ⟨s, .refl hs, howner, rfl, rfl, fun _ _ hc _ => hc, id⟩
  | some who =>
    rcases hs.file.owner who howner with huses | ⟨rfl, he⟩
    · cases who with
      | main => exact huses.elim
      | client u =>
        obtain ⟨c, hc, hholds⟩ := huses
        exact hs.clientFrees hne hc hholds
      | timer =>
        obtain ⟨pc, ht, hholds⟩ := huses
        exact hs.timerFrees hne ht hholds
    · exact absurd ⟨howner, he⟩ hs.kept

/-! ### `thread_list_mutex` -/

theorem Sound.listUnlocks (hs : Sound s) (hne : s.stack ≠ []) (hc : s.clients u = some c)
    (hpc : c.pc = .addUnlock ∨ c.pc = .markUnlock) :
    ∃ s', Helps b daemonMode s s' ∧ s'.listMutex.owner = none := by
  obtain ⟨pc', hnext⟩ : ∃ pc', Client.nextPc b c.node c.pc (.unlock .list) = some pc' := by
    rcases hpc with hpc | hpc <;> rw [hpc] <;> exact ⟨_, rfl⟩
  exact ⟨_, .client hs hne hc hnext rfl, rfl⟩

/-- Whoever has `thread_list_mutex`, the main thread apart, gives it back. -/
theorem Sound.freeList (b : Build) (daemonMode : Bool) (hs : Sound s) (hne : s.stack ≠ [])
    (hmain : s.listMutex.owner ≠ some .main) :
    ∃ s', Helps b daemonMode s s' ∧ s'.listMutex.owner = none := by
  cases howner : s.listMutex.owner with
  | none => exact ⟨s, .refl hs, howner⟩
  | some who =>
    cases who with
    | main => exact absurd howner hmain
    | timer => exact absurd howner hs.listTimer
    | client u =>
      obtain ⟨⟨pc, node⟩, hc, hholds⟩ := hs.lock.listClient u howner
      cases pc with
      | addLink =>
        have hpc : Client.nextPc b node .addLink .link = some .addUnlock := rfl
        have hhelps : Helps b daemonMode s _ := .client hs hne hc hpc rfl
        obtain ⟨s', hhelps', hfree⟩ := hhelps.sound.listUnlocks (hhelps.stack ▸ hne)
          (Function.update_self _ _ _) (.inl rfl)
        exact ⟨s', hhelps.trans hhelps', hfree⟩
      | mark =>
        have hpc : Client.nextPc b node .mark .mark = some .markUnlock := rfl
        have hhelps : Helps b daemonMode s _ := .client hs hne hc hpc rfl
        obtain ⟨s', hhelps', hfree⟩ := hhelps.sound.listUnlocks (hhelps.stack ▸ hne)
          (Function.update_self _ _ _) (.inr rfl)
        exact ⟨s', hhelps.trans hhelps', hfree⟩
      | addUnlock => exact hs.listUnlocks hne hc (.inl rfl)
      | markUnlock => exact hs.listUnlocks hne hc (.inr rfl)
      | _ => cases hholds

/-! ### A listed thread -/

/-- Nobody keeps the thread from `thread_list_mutex`. -/
def ListFree (s : Process τ) (t : τ) : Prop :=
  s.listMutex.destroyed = true ∨ s.listMutex.owner = none ∨ s.listMutex.owner = some (.client t)

/-- The threads of the nodes. -/
def threads (s : Process τ) : List τ := s.threadList.map ThreadNode.thread

omit [DecidableEq τ] in
theorem ListFree.owner (h : ListFree s t) (hs : Sound s) (hexited : s.exited t = true) :
    s.listMutex.owner = none := by
  rcases h with h | h | h
  · exact hs.lock.destroyed h
  · exact h
  · obtain ⟨c, hc, hexited⟩ := exited_eq_true.mp hexited
    obtain ⟨d, hd, hholds⟩ := hs.lock.listClient t h
    obtain rfl : c = d := Option.some.inj (hc.symm.trans hd)
    rw [hexited] at hholds
    cases hholds

omit [DecidableEq τ] in
theorem not_marked_of_waits {m : Mutex} (hc : s.clients t = some c) (hw : c.pc.waitsFor = some m) :
    ¬ s.Marked t := by
  rintro ⟨d, hd, hpc⟩
  obtain rfl : c = d := Option.some.inj (hc.symm.trans hd)
  rcases hpc with hpc | hpc <;> rw [hpc] at hw <;> cases hw

omit [DecidableEq τ] in
/-- A lock of a free mutex, or of a destroyed one. -/
theorem exists_lock {m : MutexState τ} (who : Tid τ) (h : m.destroyed = true ∨ m.owner = none) :
    ∃ ok m', m.lock who ok = some m' := by
  cases hd : m.destroyed with
  | true => exact ⟨false, { m with misused := true }, by simp [MutexState.lock, hd]⟩
  | false =>
    have hfree := h.resolve_left (by simp [hd])
    exact ⟨true, { m with owner := some who }, by simp [MutexState.lock, hd, hfree]⟩

/-- What the way to the end of a thread leaves of the list and its mutex. -/
structure Ends (b : Build) (daemonMode : Bool) (s s' : Process τ) (t : τ) : Prop where
  helps : Helps b daemonMode s s'
  threads : s'.threads = s.threads
  free : ListFree s t → ListFree s' t

theorem Ends.trans {s'' : Process τ} (h : Ends b daemonMode s s' t)
    (h' : Ends b daemonMode s' s'' t) : Ends b daemonMode s s'' t :=
  ⟨h.helps.trans h'.helps, h'.threads.trans h.threads, fun hf => h'.free (h.free hf)⟩

/-- A call of a linked thread is one on the way. -/
theorem Sound.ends (b : Build) (daemonMode : Bool) {pc' : Pc} (hs : Sound s) (hne : s.stack ≠ [])
    (hc : s.clients t = some c) (hlinked : c.pc.unlinked = false)
    (hpc : Client.nextPc b c.node c.pc ev = some pc') (hcall : clientCall s t ev = some s₁) :
    Ends b daemonMode s
        { s₁ with clients := Function.update s.clients t (some ⟨pc', c.nextNode⟩) } t ∧
      pc'.unlinked = false := by
  have hstep := Client.step_of_nextPc hpc
  refine ⟨⟨.client hs hne hc hpc hcall, ?_, fun hf => ?_⟩, ?_⟩
  · rcases clientCall_threadList hcall with ⟨rfl, -⟩ | ⟨-, hl⟩ | ⟨-, -, hl⟩
    · generalize c.pc = pc at hstep hlinked
      cases hstep
      cases hlinked
    · simp only [Process.threads, hl, List.map_map]
      refine List.map_congr_left fun n _ => ?_
      by_cases hn : n.thread = t <;> simp [hn]
    · simp only [Process.threads, hl]
  · unfold ListFree at hf ⊢
    rcases clientCall_listMutex hcall with ⟨ok, -, hlock⟩ | ⟨-, hm⟩ | ⟨-, -, hm⟩
    · rcases MutexState.lock_eq_some hlock with ⟨hd, -, hm⟩ | ⟨-, -, -, hm⟩
      · exact .inl (by simp [hm, hd])
      · exact .inr (.inr (by simp [hm]))
    · exact .inr (.inl (by simp [hm]))
    · simpa only [hm] using hf
  · rcases hstep.unlinked with h | ⟨h, -⟩ | ⟨h, -⟩
    · exact h.trans hlinked
    · exact h
    · rw [h] at hlinked
      cases hlinked

/-- At a call that is no lock. -/
theorem exists_clientCall (hev : ∀ m ok, ev ≠ .lock m ok) : ∃ s₁, clientCall s t ev = some s₁ := by
  unfold clientCall
  split
  · exact absurd rfl (hev _ _)
  · exact absurd rfl (hev _ _)
  all_goals exact ⟨_, rfl⟩

/-- A linked thread can end, unless it waits for the main thread. -/
theorem Sound.exits (b : Build) (daemonMode : Bool) (hs : Sound s) (hne : s.stack ≠ [])
    (hc : s.clients t = some c) (hlinked : c.pc.unlinked = false)
    (hfree : s.Marked t ∨ ListFree s t) :
    ∃ s', Ends b daemonMode s s' t ∧ s'.exited t = true := by
  generalize hr : c.pc.exitRank = r
  induction r using Nat.strong_induction_on generalizing s c with
  | _ r ih =>
    -- after a call of the thread
    have hgoes : ∀ {f f₁ : Process τ} {ev : Sys} {pc' : Pc}, Ends b daemonMode s f t →
        f.clients t = some c → Client.nextPc b c.node c.pc ev = some pc' →
        pc'.exitRank < c.pc.exitRank → clientCall f t ev = some f₁ →
        (f.Marked t ∨ ListFree f t) →
        ∃ s', Ends b daemonMode s s' t ∧ s'.exited t = true := by
      intro f f₁ ev pc' hf hfc hpc hlt hcall hfree
      obtain ⟨hends, hlinked'⟩ := hf.helps.sound.ends b daemonMode
        (hf.helps.stack ▸ hne) hfc hlinked hpc hcall
      have hstep : Client.Step b c.node c.pc ev (⟨pc', c.nextNode⟩ : Client).pc :=
        Client.step_of_nextPc hpc
      have hmarked := fun hm : f.Marked t => LockInv.marked_client
        (f := { f₁ with clients := Function.update f.clients t (some ⟨pc', c.nextNode⟩) }) hm hfc
        hstep rfl
      obtain ⟨s', hs', hexited⟩ := ih _ (hr ▸ hlt) hends.helps.sound
        ((hends.helps.stack.trans hf.helps.stack) ▸ hne) (Function.update_self _ _ _) hlinked'
        (hfree.imp hmarked hends.free) rfl
      exact ⟨s', (hf.trans hends).trans hs', hexited⟩
    have hself : Ends b daemonMode s s t := ⟨.refl hs, rfl, id⟩
    by_cases hexited : c.pc = .exited
    · exact ⟨s, hself, exited_eq_true.mpr ⟨c, hc, hexited⟩⟩
    · cases hw : c.pc.waitsFor with
      | none =>
        obtain ⟨pc', hpc, hlt⟩ := Client.nextPc_exitCall b c.node hexited
        obtain ⟨s₁, hcall⟩ : ∃ s₁, clientCall s t (Client.exitCall c.pc) = some s₁ :=
          exists_clientCall fun m ok => Client.exitCall_ne_lock hw
        exact hgoes hself hc hpc hlt hcall hfree
      | some m =>
        have hfree := hfree.resolve_left (not_marked_of_waits hc hw)
        cases m with
        | file =>
          obtain ⟨f, hhelps, hfreed⟩ := hs.freeFile b daemonMode hne
          have hout : c.pc.holdsFile = false := by
            by_contra hholds
            rw [Client.waitsFor_of_holdsFile (by simpa using hholds)] at hw
            cases hw
          obtain ⟨ok, m, hlock⟩ := exists_lock (.client t) (.inr hfreed.owner)
          obtain ⟨pc', hpc, hlt⟩ := Client.nextPc_lock b c.node hw ok
          have hcall : clientCall f t (.lock .file ok) = some { f with fileMutex := m } := by
            simp [clientCall, hlock]
          have hfree' : ListFree f t := by
            unfold ListFree
            rw [hfreed.listMutex]
            exact hfree
          exact hgoes ⟨hhelps, by rw [threads, hfreed.threadList]; rfl, fun _ => hfree'⟩
            (hfreed.clients t c hc hout) hpc hlt hcall (.inr hfree')
        | list =>
          have hopen : s.listMutex.destroyed = true ∨ s.listMutex.owner = none := by
            rcases hfree with h | h | h
            · exact .inl h
            · exact .inr h
            · obtain ⟨d, hd, hholds⟩ := hs.lock.listClient t h
              obtain rfl : c = d := Option.some.inj (hc.symm.trans hd)
              rw [Client.waitsFor_of_holdsList hholds] at hw
              cases hw
          obtain ⟨ok, m, hlock⟩ := exists_lock (.client t) hopen
          obtain ⟨pc', hpc, hlt⟩ := Client.nextPc_lock b c.node hw ok
          have hcall : clientCall s t (.lock .list ok) = some { s with listMutex := m } := by
            simp [clientCall, hlock]
          exact hgoes hself hc hpc hlt hcall (.inr hfree)

/-- So can all that are listed, one after the other. -/
theorem Sound.exitsAll (b : Build) (daemonMode : Bool) {l : List τ} (hs : Sound s)
    (hne : s.stack ≠ []) (hfree : s.listMutex.owner = none) (hl : ∀ t ∈ l, t ∈ s.threads) :
    ∃ s', Helps b daemonMode s s' ∧ s'.listMutex.owner = none ∧ s'.threads = s.threads ∧
      ∀ t ∈ l, s'.exited t = true := by
  induction l generalizing s with
  | nil => exact ⟨s, .refl hs, hfree, rfl, List.forall_mem_nil _⟩
  | cons t l ih =>
    rw [List.forall_mem_cons] at hl
    obtain ⟨n, hn, rfl⟩ := List.mem_map.mp hl.1
    obtain ⟨c, hc, hlinked, -⟩ := hs.attended.listed n hn
    have hfree' : ListFree s n.thread := .inr (.inl hfree)
    obtain ⟨f, hends, hexited⟩ := hs.exits b daemonMode hne hc hlinked
      (.inr hfree')
    obtain ⟨s', hhelps, howner, hthreads, hall⟩ := ih hends.helps.sound (hends.helps.stack ▸ hne)
      ((hends.free hfree').owner hends.helps.sound hexited) (fun t ht => hends.threads ▸ hl.2 t ht)
    exact ⟨s', hends.helps.trans hhelps, howner, hthreads.trans hends.threads,
      List.forall_mem_cons.mpr ⟨hhelps.exited _ hexited, hall⟩⟩

/-- A lock of the main thread that is not in a critical section. -/
theorem Sound.listOpens (b : Build) (daemonMode : Bool) (hs : Sound s)
    (hstack : s.stack = p :: rest) (hp : inside p = false) :
    ∃ s', Helps b daemonMode s s' ∧ (s'.listMutex.destroyed = true ∨ s'.listMutex.owner = none) := by
  have hmain : s.listMutex.owner ≠ some .main := by
    intro h
    rw [(hs.lock.inSection hstack h).inside] at hp
    cases hp
  obtain ⟨s', hhelps, hfree⟩ := hs.freeList b daemonMode (by simp [hstack]) hmain
  exact ⟨s', hhelps, .inr hfree⟩

/-- Before `cleanup_thread_list` takes the mutex every listed thread can mark its node. -/
theorem Sound.completes (b : Build) (daemonMode : Bool) (hs : Sound s)
    (hstack : s.stack = .cleanLock :: rest) :
    ∃ s', Helps b daemonMode s s' ∧ (s'.listMutex.destroyed = true ∨ s'.listMutex.owner = none) ∧
      ∀ n ∈ s'.threadList, n.completed = true := by
  have hne : s.stack ≠ [] := by simp [hstack]
  obtain ⟨f, hhelps, hopen⟩ := hs.listOpens b daemonMode hstack rfl
  have hfree : f.listMutex.owner = none := hopen.elim hhelps.sound.lock.destroyed id
  obtain ⟨s', hhelps', hfree', hthreads, hall⟩ := hhelps.sound.exitsAll b
    daemonMode (hhelps.stack ▸ hne) hfree fun t ht => ht
  refine ⟨s', hhelps.trans hhelps', .inr hfree', fun n hn => ?_⟩
  rw [← Bool.not_eq_false]
  intro hcompl
  obtain ⟨c, hc, hexited⟩ := exited_eq_true.mp (hall n.thread
    (hthreads ▸ List.mem_map_of_mem hn))
  exact hhelps'.sound.attended.unmarked n hn hcompl ⟨c, hc, .inr hexited⟩

/-- The timer thread gets through its section. -/
theorem Sound.timerLeaves (b : Build) (daemonMode : Bool) (hs : Sound s) (hne : s.stack ≠ []) :
    ∃ s', Helps b daemonMode s s' ∧
      (s'.timer = s.timer ∨ s'.timer = some .unlock) ∧
      s'.timer ≠ some .lock ∧ s'.timer ≠ some .write := by
  have hwrite : ∀ f, Helps b daemonMode s f → f.timer = some .write →
      ∃ s', Helps b daemonMode s s' ∧
        (s'.timer = s.timer ∨ s'.timer = some .unlock) ∧
        s'.timer ≠ some .lock ∧ s'.timer ≠ some .write := fun f hf ht =>
    ⟨_, hf.trans (hf.sound.timerWrites (hf.stack ▸ hne) ht), .inr rfl, by simp⟩
  by_cases hw : s.timer = some .write
  · exact hwrite s (.refl hs) hw
  by_cases hl : s.timer = some .lock
  · obtain ⟨f, hhelps, hfreed⟩ := hs.freeFile b daemonMode hne
    obtain ⟨ok, m, hlock⟩ := exists_lock .timer (.inr hfreed.owner)
    have hstep : timerStep f ok .lock = some { f with fileMutex := m, timer := some .write } := by
      simp [timerStep, hlock]
    exact hwrite _ (hhelps.trans (.timer ok hhelps.sound (hhelps.stack ▸ hne) (hfreed.timer hl)
      hstep rfl rfl rfl rfl)) rfl
  · exact ⟨s, .refl hs, .inl rfl, hl, hw⟩

/-- How far the main thread is from the end of a function, without its loops. -/
def weight : Place τ → Nat
  | .destroyList | .ret | .handlerEnd _ | .removeUnlock => 1
  | .destroyFile | .removeLoop _ | .removeJoin _ _ => 2
  | .cleanUnlock | .removeLock => 3
  | .cleanLoop | .cleanJoin _ => 4
  | .cleanLock => 5
  | .closeServer => 6
  | .timerJoin => 7
  | .cleanup => 8
  | .handler _ | .loop | .setupClose | .socket | .daemon | .timerCreate => 10
  | .accept | .mallocData | .create | .setsockopt | .bind | .listen | .sigaction .term => 11
  | .sigaction .int => 12

/-- How many steps its loop over the list still takes. -/
def turns (s : Process τ) : Nat :=
  match s.stack with
  | .cleanLoop :: _ => 2 * s.threads.length
  | .cleanJoin _ :: _ => 2 * s.threads.length + 1
  | .removeLoop i :: _ => 2 * (s.threads.length - i)
  | .removeJoin _ i :: _ => 2 * (s.threads.length - i) + 1
  | _ => 0

/-- What is left of the shutdown: the functions, and in them the loop. -/
def rank (s : Process τ) : Nat ×ₗ Nat := toLex ((s.stack.map weight).sum, s.turns)

instance (s : Process τ) (a : Action τ) : Decidable (s.Cancels a) :=
  match a with
  | .main _ => inferInstanceAs (Decidable (s.stack.head? = some .cleanup ∧ s.timerThread = true))
  | .created _ | .client _ _ | .timer _ | .cancelled | .signal _ =>
    inferInstanceAs (Decidable False)

instance (s : Process τ) (a : Action τ) : Decidable (s.Careful a) :=
  inferInstanceAs (Decidable
    (s.Allowed a ∧ (s.Cancels a → s.timer ≠ some .lock ∧ s.timer ≠ some .write)))

end Process

end Aesd
