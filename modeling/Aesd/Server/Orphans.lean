import Aesd.Server.Deadlock
import Aesd.Server.Frames
import Aesd.Server.Signals
import Mathlib.Data.Fintype.Basic

/-!
# Client threads that outlive the shutdown

`cleanup_thread_list` joins the threads in the list, but a thread links itself there, some time after
`main` created it, and not at all if there is no memory for its node; after the signal handler ran,
the accept loop may still create a thread; and a client thread that takes a signal runs
`cleanup_on_signal` itself.

* `Process.Registers`: without the first three, every client thread is listed when
  `cleanup_thread_list` begins.
* `Tracked`: every client thread is on its way into the list, in it, or joined.
* `Signalled.no_thread_outlives_cleanup`: the result for all runs that meet `Signalled.Registers`.
-/

namespace Aesd

/-- `add_thread_to_list` before the node is in the list. -/
def Pc.unlinked : Pc → Bool
  | .addMalloc | .addLock | .addLink => true
  | _ => false

/-- A thread links its node once, unless there is no memory for it. -/
theorem Client.Step.unlinked {b : Build} {node : Bool} {pc pc' : Pc} {ev : Sys}
    (h : Client.Step b node pc ev pc') :
    pc'.unlinked = pc.unlinked ∨ (pc'.unlinked = false ∧ ev = .link) ∨
      (pc = .addMalloc ∧ ev = .malloc false) := by
  cases h with
  | addFails => exact .inr (.inr ⟨rfl, rfl⟩)
  | addLink => exact .inr (.inl ⟨rfl, rfl⟩)
  | recv => exact .inl (dispatch_elim (P := fun pc => pc.unlinked = false) rfl (fun _ => rfl) rfl)
  | write => exact .inl (afterWriteAll_elim (P := fun pc => pc.unlinked = false) _ (fun _ => rfl) rfl
      rfl (fun _ => rfl))
  | read => exact .inl (afterRead_elim (P := fun pc => pc.unlinked = false) _ rfl (fun _ => rfl))
  | send => exact .inl (afterSendAll_elim (P := fun pc => pc.unlinked = false) _ _ (fun _ => rfl) rfl
      rfl)
  | @unlock after => cases after <;> exact .inl rfl
  | _ => exact .inl rfl

namespace Process

variable {τ : Type*}

/-- `cleanup_thread_list` with the mutex. -/
def emptying : Place τ → Bool
  | .cleanLoop | .cleanJoin _ | .cleanUnlock => true
  | _ => false

/-- `cleanup_on_signal` after `cleanup_thread_list`. -/
def emptied : Place τ → Bool
  | .destroyFile | .destroyList => true
  | _ => false

/-- There is memory for every node, `cleanup_thread_list` begins when every client thread has linked
its node, and no thread is created once the handler ran. -/
def Registers (s : Process τ) : Action τ → Prop
  | .client t (.malloc ok) => ok = false → ∀ c ∈ s.clients t, c.pc ≠ .addMalloc
  | .main _ => s.stack.head? = some .cleanLock → ∀ t, ∀ c ∈ s.clients t, c.pc.unlinked = false
  | .created _ => s.keepRunning = true
  | _ => True

instance [Fintype τ] [DecidableEq τ] (s : Process τ) (a : Action τ) : Decidable (s.Registers a) :=
  match a with
  | .client t (.malloc ok) =>
    inferInstanceAs (Decidable (ok = false → ∀ c ∈ s.clients t, c.pc ≠ .addMalloc))
  | .main _ =>
    inferInstanceAs (Decidable (s.stack.head? = some .cleanLock →
      ∀ t, ∀ c ∈ s.clients t, c.pc.unlinked = false))
  | .created _ => inferInstanceAs (Decidable (s.keepRunning = true))
  | .client _ (.lock _ _) | .client _ (.unlock _) | .client _ .link | .client _ .mark
  | .client _ (.recv _) | .client _ (.open _) | .client _ (.ioctl _ _) | .client _ (.write _ _)
  | .client _ (.send _ _) | .client _ (.read _) | .client _ (.lseek _) | .client _ .close
  | .client _ .closeSocket | .client _ .free | .timer _ | .cancelled | .signal _ =>
    inferInstanceAs (Decidable True)

/-- The client thread that the step joins. -/
def joinedBy (s : Process τ) : Action τ → Option τ
  | .main _ => s.stack.head?.bind joins
  | _ => none

/-! ## Where the client threads are -/

variable {b : Build} {daemonMode ok : Bool} {s s' : Process τ} {a : Action τ} {t : τ} {p q : Place τ}
  {rest : List (Place τ)}

/-- Every client thread is joined. -/
def AllJoined (J : List τ) (s : Process τ) : Prop := ∀ t, s.clients t ≠ none → t ∈ J

/-- As long as `thread_list_mutex` was not destroyed: it excludes, and a thread that has linked its
node is listed, joined, or being joined. In `cleanup_thread_list` all have linked theirs. -/
structure Accounted (J : List τ) (s : Process τ) : Prop where
  undestroyed : s.listMutex.destroyed = false
  main : ∀ p ∈ s.stack, inside p = true → s.listMutex.owner = some .main
  once : s.stack.Pairwise fun p q => inside p = true → inside q = false
  client : ∀ t c, s.clients t = some c → c.pc.holdsList = true →
    s.listMutex.owner = some (.client t)
  account : ∀ t c, s.clients t = some c → c.pc.unlinked = true ∨
    (∃ n ∈ s.threadList, n.thread = t) ∨ t ∈ J ∨ ∃ p ∈ s.stack, joins p = some t
  linked : ∀ p ∈ s.stack, emptying p = true → ∀ t c, s.clients t = some c → c.pc.unlinked = false
  empty : .cleanUnlock ∈ s.stack → s.threadList = []

/-- What is joined has exited, and behind `cleanup_thread_list` all is joined. -/
structure Tracked (J : List τ) (s : Process τ) : Prop where
  exited : ∀ t ∈ J, s.exited t = true
  settled : (0 < s.listMutex.destroys ∨ ∃ p ∈ s.stack, emptied p = true) → AllJoined J s
  accounted : s.listMutex.destroys = 0 → Accounted J s

variable {J J' : List τ}

theorem inside_of_joins (h : joins p = some t) : inside p = true := by
  cases p <;> first | rfl | cases h

theorem inside_of_emptying (h : emptying p = true) : inside p = true := by
  cases p <;> first | rfl | cases h

theorem not_inside_of_emptied (h : emptied p = true) : inside p = false := by
  cases p <;> first | rfl | cases h

theorem cleaningUp_of_emptied (h : emptied p = true) : cleaningUp p = true := by
  cases p <;> first | rfl | cases h

/-- Only the destruction of `file_mutex` leads to that of `thread_list_mutex`. -/
theorem Goes.emptied {new : List (Place τ)} (hg : Goes p new) :
    ∀ q ∈ new, emptied q = true → Process.emptied p = true := by
  cases hg with
  | @main _ q _ _ hq =>
    rw [List.forall_mem_singleton]
    intro he
    rw [not_ofMain_of_cleaningUp (cleaningUp_of_emptied he)] at hq
    cases hq.1
  | _ => simp [Process.emptied]

namespace Accounted

/-- In a critical section of the main thread there is none below. -/
theorem alone (h : Accounted J s) (hstack : s.stack = p :: rest) (hp : inside p = true) :
    ∀ q ∈ rest, inside q = false := by
  have honce := h.once
  rw [hstack, List.pairwise_cons] at honce
  exact fun q hq => honce.1 q hq hp

/-- While nobody holds the mutex, there is none at all. -/
theorem outside (h : Accounted J s) (hfree : s.listMutex.owner = none) :
    ∀ q ∈ s.stack, inside q = false := by
  intro q hq
  rw [← Bool.not_eq_true]
  intro hin
  rw [h.main q hq hin] at hfree
  cases hfree

/-- The end of `cleanup_thread_list`. -/
theorem allJoined (h : Accounted J s) (hstack : s.stack = .cleanUnlock :: rest) : AllJoined J s := by
  intro t ht
  obtain ⟨c, hc⟩ := Option.ne_none_iff_exists'.mp ht
  have hmem : .cleanUnlock ∈ s.stack := by
    rw [hstack]
    exact List.mem_cons_self
  rcases h.account t c hc with hun | ⟨n, hn, -⟩ | hJ | ⟨p, hp, hjoin⟩
  · rw [h.linked _ hmem rfl t c hc] at hun
    cases hun
  · rw [h.empty hmem] at hn
    cases hn
  · exact hJ
  · rw [hstack, List.mem_cons] at hp
    rcases hp with rfl | hp
    · cases hjoin
    · have := inside_of_joins hjoin
      rw [h.alone hstack rfl p hp] at this
      cases this

end Accounted

namespace Tracked

/-- A step that has nothing to do with the list. -/
theorem aside (h : Tracked J s) (new : List (Place τ)) (hstack : s.stack = p :: rest)
    (hp : inside p = false) (hclients : s'.clients = s.clients) (hmutex : s'.listMutex = s.listMutex)
    (hlist : s'.threadList = s.threadList) (hstack' : s'.stack = new ++ rest)
    (hnew : ∀ q ∈ new, inside q = false) (hemptied : ∀ q ∈ new, emptied q = true → emptied p = true) :
    Tracked J s' := by
  have htail : ∀ q, q ∈ rest → q ∈ s.stack := fun q hq => by
    rw [hstack]
    exact List.mem_cons_of_mem _ hq
  have hrest : ∀ q ∈ s'.stack, inside q = true → q ∈ rest := by
    intro q hq hin
    rw [hstack', List.mem_append] at hq
    refine hq.resolve_left fun hq => ?_
    rw [hnew q hq] at hin
    cases hin
  refine ⟨fun t ht => ?_, fun hset => ?_, fun hdes => ?_⟩
  · rw [Process.exited, hclients]
    exact h.exited t ht
  · rw [AllJoined, hclients]
    apply h.settled
    rw [hmutex, hstack'] at hset
    apply hset.imp_right
    rintro ⟨q, hq, he⟩
    rcases List.mem_append.mp hq with hq | hq
    · exact ⟨p, by rw [hstack]; exact List.mem_cons_self, hemptied q hq he⟩
    · exact ⟨q, htail q hq, he⟩
  · rw [hmutex] at hdes
    have ha := h.accounted hdes
    exact {
      undestroyed := hmutex ▸ ha.undestroyed
      main := fun q hq hin => by
        rw [hmutex]
        exact ha.main q (htail q (hrest q hq hin)) hin
      once := by
        have honce := ha.once
        rw [hstack, List.pairwise_cons] at honce
        rw [hstack', List.pairwise_append]
        refine ⟨List.pairwise_of_forall_mem_list fun q _ r hr _ => hnew r hr, honce.2,
          fun q hq r _ hin => ?_⟩
        rw [hnew q hq] at hin
        cases hin
      client := by
        rw [hclients, hmutex]
        exact ha.client
      account := fun t c hc => by
        rw [hclients] at hc
        rw [hlist]
        refine (ha.account t c hc).imp_right (Or.imp_right (Or.imp_right ?_))
        rintro ⟨q, hq, hjoin⟩
        rw [hstack, List.mem_cons] at hq
        rcases hq with rfl | hq
        · rw [inside_of_joins hjoin] at hp
          cases hp
        · exact ⟨q, by rw [hstack']; exact List.mem_append_right _ hq, hjoin⟩
      linked := fun q hq he => by
        rw [hclients]
        exact ha.linked q (htail q (hrest q hq (inside_of_emptying he))) he
      empty := fun hq => by
        rw [hlist]
        exact ha.empty (htail _ (hrest _ hq rfl)) }

/-- The lock of a critical section of the main thread. -/
theorem locked {m : MutexState τ} (h : Tracked J s) (hstack : s.stack = p :: rest)
    (hlock : s.listMutex.lock .main ok = some m) (hp : joins p = none) (hq : q = .removeLoop 0 ∨
      q = .cleanLoop ∧ ∀ t c, s.clients t = some c → c.pc.unlinked = false) :
    Tracked J { s with listMutex := m, stack := q :: rest } := by
  have htail : ∀ r, r ∈ rest → r ∈ s.stack := fun r hr => by
    rw [hstack]
    exact List.mem_cons_of_mem _ hr
  have hdes : m.destroys = s.listMutex.destroys := (MutexState.used_lock hlock).destroys
  refine ⟨h.exited, fun hset => h.settled ?_, fun hzero => ?_⟩
  · refine hset.imp (fun hd => hdes ▸ hd) ?_
    rintro ⟨r, hr, he⟩
    rcases List.mem_cons.mp hr with rfl | hr
    · rcases hq with rfl | ⟨rfl, -⟩ <;> cases he
    · exact ⟨r, htail r hr, he⟩
  · have ha := h.accounted (hdes ▸ hzero)
    rcases MutexState.lock_eq_some hlock with ⟨hd, -⟩ | ⟨-, -, hfree, rfl⟩
    · rw [ha.undestroyed] at hd
      cases hd
    have hrest : ∀ r ∈ rest, inside r = false := fun r hr => ha.outside hfree r (htail r hr)
    exact {
      undestroyed := ha.undestroyed
      main := fun _ _ _ => rfl
      once := List.pairwise_cons.mpr ⟨fun r hr _ => hrest r hr, by
        have honce := ha.once
        rw [hstack, List.pairwise_cons] at honce
        exact honce.2⟩
      client := fun t c hc hpc => by
        have := ha.client t c hc hpc
        rw [hfree] at this
        cases this
      account := fun t c hc => by
        refine (ha.account t c hc).imp_right (Or.imp_right (Or.imp_right ?_))
        rintro ⟨r, hr, hjoin⟩
        rw [hstack, List.mem_cons] at hr
        rcases hr with rfl | hr
        · rw [hp] at hjoin
          cases hjoin
        · exact ⟨r, List.mem_cons_of_mem _ hr, hjoin⟩
      linked := fun r hr he => by
        rcases List.mem_cons.mp hr with rfl | hr
        · rcases hq with rfl | ⟨-, hlinked⟩
          · cases he
          · exact hlinked
        · have := inside_of_emptying he
          rw [hrest r hr] at this
          cases this
      empty := fun hr => by
        rcases List.mem_cons.mp hr with rfl | hr
        · rcases hq with hq | ⟨hq, -⟩ <;> cases hq
        · cases hrest _ hr }

/-- A step inside a critical section: a node leaves the list to be joined, and is joined. -/
theorem within (h : Tracked J s) (hstack : s.stack = p :: rest) (hp : inside p = true)
    (hq : inside q = true) (hclients : s'.clients = s.clients) (hmutex : s'.listMutex = s.listMutex)
    (hstack' : s'.stack = q :: rest) (hJ : ∀ t ∈ J, t ∈ J')
    (hexited : ∀ t ∈ J', t ∈ J ∨ s.exited t = true)
    (hnode : ∀ n ∈ s.threadList, n ∈ s'.threadList ∨ joins q = some n.thread)
    (hjoin : ∀ t, joins p = some t → t ∈ J') (hemptying : emptying q = true → emptying p = true)
    (hempty : s.threadList = [] ∨ q = .cleanUnlock → s'.threadList = []) : Tracked J' s' := by
  have hnot : ∀ {r : Place τ}, inside r = true → emptied r = true → False := by
    intro r hin he
    rw [not_inside_of_emptied he] at hin
    cases hin
  refine ⟨fun t ht => ?_, fun hset t ht => ?_, fun hdes => ?_⟩
  · rw [Process.exited, hclients]
    exact (hexited t ht).elim (h.exited t) id
  · rw [hclients] at ht
    refine hJ t (h.settled ?_ t ht)
    rw [hmutex, hstack'] at hset
    apply hset.imp_right
    rintro ⟨r, hr, he⟩
    rcases List.mem_cons.mp hr with rfl | hr
    · exact (hnot hq he).elim
    · exact ⟨r, by rw [hstack]; exact List.mem_cons_of_mem _ hr, he⟩
  · rw [hmutex] at hdes
    have ha := h.accounted hdes
    have hrest := ha.alone hstack hp
    have hhead : p ∈ s.stack := by
      rw [hstack]
      exact List.mem_cons_self
    exact {
      undestroyed := hmutex ▸ ha.undestroyed
      main := fun _ _ _ => by
        rw [hmutex]
        exact ha.main p hhead hp
      once := by
        have honce := ha.once
        rw [hstack, List.pairwise_cons] at honce
        rw [hstack', List.pairwise_cons]
        exact ⟨fun r hr _ => hrest r hr, honce.2⟩
      client := by
        rw [hclients, hmutex]
        exact ha.client
      account := fun t c hc => by
        rw [hclients] at hc
        rcases ha.account t c hc with hun | ⟨n, hn, rfl⟩ | hJt | ⟨r, hr, hjoinr⟩
        · exact .inl hun
        · rcases hnode n hn with hn | hn
          · exact .inr (.inl ⟨n, hn, rfl⟩)
          · exact .inr (.inr (.inr ⟨q, by rw [hstack']; exact List.mem_cons_self, hn⟩))
        · exact .inr (.inr (.inl (hJ t hJt)))
        · rw [hstack, List.mem_cons] at hr
          rcases hr with rfl | hr
          · exact .inr (.inr (.inl (hjoin t hjoinr)))
          · have := inside_of_joins hjoinr
            rw [hrest r hr] at this
            cases this
      linked := fun r hr he => by
        rw [hclients]
        rw [hstack', List.mem_cons] at hr
        rcases hr with rfl | hr
        · exact ha.linked p hhead (hemptying he)
        · have := inside_of_emptying he
          rw [hrest r hr] at this
          cases this
      empty := fun hr => by
        rw [hstack', List.mem_cons] at hr
        rcases hr with rfl | hr
        · exact hempty (.inr rfl)
        · cases hrest _ hr }

/-- The unlock of a critical section, once everything is joined at the end of
`cleanup_thread_list`. -/
theorem unlocked (h : Tracked J s) (new : List (Place τ)) (hstack : s.stack = p :: rest)
    (hp : inside p = true) (hjoin : joins p = none) (hnew : ∀ q ∈ new, inside q = false)
    (hemptied : (∃ q ∈ new, emptied q = true) → AllJoined J s) :
    Tracked J { s with listMutex := s.listMutex.unlock, stack := new ++ rest } := by
  refine ⟨h.exited, fun hset => ?_, fun hdes => ?_⟩
  · have hcases : AllJoined J s ∨ 0 < s.listMutex.destroys ∨ ∃ q ∈ s.stack, emptied q = true := by
      rcases hset with hd | ⟨q, hq, he⟩
      · exact .inr (.inl hd)
      · rcases List.mem_append.mp hq with hq | hq
        · exact .inl (hemptied ⟨q, hq, he⟩)
        · exact .inr (.inr ⟨q, by rw [hstack]; exact List.mem_cons_of_mem _ hq, he⟩)
    exact hcases.elim id h.settled
  · have ha := h.accounted hdes
    have hall : ∀ q ∈ new ++ rest, inside q = false := fun q hq =>
      (List.mem_append.mp hq).elim (hnew q) (ha.alone hstack hp q)
    have hmain := ha.main p (by rw [hstack]; exact List.mem_cons_self) hp
    have hnone : ∀ {q : Place τ}, q ∈ new ++ rest → inside q = true → False := by
      intro q hq hin
      rw [hall q hq] at hin
      cases hin
    exact {
      undestroyed := ha.undestroyed
      main := fun q hq hin => (hnone hq hin).elim
      once := List.pairwise_of_forall_mem_list fun q _ r hr _ => hall r hr
      client := fun t c hc hpc => by
        have := ha.client t c hc hpc
        rw [hmain] at this
        cases this
      account := fun t c hc => by
        refine (ha.account t c hc).imp_right (Or.imp_right (Or.imp_right ?_))
        rintro ⟨r, hr, hjoinr⟩
        rw [hstack, List.mem_cons] at hr
        rcases hr with rfl | hr
        · rw [hjoin] at hjoinr
          cases hjoinr
        · exact ⟨r, List.mem_append_right _ hr, hjoinr⟩
      linked := fun q hq he => (hnone hq (inside_of_emptying he)).elim
      empty := fun hq => (hnone hq rfl).elim }

/-- A step of the main thread, which joins a thread that has exited. -/
theorem mainStep (h : Tracked J s) (hstack : s.stack = p :: rest)
    (hlinked : p = .cleanLock → ∀ t c, s.clients t = some c → c.pc.unlinked = false)
    (hstep : Process.mainStep b daemonMode s ok rest p = some s') :
    Tracked (J ++ (joins p).toList) s' := by
  have hnone : joins p = none → Tracked J s' → Tracked (J ++ (joins p).toList) s' := by
    intro hjoin ht
    rwa [hjoin, Option.toList_none, List.append_nil]
  cases hp : usesList p with
  | false =>
    obtain ⟨new, hgoes, hstack', hkept⟩ := mainStep_goes hp hstep
    refine hnone ?_ (h.aside new hstack (not_inside_of_usesList hp) hkept.clients hkept.listMutex
      hkept.threadList hstack' hgoes.outside hgoes.emptied)
    cases p <;> first | rfl | cases hp
  | true =>
    cases p with
    | removeJoin t i | cleanJoin t =>
      simp only [Process.mainStep, Option.ite_none_right_eq_some, Option.some.injEq] at hstep
      obtain ⟨hexited, rfl⟩ := hstep
      refine h.within hstack rfl rfl rfl rfl rfl (fun u hu => List.mem_append_left _ hu)
        (fun u hu => ?_) (fun n hn => .inl hn) ?_ (by simp [emptying]) (by simp)
      · rcases List.mem_append.mp hu with hu | hu
        · exact .inl hu
        · rw [List.mem_singleton.mp hu]
          exact .inr hexited
      · rintro u ⟨⟩
        exact List.mem_append_right _ List.mem_cons_self
    | removeLock =>
      obtain ⟨m, hm, rfl⟩ := Option.map_eq_some_iff.mp hstep
      exact hnone rfl (h.locked hstack hm rfl (.inl rfl))
    | cleanLock =>
      obtain ⟨m, hm, rfl⟩ := Option.map_eq_some_iff.mp hstep
      exact hnone rfl (h.locked hstack hm rfl (.inr ⟨rfl, hlinked rfl⟩))
    | removeLoop i =>
      apply hnone rfl
      simp only [Process.mainStep] at hstep
      split at hstep
      · cases hstep
        exact h.within hstack rfl rfl rfl rfl rfl (fun _ => id) (fun _ => .inl) (fun _ => .inl)
          (by simp [joins]) (by simp [emptying]) (by simp)
      · rename_i n hn
        split at hstep <;> cases hstep
        · -- the node leaves the list
          refine h.within hstack rfl rfl rfl rfl rfl (fun _ => id) (fun _ => .inl) (fun m hm => ?_)
            (by simp [joins]) (by simp [emptying]) (fun hnil => ?_)
          · obtain ⟨j, hj⟩ := List.mem_iff_getElem?.mp hm
            by_cases hij : j = i
            · subst hij
              obtain rfl : n = m := Option.some.inj (hn.symm.trans hj)
              exact .inr rfl
            · exact .inl (List.mem_eraseIdx_iff_getElem?.mpr ⟨j, hij, hj⟩)
          · rcases hnil with hnil | hnil
            · simp [hnil]
            · cases hnil
        · exact h.within hstack rfl rfl rfl rfl rfl (fun _ => id) (fun _ => .inl) (fun _ => .inl)
            (by simp [joins]) (by simp [emptying]) (by simp)
    | cleanLoop =>
      apply hnone rfl
      simp only [Process.mainStep] at hstep
      split at hstep
      · rename_i hnil
        cases hstep
        exact h.within hstack rfl rfl rfl rfl rfl (fun _ => id) (fun _ => .inl) (fun _ => .inl)
          (by simp [joins]) (fun _ => rfl) (fun _ => hnil)
      · rename_i n l hl
        cases hstep
        refine h.within hstack rfl rfl rfl rfl rfl (fun _ => id) (fun _ => .inl) (fun m hm => ?_)
          (by simp [joins]) (fun _ => rfl) (by simp [hl])
        rw [hl, List.mem_cons] at hm
        rcases hm with rfl | hm
        · exact .inr rfl
        · exact .inl hm
    | removeUnlock =>
      cases hstep
      exact hnone rfl (h.unlocked [] hstack rfl rfl (List.forall_mem_nil _) (by simp))
    | cleanUnlock =>
      cases hstep
      refine hnone rfl (h.unlocked [.destroyFile] hstack rfl rfl (List.forall_mem_singleton.mpr rfl)
        fun _ => ?_)
      rcases Nat.eq_zero_or_pos s.listMutex.destroys with hzero | hpos
      · exact (h.accounted hzero).allJoined hstack
      · exact h.settled (.inl hpos)
    | destroyList =>
      cases hstep
      refine hnone rfl ⟨h.exited, fun _ => ?_, by simp⟩
      exact h.settled (.inr ⟨_, by rw [hstack]; exact List.mem_cons_self, rfl⟩)
    | _ => cases hp

/-! ### The other threads -/

/-- A step that is apart from the client threads, the list and its mutex. -/
theorem same (h : Tracked J s) (hstack : s'.stack = s.stack) (hclients : s'.clients = s.clients)
    (hmutex : s'.listMutex = s.listMutex) (hlist : s'.threadList = s.threadList) : Tracked J s' := by
  refine ⟨fun t ht => ?_, ?_, fun hdes => ?_⟩
  · rw [Process.exited, hclients]
    exact h.exited t ht
  · rw [AllJoined, hclients, hmutex, hstack]
    exact h.settled
  · rw [hmutex] at hdes
    obtain ⟨h1, h2, h3, h4, h5, h6, h7⟩ := h.accounted hdes
    constructor <;> simpa only [hstack, hclients, hmutex, hlist]

theorem timer {pc : TimerPc} (h : Tracked J s) (hstep : timerStep s ok pc = some s') :
    Tracked J s' := by
  obtain ⟨m, pc', rfl, -⟩ := timerStep_frame hstep
  exact h.same rfl rfl rfl rfl

/-- A signal interrupts the main thread. -/
theorem signal (h : Tracked J s) (sig : Signal) :
    Tracked J { s with stack := .handler sig :: s.stack } := by
  refine ⟨h.exited, fun hset => h.settled (hset.imp_right ?_), fun hdes => ?_⟩
  · rintro ⟨q, hq, he⟩
    rcases List.mem_cons.mp hq with rfl | hq
    · cases he
    · exact ⟨q, hq, he⟩
  · have ha := h.accounted hdes
    exact {
      undestroyed := ha.undestroyed
      main := fun q hq hin => by
        rcases List.mem_cons.mp hq with rfl | hq
        · cases hin
        · exact ha.main q hq hin
      once := List.pairwise_cons.mpr ⟨fun _ _ => nofun, ha.once⟩
      client := ha.client
      account := fun t c hc => by
        refine (ha.account t c hc).imp_right (Or.imp_right (Or.imp_right ?_))
        rintro ⟨q, hq, hjoin⟩
        exact ⟨q, List.mem_cons_of_mem _ hq, hjoin⟩
      linked := fun q hq he => by
        rcases List.mem_cons.mp hq with rfl | hq
        · cases he
        · exact ha.linked q hq he
      empty := fun hq => by
        rcases List.mem_cons.mp hq with hq | hq
        · cases hq
        · exact ha.empty hq }

variable [DecidableEq τ] {ev : Sys} {c c' : Client} {s₁ : Process τ}

/-- `main` creates a thread: it is in the accept loop, and did not call `cleanup_on_signal`. -/
theorem created (h : Tracked J s) (hf : Frames s) (hrun : s.keepRunning = true)
    (hstack : s.stack = .create :: rest) (hnew : s.clients t = none) :
    Tracked J { s with
      clients := Function.update s.clients t (some .start), stack := .removeLock :: .loop :: rest } := by
  have hfr := hf.framed
  rw [hstack] at hfr
  obtain rfl : rest = [] := hfr.1.mp rfl
  have hzero : s.listMutex.destroys = 0 := by
    apply Nat.eq_zero_of_not_pos
    intro hpos
    rcases hf.stop hrun (.inl hpos) with hnil | hret
    · rw [hnil] at hstack
      cases hstack
    · rw [hstack] at hret
      simp at hret
  have ha := h.accounted hzero
  refine ⟨fun u hu => ?_, fun hset => ?_, fun _ => ?_⟩
  · have hexited := h.exited u hu
    have hne : u ≠ t := by
      rintro rfl
      rw [Process.exited, hnew] at hexited
      cases hexited
    simpa only [Process.exited, Function.update_of_ne hne] using hexited
  · rcases hset with hpos | ⟨q, hq, he⟩
    · rw [show s.listMutex.destroys = 0 from hzero] at hpos
      cases hpos
    · simp only [List.mem_cons, List.not_mem_nil, or_false] at hq
      rcases hq with rfl | rfl <;> cases he
  · exact {
      undestroyed := ha.undestroyed
      main := by simp [inside]
      once := by simp [inside]
      client := fun u d hd hpc => by
        rcases LockInv.update_clients hd with ⟨rfl, rfl⟩ | ⟨-, hd⟩
        · cases hpc
        · exact ha.client u d hd hpc
      account := fun u d hd => by
        rcases LockInv.update_clients hd with ⟨rfl, rfl⟩ | ⟨-, hd⟩
        · exact .inl rfl
        · refine (ha.account u d hd).imp_right (Or.imp_right (Or.imp_right ?_))
          rintro ⟨q, hq, hjoin⟩
          rw [hstack, List.mem_singleton] at hq
          subst hq
          cases hjoin
      linked := by simp [emptying]
      empty := by simp }

/-- A client's call. -/
theorem client (h : Tracked J s) (hc : s.clients t = some c)
    (hstep : Client.Step b c.node c.pc ev c'.pc) (hcall : clientCall s t ev = some s₁)
    (hmem : ¬ (c.pc = .addMalloc ∧ ev = .malloc false)) :
    Tracked J { s₁ with clients := Function.update s₁.clients t (some c') } := by
  have haside : Aside s { s₁ with clients := Function.update s₁.clients t (some c') } :=
    aside_client hc hcall
  have hstack : s₁.stack = s.stack := haside.stack
  have hdes : s₁.listMutex.destroys = s.listMutex.destroys := haside.list.destroys
  have hclients : s₁.clients = s.clients := by rw [clientCall_frame hcall]
  have hlist := LockInv.listCall hstep hcall
  have hlisted : ∀ u, (∃ n ∈ s.threadList, n.thread = u) → ∃ n ∈ s₁.threadList, n.thread = u := by
    rintro u ⟨n, hn, rfl⟩
    rcases clientCall_threadList hcall with ⟨-, hl⟩ | ⟨-, hl⟩ | ⟨-, -, hl⟩
    · exact ⟨n, by rw [hl]; exact List.mem_cons_of_mem _ hn, rfl⟩
    · rw [hl]
      exact ⟨_, List.mem_map_of_mem hn, by split <;> rfl⟩
    · exact ⟨n, hl ▸ hn, rfl⟩
  rw [hclients]
  refine ⟨fun u hu => ?_, fun hset u hu => ?_, fun hzero => ?_⟩
  · have hexited := h.exited u hu
    have hne : u ≠ t := by
      -- a thread that has exited makes no call
      rintro rfl
      rw [Process.exited, hc] at hexited
      rw [show c.pc = .exited by simpa using hexited] at hstep
      cases hstep
    simpa only [Process.exited, Function.update_of_ne hne] using hexited
  · refine h.settled ?_ u ?_
    · rw [← hstack, ← hdes]
      exact hset
    · by_cases hut : u = t
      · subst hut
        rw [hc]
        exact nofun
      · simpa only [Function.update_of_ne hut] using hu
  · have ha := h.accounted (hdes ▸ hzero)
    -- the mutex is not destroyed
    have hdestroyed : s.listMutex.destroyed ≠ true := by
      rw [ha.undestroyed]
      exact Bool.false_ne_true
    have hmain := hlist.main fun hpc => by
      rw [ha.client t c hc hpc]
      nofun
    exact {
      undestroyed := hlist.destroyed.trans ha.undestroyed
      main := fun q hq hin => hmain.1.mpr (ha.main q (hstack ▸ hq) hin)
      once := by
        show s₁.stack.Pairwise _
        rw [hstack]
        exact ha.once
      client := fun u d hd hpcd => by
        have hheld := hlist.holdsList (fun hd => absurd hd hdestroyed)
          (fun u d hd hpcd => .inl (ha.client u d hd hpcd)) hc hd hpcd
        exact hheld.resolve_right (hlist.destroyed ▸ hdestroyed)
      account := fun u d hd => by
        have hold : ∀ c, s.clients u = some c → c.pc.unlinked = d.pc.unlinked →
            d.pc.unlinked = true ∨ (∃ n ∈ s₁.threadList, n.thread = u) ∨ u ∈ J ∨
              ∃ p ∈ s₁.stack, joins p = some u := by
          intro c hc hun
          rw [← hun, hstack]
          exact (ha.account u c hc).imp_right (Or.imp_left (hlisted u))
        rcases LockInv.update_clients hd with ⟨rfl, rfl⟩ | ⟨-, hd⟩
        · rcases hstep.unlinked with hun | ⟨-, rfl⟩ | hfail
          · exact hold c hc hun.symm
          · cases hcall
            exact .inr (.inl ⟨_, List.mem_cons_self, rfl⟩)
          · exact absurd hfail hmem
        · exact hold d hd rfl
      linked := fun q hq he u d hd => by
        have hall := ha.linked q (hstack ▸ hq) he
        rcases LockInv.update_clients hd with ⟨rfl, rfl⟩ | ⟨-, hd⟩
        · rcases hstep.unlinked with hun | ⟨hun, -⟩ | hfail
          · rw [hun, hall u c hc]
          · exact hun
          · exact absurd hfail hmem
        · exact hall u d hd
      empty := fun hq => by
        have hq' : .cleanUnlock ∈ s.stack := hstack ▸ hq
        exact (hmain.2 (ha.main _ hq' rfl)).trans (ha.empty hq') }

/-- A step that meets the condition. -/
theorem next (h : Tracked J s) (hf : Frames s) (ha : s.Registers a)
    (hs : (lts b daemonMode).next s a = some s') : Tracked (J ++ (joinedBy s a).toList) s' := by
  have hnone : joinedBy s a = none → Tracked J s' → Tracked (J ++ (joinedBy s a).toList) s' := by
    intro hjoin ht
    rwa [hjoin, Option.toList_none, List.append_nil]
  cases a with
  | main ok =>
    obtain ⟨p, rest, hstack, hstep⟩ := next_main hs
    have hjoin : joinedBy s (.main ok) = joins p := by rw [joinedBy, hstack]; rfl
    rw [hjoin]
    apply h.mainStep hstack _ hstep
    rintro rfl
    exact ha (by rw [hstack, List.head?_cons])
  | created t =>
    obtain ⟨rest, hstack, hnew, rfl⟩ := next_created hs
    exact hnone rfl (h.created hf ha hstack hnew)
  | client t ev =>
    obtain ⟨-, c, c', s₁, hc, hnext, hcall, rfl⟩ := next_client hs
    obtain ⟨hstep, -⟩ := Client.next_eq_some hnext
    refine hnone rfl (h.client hc hstep hcall ?_)
    rintro ⟨hpc, rfl⟩
    exact ha rfl c hc hpc
  | timer ok =>
    obtain ⟨-, pc, -, hstep⟩ := next_timer hs
    exact hnone rfl (h.timer hstep)
  | cancelled =>
    obtain ⟨-, rfl⟩ := next_cancelled hs
    exact hnone rfl (h.same rfl rfl rfl rfl)
  | signal sig =>
    obtain ⟨-, rfl⟩ := next_signal hs
    exact hnone rfl (h.signal sig)

omit [DecidableEq τ] in
theorem init : Tracked [] (Process.init τ) where
  exited := nofun
  settled _ _ ht := absurd rfl ht
  accounted _ := {
    undestroyed := rfl
    main := by simp [Process.init, inside]
    once := by simp [Process.init]
    client := nofun
    account := nofun
    linked := by simp [Process.init, emptying]
    empty := fun h => by simp [Process.init] at h }

end Tracked

end Process

namespace Signalled

open Process

variable {τ : Type*}

/-- The main thread takes every signal, and the steps of the process meet its condition. -/
def Registers (st : Signalled τ) : Event τ → Prop
  | .process a => st.process.Registers a
  | .signal _ _ => False
  | .handler _ _ => True

instance [Fintype τ] [DecidableEq τ] (st : Signalled τ) (e : Event τ) : Decidable (st.Registers e) :=
  match e with
  | .process a => inferInstanceAs (Decidable (st.process.Registers a))
  | .signal _ _ => inferInstanceAs (Decidable False)
  | .handler _ _ => inferInstanceAs (Decidable True)

/-- The client thread that the step joins. -/
def joinedBy (st : Signalled τ) : Event τ → Option τ
  | .process a => st.process.joinedBy a
  | .signal _ _ => none
  | .handler who _ => ((st.frames who).head?.bind joins).filter st.process.exited

variable [DecidableEq τ]

/-- The client threads that a run joined. -/
def joined (b : Build) (daemonMode : Bool) (tr : List (Event τ)) : List τ :=
  (lts b daemonMode).outputs joinedBy (init τ) tr

variable {b : Build} {daemonMode : Bool} {st st' : Signalled τ} {e : Event τ} {tr : List (Event τ)}
  {J : List τ}

/-- What a run keeps that meets the condition. -/
structure Attends (J : List τ) (st : Signalled τ) : Prop where
  undisturbed : st.Undisturbed
  frames : Process.Frames st.process
  tracked : Process.Tracked J st.process

theorem Attends.next (h : Attends J st) (he : st.Registers e)
    (hs : (lts b daemonMode).next st e = some st') :
    Attends (J ++ (st.joinedBy e).toList) st' := by
  have hsignal : ∀ who sig, e ≠ .signal who sig := by
    rintro who sig rfl
    exact he
  obtain ⟨a, rfl, hstep, hundisturbed⟩ := next_undisturbed h.undisturbed hsignal hs
  exact ⟨hundisturbed, h.frames.next hstep, h.tracked.next h.frames he hstep⟩

theorem Attends.run (h : Attends J st) (hreg : (lts b daemonMode).Along Registers st tr)
    (hrun : (lts b daemonMode).run st tr = some st') :
    Attends (J ++ (lts b daemonMode).outputs joinedBy st tr) st' := by
  induction tr generalizing st J with
  | nil =>
    cases hrun
    rwa [Lts.outputs, List.append_nil]
  | cons e tr ih =>
    obtain ⟨m, h1, h2⟩ := Lts.run_cons_eq_some.mp hrun
    have h' := ih (h.next hreg.1 h1) (hreg.2 m h1) h2
    rwa [List.append_assoc, show (st.joinedBy e).toList ++ (lts b daemonMode).outputs joinedBy m tr =
      (lts b daemonMode).outputs joinedBy st (e :: tr) by rw [Lts.outputs, h1]; rfl] at h'

omit [DecidableEq τ] in
theorem Attends.init : Attends [] (init τ) := ⟨undisturbed_init, .init, .init⟩

/-- In a run that meets the condition, after `cleanup_on_signal` destroyed the mutexes every client
thread that `main` ever created has exited and was joined, makes no call any more, and runs no
handler. -/
theorem no_thread_outlives_cleanup (b : Build) (daemonMode : Bool) (tr : List (Event τ))
    (st : Signalled τ) (hreg : (lts b daemonMode).Along Registers (init τ) tr)
    (hrun : (lts b daemonMode).run (init τ) tr = some st)
    (hdes : 0 < st.process.listMutex.destroys) :
    (∀ t, st.process.clients t ≠ none →
        st.process.exited t = true ∧ t ∈ joined b daemonMode tr) ∧
      ∀ t, (∀ ev, (lts b daemonMode).next st (.process (.client t ev)) = none) ∧
        (∀ sig, (lts b daemonMode).next st (.signal (.client t) sig) = none) ∧
        ∀ ok, (lts b daemonMode).next st (.handler (.client t) ok) = none := by
  have h := Attends.init.run hreg hrun
  rw [List.nil_append] at h
  have hall : ∀ t, st.process.clients t ≠ none →
      st.process.exited t = true ∧ t ∈ joined b daemonMode tr := by
    intro t ht
    have hJ := h.tracked.settled (.inl hdes) t ht
    exact ⟨h.tracked.exited t hJ, hJ⟩
  refine ⟨hall, fun t => ⟨fun ev => ?_, fun sig => ?_, fun ok => next_handler h.undisturbed⟩⟩
  · rw [Option.eq_none_iff_forall_ne_some]
    intro st' hs
    obtain ⟨a, ha, hs, -⟩ := next_undisturbed h.undisturbed (by simp) hs
    obtain rfl : Action.client t ev = a := Event.process.inj ha
    obtain ⟨-, c, c', s₁, hc, hnext, -, -⟩ := next_client hs
    have hexited := (hall t (by rw [hc]; exact nofun)).1
    rw [Process.exited, hc] at hexited
    have hstep := (Client.next_eq_some hnext).1
    rw [show c.pc = .exited by simpa using hexited] at hstep
    cases hstep
  · have hruns : runs st.process (.client t) = false := by
      rw [runs, Bool.and_eq_false_iff]
      by_cases hc : st.process.clients t = none
      · exact .inl (by rw [hc]; rfl)
      · exact .inr (by rw [(hall t hc).1]; rfl)
    simp [lts, hruns]

/-- `main` up to the first `pthread_create`. -/
def arrive {τ : Type*} : List (Action τ) := List.replicate 9 (.main true)

/-- The thread `t` is created, registers, and leaves, before `SIGINT` comes; `cleanup_on_signal` runs
to its end. -/
def leaveThenInterrupt {τ : Type*} (t : τ) : List (Action τ) :=
  arrive ++ .created t :: List.replicate 4 (.main true) ++
    [.malloc true, .lock .list true, .link, .unlock .list, .malloc true, .recv none, .free,
      .closeSocket, .free, .lock .list true, .mark, .unlock .list].map (.client t) ++
    .signal .int :: List.replicate 10 (.main true)

theorem no_thread_outlives_cleanup_left :
    ∃ st, (lts .charDevice false).run (init Unit) ((leaveThenInterrupt ()).map .process) = some st ∧
      st.process.exited () = true ∧
      () ∈ joined .charDevice false ((leaveThenInterrupt ()).map .process) := by
  have hrun : (((lts .charDevice false).run (init Unit) ((leaveThenInterrupt ()).map .process)).map
      fun st => decide (0 < st.process.listMutex.destroys ∧ st.process.clients () ≠ none)) =
      some true := by decide
  obtain ⟨st, hs, hd⟩ := Option.map_eq_some_iff.mp hrun
  obtain ⟨hdes, hc⟩ := of_decide_eq_true hd
  exact ⟨st, hs, (no_thread_outlives_cleanup .charDevice false _ st (by decide) hs hdes).1 () hc⟩

/-- From the signal to the end of the handler's `cleanup_on_signal`, with an empty list. -/
def interruptAll : List (Action Nat) := interrupt ++ List.replicate 5 (.main true)

/-- There is no memory for the thread's node; after the shutdown it locks `file_mutex`. -/
def withoutNode : List (Action Nat) :=
  serve ++ sweep ++ [.client 0 (.malloc false), .client 0 (.malloc true)] ++ interruptAll ++
    [.client 0 (.recv (some [98, 10])), .client 0 (.lock .file false)]

/-- The thread has not linked its node when `SIGINT` comes; it does after the shutdown. -/
def beforeLink : List (Action Nat) :=
  serve ++ sweep ++ interruptAll ++
    [.client 0 (.malloc true), .client 0 (.lock .list false), .client 0 .link]

/-- `SIGINT` comes before `pthread_create`, which follows the shutdown. -/
def afterHandler : List (Action Nat) := arrive ++ interruptAll ++ [.main true, .created 0]

/-- `SIGINT` comes again when the main thread is in the handler, and a registered client thread takes
it: that thread runs `cleanup_on_signal` to its end, where it cannot join itself, returns to its `recv`
and locks `file_mutex`. -/
def byClient : List (Event Nat) :=
  (serve ++ sweep ++ register ++ [Action.signal .int, .main true]).map .process ++
    .signal (.client 0) .int :: List.replicate 11 (.handler (.client 0) true) ++
    [.process (.client 0 (.recv (some [98, 10]))), .process (.client 0 (.lock .file false))]

/-- In each of the four runs the client thread outlives the shutdown. -/
theorem thread_outlives_cleanup :
    (∃ st, (lts .charDevice false).run (init Nat) (withoutNode.map .process) = some st ∧
      st.process.fileMutex.destroyed = true ∧ st.process.listMutex.destroyed = true ∧
      st.process.clients 0 ≠ none ∧ st.process.exited 0 = false ∧
      0 ∉ joined .charDevice false (withoutNode.map .process) ∧
      st.process.fileMutex.misused = true) ∧
    (∃ st, (lts .charDevice false).run (init Nat) (beforeLink.map .process) = some st ∧
      st.process.fileMutex.destroyed = true ∧ st.process.listMutex.destroyed = true ∧
      st.process.clients 0 ≠ none ∧ st.process.exited 0 = false ∧
      0 ∉ joined .charDevice false (beforeLink.map .process) ∧
      st.process.listMutex.misused = true ∧ st.process.threadList = [⟨0, false⟩]) ∧
    (∃ st, (lts .charDevice false).run (init Nat) (afterHandler.map .process) = some st ∧
      st.process.fileMutex.destroyed = true ∧ st.process.listMutex.destroyed = true ∧
      st.process.clients 0 ≠ none ∧ st.process.exited 0 = false ∧
      0 ∉ joined .charDevice false (afterHandler.map .process)) ∧
    ∃ st, (lts .charDevice false).run (init Nat) byClient = some st ∧
      st.process.fileMutex.destroyed = true ∧ st.process.listMutex.destroyed = true ∧
      st.process.clients 0 ≠ none ∧ st.process.exited 0 = false ∧
      0 ∉ joined .charDevice false byClient ∧ st.process.fileMutex.misused = true := by
  refine ⟨⟨Option.get _ (by decide), (Option.some_get _).symm, ?_⟩,
    ⟨Option.get _ (by decide), (Option.some_get _).symm, ?_⟩,
    ⟨Option.get _ (by decide), (Option.some_get _).symm, ?_⟩,
    ⟨Option.get _ (by decide), (Option.some_get _).symm, ?_⟩⟩ <;> decide

end Signalled

end Aesd
