import Aesd.Lib.LinkedList
import Aesd.Server.Process

/-!
# The list of client threads (`thread_manager.c`)

`add_thread_to_list`, the marking at the end of `handle_client`, `remove_completed_threads` and
`cleanup_thread_list` on the nodes in memory, each as one step under `thread_list_mutex`. An address
is never given out twice, so an access through a pointer to a freed node shows as a fault.

* `Disposed`: what a node that leaves the list is owed; `Ends`: how the loops that dispose of nodes
  end.
* `removeLoop_ends`, `cleanupLoop_ends`: the two loops, on any list.
-/

namespace Aesd

open LinkedList (Cell Store Seg IsList seg_append)

/-- Why a step does not end. -/
inductive Stop where
  /-- An access to a node that is not allocated, or a second join. -/
  | fault
  /-- `pthread_join` waits for the thread. -/
  | blocked
  /-- It is not what the thread does next. -/
  | disabled
  /-- The loop goes on. -/
  | fuel
  deriving DecidableEq, Repr

/-- How far a client thread is. -/
inductive Phase where
  /-- Before `add_thread_to_list`. -/
  | started
  /-- In `handle_client`, with its `my_node`. -/
  | serving (myNode : Option Nat)
  /-- Behind the marking. -/
  | returning
  | finished
  | joined
  deriving DecidableEq, Repr

/-- Behind the marking. -/
def Phase.isPast : Phase → Bool
  | .returning | .finished | .joined => true
  | _ => false

/-- The calls that end the life of a thread and of its node. -/
inductive Disposal (τ : Type*) where
  | join (t : τ)
  | free (node : Nat)
  deriving DecidableEq, Repr

/-- The thread list and the threads. -/
structure Registry (τ : Type) where
  nodes : Store Nat (ThreadNode τ)
  /-- The next address. -/
  fresh : Nat
  /-- `thread_list_head`. -/
  head : Option Nat
  threads : τ → Phase
  disposals : List (Disposal τ)

namespace Registry

variable {τ : Type}

/-- Before the first client. -/
def start : Registry τ :=
  { nodes := fun _ => none, fresh := 0, head := none, threads := fun _ => .started,
    disposals := [] }

/-- A function of `thread_manager.c` on the thread list. -/
abbrev Code (τ : Type) := StateT (Registry τ) (Except Stop)

/-- `*node`. -/
def deref (node : Nat) : Code τ (Cell Nat (ThreadNode τ)) := fun s =>
  match s.nodes node with
  | some c => .ok (c, s)
  | none => .error .fault

/-- `*node = c`. -/
def assign (node : Nat) (c : Cell Nat (ThreadNode τ)) : Code τ Unit := do
  let _ ← deref node
  modify fun s => { s with nodes := Function.update s.nodes node (some c) }

/-- `thread_list_head = node`. -/
def setHead (node : Option Nat) : Code τ Unit := modify fun s => { s with head := node }

/-- `free(node)`. -/
def free (node : Nat) : Code τ Unit := do
  let _ ← deref node
  modify fun s => { s with
    nodes := Function.update s.nodes node none, disposals := s.disposals ++ [.free node] }

variable [DecidableEq τ]

def setPhase (t : τ) (phase : Phase) : Code τ Unit :=
  modify fun s => { s with threads := Function.update s.threads t phase }

/-- `pthread_join(t, NULL)`. -/
def pthreadJoin (t : τ) : Code τ Unit := fun s =>
  match s.threads t with
  | .finished =>
    .ok ((), { s with
      threads := Function.update s.threads t .joined, disposals := s.disposals ++ [.join t] })
  | .joined => .error .fault
  | _ => .error .blocked

/-- `add_thread_to_list`; `ok` is whether `malloc` returns a node. -/
def addThreadToList (thread : τ) (ok : Bool) : Code τ (Option Nat) := do
  if ok then
    let s ← get
    let node := s.fresh
    let cell := { val := { thread := thread, completed := false }, next := s.head }
    set { s with nodes := Function.update s.nodes node (some cell), fresh := s.fresh + 1 }
    setHead (some node)
    return some node
  else
    return none

/-- The end of `handle_client`: `my_node->completed = 1`. -/
def markCompleted : Option Nat → Code τ Unit
  | some myNode => do
    let c ← deref myNode
    assign myNode { c with val := { c.val with completed := true } }
  | none => return

/-- `prev->next = next`, or `thread_list_head = next` at the head of the list. -/
def setLink (prev next : Option Nat) : Code τ Unit :=
  match prev with
  | some prev => do
    let p ← deref prev
    assign prev { p with next := next }
  | none => setHead next

/-- The loop of `remove_completed_threads`. -/
def removeLoop : Nat → Option Nat → Option Nat → Code τ Unit
  | 0, _, _ => throw .fuel
  | _ + 1, _, none => return
  | fuel + 1, prev, some current => do
    let c ← deref current
    if c.val.completed then
      let toFree := current
      setLink prev c.next
      let c ← deref current
      let current := c.next
      pthreadJoin (← deref toFree).val.thread
      free toFree
      removeLoop fuel prev current
    else
      removeLoop fuel (some current) c.next

/-- `remove_completed_threads`. -/
def removeCompletedThreads (fuel : Nat) : Code τ Unit := do
  removeLoop fuel none (← get).head

/-- The loop of `cleanup_thread_list`. -/
def cleanupLoop : Nat → Code τ Unit
  | 0 => throw .fuel
  | fuel + 1 => do
    match (← get).head with
    | none => return
    | some temp =>
      setHead (← deref temp).next
      pthreadJoin (← deref temp).val.thread
      free temp
      cleanupLoop fuel

/-- `cleanup_thread_list`. -/
def cleanupThreadList (fuel : Nat) : Code τ Unit := cleanupLoop fuel

/-- The end of `handle_client` in a thread that has come so far. -/
def endClient (t : τ) : Phase → Code τ Unit
  | .serving myNode => do
    markCompleted myNode
    setPhase t .returning
  | _ => throw .disabled

/-- The atomic steps. -/
inductive Action (τ : Type*) where
  /-- A client thread calls `add_thread_to_list`. -/
  | add (t : τ) (ok : Bool)
  /-- A client thread ends its `handle_client`. -/
  | mark (t : τ)
  /-- A client thread has returned. -/
  | finish (t : τ)
  | remove
  | cleanup
  deriving DecidableEq, Repr

/-- What a step does. The loops have fuel for a list of all nodes that were ever allocated. -/
def exec (a : Action τ) : Code τ Unit := do
  let s ← get
  match a with
  | .add t ok =>
    if s.threads t = .started then setPhase t (.serving (← addThreadToList t ok))
    else throw .disabled
  | .mark t => endClient t (s.threads t)
  | .finish t => if s.threads t = .returning then setPhase t .finished else throw .disabled
  | .remove => removeCompletedThreads (s.fresh + 1)
  | .cleanup => cleanupThreadList (s.fresh + 1)

/-- All interleavings of the steps. -/
def lts : Lts (Registry τ) (Action τ) where
  next s a :=
    match exec a s with
    | .ok (_, s') => some s'
    | .error _ => none

/-! ## What the operations do -/

section

variable {α β : Type} {s s' : Registry τ} {x : Code τ α} {f : α → Code τ β} {y : α} {e : Stop}
  {a : Nat} {c : Cell Nat (ThreadNode τ)} {t : τ}

omit [DecidableEq τ] in
theorem bind_ok (h : x s = .ok (y, s')) : (x >>= f) s = f y s' := by
  simp only [bind, StateT.bind, h, Except.bind]

omit [DecidableEq τ] in
theorem bind_error (h : x s = .error e) : (x >>= f) s = .error e := by
  simp only [bind, StateT.bind, h, Except.bind]

omit [DecidableEq τ] in
theorem deref_eq (h : s.nodes a = some c) : deref a s = .ok (c, s) := by
  simp only [deref, h]

omit [DecidableEq τ] in
theorem assign_eq (h : s.nodes a = some c) (c' : Cell Nat (ThreadNode τ)) :
    assign a c' s = .ok ((), { s with nodes := Function.update s.nodes a (some c') }) :=
  bind_ok (deref_eq h)

omit [DecidableEq τ] in
theorem free_eq (h : s.nodes a = some c) :
    free a s = .ok ((), { s with
      nodes := Function.update s.nodes a none, disposals := s.disposals ++ [.free a] }) :=
  bind_ok (deref_eq h)

theorem pthreadJoin_finished (h : s.threads t = .finished) :
    pthreadJoin t s = .ok ((), { s with
      threads := Function.update s.threads t .joined, disposals := s.disposals ++ [.join t] }) := by
  simp only [pthreadJoin, h]

theorem pthreadJoin_blocked (h : s.threads t ≠ .finished) (h' : s.threads t ≠ .joined) :
    pthreadJoin t s = .error .blocked := by
  unfold pthreadJoin
  split
  · exact absurd ‹_› h
  · exact absurd ‹_› h'
  · rfl

end

/-! ## What leaves the list -/

section

variable {s s₁ s' : Registry τ} {x : Nat × ThreadNode τ}
  {gone l kept rest : List (Nat × ThreadNode τ)} {a : Nat} {v : ThreadNode τ} {n : Option Nat}

/-- The calls for a node that leaves the list. -/
def disposal (x : Nat × τ) : List (Disposal τ) := [.join x.2, .free x.1]

/-- The node with its thread. -/
def ident (x : Nat × ThreadNode τ) : Nat × τ := (x.1, x.2.thread)

/-- The nodes of `gone` are freed, each after its thread, which had finished, was joined. -/
structure Disposed (s : Registry τ) (gone : List (Nat × ThreadNode τ)) (s' : Registry τ) :
    Prop where
  finished : ∀ x ∈ gone, s.threads x.2.thread = .finished
  fresh : s'.fresh = s.fresh
  free : ∀ a, s.nodes a = none → s'.nodes a = none
  threads : ∀ t, s'.threads t =
    if t ∈ gone.map (fun x => x.2.thread) then .joined else s.threads t
  disposals : s'.disposals = s.disposals ++ (gone.map ident).flatMap disposal

theorem Disposed.refl (s : Registry τ) : Disposed s [] s where
  finished := nofun
  fresh := rfl
  free _ h := h
  threads _ := rfl
  disposals := (List.append_nil _).symm

theorem Disposed.threads_of_ne {t : τ} (h : Disposed s [x] s₁) (ht : t ≠ x.2.thread) :
    s₁.threads t = s.threads t := by
  rw [h.threads, if_neg (by simpa using ht)]

/-- One node after the other. -/
theorem Disposed.cons (h : Disposed s [x] s₁) (h' : Disposed s₁ gone s')
    (hx : x.2.thread ∉ gone.map fun x => x.2.thread) : Disposed s (x :: gone) s' where
  finished y hy := by
    rcases List.mem_cons.mp hy with rfl | hy
    · exact h.finished y (List.mem_singleton_self y)
    · have hne : y.2.thread ≠ x.2.thread := fun heq => hx (heq ▸ List.mem_map_of_mem hy)
      exact (h.threads_of_ne hne).symm.trans (h'.finished y hy)
  fresh := h'.fresh.trans h.fresh
  free a ha := h'.free a (h.free a ha)
  threads t := by
    rw [h'.threads, h.threads]
    grind
  disposals := by
    rw [h'.disposals, h.disposals]
    simp

omit [DecidableEq τ] in
/-- The node before `current` is made to point to the node behind it. -/
theorem setLink_eq (hl : IsList s.nodes s.head (kept ++ (a, v) :: rest))
    (ha : s.nodes a = some { val := v, next := n }) :
    ∃ nodes head, setLink (kept.getLast?.map Prod.fst) n s =
        .ok ((), { s with nodes := nodes, head := head }) ∧
      nodes a = some { val := v, next := n } ∧ (∀ b, s.nodes b = none → nodes b = none) ∧
      IsList (Function.update nodes a none) head (kept ++ rest) := by
  cases kept using List.reverseRecOn with
  | nil => exact ⟨s.nodes, n, rfl, ha, fun _ h => h, hl.unlinkFirst ha⟩
  | append_singleton kept p _ =>
    obtain ⟨b, w⟩ := p
    rw [List.append_assoc, List.singleton_append] at hl
    obtain ⟨k, hb⟩ := hl.seg.cell (a := b) (v := w) (by simp)
    have hne : a ≠ b := by
      rintro rfl
      have hnodup := hl.nodup
      simp [List.nodup_append] at hnodup
    refine ⟨Function.update s.nodes b (some { val := w, next := n }), s.head, ?_, ?_, ?_, ?_⟩
    · rw [List.getLast?_concat]
      exact (bind_ok (deref_eq hb)).trans (assign_eq hb _)
    · rwa [Function.update_of_ne hne]
    · intro d hd
      have hdb : d ≠ b := by
        rintro rfl
        cases hb.symm.trans hd
      rwa [Function.update_of_ne hdb]
    · rw [List.append_assoc, List.singleton_append]
      exact hl.unlinkNext ha

/-- How a loop that disposes of `gone` ends: it has done so, or it waits for one of the threads. -/
def Ends (s : Registry τ) (gone l : List (Nat × ThreadNode τ)) :
    Except Stop (Unit × Registry τ) → Prop
  | .ok (_, s') => Disposed s gone s' ∧ IsList s'.nodes s'.head l
  | .error e => e = .blocked ∧ ∃ x ∈ gone, s.threads x.2.thread ≠ .finished

/-- After one node the loop goes on with the others. -/
theorem Ends.cons {r : Except Stop (Unit × Registry τ)} (h : Ends s₁ gone l r)
    (hd : Disposed s [x] s₁) (hx : x.2.thread ∉ gone.map fun x => x.2.thread) :
    Ends s (x :: gone) l r := by
  cases r with
  | ok p => exact ⟨hd.cons h.1 hx, h.2⟩
  | error e =>
    obtain ⟨he, y, hy, hne⟩ := h
    refine ⟨he, y, List.mem_cons_of_mem _ hy, ?_⟩
    rwa [hd.threads_of_ne fun heq => hx (heq ▸ List.mem_map_of_mem hy)] at hne

/-- A change of links and of the head before the loop goes on. -/
theorem Ends.of_link (nodes : Store Nat (ThreadNode τ)) (head : Option Nat)
    {r : Except Stop (Unit × Registry τ)} (h : Ends { s with nodes := nodes, head := head } gone l r)
    (hfree : ∀ b, s.nodes b = none → nodes b = none) : Ends s gone l r := by
  cases r with
  | ok p => exact ⟨{ h.1 with free := fun b hb => h.1.free b (hfree b hb) }, h.2⟩
  | error e => exact h

/-- The end of the body of each loop, for a node `a` that is out of the list: `l` is the list, and
`rest` are the nodes to come. -/
theorem dispose_ends {k : Code τ Unit} {m : List (Nat × ThreadNode τ)}
    (hn : s.nodes a = some { val := v, next := n })
    (hl : IsList (Function.update s.nodes a none) s.head l)
    (hjoined : ∀ y ∈ (a, v) :: rest, s.threads y.2.thread ≠ .joined)
    (hthreads : (((a, v) :: rest).map fun x => x.2.thread).Nodup) (hgone : gone.Sublist rest)
    (hk : ∀ s₂, IsList s₂.nodes s₂.head l → (∀ y ∈ rest, s₂.threads y.2.thread ≠ .joined) →
      Ends s₂ gone m (k s₂)) :
    Ends s ((a, v) :: gone) m ((do
      pthreadJoin (← deref a).val.thread
      free a
      k : Code τ Unit) s) := by
  rw [bind_ok (deref_eq hn)]
  by_cases hf : s.threads v.thread = .finished
  · have hv : v.thread ∉ rest.map fun x => x.2.thread := (List.nodup_cons.mp hthreads).1
    let s₂ : Registry τ := { s with
      nodes := Function.update s.nodes a none
      threads := Function.update s.threads v.thread .joined
      disposals := s.disposals ++ [.join v.thread] ++ [.free a] }
    have hd : Disposed s [(a, v)] s₂ := by
      constructor
      · exact List.forall_mem_singleton.mpr hf
      · rfl
      · intro b hb
        by_cases hba : b = a
        · rw [hba]
          exact Function.update_self ..
        · exact (Function.update_of_ne hba ..).trans hb
      · intro t
        by_cases ht : t = v.thread
        · simp [s₂, ht]
        · simp [s₂, ht]
      · simp [s₂, ident, disposal]
    have hends : Ends s₂ gone m (k s₂) := by
      apply hk s₂ hl
      intro y hy
      rw [hd.threads_of_ne fun heq => hv (List.mem_map.mpr ⟨y, hy, heq⟩)]
      exact hjoined y (List.mem_cons_of_mem _ hy)
    rw [bind_ok (pthreadJoin_finished hf)]
    have hfree : free a { s with
        threads := Function.update s.threads v.thread .joined
        disposals := s.disposals ++ [.join v.thread] } = .ok ((), s₂) := free_eq hn
    rw [bind_ok hfree]
    exact hends.cons hd fun h => hv ((hgone.map _).subset h)
  · rw [bind_error (pthreadJoin_blocked hf (hjoined (a, v) List.mem_cons_self))]
    exact ⟨rfl, (a, v), List.mem_cons_self, hf⟩

/-- The loop of `remove_completed_threads`, with the nodes of `kept` behind it. -/
theorem removeLoop_ends {fuel : Nat} (hl : IsList s.nodes s.head (kept ++ rest))
    (hjoined : ∀ x ∈ rest, s.threads x.2.thread ≠ .joined)
    (hthreads : (rest.map fun x => x.2.thread).Nodup) (hfuel : rest.length < fuel) :
    Ends s (rest.filter fun x => x.2.completed) (kept ++ rest.filter fun x => !x.2.completed)
      (removeLoop fuel (kept.getLast?.map Prod.fst) (rest.head?.map Prod.fst) s) := by
  induction rest generalizing s kept fuel with
  | nil =>
    obtain ⟨fuel, rfl⟩ := Nat.exists_eq_add_one_of_ne_zero (Nat.ne_of_gt hfuel)
    exact ⟨Disposed.refl s, hl⟩
  | cons x rest ih =>
    obtain ⟨a, v⟩ := x
    obtain ⟨fuel, rfl⟩ := Nat.exists_eq_add_one_of_ne_zero (Nat.ne_of_gt (Nat.zero_lt_of_lt hfuel))
    have hfuel' : rest.length < fuel := Nat.lt_of_succ_lt_succ hfuel
    have hthreads' := (List.nodup_cons.mp hthreads).2
    obtain ⟨n, hn⟩ := hl.seg.cell (a := a) (v := v) (by simp)
    have hnext : n = rest.head?.map Prod.fst := by
      obtain ⟨r, -, -, n', hn', hs⟩ := seg_append.mp hl.seg
      cases hn.symm.trans hn'
      exact hs.start
    subst hnext
    simp only [List.head?_cons, Option.map_some, removeLoop]
    rw [bind_ok (deref_eq hn)]
    by_cases hc : v.completed = true
    · rw [if_pos hc, List.filter_cons_of_pos (by exact hc), List.filter_cons_of_neg (by simp [hc])]
      obtain ⟨nodes, head, hlink, hn', hfree, hl'⟩ := setLink_eq hl hn
      rw [bind_ok hlink, bind_ok (deref_eq hn')]
      refine Ends.of_link nodes head ?_ hfree
      apply dispose_ends (s := { s with nodes := nodes, head := head }) hn' hl' hjoined hthreads
        List.filter_sublist
      intro s₂ hl₂ hjoined₂
      exact ih hl₂ hjoined₂ hthreads' hfuel'
    · rw [if_neg hc, List.filter_cons_of_neg (by exact hc), List.filter_cons_of_pos (by simp [hc])]
      have hl₂ : IsList s.nodes s.head ((kept ++ [(a, v)]) ++ rest) := by simpa using hl
      have hends := ih hl₂ (fun y hy => hjoined y (List.mem_cons_of_mem _ hy)) hthreads' hfuel'
      rwa [List.getLast?_concat, List.append_assoc] at hends

/-- The loop of `cleanup_thread_list`. -/
theorem cleanupLoop_ends {fuel : Nat} (hl : IsList s.nodes s.head l)
    (hjoined : ∀ x ∈ l, s.threads x.2.thread ≠ .joined)
    (hthreads : (l.map fun x => x.2.thread).Nodup) (hfuel : l.length < fuel) :
    Ends s l [] (cleanupLoop fuel s) := by
  have hget : (get : Code τ (Registry τ)) s = .ok (s, s) := rfl
  induction l generalizing s fuel with
  | nil =>
    obtain ⟨fuel, rfl⟩ := Nat.exists_eq_add_one_of_ne_zero (Nat.ne_of_gt hfuel)
    have hhead : s.head = none := hl.seg
    rw [cleanupLoop, bind_ok hget, hhead]
    exact ⟨Disposed.refl s, hl⟩
  | cons x l ih =>
    obtain ⟨a, v⟩ := x
    obtain ⟨fuel, rfl⟩ := Nat.exists_eq_add_one_of_ne_zero (Nat.ne_of_gt (Nat.zero_lt_of_lt hfuel))
    obtain ⟨hhead, n, hn, -⟩ := hl.seg
    have hset : setHead n s = .ok ((), { s with head := n }) := rfl
    rw [cleanupLoop, bind_ok hget, hhead]
    simp only
    rw [bind_ok (deref_eq hn), bind_ok hset]
    refine Ends.of_link s.nodes n ?_ fun _ hb => hb
    apply dispose_ends (s := { s with head := n }) hn (hl.unlinkFirst hn) hjoined hthreads
      (List.Sublist.refl l)
    intro s₂ hl₂ hjoined₂
    exact ih hl₂ hjoined₂ (List.nodup_cons.mp hthreads).2 (Nat.lt_of_succ_lt_succ hfuel) rfl

end

/-! ## The steps -/

section

variable {s : Registry τ} {t : τ} {a : Nat} {c : Cell Nat (ThreadNode τ)}

/-- The state after `add_thread_to_list`. -/
def register (s : Registry τ) (t : τ) : Bool → Registry τ
  | true =>
    let cell := { val := { thread := t, completed := false }, next := s.head }
    { s with
      nodes := Function.update s.nodes s.fresh (some cell)
      fresh := s.fresh + 1
      head := some s.fresh
      threads := Function.update s.threads t (.serving (some s.fresh)) }
  | false => { s with threads := Function.update s.threads t (.serving none) }

theorem exec_add (ok : Bool) : exec (.add t ok) s =
    if s.threads t = .started then .ok ((), s.register t ok) else .error .disabled := by
  show (if s.threads t = .started then _ else _ : Code τ Unit) s = _
  split
  · cases ok <;> rfl
  · rfl

theorem exec_mark : exec (.mark t) s = endClient t (s.threads t) s := rfl

theorem exec_mark_node (ht : s.threads t = .serving (some a)) (ha : s.nodes a = some c) :
    exec (.mark t) s = .ok ((), { s with
      nodes := Function.update s.nodes a
        (some { val := { c.val with completed := true }, next := c.next })
      threads := Function.update s.threads t .returning }) := by
  have hmark : markCompleted (some a) s = .ok ((), { s with
      nodes := Function.update s.nodes a
        (some { val := { c.val with completed := true }, next := c.next }) }) :=
    (bind_ok (deref_eq ha)).trans (assign_eq ha _)
  rw [exec_mark, ht, endClient, bind_ok hmark]
  rfl

theorem exec_mark_null (ht : s.threads t = .serving none) : exec (.mark t) s =
    .ok ((), { s with threads := Function.update s.threads t .returning }) := by
  rw [exec_mark, ht]
  rfl

theorem exec_mark_disabled (ht : ∀ n, s.threads t ≠ .serving n) :
    exec (.mark t) s = .error .disabled := by
  rw [exec_mark]
  cases h : s.threads t with
  | serving n => exact absurd h (ht n)
  | _ => rfl

theorem exec_finish : exec (.finish t) s =
    if s.threads t = .returning then
      .ok ((), { s with threads := Function.update s.threads t .finished })
    else .error .disabled := by
  show (if s.threads t = .returning then _ else _ : Code τ Unit) s = _
  split <;> rfl

end

end Registry

end Aesd
