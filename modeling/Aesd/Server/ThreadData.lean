import Aesd.Lib.Table
import Aesd.Server.Descriptors

/-!
# The blocks in which `main` hands its connections on

`main` allocates a `thread_data_t` for a connection and passes it to the thread, which frees it at its
end; if there is no thread `main` does. An address is free again once its block is freed.

* `Blocks`: the blocks in use are those of `main` and of the threads at the places where they have one.
* `Handed`: what a thread finds in its block.
* `threadData_safe`: the result for all runs.
-/

namespace Aesd

namespace Descriptors

/-- Who can hold a descriptor. -/
inductive Holder (τ : Type*) where
  /-- `server_socket`. -/
  | server
  /-- `client_socket` of `main`, from `accept` until the thread has it. -/
  | accept
  /-- `data->client_socket` of the thread. -/
  | client (t : τ)
  /-- `file_desc` of the thread. -/
  | file (t : τ)
  /-- `file_desc` of the timer thread. -/
  | timer
  /-- The C library. -/
  | library (i : Nat)
  deriving DecidableEq, Repr

variable {τ γ : Type*} [DecidableEq τ] {b : Build} {daemonMode : Bool} {st st' st₁ : Descriptors τ γ}
  {fresh : Nat} {addr : γ} {s' : Process τ}

/-- The blocks in hand. -/
def heldBlock (st : Descriptors τ γ) : Holder τ → Option (Nat × Unit)
  | .accept => if st.process.stack.any hasBlock then st.threadData.map (·, ()) else none
  | .client t => if threadAt hasData st.process t then (st.arg t).map (·, ()) else none
  | _ => none

/-- The addresses in use. -/
def allocated (st : Descriptors τ γ) (p : Nat) : Option Unit := (st.data p).map fun _ => ()

/-- Everybody has the block of the place where it is, nothing else is allocated, and no freed block
was used. -/
structure Blocks (st : Descriptors τ γ) : Prop where
  owned : Table.Owned (fun _ => none) st.heldBlock st.allocated
  accept : st.process.stack.any hasBlock = true →
    st.threadData.bind st.data = some ⟨st.clientSocket, st.clientAddr⟩
  client : ∀ t, threadAt hasData st.process t = true → ∃ p, st.arg t = some p
  fault : st.fault = false

/-- `close(data->client_socket)` comes before `free(data)`. -/
theorem hasData_of_hasSocket {pc : Pc} (h : hasSocket pc = true) : hasData pc = true := by
  cases pc <;> first | rfl | cases h

omit [DecidableEq τ] in
theorem threadAt_hasData (ht : threadAt hasSocket st.process t = true) :
    threadAt hasData st.process t = true := by
  unfold threadAt at ht ⊢
  split at ht
  · exact hasData_of_hasSocket ht
  · cases ht

/-! ## What the calls do to them -/

namespace Blocks

variable {t : τ} {pc pc' : Pc}

omit [DecidableEq τ] in
theorem start (base : Nat → Option (Object γ)) (addr : γ) : Blocks (init τ base addr) where
  owned := by
    have hheld : (init τ base addr).heldBlock = fun _ => none := by
      funext i
      cases i <;> rfl
    rw [hheld]
    exact .start
  accept := nofun
  client := nofun
  fault := rfl

omit [DecidableEq τ] in
/-- The block of a thread that has not freed it. -/
theorem thread (h : Blocks st) (ht : threadAt hasData st.process t = true) :
    ∃ p d, st.arg t = some p ∧ st.data p = some d ∧ st.heldBlock (.client t) = some (p, ()) := by
  obtain ⟨p, hp⟩ := h.client t ht
  have hheld : st.heldBlock (.client t) = some (p, ()) := by simp [heldBlock, ht, hp]
  obtain ⟨d, hd, -⟩ := Option.map_eq_some_iff.mp (h.owned.own _ _ _ hheld).1
  exact ⟨p, d, hp, hd, hheld⟩

omit [DecidableEq τ] in
/-- The block of `main`. -/
theorem main (h : Blocks st) (hb : st.process.stack.any hasBlock = true) :
    ∃ p, st.threadData = some p ∧ st.data p = some ⟨st.clientSocket, st.clientAddr⟩ ∧
      st.heldBlock .accept = some (p, ()) := by
  obtain ⟨p, hp, hd⟩ := Option.bind_eq_some_iff.mp (h.accept hb)
  exact ⟨p, hp, hd, by simp [heldBlock, hb, hp]⟩

omit [DecidableEq τ] in
/-- Steps without an effect on the blocks. -/
theorem congr (h : Blocks st)
    (hblock : st'.process.stack.any hasBlock = st.process.stack.any hasBlock)
    (hthread : ∀ t, threadAt hasData st'.process t = threadAt hasData st.process t)
    (hdata : st'.data = st.data) (harg : st'.arg = st.arg)
    (hmain : st.process.stack.any hasBlock = true → st'.threadData = st.threadData ∧
      st'.clientSocket = st.clientSocket ∧ st'.clientAddr = st.clientAddr)
    (hfault : st'.fault = false) : Blocks st' := by
  have hheld : st'.heldBlock = st.heldBlock := by
    funext i
    cases i with
    | accept =>
      by_cases hb : st.process.stack.any hasBlock = true
      · rw [heldBlock, heldBlock, hblock, (hmain hb).1]
      · rw [heldBlock, heldBlock, hblock, if_neg hb, if_neg hb]
    | client t => rw [heldBlock, heldBlock, hthread, harg]
    | _ => rfl
  refine ⟨?_, fun hb => ?_, fun t ht => ?_, hfault⟩
  · have hall : st'.allocated = st.allocated := by
      funext p
      rw [allocated, hdata, allocated]
    rw [hheld, hall]
    exact h.owned
  · rw [hblock] at hb
    obtain ⟨hptr, hsocket, haddr⟩ := hmain hb
    rw [hptr, hdata, hsocket, haddr]
    exact h.accept hb
  · rw [hthread] at ht
    rw [harg]
    exact h.client t ht

omit [DecidableEq τ] in
theorem allocated_update {data : Nat → Option (ThreadData γ)} {d : Option (ThreadData γ)} {q : Nat}
    (hdata : st'.data = Function.update data q d) (hst : st.data = data) :
    st'.allocated = Function.update st.allocated q (d.map fun _ => ()) := by
  funext r
  rw [allocated, hdata]
  by_cases hr : r = q
  · rw [hr, Function.update_self, Function.update_self]
  · rw [Function.update_of_ne hr, Function.update_of_ne hr, allocated, hst]

/-- `main` has a new block. -/
theorem malloc (h : Blocks st) (hfresh : st.data fresh = none)
    (hno : st.process.stack.any hasBlock = false) (hyes : s'.stack.any hasBlock = true)
    (hthread : ∀ t, threadAt hasData s' t = threadAt hasData st.process t) :
    Blocks { st with
      data := Function.update st.data fresh (some ⟨st.clientSocket, st.clientAddr⟩)
      threadData := some fresh
      process := s' } := by
  have hnone : st.heldBlock .accept = none := by simp [heldBlock, hno]
  have hfree : st.allocated fresh = none := by simp [allocated, hfresh]
  refine ⟨?_, fun _ => by simp, fun t ht => h.client t (hthread t ▸ ht), h.fault⟩
  rw [allocated_update rfl rfl]
  refine (congrArg (Table.Owned _ · _) ?_).mpr (h.owned.acquire (a := ()) hnone hfree)
  funext i
  cases i <;> simp [heldBlock, hyes, hthread]

/-- `main` frees its block. -/
theorem free (h : Blocks st) (hyes : st.process.stack.any hasBlock = true)
    (hno : s'.stack.any hasBlock = false)
    (hthread : ∀ t, threadAt hasData s' t = threadAt hasData st.process t) :
    Blocks { (st.free st.threadData).close st.clientSocket with process := s' } := by
  obtain ⟨p, hp, hd, hheld⟩ := h.main hyes
  rw [hp, free_some hd, close_eq]
  refine ⟨?_, fun hb => ?_, fun t ht => h.client t (hthread t ▸ ht), h.fault⟩
  · rw [allocated_update rfl rfl]
    refine (congrArg (Table.Owned _ · _) ?_).mpr (h.owned.release hheld)
    funext i
    cases i <;> simp [heldBlock, hno, hthread]
  · rw [hno] at hb
    cases hb

/-- `pthread_create` passes the block of `main` to the thread. -/
theorem created (h : Blocks st) (hyes : st.process.stack.any hasBlock = true)
    (hno : s'.stack.any hasBlock = false) (hnew : threadAt hasData st.process t = false)
    (hstart : threadAt hasData s' t = true)
    (hothers : ∀ u, u ≠ t → threadAt hasData s' u = threadAt hasData st.process u) :
    Blocks { st with arg := Function.update st.arg t st.threadData, process := s' } := by
  obtain ⟨p, hp, -, hheld⟩ := h.main hyes
  have hnone : st.heldBlock (.client t) = none := by simp [heldBlock, hnew]
  refine ⟨?_, fun hb => ?_, fun u hu => ?_, h.fault⟩
  · refine (congrArg (Table.Owned _ · _) ?_).mpr (h.owned.transfer hheld hnone)
    funext i
    cases i with
    | client u =>
      by_cases hut : u = t
      · simp [heldBlock, hut, hstart, hp]
      · simp [heldBlock, hut, hothers u hut]
    | _ => simp [heldBlock, hno]
  · rw [hno] at hb
    cases hb
  · by_cases hut : u = t
    · exact ⟨p, by simp [hut, hp]⟩
    · rw [hothers u hut] at hu
      simpa [hut] using h.client u hu

/-- The thread frees its block. -/
theorem frees (h : Blocks st) (hm : Moves st.process s' t pc pc') (hdata : hasData pc = true)
    (hdata' : hasData pc' = false) : Blocks { st.free (st.arg t) with process := s' } := by
  obtain ⟨p, d, hp, hd, hheld⟩ := h.thread ((hm.here hasData).trans hdata)
  rw [hp, free_some hd]
  refine ⟨?_, fun hb => ?_, fun u hu => ?_, h.fault⟩
  · rw [allocated_update rfl rfl]
    refine (congrArg (Table.Owned _ · _) ?_).mpr (h.owned.release hheld)
    funext i
    cases i with
    | client u =>
      by_cases hut : u = t
      · simp [heldBlock, hut, hm.there, hdata']
      · simp [heldBlock, hut, hm.others _ u hut]
    | _ => simp [heldBlock, hm.stack]
  · -- the block of `main` is another one
    rw [hm.stack] at hb
    obtain ⟨q, hq, hqd, hqheld⟩ := h.main hb
    have hqp : q ≠ p := fun hqp => by
      subst hqp
      cases h.owned.exclusive _ _ _ _ _ hqheld hheld
    simp [hq, hqp, hqd]
  · have hut : u ≠ t := fun hut => by
      rw [hut, hm.there, hdata'] at hu
      cases hu
    rw [hm.others _ u hut] at hu
    exact h.client u hu

/-- Every step keeps them. -/
theorem effect {e : DescriptorEvent τ γ} (h : Blocks st) (he : Effect st e st') : Blocks st' := by
  cases he with
  | idle hu =>
    exact h.congr hu.block (threadAt_congr hu.clients _) rfl rfl
      (fun _ => ⟨rfl, rfl, rfl⟩) h.fault
  | @client t pc pc' s' st₁ fresh hm hu =>
    have hblock : s'.stack.any hasBlock = st.process.stack.any hasBlock := by rw [hm.stack]
    have hthread : hasData pc' = hasData pc → ∀ u,
        threadAt hasData s' u = threadAt hasData st.process u := fun hdata u => by
      by_cases hut : u = t
      · rw [hut, hm.there, hm.here, hdata]
      · exact hm.others _ u hut
    have hfault : hasData pc = true → (st.useData t).fault = false := fun hdata => by
      obtain ⟨p, d, hp, hd, -⟩ := h.thread ((hm.here hasData).trans hdata)
      simp [useData, Descriptors.thread, hp, hd, h.fault]
    cases hu with
    | idle hsame =>
      exact h.congr hblock (hthread hsame.data) rfl rfl (fun _ => ⟨rfl, rfl, rfl⟩) h.fault
    | data hsame hdata =>
      exact h.congr hblock (hthread hsame.data) rfl rfl (fun _ => ⟨rfl, rfl, rfl⟩) (hfault hdata)
    | opens _ hdata =>
      exact h.congr hblock (hthread hdata) rfl rfl (fun _ => ⟨rfl, rfl, rfl⟩) h.fault
    | openFails hsame =>
      exact h.congr hblock (hthread hsame.data) rfl rfl (fun _ => ⟨rfl, rfl, rfl⟩) h.fault
    | closes _ hdata =>
      rw [close_eq]
      exact h.congr hblock (hthread hdata) rfl rfl (fun _ => ⟨rfl, rfl, rfl⟩) h.fault
    | closesSocket _ hdata hin =>
      rw [close_eq]
      exact h.congr hblock (hthread hdata) rfl rfl (fun _ => ⟨rfl, rfl, rfl⟩) (hfault hin)
    | frees _ _ _ hdata hdata' => exact h.frees hm hdata hdata'
  | malloc hstack hp =>
    exact h.malloc hp (by simp [hstack, hasBlock]) rfl fun _ => rfl
  | createFails hstack => exact h.free (by simp [hstack, hasBlock]) rfl fun _ => rfl
  | @created t hstack hnew =>
    refine h.created (t := t) (by simp [hstack, hasBlock]) rfl (by simp [threadAt, hnew])
      (by simp [threadAt]; rfl) fun u hu => by simp [threadAt, hu]
  | closeServer _ hstack =>
    rw [close_eq]
    exact h.congr (by simp [hstack, hasBlock]) (fun _ => rfl) rfl rfl (fun _ => ⟨rfl, rfl, rfl⟩)
      h.fault
  | mallocFails hstack =>
    rw [close_eq]
    exact h.congr (by simp [hstack, hasBlock]) (fun _ => rfl) rfl rfl
      (fun hb => by simp [hstack, hasBlock] at hb) h.fault
  | setupClose _ hstack =>
    rw [close_eq]
    exact h.congr (by simp [hstack, hasBlock]) (fun _ => rfl) rfl rfl (fun _ => ⟨rfl, rfl, rfl⟩)
      h.fault
  | socket hstack | socketFails hstack =>
    exact h.congr (by simp [hstack, hasBlock]) (fun _ => rfl) rfl rfl (fun _ => ⟨rfl, rfl, rfl⟩)
      h.fault
  | accept hstack | acceptFails hstack =>
    exact h.congr (by simp [hstack, hasBlock]) (fun _ => rfl) rfl rfl
      (fun hb => by simp [hstack, hasBlock] at hb) h.fault
  | timerOpens | timerOpenFails | libraryOpens =>
    exact h.congr rfl (fun _ => rfl) rfl rfl (fun _ => ⟨rfl, rfl, rfl⟩) h.fault
  | timerCloses | libraryCloses =>
    exact h.congr rfl (fun _ => rfl) rfl rfl (fun _ => ⟨rfl, rfl, rfl⟩) h.fault
  | timerLeaves hu =>
    exact h.congr hu.block (threadAt_congr hu.clients _) rfl rfl
      (fun _ => ⟨rfl, rfl, rfl⟩) h.fault

end Blocks

/-! ## What a thread finds in its block -/

/-- The thread `t` has started, and its block is `d` until it frees it. -/
structure Handed (t : τ) (d : ThreadData γ) (st : Descriptors τ γ) : Prop where
  started : threadAt (fun _ => true) st.process t = true
  data : threadAt hasData st.process t = true → st.thread t = some d

variable {t : τ} {d : ThreadData γ}

omit [DecidableEq τ] in
/-- Another block. -/
theorem thread_update {q : Nat} {d' : Option (ThreadData γ)} (harg : st₁.arg t = st.arg t)
    (hdata : st₁.data = Function.update st.data q d') (hq : st.arg t ≠ some q) :
    st₁.thread t = st.thread t := by
  unfold Descriptors.thread
  rw [harg, hdata]
  cases ht : st.arg t with
  | none => rfl
  | some r =>
    have hr : r ≠ q := fun hr => hq (hr ▸ ht)
    simp [hr]

omit [DecidableEq τ] in
/-- A step that leaves the block. -/
theorem Handed.keep (h : Handed t d st)
    (hstarted : threadAt (fun _ => true) st'.process t = threadAt (fun _ => true) st.process t)
    (hin : threadAt hasData st'.process t = true →
      threadAt hasData st.process t = true ∧ st'.thread t = st.thread t) : Handed t d st' where
  started := hstarted.trans h.started
  data ht := by
    obtain ⟨ht, hthread⟩ := hin ht
    rw [hthread]
    exact h.data ht

/-- Every step keeps it: nobody else has the address of the block. -/
theorem Handed.effect {e : DescriptorEvent τ γ} (h : Handed t d st) (hb : Blocks st)
    (he : Effect st e st') : Handed t d st' := by
  have hne : ∀ {i q}, st.heldBlock i = some (q, ()) → i ≠ .client t →
      threadAt hasData st.process t = true → st.arg t ≠ some q := fun hi hit ht harg => by
    obtain ⟨r, -, hr, -, hheld⟩ := hb.thread ht
    obtain rfl : r = _ := Option.some.inj (hr.symm.trans harg)
    exact hit (hb.owned.exclusive _ _ _ _ _ hi hheld)
  cases he with
  | idle hu | timerLeaves hu =>
    exact h.keep (threadAt_congr hu.clients _ t) fun ht => ⟨threadAt_congr hu.clients _ t ▸ ht, rfl⟩
  | @client u pc pc' s' st₁ fresh hm hu =>
    have hstarted : threadAt (fun _ => true) s' t = threadAt (fun _ => true) st.process t := by
      by_cases htu : t = u
      · rw [htu, hm.there, hm.here]
      · exact hm.others _ t htu
    have hsame : hasData pc' = hasData pc →
        threadAt hasData s' t = threadAt hasData st.process t := fun hdata => by
      by_cases htu : t = u
      · rw [htu, hm.there, hm.here, hdata]
      · exact hm.others _ t htu
    cases hu with
    | idle hs | data hs | openFails hs => exact h.keep hstarted fun ht => ⟨hsame hs.data ▸ ht, rfl⟩
    | opens _ hdata => exact h.keep hstarted fun ht => ⟨hsame hdata ▸ ht, rfl⟩
    | closes _ hdata | closesSocket _ hdata =>
      rw [close_eq]
      exact h.keep hstarted fun ht => ⟨hsame hdata ▸ ht, rfl⟩
    | frees _ _ _ hdata hdata' =>
      obtain ⟨q, d', hq, hd', hheld⟩ := hb.thread ((hm.here hasData).trans hdata)
      rw [hq, free_some hd']
      refine h.keep hstarted fun ht => ?_
      have htu : t ≠ u := fun htu => by
        rw [htu, hm.there, hdata'] at ht
        cases ht
      rw [hm.others hasData t htu] at ht
      exact ⟨ht, thread_update rfl rfl (hne hheld (by simp [Ne.symm htu]) ht)⟩
  | @malloc q hstack hq =>
    refine h.keep rfl fun ht => ⟨ht, thread_update rfl rfl fun harg => ?_⟩
    obtain ⟨r, d', hr, hd', -⟩ := hb.thread ht
    obtain rfl : r = q := Option.some.inj (hr.symm.trans harg)
    rw [hq] at hd'
    cases hd'
  | createFails hstack =>
    obtain ⟨q, hq, hd', hheld⟩ := hb.main (by simp [hstack, hasBlock])
    rw [hq, free_some hd', close_eq]
    exact h.keep rfl fun ht => ⟨ht, thread_update rfl rfl (hne hheld (by simp) ht)⟩
  | @created u hstack hnew =>
    have htu : t ≠ u := fun htu => by
      have := h.started
      rw [htu, threadAt, hnew] at this
      cases this
    refine h.keep (by rw [threadAt_created, if_neg htu]) fun ht => ?_
    rw [threadAt_created, if_neg htu] at ht
    exact ⟨ht, by simp [thread, htu]⟩
  | setupClose | closeServer | mallocFails =>
    rw [close_eq]
    exact h.keep rfl fun ht => ⟨ht, rfl⟩
  | _ => exact h.keep rfl fun ht => ⟨ht, rfl⟩

/-! ## Runs -/

variable {base : Nat → Option (Object γ)} {tr u v : List (DescriptorEvent τ γ)}
  {m m' : Descriptors τ γ}

/-- In every run `main` is where it says, and the blocks are all right. -/
theorem run_blocks (hrun : (lts τ γ b daemonMode).run (init τ base addr) tr = some st) :
    Ready st ∧ Blocks st :=
  Lts.run_invariant (I := fun st => Ready st ∧ Blocks st)
    (fun _ _ _ h hn => ⟨h.1.next hn, h.2.effect (effect_of_next h.1.frames hn)⟩)
    ⟨Ready.start base addr, Blocks.start base addr⟩ hrun

/-- A new thread has the block of `main`. -/
theorem handed_created {n : Nat} (hb : Blocks st)
    (h : (lts τ γ b daemonMode).next st (.process (.created t) n addr) = some st') :
    Handed t ⟨st.clientSocket, st.clientAddr⟩ st' := by
  obtain ⟨s', st₁, hs', hst₁, rfl⟩ := next_process h
  obtain ⟨rest, hstack, -, rfl⟩ := Process.next_created hs'
  cases hst₁
  obtain ⟨p, hp, hd, -⟩ := hb.main (by simp [hstack, hasBlock])
  exact ⟨by simp [threadAt_created], fun _ => by simp [thread, hp, hd]⟩

/-- What a run keeps of it. -/
theorem Handed.run (h : Handed t d st) (hr : Ready st) (hb : Blocks st)
    (hrun : (lts τ γ b daemonMode).run st v = some st') : Handed t d st' :=
  (Lts.run_invariant (I := fun st => Ready st ∧ Blocks st ∧ Handed t d st)
    (fun _ _ _ h hn => by
      have he := effect_of_next h.1.frames hn
      exact ⟨h.1.next hn, h.2.1.effect he, h.2.2.effect h.2.1 he⟩) ⟨hr, hb, h⟩ hrun).2.2

/-- In every run, whatever fails and whichever addresses `malloc` returns, no `thread_data_t` is used
or freed after it was freed, the blocks in use are those that `main` and the threads have at the places
where they are, each of its own, and a thread finds in its block, until it frees it, what `accept`
returned for it. -/
theorem threadData_safe (hrun : (lts τ γ b daemonMode).run (init τ base addr) tr = some st) :
    st.fault = false ∧ Table.Owned (fun _ => none) st.heldBlock st.allocated ∧
      (∀ t, threadAt hasData st.process t = true → (st.heldBlock (.client t)).isSome = true) ∧
      ∀ u t n addr' m m' v, tr = u ++ .process (.created t) n addr' :: v →
        (lts τ γ b daemonMode).run (init τ base addr) u = some m →
        (lts τ γ b daemonMode).next m (.process (.created t) n addr') = some m' →
        threadAt hasData st.process t = true → st.thread t = some ⟨m.clientSocket, m.clientAddr⟩ := by
  obtain ⟨-, hb⟩ := run_blocks hrun
  refine ⟨hb.fault, hb.owned, fun t ht => ?_, fun u t n addr' m m' v htr hu hm' ht => ?_⟩
  · obtain ⟨p, -, -, -, hheld⟩ := hb.thread ht
    rw [hheld]
    rfl
  · subst htr
    obtain ⟨hready, hbm⟩ := run_blocks hu
    obtain ⟨r, hr, hv⟩ := Lts.run_append_eq_some.mp hrun
    obtain rfl : m = r := Option.some.inj (hu.symm.trans hr)
    obtain ⟨r', hr', hv⟩ := Lts.run_cons_eq_some.mp hv
    obtain rfl : m' = r' := Option.some.inj (hm'.symm.trans hr')
    have he := effect_of_next hready.frames hm'
    exact ((handed_created hbm hm').run (hready.next hm') (hbm.effect he) hv).data ht

/-! Runs of the device build; the numbers 0, 1 and 2 are in use from the start. -/

/-- The standard streams. -/
def streams (n : Nat) : Option (Object Nat) := if n < 3 then some .file else none

/-- Calls that return no number and no address. -/
def plain (acts : List (Action Nat)) : List (DescriptorEvent Nat Nat) :=
  acts.map fun a => .process a 0 0

/-- The socket is 3; the client 7 connects as 4, and `main` is about to create its thread. -/
def connect : List (DescriptorEvent Nat Nat) :=
  plain [.main true, .main true] ++ .process (.main true) 3 0 ::
    plain (List.replicate 4 (.main true)) ++ .process (.main true) 4 7 :: plain [.main true]

/-- `main` makes so many steps, and the thread starts and waits for its client. -/
def await (steps t : Nat) : List (DescriptorEvent Nat Nat) :=
  plain (List.replicate steps (.main true) ++
    [.malloc true, .lock .list true, .link, .unlock .list, .malloc true].map (.client t))

/-- `syslog` opens its socket, as 5. Then the client 7 leaves, and the client 8 connects, again as 4;
its `thread_data_t` has the address of the first. -/
def reconnect : List (DescriptorEvent Nat Nat) :=
  .libraryOpen 0 5 ::
    plain ([.recv none, .free, .closeSocket, .free, .lock .list true, .mark, .unlock .list].map
      (.client 0)) ++
    .process (.main true) 4 8 :: plain [.main true]

/-- The two connections together. -/
theorem connect_reconnect : ∃ m m' st,
    (lts Nat Nat .charDevice false).run (init Nat streams 0)
        (connect ++ .process (.created 0) 0 0 :: (await 4 0 ++ reconnect)) = some m ∧
      (lts Nat Nat .charDevice false).next m (.process (.created 1) 0 0) = some m' ∧
      (lts Nat Nat .charDevice false).run m' (await 6 1) = some st ∧
      m.clientSocket = some 4 ∧ m.clientAddr = 8 ∧ threadAt hasSocket st.process 1 = true ∧
      st.arg 0 = some 0 ∧ st.arg 1 = some 0 := by
  have hall : ((lts Nat Nat .charDevice false).run (init Nat streams 0)
      (connect ++ .process (.created 0) 0 0 :: (await 4 0 ++ reconnect))).bind (fun m =>
        ((lts Nat Nat .charDevice false).next m (.process (.created 1) 0 0)).bind fun m' =>
          ((lts Nat Nat .charDevice false).run m' (await 6 1)).map fun st =>
            decide (m.clientSocket = some 4 ∧ m.clientAddr = 8 ∧
              threadAt hasSocket st.process 1 = true ∧ st.arg 0 = some 0 ∧ st.arg 1 = some 0)) =
      some true := by decide
  obtain ⟨m, hm, hall⟩ := Option.bind_eq_some_iff.mp hall
  obtain ⟨m', hm', hall⟩ := Option.bind_eq_some_iff.mp hall
  obtain ⟨st, hst, hd⟩ := Option.map_eq_some_iff.mp hall
  exact ⟨m, m', st, hm, hm', hst, of_decide_eq_true hd⟩

/-- The second thread finds its own connection in the block that the first one freed. -/
theorem threadData_safe_reused :
    ∃ st, (lts Nat Nat .charDevice false).run (init Nat streams 0)
        (connect ++ .process (.created 0) 0 0 :: (await 4 0 ++ reconnect) ++
          .process (.created 1) 0 0 :: await 6 1) = some st ∧
      st.fault = false ∧ st.arg 0 = some 0 ∧ st.arg 1 = some 0 ∧ st.thread 1 = some ⟨some 4, 8⟩ := by
  obtain ⟨m, m', st, hm, hm', hst, hsocket, haddr, hthread, h0, h1⟩ := connect_reconnect
  have hrun := Lts.run_append_eq_some.mpr ⟨m, hm, Lts.run_cons_eq_some.mpr ⟨m', hm', hst⟩⟩
  obtain ⟨hfault, -, -, hdata⟩ := threadData_safe hrun
  refine ⟨st, hrun, hfault, h0, h1, ?_⟩
  rw [hdata _ 1 0 0 m m' _ rfl hm hm' (threadAt_hasData hthread), hsocket, haddr]

end Descriptors

end Aesd
