import Aesd.Server.HandleClient

/-!
# What a client thread acquires and releases

`resourcesOf b evs` follows the variables `file_desc` and `buffer` of `handle_client` through a run
and counts what the calls acquire and release. A descriptor is the number of its `open`, so a second
`close` of it shows.

`handleClient_releases`: in every run, whatever fails, each return to `recv` and the exit find
`file_mutex` released and every descriptor closed once; at the exit the socket is closed, both
blocks are freed, and a registered node is marked by the last critical section.
-/

namespace Aesd

namespace Client

/-- What `free` is called with. -/
inductive Block where
  | null
  | buffer
  | data
  deriving DecidableEq, Repr

/-- The acquisitions and releases of a thread so far. -/
structure Resources where
  /-- The calls of `pthread_mutex_lock(&file_mutex)` that returned 0. -/
  locks : Nat := 0
  /-- The calls of `pthread_mutex_unlock(&file_mutex)`. -/
  unlocks : Nat := 0
  /-- `file_desc`; `none` for -1. -/
  fileDesc : Option Nat := none
  /-- The descriptors that `open(FILE_PATH, …)` returned are those below this number. -/
  opened : Nat := 0
  /-- What `close(file_desc)` was called with. -/
  closed : List (Option Nat) := []
  /-- The calls of `close(data->client_socket)`. -/
  socketCloses : Nat := 0
  /-- `buffer`. -/
  buffer : Block := .null
  /-- What `free` was called with. -/
  frees : List Block := []
  deriving DecidableEq, Repr

/-- The call `ev` at the place `pc`. -/
def Resources.next (r : Resources) : Pc → Sys → Resources
  | _, .lock .file true => { r with locks := r.locks + 1 }
  | _, .unlock .file => { r with unlocks := r.unlocks + 1 }
  | _, .open true => { r with fileDesc := some r.opened, opened := r.opened + 1 }
  | _, .open false => { r with fileDesc := none }
  | _, .close => { r with closed := r.closed ++ [r.fileDesc] }
  | _, .closeSocket => { r with socketCloses := r.socketCloses + 1 }
  | .malloc, .malloc true => { r with buffer := .buffer }
  | .freeBuffer, .free => { r with frees := r.frees ++ [r.buffer] }
  | .freeData, .free => { r with frees := r.frees ++ [.data] }
  | _, _ => r

/-- The resources after a run of a thread from its start. -/
def resourcesOf (b : Build) (evs : List Sys) : Resources :=
  ((lts b).outputs (fun c ev => some (c.pc, ev)) .start evs).foldl (fun r x => r.next x.1 x.2) {}

variable {b : Build} {node : Bool} {pc pc' : Pc} {ev : Sys} {evs : List Sys} {c : Client}
  {r : Resources}

theorem resourcesOf_snoc (h : (lts b).run .start evs = some c) (ev : Sys) :
    resourcesOf b (evs ++ [ev]) = (resourcesOf b evs).next c.pc ev := by
  rw [resourcesOf, Lts.outputs_snoc h, List.foldl_append]
  rfl

/-! ## What is held at each place -/

/-- What the thread holds, and what it has released for good. -/
structure Holding where
  mutex : Bool := false
  fileDesc : Bool := false
  socketClosed : Bool := false
  freed : Nat := 0
  deriving DecidableEq, Repr

/-- What the thread holds at a place in the source. -/
def holding : Pc → Holding
  | .seekOpen _ | .dataOpen _ | .reopen | .unlock _ => { mutex := true }
  | .ioctl _ | .write _ _ | .reclose | .lseek | .read _ | .send _ _ _ | .close _ =>
    { mutex := true, fileDesc := true }
  | .closeSocket => { freed := 1 }
  | .freeData => { socketClosed := true, freed := 1 }
  | .markLock | .mark | .markUnlock | .exited => { socketClosed := true, freed := 2 }
  | _ => {}

/-- The counts agree with what is held. -/
structure Balanced (h : Holding) (r : Resources) : Prop where
  mutex : r.locks = r.unlocks + h.mutex.toNat
  opened : r.opened = r.closed.length + h.fileDesc.toNat
  closed : r.closed = (List.range r.closed.length).map some
  fileDesc : h.fileDesc = true → r.fileDesc = some r.closed.length
  socket : r.socketCloses = h.socketClosed.toNat
  frees : r.frees = [r.buffer, .data].take h.freed

theorem balanced_start : Balanced (holding .addMalloc) {} :=
  { mutex := rfl, opened := rfl, closed := rfl, fileDesc := nofun, socket := rfl, frees := rfl }

/-- Whatever `close` is called with while a descriptor is open, it is that descriptor. -/
theorem Balanced.close {m : Bool} (h : Balanced { mutex := m, fileDesc := true } r) :
    Balanced { mutex := m } { r with closed := r.closed ++ [r.fileDesc] } where
  mutex := h.mutex
  opened := by
    rw [List.length_append]
    exact h.opened
  closed := by
    rw [List.length_append, List.length_singleton, List.range_succ, List.map_append, ← h.closed,
      h.fileDesc rfl]
    rfl
  fileDesc := nofun
  socket := h.socket
  frees := h.frees

/-- A descriptor is opened while no other is open. -/
theorem Balanced.open {m : Bool} (h : Balanced { mutex := m } r) :
    Balanced { mutex := m, fileDesc := true }
      { r with fileDesc := some r.opened, opened := r.opened + 1 } where
  mutex := h.mutex
  opened := congrArg (· + 1) h.opened
  closed := h.closed
  fileDesc _ := congrArg some h.opened
  socket := h.socket
  frees := h.frees

theorem Balanced.openFails {m : Bool} (h : Balanced { mutex := m } r) :
    Balanced { mutex := m } { r with fileDesc := none } :=
  { h with fileDesc := nofun }

theorem Balanced.lock (h : Balanced {} r) :
    Balanced { mutex := true } { r with locks := r.locks + 1 } :=
  { h with mutex := congrArg (· + 1) h.mutex }

theorem Balanced.unlock (h : Balanced { mutex := true } r) :
    Balanced {} { r with unlocks := r.unlocks + 1 } :=
  { h with mutex := h.mutex }

/-! ## The places that a branch can lead to hold the same -/

theorem holding_dispatch (chunk : Bytes) : holding (dispatch chunk) = {} :=
  dispatch_elim (P := fun pc => holding pc = {}) rfl (fun _ => rfl) rfl

theorem holding_afterWriteAll (chunk : Bytes) (w : WriteAll) :
    holding (afterWriteAll b chunk w) = { mutex := true, fileDesc := true } :=
  afterWriteAll_elim (P := fun pc => holding pc = { mutex := true, fileDesc := true }) w
    (fun _ => rfl) rfl rfl (fun _ => rfl)

theorem holding_afterRead (after : After) (bs : Option Bytes) :
    holding (afterRead after bs) = { mutex := true, fileDesc := true } :=
  afterRead_elim (P := fun pc => holding pc = { mutex := true, fileDesc := true }) bs rfl
    (fun _ => rfl)

theorem holding_afterSendAll (after : After) (bs : Bytes) (w : WriteAll) :
    holding (afterSendAll after bs w) = { mutex := true, fileDesc := true } :=
  afterSendAll_elim (P := fun pc => holding pc = { mutex := true, fileDesc := true }) bs w
    (fun _ => rfl) rfl rfl

theorem holding_afterUnlock (after : After) : holding (afterUnlock after) = {} := by
  cases after <;> rfl

/-- Every step keeps the counts in line with what the next place holds. -/
theorem Step.balanced (hstep : Step b node pc ev pc') (h : Balanced (holding pc) r) :
    Balanced (holding pc') (r.next pc ev) := by
  cases hstep with
  | malloc => exact { h with frees := h.frees }
  | recv => rw [holding_dispatch]; exact h
  | write => rw [holding_afterWriteAll]; exact h
  | read => rw [holding_afterRead]; exact h
  | send => rw [holding_afterSendAll]; exact h
  | seekLock | seekSkip | dataLock => exact h.lock
  | seekOpen | dataOpen | reopen => exact h.open
  | seekOpenFails | dataOpenFails | reopenFails => exact h.openFails
  | reclose | close => exact h.close
  | unlock => rw [holding_afterUnlock]; exact h.unlock
  | freeBuffer => exact { h with frees := congrArg (· ++ [r.buffer]) h.frees }
  | closeSocket => exact { h with socket := congrArg (· + 1) h.socket }
  | freeData | exit => exact { h with frees := congrArg (· ++ [Block.data]) h.frees }
  | addLock ok | markLock ok => cases ok <;> exact h
  | _ => exact h

/-- In every run the counts agree with what is held. -/
theorem balanced_of_run (h : (lts b).run .start evs = some c) :
    Balanced (holding c.pc) (resourcesOf b evs) := by
  refine Lts.run_history (I := fun evs c => Balanced (holding c.pc) (resourcesOf b evs))
    balanced_start ?_ h
  intro evs c ev c' hrun ih hs
  rw [resourcesOf_snoc hrun]
  exact (next_eq_some hs).1.balanced ih

theorem Balanced.closed_nodup {h : Holding} (hr : Balanced h r) : r.closed.Nodup := by
  rw [hr.closed]
  exact List.nodup_range.map (Option.some_injective _)

/-- Only descriptors that `open` has returned are closed. -/
theorem Balanced.exists_of_mem_closed {h : Holding} (hr : Balanced h r) {d : Option Nat}
    (hd : d ∈ r.closed) : ∃ n < r.opened, d = some n := by
  rw [hr.closed, List.mem_map] at hd
  obtain ⟨n, hn, rfl⟩ := hd
  have hlt := List.mem_range.mp hn
  exact ⟨n, by rw [hr.opened]; omega, rfl⟩

/-! ## The node -/

/-- How far the last critical section is. -/
def Marking (node : Bool) (evs : List Sys) : Pc → Prop
  | .mark => node = true ∧ ∃ pre ok, evs = pre ++ [.lock .list ok] ∧ .mark ∉ pre
  | .markUnlock => node = true ∧ ∃ pre ok, evs = pre ++ [.lock .list ok, .mark] ∧ .mark ∉ pre
  | .exited =>
    (node = true → ∃ pre ok, evs = pre ++ [.lock .list ok, .mark, .unlock .list] ∧ .mark ∉ pre) ∧
      (node = false → .mark ∉ evs)
  | .markLock => node = true ∧ .mark ∉ evs
  | _ => .mark ∉ evs

theorem mark_not_mem_snoc (h : Sys.mark ∉ evs) (hne : ev ≠ .mark) : Sys.mark ∉ evs ++ [ev] := by
  rw [List.mem_append, List.mem_singleton]
  rintro (hm | rfl)
  · exact h hm
  · exact hne rfl

/-- Every step keeps track of the last critical section. -/
theorem Step.marking (hstep : Step b node pc ev pc') (h : Marking node evs pc) :
    Marking (node || pc == .addUnlock) (evs ++ [ev]) pc' := by
  cases hstep with
  | freeData hn => exact ⟨by rw [hn]; rfl, mark_not_mem_snoc h (by simp)⟩
  | exit hn =>
    refine ⟨fun hnode => ?_, fun _ => mark_not_mem_snoc h (by simp)⟩
    rw [hn] at hnode
    cases hnode
  | markLock ok => exact ⟨by rw [h.1]; rfl, evs, ok, rfl, h.2⟩
  | mark =>
    obtain ⟨hn, pre, ok, rfl, hpre⟩ := h
    exact ⟨by rw [hn]; rfl, pre, ok, by simp, hpre⟩
  | markUnlock =>
    obtain ⟨hn, pre, ok, rfl, hpre⟩ := h
    refine ⟨fun _ => ⟨pre, ok, by simp, hpre⟩, fun hnode => ?_⟩
    rw [hn] at hnode
    cases hnode
  | recv =>
    exact dispatch_elim (P := Marking _ _) (mark_not_mem_snoc h nofun)
      (fun _ => mark_not_mem_snoc h nofun) (mark_not_mem_snoc h nofun)
  | write =>
    exact afterWriteAll_elim (P := Marking _ _) _ (fun _ => mark_not_mem_snoc h nofun)
      (mark_not_mem_snoc h nofun) (mark_not_mem_snoc h nofun) (fun _ => mark_not_mem_snoc h nofun)
  | read =>
    exact afterRead_elim (P := Marking _ _) _ (mark_not_mem_snoc h nofun)
      (fun _ => mark_not_mem_snoc h nofun)
  | send =>
    exact afterSendAll_elim (P := Marking _ _) _ _ (fun _ => mark_not_mem_snoc h nofun)
      (mark_not_mem_snoc h nofun) (mark_not_mem_snoc h nofun)
  | @unlock after => cases after <;> exact mark_not_mem_snoc h (by simp)
  | _ => exact mark_not_mem_snoc h (by simp)

/-- In every run a node is marked by the last critical section only. -/
theorem marking_of_run (h : (lts b).run .start evs = some c) : Marking c.node evs c.pc := by
  refine Lts.run_history (I := fun evs c => Marking c.node evs c.pc) ?_ ?_ h
  · exact List.not_mem_nil
  intro evs c ev c' _ ih hs
  obtain ⟨hstep, hnode⟩ := next_eq_some hs
  rw [hnode]
  exact hstep.marking ih

/-- Only the registration links the node. -/
theorem Step.link_iff (hstep : Step b node pc ev pc') : ev = .link ↔ pc' = .addUnlock := by
  have hne : ∀ {ev' : Sys} {pc'' : Pc}, ev' ≠ .link → pc'' ≠ .addUnlock →
      (ev' = .link ↔ pc'' = .addUnlock) := fun h h' => iff_of_false h h'
  cases hstep with
  | recv => exact hne (by simp) (dispatch_elim (P := (· ≠ .addUnlock)) nofun (fun _ => nofun) nofun)
  | write =>
    exact hne (by simp) (afterWriteAll_elim (P := (· ≠ .addUnlock)) _ (fun _ => nofun) nofun nofun
      (fun _ => nofun))
  | read => exact hne (by simp) (afterRead_elim (P := (· ≠ .addUnlock)) _ nofun (fun _ => nofun))
  | send =>
    exact hne (by simp) (afterSendAll_elim (P := (· ≠ .addUnlock)) _ _ (fun _ => nofun) nofun nofun)
  | @unlock after => cases after <;> simp [afterUnlock]
  | _ => simp

/-- In every run the thread knows its node iff the node is linked, but for the call between. -/
theorem nextNode_iff_of_run (h : (lts b).run .start evs = some c) :
    c.nextNode = true ↔ .link ∈ evs := by
  refine Lts.run_history (I := fun evs c => c.nextNode = true ↔ .link ∈ evs) (by decide) ?_ h
  intro evs c ev c' _ ih hs
  obtain ⟨hstep, hnode⟩ := next_eq_some hs
  rw [nextNode, hnode, Bool.or_eq_true, ih, beq_iff_eq, List.mem_append, List.mem_singleton,
    ← hstep.link_iff, eq_comm (a := ev)]

end Client

/-- In every run of a client thread, of either build and whatever fails: no descriptor is closed
twice and -1 never; at each return to `recv` and at the exit the thread does not hold `file_mutex`,
and every descriptor that it opened is closed; at the exit the socket is closed once, the buffer (if
there is one) and the thread's data are freed once each, and a node that was linked is marked, once,
by the last critical section. -/
theorem handleClient_releases (b : Build) {evs : List Sys} {c : Client}
    (hrun : (Client.lts b).run .start evs = some c) :
    let r := Client.resourcesOf b evs
    (r.unlocks ≤ r.locks ∧ r.closed.Nodup ∧ ∀ d ∈ r.closed, ∃ n < r.opened, d = some n) ∧
      (c.pc = .recv ∨ c.pc = .exited →
        r.locks = r.unlocks ∧ r.closed = (List.range r.opened).map some) ∧
      (c.pc = .exited →
        r.socketCloses = 1 ∧ r.frees = [r.buffer, .data] ∧
          (.link ∈ evs → ∃ pre ok,
            evs = pre ++ [.lock .list ok, .mark, .unlock .list] ∧ .mark ∉ pre) ∧
          (.link ∉ evs → .mark ∉ evs)) := by
  intro r
  have hbal := Client.balanced_of_run hrun
  have hmark := Client.marking_of_run hrun
  have hlink := Client.nextNode_iff_of_run hrun
  obtain ⟨pc, node⟩ := c
  have hidle : Client.Holding.mutex (Client.holding pc) = false →
      Client.Holding.fileDesc (Client.holding pc) = false →
      r.locks = r.unlocks ∧ r.closed = (List.range r.opened).map some := by
    intro hm hf
    have hlocks := hbal.mutex
    have hopened := hbal.opened
    rw [hm, Bool.toNat_false, Nat.add_zero] at hlocks
    rw [hf, Bool.toNat_false, Nat.add_zero] at hopened
    exact ⟨hlocks, hopened ▸ hbal.closed⟩
  refine ⟨⟨?_, hbal.closed_nodup, fun d => hbal.exists_of_mem_closed⟩, ?_, ?_⟩
  · exact hbal.mutex ▸ Nat.le_add_right _ _
  · rintro (rfl | rfl)
    · exact hidle rfl rfl
    · exact hidle rfl rfl
  · rintro rfl
    rw [Client.nextNode, Bool.or_eq_true] at hlink
    simp only [beq_iff_eq, reduceCtorEq, or_false] at hlink
    refine ⟨hbal.socket, hbal.frees, fun h => hmark.1 (hlink.mpr h), fun h => hmark.2 ?_⟩
    rwa [← Bool.not_eq_true, hlink]

/-- The chunk `"a\n"` on the device, which cannot be opened again for the response. -/
def reopenFails : List Sys :=
  [.malloc true, .lock .list true, .link, .unlock .list, .malloc true, .recv (some [97, 10]),
    .lock .file true, .open true, .write [97, 10] 2, .close, .open false, .unlock .file, .free,
    .closeSocket, .free, .lock .list true, .mark, .unlock .list]

theorem handleClient_releases_reopenFails :
    let r := Client.resourcesOf .charDevice reopenFails
    r.locks = r.unlocks ∧ r.closed = [some 0] ∧ r.socketCloses = 1 ∧
      r.frees = [.buffer, .data] := by
  have hrun : (Client.lts .charDevice).run .start reopenFails =
      some { pc := .exited, node := true } := by decide
  obtain ⟨-, hidle, hexit⟩ := handleClient_releases .charDevice hrun
  obtain ⟨hlocks, hclosed⟩ := hidle (.inr rfl)
  obtain ⟨hsocket, hfrees, -⟩ := hexit rfl
  exact ⟨hlocks, hclosed, hsocket, hfrees⟩

end Aesd
