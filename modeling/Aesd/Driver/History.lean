import Aesd.Driver.WritePath

/-!
# Runs of `aesd_write`

Any number of writes, from a device just initialised, with any failures. `Holds K s g` says that the
device holds the log `g` of all accepted chunks, of which it retains the last ten commits:
`Holds.aesdWrite` is the step lemma, `runWrites_holds` the run lemma, and
`runWrites_refines_log` reads the result off the concrete state.
-/

namespace Aesd

/-- A call of `aesd_write`: the chunk, and what the kernel chooses. -/
structure WriteCall where
  chunk : Bytes
  env : WriteEnv
  deriving DecidableEq, Repr

/-- The calls one after the other: what they return, and the device after them. -/
def runWrites (K : Kernel) (s : Driver) : List WriteCall → List Int × Driver
  | [] => ([], s)
  | w :: ws =>
    let (r, s) := aesdWrite K w.env s (some w.chunk)
    let (rs, s) := runWrites K s ws
    (r :: rs, s)

/-- The log of a run: a call that failed is not in it. -/
def logCall (g : LineLog UInt8) (call : WriteCall × Int) : LineLog UInt8 :=
  if call.2 < 0 then g else g.write isNewline call.1.chunk

/-- The log of the calls `ws` on a device just initialised. -/
def writeLog (K : Kernel) (ws : List WriteCall) : LineLog UInt8 :=
  (ws.zip (runWrites K aesdInit ws).1).foldl logCall .empty

/-- The device, between calls, holds the log `g`. -/
structure Holds (K : Kernel) (s : Driver) (g : LineLog UInt8) : Prop where
  unlocked : s.dev.lock = false
  noNewline : LineLog.Open isNewline g.pending
  rep : ∃ v, Rep K s v [] ∧ v.log = g.last maxWriteOperationsSupported

variable {K : Kernel} {s s' : Driver} {g : LineLog UInt8} {w : WriteCall} {ws : List WriteCall}

/-- The stored commands are the last ten commits. -/
theorem Holds.commands_eq (h : Holds K s g) :
    s.commands = g.committed.rtake maxWriteOperationsSupported := by
  obtain ⟨v, hr, hlog⟩ := h.rep
  rw [hr.commands_eq]
  exact congrArg LineLog.committed hlog

theorem Holds.pendingBytes_eq (h : Holds K s g) : s.pendingBytes = g.pending := by
  obtain ⟨v, hr, hlog⟩ := h.rep
  rw [hr.pendingBytes_eq]
  exact congrArg LineLog.pending hlog

/-- A chunk with a newline completes the newest stored command. -/
theorem Holds.commands_write {c : Bytes} (h : Holds K s g) (h' : Holds K s' (g.write isNewline c))
    (hc : c.any isNewline = true) : ∃ older, s'.commands = older ++ [s.pendingBytes ++ c] := by
  rw [h'.commands_eq, h.pendingBytes_eq, LineLog.write_of_any hc]
  exact ⟨_, List.rtake_concat_succ _ _ _⟩

theorem aesdInit_holds : Holds K aesdInit .empty :=
  ⟨rfl, LineLog.empty_open, ⟨none, []⟩, aesdInit_rep, rfl⟩

/-- One call: it fails and the log stays, or it returns the length and the log gets the chunk. -/
theorem Holds.aesdWrite {r : Int} (h : Holds K s g)
    (hw : aesdWrite K w.env s (some w.chunk) = (r, s')) :
    Holds K s' (logCall g (w, r)) ∧ (r < 0 ∧ s'.dev = s.dev ∨ r = w.chunk.length) := by
  by_cases hc : w.chunk = []
  · -- refused before the lock is taken
    simp only [Aesd.aesdWrite, hc, List.length_nil, ↓reduceIte, Prod.mk.injEq] at hw
    obtain ⟨rfl, rfl⟩ := hw
    rw [logCall, if_pos (show -einval < 0 by decide)]
    exact ⟨h, .inl ⟨by decide, rfl⟩⟩
  · obtain ⟨v, hr, hlog⟩ := h.rep
    have hpend : v.pending = g.pending := congrArg LineLog.pending hlog
    obtain ⟨hl, v', hr', hres⟩ := aesdWrite_spec hr h.unlocked hc (hpend ▸ h.noNewline) hw
    rw [logCall]
    rcases hres with ⟨hneg, hdev, rfl, -⟩ | ⟨rfl, hlog'⟩
    · rw [if_pos hneg]
      exact ⟨⟨hl, h.noNewline, v', hr', hlog⟩, .inl ⟨hneg, hdev⟩⟩
    · rw [if_neg (by simp)]
      refine ⟨⟨hl, LineLog.write_open h.noNewline _, v', hr', ?_⟩, .inr rfl⟩
      rw [hlog', hlog, LineLog.last_writeLast (by decide)]

/-- A run: the device holds the log of its calls, and a call that did not fail returned the length
of its chunk. -/
theorem runWrites_holds {rs : List Int} (h : Holds K s g) (hrun : runWrites K s ws = (rs, s')) :
    Holds K s' ((ws.zip rs).foldl logCall g) ∧ rs.length = ws.length ∧
      ∀ call ∈ ws.zip rs, call.2 < 0 ∨ call.2 = call.1.chunk.length := by
  induction ws generalizing s g rs with
  | nil =>
    cases hrun
    exact ⟨h, rfl, by simp⟩
  | cons w ws ih =>
    rw [runWrites] at hrun
    generalize hw : Aesd.aesdWrite K w.env s (some w.chunk) = res at hrun
    obtain ⟨r, s1⟩ := res
    simp only at hrun
    generalize hrest : runWrites K s1 ws = rest at hrun
    obtain ⟨rs', s2⟩ := rest
    obtain ⟨rfl, rfl⟩ := Prod.mk.inj hrun
    obtain ⟨h1, hr⟩ := h.aesdWrite hw
    obtain ⟨h2, hlen, hrs⟩ := ih h1 hrest
    refine ⟨h2, by simp [hlen], ?_⟩
    intro call hcall
    rw [List.zip_cons_cons, List.mem_cons] at hcall
    rcases hcall with rfl | hcall
    · exact hr.imp And.left id
    · exact hrs call hcall

/-- After any writes the device holds a view, and its lock is free. -/
theorem runWrites_rep (K : Kernel) (ws : List WriteCall) :
    ∃ v, Rep K (runWrites K aesdInit ws).2 v [] ∧ (runWrites K aesdInit ws).2.dev.lock = false := by
  obtain ⟨h, -, -⟩ := runWrites_holds aesdInit_holds
    (rfl : runWrites K aesdInit ws = ((runWrites K aesdInit ws).1, (runWrites K aesdInit ws).2))
  obtain ⟨v, hr, -⟩ := h.rep
  exact ⟨v, hr, h.unlocked⟩

theorem length_runWrites (s : Driver) (ws : List WriteCall) :
    (runWrites K s ws).1.length = ws.length := by
  induction ws generalizing s with
  | nil => rfl
  | cons w ws ih => simp [runWrites, ih]

theorem runWrites_append (s : Driver) (us ws : List WriteCall) :
    runWrites K s (us ++ ws) =
      ((runWrites K s us).1 ++ (runWrites K (runWrites K s us).2 ws).1,
        (runWrites K (runWrites K s us).2 ws).2) := by
  induction us generalizing s with
  | nil => rfl
  | cons u us ih =>
    rw [List.cons_append, runWrites, runWrites]
    simp only [ih, List.cons_append]

/-- The log after one more call. -/
theorem writeLog_snoc (K : Kernel) (ws : List WriteCall) (w : WriteCall) :
    writeLog K (ws ++ [w]) = logCall (writeLog K ws)
      (w, (aesdWrite K w.env (runWrites K aesdInit ws).2 (some w.chunk)).1) := by
  rw [writeLog, runWrites_append, List.zip_append (length_runWrites _ _).symm, List.foldl_append]
  rfl

/-- One call of a run: if it fails the log and the device stay, if not the log gets its chunk; and
with room on the heap it fails only when one of the kernel's functions does. -/
theorem runWrites_call (K : Kernel) (us : List WriteCall) (w : WriteCall) :
    let s := (runWrites K aesdInit us).2
    let r := (aesdWrite K w.env s (some w.chunk)).1
    (r < 0 → writeLog K (us ++ [w]) = writeLog K us ∧
        (runWrites K aesdInit (us ++ [w])).2.dev = s.dev) ∧
      (0 ≤ r → r = w.chunk.length ∧
        writeLog K (us ++ [w]) = (writeLog K us).write isNewline w.chunk) ∧
      (w.chunk ≠ [] → s.HasRoom K w.chunk.length → r = w.env.retval w.chunk.length) := by
  intro s r
  obtain ⟨h, -, -⟩ := runWrites_holds aesdInit_holds (rfl : runWrites K aesdInit us = (_, s))
  have hlast : (runWrites K aesdInit (us ++ [w])).2 = (aesdWrite K w.env s (some w.chunk)).2 := by
    rw [runWrites_append]
    rfl
  obtain ⟨-, hres⟩ := h.aesdWrite (w := w) (rfl : aesdWrite K w.env s (some w.chunk) = (r, _))
  rw [writeLog_snoc, hlast]
  refine ⟨fun hneg => ⟨if_pos hneg, ?_⟩, fun h0 => ⟨?_, if_neg (Int.not_lt.mpr h0)⟩,
    fun hc hroom => ?_⟩
  · rcases hres with ⟨-, hdev⟩ | hcnt
    · exact hdev
    · exact absurd (hcnt.symm.trans_lt hneg) (by simp)
  · exact hres.resolve_left fun hneg => Int.not_lt.mpr h0 hneg.1
  · obtain ⟨v, hr, -⟩ := h.rep
    exact aesdWrite_retval w.env hr hc hroom

/-- The retained commands are the last ten commits of the log, and `write_buf` has its pending
bytes, after every run. A call that fails is not in the log and leaves the device; one that does not
returns the length of its chunk. With room on the heap, a call of a chunk that is not empty fails
exactly when it is interrupted, an allocation is refused or the copy faults. -/
theorem runWrites_refines_log (K : Kernel) (ws : List WriteCall) :
    let rs := (runWrites K aesdInit ws).1
    let s := (runWrites K aesdInit ws).2
    let g := writeLog K ws
    (s.commands = g.committed.rtake maxWriteOperationsSupported ∧
      s.dev.buffer.live.map (·.size) =
        (g.committed.rtake maxWriteOperationsSupported).map List.length) ∧
    (s.pendingBytes = g.pending ∧ s.dev.writeBufSize = g.pending.length ∧
      (s.dev.writeBuf = none ↔ s.dev.writeBufSize = 0) ∧
      LineLog.Open isNewline s.pendingBytes ∧
      ∀ chunk, (s.pendingBytes ++ chunk).any isNewline = chunk.any isNewline) ∧
    rs.length = ws.length ∧
    ∀ us w vs, ws = us ++ w :: vs → ∃ r, rs[us.length]? = some r ∧
      (r < 0 → writeLog K (us ++ [w]) = writeLog K us ∧
        (runWrites K aesdInit (us ++ [w])).2.dev = (runWrites K aesdInit us).2.dev) ∧
      (0 ≤ r → r = w.chunk.length ∧
        writeLog K (us ++ [w]) = (writeLog K us).write isNewline w.chunk) ∧
      (w.chunk ≠ [] → (runWrites K aesdInit us).2.HasRoom K w.chunk.length →
        r = w.env.retval w.chunk.length) := by
  intro rs s g
  obtain ⟨h, hlen, -⟩ := runWrites_holds aesdInit_holds
    (rfl : runWrites K aesdInit ws = (rs, s))
  have hbytes := h.pendingBytes_eq
  obtain ⟨v, hr, hlog⟩ := h.rep
  refine ⟨⟨h.commands_eq, ?_⟩, ⟨hbytes, ?_, hr.writeBuf_eq_none_iff, ?_, ?_⟩, hlen, ?_⟩
  · rw [hr.sizes_eq, ← hr.commands_eq, h.commands_eq]
    rfl
  · rw [hr.writeBufSize, ← hr.pendingBytes_eq, hbytes]
    rfl
  · rw [hbytes]
    exact h.noNewline
  · intro chunk
    rw [hbytes]
    exact LineLog.any_append_of_open h.noNewline
  · rintro us w vs rfl
    refine ⟨_, ?_, runWrites_call K us w⟩
    simp only [rs, runWrites_append]
    rw [← length_runWrites (K := K) aesdInit us, List.getElem?_append_right (Nat.le_refl _),
      Nat.sub_self]
    rfl

/-- A line in two writes, and between them one whose copy faults. -/
def lineInTwo : List WriteCall :=
  [⟨[97], .succeeds⟩, ⟨[120], { WriteEnv.succeeds with copyFails := true }⟩, ⟨[98, 10], .succeeds⟩]

theorem runWrites_refines_log_line :
    (runWrites kernel64 aesdInit lineInTwo).2.commands = [[97, 98, 10]] ∧
      (runWrites kernel64 aesdInit lineInTwo).1[2]? = some 2 := by
  obtain ⟨⟨hcommands, -⟩, -, -, hcalls⟩ := runWrites_refines_log kernel64 lineInTwo
  obtain ⟨r, hr, -, -, hret⟩ := hcalls
    [⟨[97], .succeeds⟩, ⟨[120], { WriteEnv.succeeds with copyFails := true }⟩]
    ⟨[98, 10], .succeeds⟩ [] rfl
  have hr2 : r = 2 := hret (by decide) (by decide)
  rw [hr2] at hr
  exact ⟨hcommands.trans (by decide), hr⟩

end Aesd
