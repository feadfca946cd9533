import Aesd.Driver.History

/-!
# Which cuttings of a stream frame its commands

The device commits everything that is pending as soon as there is a newline in it, also what stands
behind the newline. So the stored commands are lines of the written stream only for some cuttings
into writes: `framing_iff` says for which.
-/

namespace Aesd

variable {K : Kernel} {s s' : Driver} {g : LineLog UInt8} {ws : List WriteCall}

/-- The bytes of a sequence of writes. -/
def stream (ws : List WriteCall) : Bytes := (ws.map (·.chunk)).flatten

/-- The device holds the last ten commands of the stream, each terminated by its only newline, and
what comes after its last newline. -/
structure Frames (s : Driver) (stream : Bytes) : Prop where
  commands : s.commands = (LineLog.lines isNewline stream).rtake maxWriteOperationsSupported
  isLine : ∀ c ∈ s.commands, LineLog.IsLine isNewline c
  pending : s.pendingBytes = LineLog.tail isNewline stream

/-- The log of a run without failures is fed with every chunk. -/
theorem foldl_logCall {rs : List Int} (hlen : rs.length = ws.length) (hok : ∀ r ∈ rs, 0 ≤ r) :
    (ws.zip rs).foldl logCall g = g.writes isNewline (ws.map (·.chunk)) := by
  induction ws generalizing rs g with
  | nil => rfl
  | cons w ws ih =>
    cases rs with
    | nil => cases hlen
    | cons r rs =>
      have hr := hok r (by simp)
      rw [List.zip_cons_cons, List.foldl_cons, logCall, if_neg (by simpa using hr)]
      exact ih (by simpa using hlen) fun r hr => hok r (by simp [hr])

/-- After writes that all succeed, the device frames the stream exactly when the chunks are framed:
only the last ten chunks with a newline count, and the last one before these. Two framed cuttings of
one stream leave the same entries and the same pending bytes. -/
theorem framing_iff (K : Kernel) (ws : List WriteCall)
    (hok : ∀ r ∈ (runWrites K aesdInit ws).1, 0 ≤ r) :
    (Frames (runWrites K aesdInit ws).2 (stream ws) ↔
      LineLog.Framed isNewline maxWriteOperationsSupported (ws.map (·.chunk))) ∧
    ∀ K' ws', (∀ r ∈ (runWrites K' aesdInit ws').1, 0 ≤ r) → stream ws' = stream ws →
      LineLog.Framed isNewline maxWriteOperationsSupported (ws.map (·.chunk)) →
      LineLog.Framed isNewline maxWriteOperationsSupported (ws'.map (·.chunk)) →
      (runWrites K' aesdInit ws').2.commands = (runWrites K aesdInit ws).2.commands ∧
        (runWrites K' aesdInit ws').2.pendingBytes = (runWrites K aesdInit ws).2.pendingBytes := by
  have hiff : ∀ K ws, (∀ r ∈ (runWrites K aesdInit ws).1, 0 ≤ r) →
      (Frames (runWrites K aesdInit ws).2 (stream ws) ↔
        LineLog.Framed isNewline maxWriteOperationsSupported (ws.map (·.chunk))) := by
    intro K ws hok
    obtain ⟨h, hlen, -⟩ := runWrites_holds aesdInit_holds
      (rfl : runWrites K aesdInit ws = ((runWrites K aesdInit ws).1, (runWrites K aesdInit ws).2))
    rw [foldl_logCall hlen hok] at h
    rw [← LineLog.framed_iff, ← h.commands_eq, ← h.pendingBytes_eq]
    exact ⟨fun h => ⟨h.commands, h.isLine, h.pending⟩, fun ⟨h1, h2, h3⟩ => ⟨h1, h2, h3⟩⟩
  refine ⟨hiff K ws hok, fun K' ws' hok' heq hf hf' => ?_⟩
  have h := (hiff K ws hok).mpr hf
  have h' := (hiff K' ws' hok').mpr hf'
  rw [heq] at h'
  exact ⟨h'.commands.trans h.commands.symm, h'.pending.trans h.pending.symm⟩

/-- One line in two chunks. -/
theorem framing_iff_two_chunks :
    Frames (runWrites kernel64 aesdInit [⟨[97], .succeeds⟩, ⟨[98, 10], .succeeds⟩]).2
      (stream [⟨[97], .succeeds⟩, ⟨[98, 10], .succeeds⟩]) :=
  (framing_iff kernel64 [⟨[97], .succeeds⟩, ⟨[98, 10], .succeeds⟩] (by decide)).1.mpr (by decide)

/-- Two lines in one chunk are stored as one command; in two chunks, as two. -/
theorem two_lines_not_framed :
    let one : List WriteCall := [⟨[97, 10, 98, 10], .succeeds⟩]
    let two : List WriteCall := [⟨[97, 10], .succeeds⟩, ⟨[98, 10], .succeeds⟩]
    (runWrites kernel64 aesdInit one).1 = [4] ∧ (runWrites kernel64 aesdInit two).1 = [2, 2] ∧
      stream one = stream two ∧
      ¬ Frames (runWrites kernel64 aesdInit one).2 (stream one) ∧
      (runWrites kernel64 aesdInit one).2.commands = [[97, 10, 98, 10]] ∧
      (runWrites kernel64 aesdInit two).2.commands = [[97, 10], [98, 10]] := by
  refine ⟨by decide, by decide, by decide, fun h => ?_, by decide, by decide⟩
  exact absurd h.commands (by decide)

end Aesd
