import Aesd.Lib.Heap
import Aesd.Server.SocketOps

/-!
# `write_all` at one end, `read_all` at the other (`socket_ops.c`)

A byte channel with `write_all` at its one end and `read_all` at its other end, in any interleaving
of their calls and with any results: short counts, interruptions, errors, and the end of file once
the writer has closed its end.

* `Transmission.Ok`: the reader's buffer and the bytes under way are what the writer has sent.
* `readAll_writeAll`: what arrives is the message, and the result of `read_all` tells how much of it.
-/

namespace Aesd

/-- `read_all(fd, buf, count)`: the loop of `write_all`, with `read` for `write`. -/
def readAll (w count : Nat) : Lts WriteAllState WriteAllCall := writeAll w count

/-- The head of its loop. -/
def readAllLoop (w count bytesRead : Nat) : WriteAllState := writeAllLoop w count bytesRead

/-- Both ends of a channel. -/
structure Transmission where
  writer : WriteAllState
  reader : WriteAllState
  /-- The bytes that are written and not yet read. -/
  pipe : Bytes
  /-- The writer has closed its end. -/
  closed : Bool
  /-- The memory at `buf` of `read_all`. -/
  buffer : Bytes

/-- A step at one of the ends. -/
inductive TransmissionEvent where
  | writes (call : WriteAllCall)
  | closes
  /-- A `read` that gets `data`. -/
  | reads (call : WriteAllCall) (data : Bytes)
  deriving DecidableEq, Repr

namespace Transmission

/-- `write_all(fd, msg, …)` and `read_all(fd, old, count)` before their first calls. -/
def start (w : Nat) (msg old : Bytes) (count : Nat) : Transmission where
  writer := writeAllLoop w msg.length 0
  reader := readAllLoop w count 0
  pipe := []
  closed := false
  buffer := old

/-- The channel: a `read` gets bytes from its front, or 0 at the end of file. -/
def lts (w : Nat) (msg : Bytes) (count : Nat) : Lts Transmission TransmissionEvent where
  next st
    | .writes call =>
      ((writeAll w msg.length).next st.writer call).map fun writer =>
        { st with writer, pipe := st.pipe ++ (msg.drop call.offset).take call.ret.toNat }
    | .closes =>
      match st.writer with
      | .returned _ => some { st with closed := true }
      | .writing _ => none
    | .reads call data =>
      if data <+: st.pipe ∧ data.length = call.ret.toNat ∧
          (call.ret = 0 → st.pipe = [] ∧ st.closed = true) then
        ((readAll w count).next st.reader call).map fun reader =>
          { st with
            reader, pipe := st.pipe.drop data.length
            buffer := Heap.splice st.buffer call.offset data }
      else none

/-- The calls of `write_all`. -/
def writesOf (tr : List TransmissionEvent) : List WriteAllCall :=
  tr.filterMap fun
    | .writes call => some call
    | _ => none

/-- The calls of `read_all`. -/
def readsOf (tr : List TransmissionEvent) : List WriteAllCall :=
  tr.filterMap fun
    | .reads call _ => some call
    | _ => none

/-- The ends, when the writer has sent `i` bytes and the reader has got `j`. -/
structure Ok (msg old : Bytes) (count i j : Nat) (tr : List TransmissionEvent) (st : Transmission) :
    Prop where
  writer : Transfer msg.length (writesOf tr) i st.writer
  reader : Transfer count (readsOf tr) j st.reader
  length : st.buffer.length = old.length
  bytes : st.buffer.take j ++ st.pipe = msg.take i
  /-- The rest of the buffer is as it was. -/
  rest : st.buffer.drop j = old.drop j
  closed : st.closed = true → ∃ r, st.writer = .returned r
  ended : (∃ call ∈ (readsOf tr).getLast?, call.ret = 0) → st.closed = true ∧ st.pipe = []

variable {w count i j : Nat} {msg old : Bytes} {tr : List TransmissionEvent} {st st' : Transmission}
  {e : TransmissionEvent}

/-- A step at one of the ends. -/
theorem Ok.next (h : Ok msg old count i j tr st) (hmsg : msg.length < 2 ^ (w - 1))
    (hcount : count ≤ old.length) (hold : old.length < 2 ^ (w - 1))
    (hs : (lts w msg count).next st e = some st') : ∃ i j, Ok msg old count i j (tr ++ [e]) st' := by
  cases e with
  | writes call =>
    obtain ⟨writer, hw, rfl⟩ := Option.map_eq_some_iff.mp hs
    obtain ⟨hoffset, -, hwriter⟩ := h.writer.next hmsg hw
    refine ⟨i + call.ret.toNat, j, ?_, ?_, h.length, ?_, h.rest, fun hc => ?_, fun hend => ?_⟩
    · simpa [writesOf] using hwriter
    · simpa [readsOf] using h.reader
    · rw [hoffset, List.take_add, ← h.bytes, List.append_assoc]
    · obtain ⟨r, hr⟩ := h.closed hc
      rw [hr] at hw
      cases hw
    · have hend' := h.ended (by simpa [readsOf] using hend)
      obtain ⟨r, hr⟩ := h.closed hend'.1
      rw [hr] at hw
      cases hw
  | closes =>
    simp only [lts] at hs
    split at hs
    · rename_i r hr
      cases hs
      refine ⟨i, j, ?_, ?_, h.length, h.bytes, h.rest, fun _ => ⟨r, hr⟩, fun hend => ⟨rfl, ?_⟩⟩
      · simpa [writesOf] using h.writer
      · simpa [readsOf] using h.reader
      · exact (h.ended (by simpa [readsOf] using hend)).2
    · cases hs
  | reads call data =>
    simp only [lts] at hs
    split at hs
    · rename_i hread
      obtain ⟨hdata, hlen, hzero⟩ := hread
      obtain ⟨reader, hr, rfl⟩ := Option.map_eq_some_iff.mp hs
      obtain ⟨hoffset, -, hreader⟩ := h.reader.next (hcount.trans_lt hold) hr
      have hle := hreader.le
      have hlength := h.length
      refine ⟨i, j + call.ret.toNat, ?_, ?_, ?_, ?_, ?_, h.closed, fun hend => ?_⟩
      · simpa [writesOf] using h.writer
      · simpa [readsOf] using hreader
      · exact (Heap.length_splice (by omega)).trans hlength
      · rw [hoffset, ← hlen, Heap.take_splice (by omega), List.append_assoc,
          List.prefix_iff_eq_append.mp hdata, h.bytes]
      · rw [hoffset, ← hlen, Heap.drop_splice (by omega), ← List.drop_drop, h.rest, List.drop_drop]
      · obtain ⟨c, hc, hret⟩ := hend
        obtain rfl : call = c := by simpa [readsOf] using hc
        obtain ⟨hpipe, hclosed⟩ := hzero hret
        exact ⟨hclosed, by rw [hpipe, List.drop_nil]⟩
    · cases hs

theorem start_ok (hmsg : msg.length < 2 ^ (w - 1)) (hcount : count < 2 ^ (w - 1)) :
    Ok msg old count 0 0 [] (start w msg old count) where
  writer := transfer_init w _ hmsg
  reader := transfer_init w _ hcount
  length := rfl
  bytes := rfl
  rest := rfl
  closed := nofun
  ended := by simp [readsOf]

theorem ok_of_run (hmsg : msg.length < 2 ^ (w - 1)) (hcount : count ≤ old.length)
    (hold : old.length < 2 ^ (w - 1))
    (hrun : (lts w msg count).run (start w msg old count) tr = some st) :
    ∃ i j, Ok msg old count i j tr st := by
  refine Lts.run_history (I := fun tr st => ∃ i j, Ok msg old count i j tr st)
    ⟨0, 0, start_ok hmsg (hcount.trans_lt hold)⟩ ?_ hrun
  rintro tr st e st' - ⟨i, j, h⟩ hs
  exact h.next hmsg hcount hold hs

/-- What is in the buffer is the message from its start. -/
theorem Ok.buffer_eq (h : Ok msg old count i j tr st) (hcount : count ≤ old.length) :
    j ≤ i ∧ i ≤ msg.length ∧ st.buffer = msg.take j ++ old.drop j ∧
      st.pipe = (msg.take i).drop j := by
  have hj : (st.buffer.take j).length = j := by
    have := h.reader.le
    rw [List.length_take, h.length]
    omega
  have hi := h.writer.le
  have hlen := congrArg List.length h.bytes
  rw [List.length_append, hj, List.length_take] at hlen
  have hji : j ≤ i := by omega
  have htake : st.buffer.take j = msg.take j := by
    have htake := congrArg (List.take j) h.bytes
    rwa [List.take_left' hj, List.take_take, Nat.min_eq_left hji] at htake
  refine ⟨hji, hi, ?_, ?_⟩
  · rw [← htake, ← h.rest, List.take_append_drop]
  · rw [← h.bytes, List.drop_left' hj]

end Transmission

/-- A message sent by `write_all` and received by `read_all` over a channel, in any interleaving with
any results. The buffer of `read_all` holds the message from its start, byte for byte, and nothing
behind it is touched. `read_all` returns -1 or at most `count`. If it returns `count` the first
`count` bytes have arrived; if it returns less, the writer has closed its end and all that `write_all`
sent has arrived, so the whole message if `write_all` reports it as sent; and -1 is returned exactly
after an error of `read`. -/
theorem readAll_writeAll (w count : Nat) (msg old : CObject w) (hcount : count ≤ old.bytes.length)
    (tr : List TransmissionEvent) (st : Transmission)
    (hrun : (Transmission.lts w msg.bytes count).run
      (Transmission.start w msg.bytes old.bytes count) tr = some st) :
    (∃ j, st.buffer = msg.bytes.take j ++ old.bytes.drop j ∧
      st.pipe <+: msg.bytes.drop j) ∧
    ∀ r, st.reader = .returned r →
      (-1 ≤ r ∧ r ≤ count) ∧
      (r = count → st.buffer = msg.bytes.take count ++ old.bytes.drop count ∧
        count ≤ msg.bytes.length) ∧
      (0 ≤ r → r < count → st.closed = true ∧ st.pipe = [] ∧
        st.buffer = msg.bytes.take r.toNat ++ old.bytes.drop r.toNat ∧
        ∃ sent, st.writer = .returned sent ∧ (sent = msg.bytes.length → r = msg.bytes.length)) ∧
      (r = -1 ↔ ∃ call ∈ (Transmission.readsOf tr).getLast?, call.ret < 0 ∧ call.ret ≠ -eintr) := by
  obtain ⟨i, j, h⟩ := Transmission.ok_of_run msg.length_lt hcount old.length_lt hrun
  obtain ⟨hji, hi, hbuffer, hpipe⟩ := h.buffer_eq hcount
  refine ⟨⟨j, hbuffer, ?_⟩, fun r hr => ?_⟩
  · rw [hpipe, List.drop_take]
    exact List.take_prefix _ _
  · have hreader := h.reader
    rw [hr] at hreader
    refine ⟨hreader.result_bounds, fun hc => ?_, fun h0 hlt => ?_, hreader.result_eq_neg_one_iff⟩
    · obtain rfl : j = count := hreader.result_iff.mp hc
      exact ⟨hbuffer, hji.trans hi⟩
    · cases hreader with
      | whole => exact absurd hlt (by omega)
      | error => exact absurd h0 (by decide)
      | zero _ hlast =>
        obtain ⟨hclosed, hnil⟩ := h.ended hlast
        obtain ⟨sent, hsent⟩ := h.closed hclosed
        have hij : i = j := by
          rw [hnil] at hpipe
          have hlen := congrArg List.length hpipe
          simp at hlen
          omega
        refine ⟨hclosed, hnil, hbuffer, sent, hsent, fun heq => ?_⟩
        have hwriter := h.writer
        rw [hsent] at hwriter
        rw [← hij, hwriter.result_iff.mp heq]

/-- `"abc"` is sent in two pieces, and read in two others; then there is nothing more to come. -/
def abcInPieces : List TransmissionEvent :=
  [.writes ⟨0, 3, 2⟩, .reads ⟨0, 4, 1⟩ [97], .reads ⟨1, 3, -eintr⟩ [], .writes ⟨2, 1, 1⟩,
    .reads ⟨1, 3, 2⟩ [98, 99], .closes, .reads ⟨3, 1, 0⟩ []]

theorem readAll_writeAll_abc :
    ∃ st, (Transmission.lts 64 [97, 98, 99] 4).run
        (Transmission.start 64 [97, 98, 99] [0, 0, 0, 0] 4) abcInPieces = some st ∧
      st.buffer = [97, 98, 99, 0] := by
  have hrun : (((Transmission.lts 64 [97, 98, 99] 4).run
      (Transmission.start 64 [97, 98, 99] [0, 0, 0, 0] 4) abcInPieces).map fun st => st.reader) =
        some (.returned 3) := by decide
  obtain ⟨st, hst, hr⟩ := Option.map_eq_some_iff.mp hrun
  obtain ⟨-, -, hbuffer, -⟩ := ((readAll_writeAll 64 4 ⟨[97, 98, 99], by decide⟩
    ⟨[0, 0, 0, 0], by decide⟩ (by decide) abcInPieces st hst).2 3 hr).2.2.1 (by decide) (by decide)
  exact ⟨st, hst, hbuffer⟩

end Aesd
