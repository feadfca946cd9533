import Aesd.Server.HandleClient

/-!
# `write_all` (`socket_ops.c`)

The function with the `size_t` and `ssize_t` of the target, as a system of its calls of `write`.
`handle_client` has the loop inlined; an iteration there is one here (`writeAll_next`).

* `Transfer`: how far a call is, with the bytes that the descriptor got.
* `writeAll_transfers`: they are a prefix of the buffer, and the result tells which; so the test in
  `handle_client` finds every incomplete transfer.
-/

namespace Aesd

open Client (writeAllStep afterWrite)

/-- An object in the memory of a target with a `size_t` of `w` bits: it has `PTRDIFF_MAX` bytes at
most. -/
structure CObject (w : Nat) where
  bytes : Bytes
  length_lt : bytes.length < 2 ^ (w - 1)

/-- A conversion to `size_t`. -/
def sizeT (w : Nat) (n : Int) : Nat := (n % 2 ^ w).toNat

/-- A conversion of a `size_t` to `ssize_t`. -/
def ssizeT (w n : Nat) : Int := Int.bmod n (2 ^ w)

/-- A call `write(fd, buf + offset, count)` with its result. A result that is negative stands for -1
with that `errno`. -/
structure WriteAllCall where
  offset : Nat
  count : Nat
  ret : Int
  deriving DecidableEq, Repr

/-- Where a call of `write_all` is. -/
inductive WriteAllState where
  /-- In front of `write`. -/
  | writing (bytesWritten : Nat)
  | returned (result : Int)
  deriving DecidableEq, Repr

/-- The head of the loop. -/
def writeAllLoop (w count bytesWritten : Nat) : WriteAllState :=
  if bytesWritten < count then .writing bytesWritten else .returned (ssizeT w bytesWritten)

/-- `write_all(fd, buf, count)` as a system of its calls. -/
def writeAll (w count : Nat) : Lts WriteAllState WriteAllCall where
  next
    | .writing bytesWritten, call =>
      if call.offset = bytesWritten ∧ call.count = sizeT w (count - bytesWritten) ∧
          call.ret ≤ call.count then
        some (if call.ret < 0 then
            if call.ret = -eintr then writeAllLoop w count bytesWritten else .returned (-1)
          else if call.ret = 0 then .returned (ssizeT w bytesWritten)
          else writeAllLoop w count (sizeT w (bytesWritten + call.ret)))
      else none
    | .returned _, _ => none

/-- What the descriptor got. -/
def transferred (buf : Bytes) (tr : List WriteAllCall) : Bytes :=
  tr.flatMap fun call => (buf.drop call.offset).take call.ret.toNat

/-- The calls that were not interrupted. -/
def uninterrupted (tr : List WriteAllCall) : Nat := (tr.filter fun call => call.ret ≠ -eintr).length

variable {w count n : Nat} {ret : Int} {buf : Bytes} {tr : List WriteAllCall} {call : WriteAllCall}
  {st st' : WriteAllState}

theorem transferred_snoc (tr : List WriteAllCall) (call : WriteAllCall) :
    transferred buf (tr ++ [call]) =
      transferred buf tr ++ (buf.drop call.offset).take call.ret.toNat := by
  simp [transferred]

theorem uninterrupted_snoc (tr : List WriteAllCall) (call : WriteAllCall) :
    uninterrupted (tr ++ [call]) = uninterrupted tr + if call.ret = -eintr then 0 else 1 := by
  rw [uninterrupted, List.filter_append, List.length_append, ← uninterrupted]
  by_cases h : call.ret = -eintr <;> simp [h]

/-! ## The sizes do not wrap -/

theorem sizeT_of_lt (hn : n < 2 ^ (w - 1)) : sizeT w n = n := by
  have hlt : n < 2 ^ w := Nat.lt_of_lt_of_le hn (Nat.pow_le_pow_right (by decide) (by omega))
  have hmod : (n : Int) % 2 ^ w = ((n % 2 ^ w : Nat) : Int) := by simp
  rw [sizeT, hmod, Int.toNat_natCast, Nat.mod_eq_of_lt hlt]

theorem ssizeT_of_lt (hn : n < 2 ^ (w - 1)) : ssizeT w n = n := by
  rw [ssizeT]
  cases w with
  | zero =>
    have h0 : n = 0 := by simpa using hn
    simp [h0]
  | succ w =>
    rw [Nat.add_sub_cancel] at hn
    apply Int.bmod_eq_of_le <;> rw [Nat.pow_succ] <;> omega

/-! ## An iteration -/

/-- An iteration in `handle_client`, as a state. -/
def WriteAllState.ofStep : Client.WriteAll → WriteAllState
  | .more written => .writing written
  | .done result => .returned result

/-- A call in the loop is an iteration as `handle_client` makes it. -/
theorem writeAll_next (hcount : count < 2 ^ (w - 1)) (hn : n < count) :
    (writeAll w count).next (.writing n) call = some st' ↔
      call.offset = n ∧ call.count = count - n ∧ call.ret ≤ ((count - n : Nat) : Int) ∧
        st' = .ofStep (writeAllStep count n call.ret) := by
  have hsize : sizeT w ((count : Int) - n) = count - n := by
    rw [← Int.ofNat_sub hn.le]
    exact sizeT_of_lt (by omega)
  have hstep : call.ret ≤ ((count - n : Nat) : Int) → (if call.ret < 0 then
        if call.ret = -eintr then writeAllLoop w count n else .returned (-1)
      else if call.ret = 0 then .returned (ssizeT w n)
      else writeAllLoop w count (sizeT w (n + call.ret))) =
        WriteAllState.ofStep (writeAllStep count n call.ret) := by
    intro hret
    unfold writeAllStep
    split
    · split
      · exact if_pos hn
      · rfl
    · split
      · rw [ssizeT_of_lt (by omega)]
        rfl
      · obtain ⟨k, hk⟩ := Int.eq_ofNat_of_zero_le (by omega : 0 ≤ call.ret)
        rw [hk] at hret ⊢
        have hle : n + k ≤ count := by omega
        rw [← Int.natCast_add, sizeT_of_lt (by omega), Int.toNat_natCast, writeAllLoop]
        split
        · rfl
        · rw [ssizeT_of_lt (by omega)]
          rfl
  simp only [writeAll, hsize]
  constructor
  · intro h
    split at h
    · rename_i hc
      obtain ⟨h1, h2, h3⟩ := hc
      rw [h2] at h3
      exact ⟨h1, h2, h3, (Option.some.inj h).symm.trans (hstep h3)⟩
    · cases h
  · rintro ⟨h1, h2, h3, rfl⟩
    rw [if_pos ⟨h1, h2, by rw [h2]; exact h3⟩, hstep h3]

/-- What an iteration does, one case for each kind of result. -/
theorem writeAllStep_cases (hn : n < count) (hret : ret ≤ ((count - n : Nat) : Int)) :
    (ret = -eintr ∧ writeAllStep count n ret = .more n) ∨
      (ret < 0 ∧ ret ≠ -eintr ∧ writeAllStep count n ret = .done (-1)) ∨
      (ret = 0 ∧ writeAllStep count n ret = .done n) ∨
      ∃ k : Nat, 0 < k ∧ ret = k ∧
        (n + k < count ∧ writeAllStep count n ret = .more (n + k) ∨
          n + k = count ∧ writeAllStep count n ret = .done count) := by
  rcases Int.lt_trichotomy ret 0 with h | rfl | h
  · by_cases hi : ret = -eintr
    · exact .inl ⟨hi, by rw [writeAllStep, if_pos h, if_pos hi]⟩
    · exact .inr (.inl ⟨h, hi, by rw [writeAllStep, if_pos h, if_neg hi]⟩)
  · exact .inr (.inr (.inl ⟨rfl, rfl⟩))
  · obtain ⟨k, rfl⟩ := Int.eq_ofNat_of_zero_le h.le
    have hk : 0 < k := by omega
    refine .inr (.inr (.inr ⟨k, hk, rfl, ?_⟩))
    rcases Nat.lt_or_eq_of_le (by omega : n + k ≤ count) with hlt | heq
    · exact .inl ⟨hlt, Client.writeAllStep_of_lt hk hlt⟩
    · exact .inr ⟨heq, Client.writeAllStep_of_eq hk heq⟩

/-! ## Runs -/

/-- How far a call of `write_all` is after the calls `tr`: the descriptor got `n` bytes. -/
inductive Transfer (count : Nat) (tr : List WriteAllCall) (n : Nat) : WriteAllState → Prop
  | writing (hn : n < count) (hcompleted : uninterrupted tr ≤ n) : Transfer count tr n (.writing n)
  | whole (hn : n = count) (hlast : ∀ call ∈ tr.getLast?, 0 < call.ret) :
    Transfer count tr n (.returned count)
  | zero (hn : n < count) (hlast : ∃ call ∈ tr.getLast?, call.ret = 0) :
    Transfer count tr n (.returned n)
  | error (hn : n < count) (hlast : ∃ call ∈ tr.getLast?, call.ret < 0 ∧ call.ret ≠ -eintr) :
    Transfer count tr n (.returned (-1))

theorem transfer_init (w count : Nat) (hcount : count < 2 ^ (w - 1)) :
    Transfer count [] 0 (writeAllLoop w count 0) := by
  unfold writeAllLoop
  split
  · rename_i h
    exact .writing h (Nat.le_refl _)
  · rename_i h
    rw [ssizeT_of_lt (by omega), show 0 = count by omega]
    exact .whole rfl nofun

theorem Transfer.le (h : Transfer count tr n st) : n ≤ count := by
  cases h with
  | writing hn => exact hn.le
  | whole hn => exact hn.le
  | zero hn => exact hn.le
  | error hn => exact hn.le

/-- A call asks for what is left, and the descriptor gets the next bytes. -/
theorem Transfer.next (h : Transfer count tr n st) (hcount : count < 2 ^ (w - 1))
    (hnext : (writeAll w count).next st call = some st') :
    call.offset = n ∧ call.count = count - n ∧
      Transfer count (tr ++ [call]) (n + call.ret.toNat) st' := by
  cases h with
  | writing hn hcompleted =>
    obtain ⟨hoffset, hcnt, hret, rfl⟩ := (writeAll_next hcount hn).mp hnext
    refine ⟨hoffset, hcnt, ?_⟩
    have hlast : call ∈ (tr ++ [call]).getLast? := by simp
    have hsnoc := uninterrupted_snoc tr call
    rcases writeAllStep_cases hn hret with
      ⟨hr, hs⟩ | ⟨hr, hi, hs⟩ | ⟨hr, hs⟩ | ⟨k, hk, hr, ⟨hlt, hs⟩ | ⟨heq, hs⟩⟩
    · rw [if_pos hr] at hsnoc
      rw [hs, hr, show n + (-eintr).toNat = n from rfl]
      exact .writing hn (hsnoc.trans_le hcompleted)
    · rw [hs, Int.toNat_of_nonpos hr.le]
      exact .error hn ⟨call, hlast, hr, hi⟩
    · rw [hs, hr, Int.toNat_zero]
      exact .zero hn ⟨call, hlast, hr⟩
    · have hle : uninterrupted (tr ++ [call]) ≤ n + k := by
        split at hsnoc <;> omega
      rw [hs, hr, Int.toNat_natCast]
      exact .writing hlt hle
    · rw [hs, hr, Int.toNat_natCast, heq]
      refine .whole rfl fun c hc => ?_
      obtain rfl : call = c := by simpa using hc
      omega
  | _ => cases hnext

/-- The bytes that the descriptor got, and what was asked for, in a run of `write_all`. -/
theorem transfer_run (buf : Bytes) (hcount : count < 2 ^ (w - 1))
    (hrun : (writeAll w count).run (writeAllLoop w count 0) tr = some st) :
    (∀ call ∈ tr, call.offset + call.count = count) ∧
      ∃ n, transferred buf tr = buf.take n ∧ Transfer count tr n st := by
  refine Lts.run_history (I := fun tr st => (∀ call ∈ tr, call.offset + call.count = count) ∧
    ∃ n, transferred buf tr = buf.take n ∧ Transfer count tr n st)
    ⟨nofun, 0, rfl, transfer_init w count hcount⟩ ?_ hrun
  rintro tr st call st' - ⟨hcalls, n, hgot, ht⟩ hnext
  obtain ⟨hoffset, hcnt, ht'⟩ := ht.next hcount hnext
  have hle := ht.le
  refine ⟨List.forall_mem_append.mpr ⟨hcalls, List.forall_mem_singleton.mpr (by omega)⟩, _, ?_, ht'⟩
  rw [transferred_snoc, hgot, hoffset, List.take_add]

/-- The result is `count` exactly when everything was transferred. -/
theorem Transfer.result_iff {r : Int} (h : Transfer count tr n (.returned r)) :
    r = count ↔ n = count := by
  cases h with
  | whole hn => exact ⟨fun _ => hn, fun _ => rfl⟩
  | zero hn => exact Int.ofNat_inj
  | error hn => constructor <;> intro h <;> omega

/-- After a `write` that returned 0 the result is the length of the prefix. -/
theorem Transfer.result_of_zero {r : Int} (h : Transfer count tr n (.returned r))
    (hz : ∃ call ∈ tr.getLast?, call.ret = 0) : r = n := by
  obtain ⟨call, hcall, hret⟩ := hz
  cases h with
  | whole hn hlast => rw [hn]
  | zero hn hlast => rfl
  | error hn hlast =>
    obtain ⟨call', hcall', hneg, -⟩ := hlast
    obtain rfl : call' = call := Option.some.inj (hcall'.symm.trans hcall)
    omega

/-- The result is -1 exactly after an error other than `EINTR`. -/
theorem Transfer.result_eq_neg_one_iff {r : Int} (h : Transfer count tr n (.returned r)) :
    r = -1 ↔ ∃ call ∈ tr.getLast?, call.ret < 0 ∧ call.ret ≠ -eintr := by
  cases h with
  | whole hn hlast =>
    refine ⟨fun h => by omega, ?_⟩
    rintro ⟨call, hcall, hneg, -⟩
    have := hlast call hcall
    omega
  | zero hn hlast =>
    refine ⟨fun h => by omega, ?_⟩
    rintro ⟨call, hcall, hneg, -⟩
    obtain ⟨call', hcall', hret⟩ := hlast
    obtain rfl : call' = call := Option.some.inj (hcall'.symm.trans hcall)
    omega
  | error hn hlast => exact ⟨fun _ => hlast, fun _ => rfl⟩

/-- A result that is not -1 is the length of the prefix. -/
theorem Transfer.result_of_ne {r : Int} (h : Transfer count tr n (.returned r)) (hr : r ≠ -1) :
    r = n := by
  cases h with
  | whole hn => rw [hn]
  | zero hn => rfl
  | error hn => exact absurd rfl hr

/-- Any other result than `count` and -1 comes from a `write` that returned 0. -/
theorem Transfer.zero_of_result {r : Int} (h : Transfer count tr n (.returned r)) (hr : r ≠ -1)
    (hcount : r ≠ count) : ∃ call ∈ tr.getLast?, call.ret = 0 := by
  cases h with
  | whole hn => exact absurd rfl hcount
  | zero hn hlast => exact hlast
  | error hn => exact absurd rfl hr

theorem Transfer.result_bounds {r : Int} (h : Transfer count tr n (.returned r)) :
    -1 ≤ r ∧ r ≤ count := by
  cases h with
  | whole hn => omega
  | zero hn => omega
  | error hn => omega

theorem take_eq_take_iff_of_le (hn : n ≤ count) (hcount : count ≤ buf.length) :
    buf.take n = buf.take count ↔ n = count := by
  refine ⟨fun h => ?_, fun h => by rw [h]⟩
  have hlen := congrArg List.length h
  rw [List.length_take, List.length_take] at hlen
  omega

/-! ## The callers -/

/-- The calls of `write` on the file and on the socket. -/
def isTransfer : Sys → Bool
  | .write _ _ | .send _ _ => true
  | _ => false

/-- What the descriptor got from the calls of a thread in `write_all`. -/
def gotOf (evs : List Sys) : Bytes :=
  evs.flatMap fun
    | .write bs ret | .send bs ret => bs.take ret.toNat
    | _ => []

/-- Where a loop of `handle_client` is: in `write_all`, or behind the test of its result. -/
def WriteAllState.place (count : Nat) (writing : Nat → Pc) (complete incomplete : Pc) :
    WriteAllState → Pc
  | .writing n => writing n
  | .returned r => if r = count then complete else incomplete

section

variable {b : Build} {node : Bool} {chunk : Bytes} {writing : Nat → Pc} {complete incomplete : Pc}
  {evs : List Sys} {c : Client}

/-- A loop of `handle_client` that writes `chunk` makes the calls of `write_all`, and nothing else of
that kind. -/
structure Inlines (b : Build) (node : Bool) (chunk : Bytes) (writing : Nat → Pc)
    (complete incomplete : Pc) : Prop where
  next : ∀ n ev c, (Client.lts b).next ⟨writing n, node⟩ ev = some c →
    ∃ ret : Int, ret ≤ (chunk.drop n).length ∧ gotOf [ev] = (chunk.drop n).take ret.toNat ∧
      c = ⟨(WriteAllState.ofStep (writeAllStep chunk.length n ret)).place chunk.length writing
        complete incomplete, node⟩
  leaves : ∀ pc ev, pc = complete ∨ pc = incomplete → isTransfer ev = true →
    (Client.lts b).next ⟨pc, node⟩ ev = none

theorem gotOf_snoc (evs : List Sys) (ev : Sys) : gotOf (evs ++ [ev]) = gotOf evs ++ gotOf [ev] := by
  simp [gotOf]

/-- A run of the loop is a run of `write_all`. -/
theorem Inlines.run (hi : Inlines b node chunk writing complete incomplete)
    (hcount : chunk.length < 2 ^ (w - 1)) (hc : chunk ≠ [])
    (hevs : ∀ ev ∈ evs, isTransfer ev = true)
    (hrun : (Client.lts b).run ⟨writing 0, node⟩ evs = some c) :
    ∃ tr st, (writeAll w chunk.length).run (writeAllLoop w chunk.length 0) tr = some st ∧
      transferred chunk tr = gotOf evs ∧
      c = ⟨st.place chunk.length writing complete incomplete, node⟩ := by
  refine Lts.run_history (I := fun evs c => (∀ ev ∈ evs, isTransfer ev = true) →
    ∃ tr st, (writeAll w chunk.length).run (writeAllLoop w chunk.length 0) tr = some st ∧
      transferred chunk tr = gotOf evs ∧
      c = ⟨st.place chunk.length writing complete incomplete, node⟩) ?_ ?_ hrun hevs
  · intro _
    refine ⟨[], _, rfl, rfl, ?_⟩
    rw [writeAllLoop, if_pos (List.length_pos_iff.mpr hc)]
    rfl
  · rintro evs c ev c' - ih hnext hevs
    rw [List.forall_mem_append, List.forall_mem_singleton] at hevs
    obtain ⟨tr, st, htr, hgot, rfl⟩ := ih hevs.1
    obtain ⟨-, n, -, ht⟩ := transfer_run chunk hcount htr
    cases st with
    | writing m =>
      obtain ⟨ret, hret, hev, rfl⟩ := hi.next m ev c' hnext
      rw [List.length_drop] at hret
      have hm : m < chunk.length := by
        cases ht with
        | writing hn => exact hn
      have hcall : (writeAll w chunk.length).next (.writing m) ⟨m, chunk.length - m, ret⟩ = some _ :=
        (writeAll_next hcount hm).mpr ⟨rfl, rfl, hret, rfl⟩
      refine ⟨tr ++ [⟨m, chunk.length - m, ret⟩], _, Lts.run_snoc_eq_some.mpr ⟨_, htr, hcall⟩, ?_,
        rfl⟩
      rw [transferred_snoc, gotOf_snoc, hgot, hev]
    | returned r =>
      have hpc : (WriteAllState.returned r).place chunk.length writing complete incomplete =
          complete ∨ (WriteAllState.returned r).place chunk.length writing complete incomplete =
          incomplete := by
        by_cases hr : r = chunk.length
        · exact .inl (if_pos hr)
        · exact .inr (if_neg hr)
      rw [hi.leaves _ _ hpc hevs.2] at hnext
      cases hnext

/-- Behind the loop, the thread is where the complete transfer leads to exactly if there was one. -/
theorem Inlines.detects (hi : Inlines b node chunk writing complete incomplete) (hc : chunk ≠ [])
    (hevs : ∀ ev ∈ evs, isTransfer ev = true)
    (hrun : (Client.lts b).run ⟨writing 0, node⟩ evs = some c) :
    (∃ n, c.pc = writing n) ∨ c.pc = if gotOf evs = chunk then complete else incomplete := by
  have hcount : chunk.length < 2 ^ (chunk.length + 1 - 1) := Nat.lt_two_pow_self
  obtain ⟨tr, st, htr, hgot, rfl⟩ := hi.run hcount hc hevs hrun
  obtain ⟨-, n, hprefix, ht⟩ := transfer_run chunk hcount htr
  cases st with
  | writing m => exact .inl ⟨m, rfl⟩
  | returned r =>
    have hiff : r = chunk.length ↔ gotOf evs = chunk := by
      rw [ht.result_iff, ← hgot, hprefix, ← take_eq_take_iff_of_le ht.le le_rfl, List.take_length]
    refine .inr ?_
    simp only [WriteAllState.place, hiff]

/-- The write to the file. -/
theorem inlines_file (b : Build) (node : Bool) (chunk : Bytes) :
    Inlines b node chunk (.write chunk) (afterWrite b chunk) (.close .cleanup) where
  next n ev c h := by
    obtain ⟨hstep, hnode⟩ := Client.next_eq_some h
    obtain ⟨pc, node'⟩ := c
    obtain rfl : node' = node := hnode.trans (Bool.or_false node)
    cases hstep with
    | @write _ _ ret hret =>
      refine ⟨ret, hret, by simp [gotOf], ?_⟩
      cases writeAllStep chunk.length n ret <;> rfl
  leaves pc ev hpc hev := by
    rw [Option.eq_none_iff_forall_ne_some]
    rintro ⟨pc', node'⟩ h
    have hstep : Client.Step b node pc ev pc' := (Client.next_eq_some h).1
    rcases hpc with rfl | rfl
    · unfold afterWrite at hstep
      split at hstep
      · cases b <;> cases hstep <;> cases hev
      · cases hstep
        cases hev
    · cases hstep
      cases hev

/-- The write to the socket. -/
theorem inlines_socket (b : Build) (node : Bool) (after : After) (chunk : Bytes) :
    Inlines b node chunk (.send after chunk) (.read after) (.close after) where
  next n ev c h := by
    obtain ⟨hstep, hnode⟩ := Client.next_eq_some h
    obtain ⟨pc, node'⟩ := c
    obtain rfl : node' = node := hnode.trans (Bool.or_false node)
    cases hstep with
    | @send _ _ _ ret hret =>
      refine ⟨ret, hret, by simp [gotOf], ?_⟩
      cases writeAllStep chunk.length n ret <;> rfl
  leaves pc ev hpc hev := by
    rw [Option.eq_none_iff_forall_ne_some]
    rintro ⟨pc', node'⟩ h
    have hstep : Client.Step b node pc ev pc' := (Client.next_eq_some h).1
    rcases hpc with rfl | rfl <;> cases hstep <;> cases hev

end

/-- A call of `write_all` with any results of `write`: the descriptor got a prefix of the buffer, and
no call asked for more than the buffer has. The result is `count` exactly if everything was
transferred, -1 exactly after an error other than `EINTR`, and if it is not -1 it is the length of the
prefix, short of `count` only after a 0; and with results for `count` calls that are not interrupted
there is a result. In `handle_client` the test of the result finds every incomplete transfer, to the
file and to the socket. -/
theorem writeAll_transfers (w : Nat) (buf : CObject w) (count : Nat) (tr : List WriteAllCall)
    (st : WriteAllState) (hcount : count ≤ buf.bytes.length)
    (hrun : (writeAll w count).run (writeAllLoop w count 0) tr = some st) :
    transferred buf.bytes tr <+: buf.bytes ∧
      (∀ call ∈ tr, call.offset + call.count ≤ buf.bytes.length) ∧
      (∀ r, st = .returned r →
        (r = count ↔ transferred buf.bytes tr = buf.bytes.take count) ∧
        ((∃ call ∈ tr.getLast?, call.ret = 0) → r = (transferred buf.bytes tr).length) ∧
        (r ≠ -1 → r = (transferred buf.bytes tr).length) ∧
        (r ≠ -1 → r ≠ count → ∃ call ∈ tr.getLast?, call.ret = 0) ∧
        (r = -1 ↔ ∃ call ∈ tr.getLast?, call.ret < 0 ∧ call.ret ≠ -eintr)) ∧
      (∀ n, st = .writing n → n = (transferred buf.bytes tr).length ∧ uninterrupted tr < count ∧
        ∀ ret : Int, ret ≤ (count - n : Nat) →
          ((writeAll w count).next st ⟨n, count - n, ret⟩).isSome) ∧
      ∀ (b : Build) (node : Bool) (after : After) (chunk : Bytes) (evs : List Sys) (c : Client),
        chunk ≠ [] → (∀ ev ∈ evs, isTransfer ev = true) →
        ((Client.lts b).run ⟨.write chunk 0, node⟩ evs = some c → (∃ n, c.pc = .write chunk n) ∨
          c.pc = if gotOf evs = chunk then afterWrite b chunk else .close .cleanup) ∧
        ((Client.lts b).run ⟨.send after chunk 0, node⟩ evs = some c →
          (∃ n, c.pc = .send after chunk n) ∨
          c.pc = if gotOf evs = chunk then .read after else .close after) := by
  have hlt : count < 2 ^ (w - 1) := hcount.trans_lt buf.length_lt
  obtain ⟨hcalls, n, hgot, ht⟩ := transfer_run buf.bytes hlt hrun
  have hlen : (transferred buf.bytes tr).length = n := by
    rw [hgot, List.length_take, Nat.min_eq_left (ht.le.trans hcount)]
  refine ⟨?_, fun call hcall => (hcalls call hcall).trans_le hcount, ?_, ?_, ?_⟩
  · rw [hgot]
    exact List.take_prefix _ _
  · rintro r rfl
    refine ⟨?_, fun hz => ?_, fun hr => ?_, ht.zero_of_result, ht.result_eq_neg_one_iff⟩
    · rw [ht.result_iff, hgot, take_eq_take_iff_of_le ht.le hcount]
    · rw [hlen]
      exact ht.result_of_zero hz
    · rw [hlen]
      exact ht.result_of_ne hr
  · rintro m rfl
    cases ht with
    | writing hn hcompleted =>
      refine ⟨hlen.symm, hcompleted.trans_lt hn, fun ret hret => ?_⟩
      have hcall : (writeAll w count).next (.writing n) ⟨n, count - n, ret⟩ = some _ :=
        (writeAll_next hlt hn).mpr ⟨rfl, rfl, hret, rfl⟩
      rw [hcall]
      rfl
  · intro b node after chunk evs c hc hevs
    exact ⟨(inlines_file b node chunk).detects hc hevs,
      (inlines_socket b node after chunk).detects hc hevs⟩

/-- Of `"abc"` one byte is written, the next call is interrupted and the third one returns 0. -/
theorem writeAll_transfers_one_byte :
    transferred [97, 98, 99] [⟨0, 3, 1⟩, ⟨1, 2, -eintr⟩, ⟨1, 2, 0⟩] = [97] ∧
      ((1 : Int) = 3 ↔
        transferred [97, 98, 99] [⟨0, 3, 1⟩, ⟨1, 2, -eintr⟩, ⟨1, 2, 0⟩] = [97, 98, 99]) :=
  have h := writeAll_transfers 64 ⟨[97, 98, 99], by decide⟩ 3
    [⟨0, 3, 1⟩, ⟨1, 2, -eintr⟩, ⟨1, 2, 0⟩] (.returned 1) (by decide) (by decide)
  ⟨by decide, (h.2.2.1 1 rfl).1⟩

end Aesd
