import Aesd.Driver.OpenFiles
import Mathlib.Data.List.Infix

/-!
# A reader of a device that others write to

The stream of a run is the concatenation of all commands committed so far; the device retains its
end. A reader without seeks follows the stream, but its position is one in the retained part, and
an eviction moves that part away under it.

* `Holds.readAt_stream`: what one read gives, as a piece of the stream.
* `reader_stream`: what successive reads give (`Follows`): pieces in stream order, and between two
  of them exactly as many bytes are skipped as were evicted.
-/

namespace Aesd

variable {φ : Type*} [DecidableEq φ] {K : Kernel} {s s' : Driver} {g : LineLog UInt8}
  {st st' : Files φ} {r f : φ} {p : Int} {c : FileCall} {res : ReadResult} {e : FileEvent φ}
  {es : List (FileEvent φ)}

/-- The bytes of the evicted commands. -/
def evictedBytes (g : LineLog UInt8) : Bytes := (g.evicted maxWriteOperationsSupported).flatten

/-- The stored content is the stream without what was evicted. -/
theorem Holds.stream_eq (h : Holds K s g) : evictedBytes g ++ s.content = g.stream := by
  rw [Driver.content, h.commands_eq]
  exact g.evicted_append_last maxWriteOperationsSupported

theorem Holds.content_eq_drop (h : Holds K s g) :
    s.content = g.stream.drop (evictedBytes g).length := by
  rw [← h.stream_eq, List.drop_left]

theorem Holds.totalSize_eq (h : Holds K s g) : s.totalSize = s.content.length := by
  obtain ⟨v, hr, -⟩ := h.rep
  exact hr.totalSize_eq

/-- A read in terms of the stream: it gives a piece of it, not empty before the end. -/
theorem Holds.readAt_stream (h : Holds K s g) {count : Nat} (hc : 0 < count) (o : Nat) :
    readAt s.commands count o <+: g.stream.drop ((evictedBytes g).length + o) ∧
      (o < s.content.length → readAt s.commands count o ≠ []) ∧
      (s.content.length ≤ o → readAt s.commands count o = []) := by
  refine ⟨?_, fun ho => ?_, fun ho => readAt_of_le ho⟩
  · rw [← h.stream_eq, ← List.drop_drop, List.drop_left]
    exact readAt_isPrefix s.commands count o
  · exact List.length_pos_iff.mp (readAt_of_lt ho hc).1

/-! ## The log of a trace grows -/

omit [DecidableEq φ] in
theorem logEvent_isPrefix (g : LineLog UInt8) (e : FileEvent φ) :
    g.committed <+: (logEvent g e).committed := by
  unfold logEvent
  split
  · split
    · exact List.prefix_refl _
    · exact LineLog.committed_write_isPrefix _
  · exact List.prefix_refl _

omit [DecidableEq φ] in
theorem foldl_logEvent_isPrefix (g : LineLog UInt8) (es : List (FileEvent φ)) :
    g.committed <+: (es.foldl logEvent g).committed := by
  induction es generalizing g with
  | nil => exact List.prefix_refl _
  | cons e es ih => exact (logEvent_isPrefix g e).trans (ih _)

omit [DecidableEq φ] in
/-- Every command has its newline. -/
theorem logEvent_ne_nil (h : ∀ l ∈ g.committed, l ≠ []) (e : FileEvent φ) :
    ∀ l ∈ (logEvent g e).committed, l ≠ [] := by
  unfold logEvent
  split
  · split
    · exact h
    · exact LineLog.commits_ne_nil_write h _
  · exact h

/-! ## The pieces that a reader gets -/

/-- What one read delivers: where it starts in the stream, its bytes, and the commands evicted
before it. -/
structure Piece where
  start : Nat
  bytes : Bytes
  evicted : List Bytes
  deriving DecidableEq, Repr

/-- The pieces that the file `r` gets in a trace that starts with the log `g`: its reads that gave
something. A read leaves the position behind its bytes. -/
def pieces (r : φ) (g : LineLog UInt8) : List (FileEvent φ) → List Piece
  | [] => []
  | .called f (.read env buf) res :: es =>
    if f = r ∧ res.bytes ≠ [] then
      ⟨(evictedBytes g).length + (res.fPos.toNat - res.bytes.length), res.bytes,
        g.evicted maxWriteOperationsSupported⟩ ::
          pieces r (logEvent g (.called f (.read env buf) res)) es
    else pieces r (logEvent g (.called f (.read env buf) res)) es
  | e :: es => pieces r (logEvent g e) es

/-- The file `r` is not repositioned: no seeks on it, and no new `open`. -/
def Sequential (r : φ) : FileEvent φ → Prop
  | .called f (.llseek ..) _ => f ≠ r
  | .called f (.ioctl ..) _ => f ≠ r
  | .released f => f ≠ r
  | _ => True

instance (r : φ) : DecidablePred (Sequential r)
  | .called f (.llseek ..) _ => inferInstanceAs (Decidable (f ≠ r))
  | .called f (.ioctl ..) _ => inferInstanceAs (Decidable (f ≠ r))
  | .released f => inferInstanceAs (Decidable (f ≠ r))
  | .called _ (.read ..) _ => isTrue trivial
  | .called _ (.write ..) _ => isTrue trivial
  | .opened _ => isTrue trivial

/-- `b` comes next after `a`: as many bytes are skipped as were evicted in between. -/
structure Follows (a b : Piece) : Prop where
  evicts : a.evicted <+: b.evicted
  start : b.start = a.start + a.bytes.length + (b.evicted.drop a.evicted.length).flatten.length
  adjacent : b.start = a.start + a.bytes.length ↔ b.evicted = a.evicted

/-! ## One step -/

/-- A read gives bytes from its position on, and moves behind them. -/
theorem Outcome.read_eq {env : CallEnv} {buf : Option Nat} {g' : LineLog UInt8}
    (ho : Outcome K s g p (.read env buf) res s' g') :
    res.fPos = p + res.bytes.length ∧ res.bytes <+: s.content.drop p.toNat := by
  cases ho with
  | failed => exact ⟨by simp, List.nil_prefix⟩
  | read => exact ⟨rfl, readAt_isPrefix _ _ _⟩

/-- A read that does not fail. -/
theorem Outcome.read_bytes {env : CallEnv} {count : Nat} {g' : LineLog UInt8}
    (ho : Outcome K s g p (.read env (some count)) res s' g') (h : 0 ≤ res.retval) :
    res.retval = res.bytes.length ∧ res.bytes = readAt s.commands count p.toNat := by
  cases ho with
  | failed hr => exact absurd hr.neg (not_lt_of_ge h)
  | read => exact ⟨rfl, rfl⟩

/-- A read into a buffer fails only if it is interrupted or its copy faults. -/
theorem Outcome.read_nonneg {env : CallEnv} {count : Nat} {g' : LineLog UInt8}
    (ho : Outcome K s g p (.read env (some count)) res s' g') (hint : env.interrupted = false)
    (hcopy : env.copyFails = false) : 0 ≤ res.retval := by
  cases ho with
  | failed hr =>
    obtain ⟨h⟩ := hr
    cases h with
    | interrupted h =>
      rw [hint] at h
      cases h
    | faults _ h =>
      rw [hcopy] at h
      cases h
  | read => exact Int.natCast_nonneg _

theorem Outcome.write_eq {env : WriteEnv} {buf : Option Bytes} {g' : LineLog UInt8}
    (ho : Outcome K s g p (.write env buf) res s' g') : res.fPos = p := by
  cases ho <;> rfl

/-- The position of a file, 0 before its `open`. -/
def posOf (st : Files φ) (r : φ) : Nat := ((st.fPos r).getD 0).toNat

theorem posOf_of_ne {q : Option Int} (h : r ≠ f)
    (hpos : st'.fPos = Function.update st.fPos f q) : posOf st' r = posOf st r := by
  rw [posOf, posOf, hpos, Function.update_of_ne h]

theorem posOf_of_eq {q : Int} (hpos : st'.fPos = Function.update st.fPos r (some q)) :
    posOf st' r = q.toNat := by
  rw [posOf, hpos, Function.update_self]
  rfl

/-- One step, for the reader `r`: it gets a piece of the stream at its position, or nothing and stays
where it is. -/
theorem Files.Ok.step_reader (h : st.Ok K g) (hs : (filesLts K).next st e = some st')
    (hseq : Sequential r e) (es : List (FileEvent φ)) :
    (pieces r g (e :: es) = pieces r (logEvent g e) es ∧ posOf st' r = posOf st r) ∨
      ∃ bytes, bytes ≠ [] ∧ logEvent g e = g ∧ posOf st' r = posOf st r + bytes.length ∧
        bytes <+: g.stream.drop ((evictedBytes g).length + posOf st r) ∧
        pieces r g (e :: es) = ⟨(evictedBytes g).length + posOf st r, bytes,
          g.evicted maxWriteOperationsSupported⟩ :: pieces r g es := by
  cases e with
  | opened f =>
    obtain ⟨hnone, rfl⟩ := next_opened.mp hs
    refine .inl ⟨rfl, ?_⟩
    by_cases hf : r = f
    · subst hf
      rw [posOf_of_eq rfl, posOf, hnone]
      rfl
    · exact posOf_of_ne hf rfl
  | released f =>
    obtain ⟨-, rfl⟩ := next_released.mp hs
    exact .inl ⟨rfl, posOf_of_ne (Ne.symm hseq) rfl⟩
  | called f c res =>
    obtain ⟨p, hp, hpos, ho⟩ := h.called hs
    obtain ⟨h0, -⟩ := h.fPos f p hp
    by_cases hf : r = f
    · subst hf
      have hq : posOf st r = p.toNat := by
        rw [posOf, hp]
        rfl
      have hself : res.fPos = p → posOf st' r = posOf st r := fun heq => by
        rw [posOf_of_eq hpos, hq, heq]
      cases c with
      | read env buf =>
        obtain ⟨hend, hpre⟩ := ho.read_eq
        by_cases hb : res.bytes = []
        · exact .inl ⟨by simp [pieces, hb], hself (by simp [hend, hb])⟩
        · refine .inr ⟨res.bytes, hb, rfl, ?_, ?_, ?_⟩
          · rw [posOf_of_eq hpos, hq, hend]
            omega
          · rwa [← h.holds.stream_eq, ← List.drop_drop, List.drop_left, hq]
          · have hstart : res.fPos.toNat - res.bytes.length = p.toNat := by omega
            simp [pieces, hb, hstart, hq, logEvent]
      | write env buf => exact .inl ⟨rfl, hself ho.write_eq⟩
      | llseek => exact absurd rfl hseq
      | ioctl => exact absurd rfl hseq
    · refine .inl ⟨?_, posOf_of_ne hf hpos⟩
      cases c with
      | read env buf => simp [pieces, Ne.symm hf]
      | _ => rfl

/-! ## Runs -/

/-- The piece `a` is read at the position `p`, by when at least the evicted commands of `g` are
gone. -/
structure Piece.Behind (g : LineLog UInt8) (p : Nat) (a : Piece) : Prop where
  evicts : g.evicted maxWriteOperationsSupported <+: a.evicted
  ne_nil : ∀ l ∈ a.evicted, l ≠ []
  start : a.start = a.evicted.flatten.length + p

/-- A piece at the position that the read before it left comes next after it. -/
theorem Piece.Behind.follows {bytes : Bytes} {q : Nat} {b : Piece}
    (hb : b.Behind g (q + bytes.length)) :
    Follows ⟨(evictedBytes g).length + q, bytes, g.evicted maxWriteOperationsSupported⟩ b := by
  obtain ⟨more, hmore⟩ := hb.evicts
  have hdrop : b.evicted.drop (g.evicted maxWriteOperationsSupported).length = more := by
    rw [← hmore, List.drop_left]
  have hlen : b.evicted.flatten.length = (evictedBytes g).length + more.flatten.length := by
    rw [← hmore, List.flatten_append, List.length_append, evictedBytes]
  have hstart := hb.start
  refine ⟨hb.evicts, ?_, ?_⟩
  · simp only [hdrop]
    omega
  · have hiff : more.flatten.length = 0 ↔ more = [] := by
      rw [List.length_eq_zero_iff, List.flatten_eq_nil_iff]
      refine ⟨fun hall => List.eq_nil_iff_forall_not_mem.mpr fun l hl => ?_, ?_⟩
      · exact hb.ne_nil l (by rw [← hmore]; exact List.mem_append_right _ hl) (hall l hl)
      · rintro rfl
        simp
    have hmem : b.evicted = g.evicted maxWriteOperationsSupported ↔ more = [] := by
      rw [← hmore]
      simp
    simp only
    rw [hmem, ← hiff]
    omega

theorem evicted_ne_nil (h : ∀ l ∈ g.committed, l ≠ []) :
    ∀ l ∈ g.evicted maxWriteOperationsSupported, l ≠ [] :=
  fun l hl => h l (List.mem_of_mem_take hl)

/-- The run lemma: the first piece is read at the position in the first state, each comes next after
the one before it, and each is a piece of the final stream. -/
theorem pieces_spec (h : st.Ok K g) (hne : ∀ l ∈ g.committed, l ≠ [])
    (hrun : (filesLts K).run st es = some st') (hseq : ∀ e ∈ es, Sequential r e) :
    (∀ a ∈ (pieces r g es).head?, a.Behind g (posOf st r)) ∧
      (pieces r g es).IsChain Follows ∧
      ∀ a ∈ pieces r g es, a.bytes ≠ [] ∧ a.bytes <+: (es.foldl logEvent g).stream.drop a.start := by
  induction es generalizing st g with
  | nil => exact ⟨by simp [pieces], List.isChain_nil, by simp [pieces]⟩
  | cons e es ih =>
    obtain ⟨st1, hs, hrest⟩ := Lts.run_cons_eq_some.mp hrun
    obtain ⟨hhead, hchain, hall⟩ := ih (h.step hs) (logEvent_ne_nil hne e) hrest
      fun e' he' => hseq e' (List.mem_cons_of_mem _ he')
    rcases h.step_reader hs (hseq e (List.mem_cons_self ..)) es with
      ⟨hp, hpos⟩ | ⟨bytes, hb, hlog, hpos, hpre, hp⟩
    · rw [hp]
      refine ⟨fun a ha => ?_, hchain, hall⟩
      have hbehind := hhead a ha
      have hev := LineLog.evicted_isPrefix (logEvent_isPrefix g e) maxWriteOperationsSupported
      exact ⟨hev.trans hbehind.evicts, hbehind.ne_nil, by rw [hbehind.start, hpos]⟩
    · rw [hlog, hpos] at hhead
      rw [hlog] at hchain hall
      rw [hp, List.foldl_cons, hlog]
      refine ⟨fun a ha => ?_, ?_, fun a ha => ?_⟩
      · obtain rfl : _ = a := Option.some.inj ha
        exact ⟨List.prefix_refl _, evicted_ne_nil hne, rfl⟩
      · rw [List.isChain_cons]
        exact ⟨fun b hb => (hhead b hb).follows, hchain⟩
      · rcases List.mem_cons.mp ha with rfl | ha
        · have hgrow := LineLog.isPrefix_flatten (foldl_logEvent_isPrefix g es)
          exact ⟨hb, hpre.trans (hgrow.drop _)⟩
        · exact hall a ha

theorem Follows.le {a b : Piece} (h : Follows a b) : a.start + a.bytes.length ≤ b.start := by
  rw [h.start]
  omega

/-- Pieces that come one after the other are in stream order. -/
theorem pairwise_of_follows {ps : List Piece} (h : ps.IsChain Follows) :
    ps.Pairwise fun a b => a.start + a.bytes.length ≤ b.start := by
  have htrans : ∀ {a b c : Piece}, a.start + a.bytes.length ≤ b.start →
      b.start + b.bytes.length ≤ c.start → a.start + a.bytes.length ≤ c.start := by
    intro a b c hab hbc
    omega
  have : Trans (fun a b : Piece => a.start + a.bytes.length ≤ b.start)
      (fun a b : Piece => a.start + a.bytes.length ≤ b.start)
      (fun a b : Piece => a.start + a.bytes.length ≤ b.start) := ⟨htrans⟩
  exact List.isChain_iff_pairwise.mp (h.imp fun a b hab => hab.le)

/-- In every run, the stored content is the stream without its evicted part, and a read gives a piece
of the stream at its position behind that part, or nothing at the end, unless it is interrupted or its
copy faults. Without seeks, the pieces
of one file are in stream order, no byte is delivered twice, and between two pieces as many bytes
are skipped as were evicted: the ones that come next, not the evicted ones. -/
theorem reader_stream (K : Kernel) (r : φ) (es : List (FileEvent φ)) (st : Files φ)
    (hrun : (filesLts K).run Files.init es = some st) :
    let g := fileLog es
    (st.driver.content = g.stream.drop (evictedBytes g).length ∧
      (evictedBytes g).length + st.driver.totalSize = g.stream.length) ∧
    (∀ f p env count res st', 0 < count → st.fPos f = some p →
      (filesLts K).next st (.called f (.read env (some count)) res) = some st' →
      (env.interrupted = false → env.copyFails = false → 0 ≤ res.retval) ∧
      (0 ≤ res.retval → res.retval = res.bytes.length ∧
        (p < (g.stream.length - (evictedBytes g).length : Nat) → res.bytes ≠ [] ∧
          res.bytes <+: g.stream.drop ((evictedBytes g).length + p.toNat)) ∧
        ((g.stream.length - (evictedBytes g).length : Nat) ≤ p → res.bytes = []))) ∧
    ((∀ e ∈ es, Sequential r e) →
      (∀ a ∈ pieces r .empty es, a.bytes ≠ [] ∧ a.bytes <+: g.stream.drop a.start) ∧
        (pieces r .empty es).Pairwise (fun a b => a.start + a.bytes.length ≤ b.start) ∧
        (pieces r .empty es).IsChain Follows) := by
  intro g
  have hok : st.Ok K g := files_ok hrun
  have hlen : (evictedBytes g).length + st.driver.content.length = g.stream.length := by
    rw [← hok.holds.stream_eq, List.length_append]
  refine ⟨⟨hok.holds.content_eq_drop, by rw [hok.holds.totalSize_eq, hlen]⟩, ?_, fun hseq => ?_⟩
  · intro f p env count res st' hc hp hs
    obtain ⟨q, hq, -, ho⟩ := hok.called hs
    obtain rfl : q = p := Option.some.inj (hq.symm.trans hp)
    obtain ⟨h0, -⟩ := hok.fPos f q hq
    refine ⟨ho.read_nonneg, fun hres => ?_⟩
    obtain ⟨hret, hbytes⟩ := ho.read_bytes hres
    obtain ⟨hpre, hbefore, hend⟩ := hok.holds.readAt_stream hc q.toNat
    rw [← hbytes] at hpre hbefore hend
    exact ⟨hret, fun hlt => ⟨hbefore (by omega), hpre⟩, fun hle => hend (by omega)⟩
  · obtain ⟨-, hchain, hall⟩ := pieces_spec (K := K) Files.init_ok
      (by simp [LineLog.empty]) hrun hseq
    exact ⟨hall, pairwise_of_follows hchain, hchain⟩

/-- The reader 0 and the writer 1: ten commands of two bytes, a read of the first, an eleventh
command, and the next read. -/
def evictionTrace : List (FileEvent Nat) :=
  [.opened 0, .opened 1] ++
    ([48, 49, 50, 51, 52, 53, 54, 55, 56, 57].map fun d =>
      .called 1 (.write .succeeds (some [d, 10])) ⟨2, [], 0⟩) ++
    [.called 0 (.read .succeeds (some 2)) ⟨2, [48, 10], 2⟩,
      .called 1 (.write .succeeds (some [97, 10])) ⟨2, [], 0⟩,
      .called 0 (.read .succeeds (some 2)) ⟨2, [50, 10], 4⟩]

theorem evictionTrace_run :
    ∃ st : Files Nat, (filesLts kernel64).run Files.init evictionTrace = some st := by
  rw [← Option.isSome_iff_exists]
  decide

/-- The trace is a run, and its two pieces are in order; a third read is given the next two bytes. -/
theorem reader_stream_eviction :
    ∃ st : Files Nat, (filesLts kernel64).run Files.init evictionTrace = some st ∧
      (pieces 0 .empty evictionTrace).map Piece.start = [0, 4] ∧
      (pieces 0 .empty evictionTrace).IsChain Follows ∧
      ∀ res st', (filesLts kernel64).next st (.called 0 (.read .succeeds (some 2)) res) = some st' →
        0 < res.retval := by
  obtain ⟨st, hrun, hpos⟩ : ∃ st : Files Nat,
      (filesLts kernel64).run Files.init evictionTrace = some st ∧ st.fPos 0 = some 4 :=
    ⟨Option.get _ (by decide), (Option.some_get _).symm, by decide⟩
  obtain ⟨-, hread, hpieces⟩ := reader_stream kernel64 0 _ st hrun
  refine ⟨st, hrun, by decide, (hpieces (by decide)).2.2, fun res st' hs => ?_⟩
  obtain ⟨hnonneg, hgives⟩ := hread 0 4 _ 2 res st' (by decide) hpos hs
  obtain ⟨hret, hbytes, -⟩ := hgives (hnonneg rfl rfl)
  rw [hret]
  exact Int.natCast_pos.mpr (List.length_pos_iff.mpr (hbytes (by decide)).1)

/-- Between the two pieces the bytes of the second command are skipped, which is still stored; the
evicted command is the first one, which was delivered. -/
theorem reader_skips_retained :
    ∃ st : Files Nat, (filesLts kernel64).run Files.init evictionTrace = some st ∧
      (∀ e ∈ evictionTrace, Sequential 0 e) ∧
      ∃ a b, pieces 0 .empty evictionTrace = [a, b] ∧
        b.evicted.drop a.evicted.length = [[48, 10]] ∧
        ((fileLog evictionTrace).stream.drop (a.start + a.bytes.length)).take
          (b.start - (a.start + a.bytes.length)) = [49, 10] ∧
        [49, 10] ∈ st.driver.commands := by
  obtain ⟨st, hrun⟩ := evictionTrace_run
  have hcommands := (files_ok hrun).holds.commands_eq
  refine ⟨st, hrun, by decide, _, _, rfl, by decide, by decide, ?_⟩
  rw [hcommands]
  decide

end Aesd
