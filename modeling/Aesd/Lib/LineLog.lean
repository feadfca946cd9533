import Aesd.Lib.Fifo
import Mathlib.Data.List.Forall2

/-!
# Lines of a stream, and a log fed by chunks

`split nl s` cuts a stream into its terminated lines and the tail after the last terminator.
A `LineLog` is fed by chunks instead: a chunk without a terminator is appended to the pending
bytes, a chunk with one commits the pending bytes together with the whole chunk.

* `split_flatten_append`: the decomposition into terminated lines and a tail is unique.
* `write_map`: the log only looks at which elements are terminators, so it commutes with a map that
  keeps them; bytes can carry tags.
* `framed_iff`: the log's last `n` commits and pending bytes are the last `n` lines and the tail of
  the stream exactly when the chunks are `Framed`.
-/

namespace LineLog

variable {α β : Type*} (nl : α → Bool)

/-! ## Lines of a stream -/

/-- One terminator, at the end. -/
def IsLine (l : List α) : Prop := ∃ body a, l = body ++ [a] ∧ nl a = true ∧ ∀ b ∈ body, nl b = false

/-- No terminator. -/
def Open (l : List α) : Prop := ∀ b ∈ l, nl b = false

/-- The terminated lines of a stream, and what comes after the last terminator. -/
def split : List α → List (List α) × List α
  | [] => ([], [])
  | a :: s =>
    if nl a then ([a] :: (split s).1, (split s).2)
    else
      match split s with
      | ([], t) => ([], a :: t)
      | (l :: ls, t) => ((a :: l) :: ls, t)

/-- The terminated lines of a stream. -/
def lines (s : List α) : List (List α) := (split nl s).1

/-- What comes after the last terminator of a stream. -/
def tail (s : List α) : List α := (split nl s).2

variable {nl} {a : α} {l s t : List α} {ls : List (List α)}

theorem exists_concat (h : l ≠ []) : ∃ l' a, l = l' ++ [a] :=
  ⟨_, _, (List.dropLast_concat_getLast h).symm⟩

theorem Open.cons (ha : nl a = false) (h : Open nl l) : Open nl (a :: l) := by
  intro b hb
  rcases List.mem_cons.mp hb with rfl | hb
  · exact ha
  · exact h b hb

theorem Open.append (hl : Open nl l) (ht : Open nl t) : Open nl (l ++ t) := by
  intro b hb
  rcases List.mem_append.mp hb with hb | hb
  · exact hl b hb
  · exact ht b hb

theorem IsLine.ne_nil (h : IsLine nl l) : l ≠ [] := by
  obtain ⟨body, a, rfl, -⟩ := h
  simp

theorem split_cons_of_not (ha : nl a = false) :
    split nl (a :: s) = match split nl s with
      | ([], t) => ([], a :: t)
      | (l :: ls, t) => ((a :: l) :: ls, t) := by
  rw [split, if_neg (by simp [ha])]

/-- A stream without a terminator is all tail. -/
theorem split_of_open (h : Open nl t) : split nl t = ([], t) := by
  induction t with
  | nil => rfl
  | cons a t ih =>
    rw [split_cons_of_not (h a (by simp)), ih fun b hb => h b (by simp [hb])]

/-- A line in front of a stream. -/
theorem split_line_append (h : IsLine nl l) : split nl (l ++ s) = (l :: lines nl s, tail nl s) := by
  obtain ⟨body, a, rfl, ha, hb⟩ := h
  induction body with
  | nil => simp [split, ha, lines, tail]
  | cons b body ih =>
    rw [List.cons_append, List.cons_append, split_cons_of_not (hb b (by simp)),
      ih fun c hc => hb c (by simp [hc])]

/-- The decomposition of a stream into terminated lines and a tail is unique. -/
theorem split_flatten_append (hls : ∀ l ∈ ls, IsLine nl l) (ht : Open nl t) :
    split nl (ls.flatten ++ t) = (ls, t) := by
  induction ls with
  | nil => simpa using split_of_open ht
  | cons l ls ih =>
    rw [List.flatten_cons, List.append_assoc, split_line_append (hls l (by simp)), lines, tail,
      ih fun l' hl' => hls l' (by simp [hl'])]

variable (nl) in
/-- The lines and the tail of a stream are such a decomposition. -/
theorem split_spec (s : List α) :
    (lines nl s).flatten ++ tail nl s = s ∧ (∀ l ∈ lines nl s, IsLine nl l) ∧
      Open nl (tail nl s) := by
  unfold lines tail
  induction s with
  | nil => simp [split, Open]
  | cons a s ih =>
    obtain ⟨h1, h2, h3⟩ := ih
    by_cases ha : nl a = true
    · rw [split, if_pos ha]
      refine ⟨by simp [h1], ?_, h3⟩
      intro l hl
      rcases List.mem_cons.mp hl with rfl | hl
      · exact ⟨[], a, rfl, ha, by simp⟩
      · exact h2 l hl
    · rw [Bool.not_eq_true] at ha
      rw [split_cons_of_not ha]
      generalize split nl s = r at h1 h2 h3 ⊢
      obtain ⟨ls, t⟩ := r
      cases ls with
      | nil =>
        simp only [List.flatten_nil, List.nil_append] at h1 h3 ⊢
        exact ⟨by rw [h1], by simp, h3.cons ha⟩
      | cons l ls =>
        refine ⟨by simpa using h1, ?_, h3⟩
        intro l' hl'
        rcases List.mem_cons.mp hl' with rfl | hl'
        · obtain ⟨body, x, rfl, hx, hb⟩ := h2 l (by simp)
          exact ⟨a :: body, x, rfl, hx, Open.cons ha hb⟩
        · exact h2 l' (by simp [hl'])

theorem lines_flatten_append (hls : ∀ l ∈ ls, IsLine nl l) (s : List α) :
    lines nl (ls.flatten ++ s) = ls ++ lines nl s ∧ tail nl (ls.flatten ++ s) = tail nl s := by
  obtain ⟨h1, h2, h3⟩ := split_spec nl s
  have h : split nl (ls.flatten ++ s) = (ls ++ lines nl s, tail nl s) := by
    conv => lhs; rw [← h1, ← List.append_assoc, ← List.flatten_append]
    refine split_flatten_append (fun l hl => ?_) h3
    rcases List.mem_append.mp hl with hl | hl
    · exact hls l hl
    · exact h2 l hl
  simp [lines, tail, h]

/-- The lines of a stream that ends with a terminator, followed by another stream. -/
theorem lines_append (h : tail nl s = []) (t : List α) :
    lines nl (s ++ t) = lines nl s ++ lines nl t ∧ tail nl (s ++ t) = tail nl t := by
  obtain ⟨h1, h2, -⟩ := split_spec nl s
  rw [h, List.append_nil] at h1
  have := lines_flatten_append h2 t
  rwa [h1] at this

/-- A stream ends with a terminator exactly when it has no tail. -/
theorem tail_eq_nil_iff (hs : s ≠ []) : tail nl s = [] ↔ ∃ a ∈ s.getLast?, nl a = true := by
  obtain ⟨h1, h2, h3⟩ := split_spec nl s
  constructor
  · intro h
    rw [h, List.append_nil] at h1
    have hne : lines nl s ≠ [] := by
      intro h0
      rw [h0] at h1
      exact hs h1.symm
    obtain ⟨ls, l, hl⟩ := exists_concat hne
    obtain ⟨body, a, rfl, ha, -⟩ := h2 l (by simp [hl])
    refine ⟨a, ?_, ha⟩
    rw [← h1, hl]
    simp
  · rintro ⟨a, hm, ha⟩
    by_contra hne
    obtain ⟨t, b, ht⟩ := exists_concat hne
    rw [← h1, ht, ← List.append_assoc, List.getLast?_append] at hm
    simp only [List.getLast?_singleton, Option.some_or, Option.mem_def, Option.some.injEq] at hm
    have := h3 b (by simp [ht])
    rw [hm, ha] at this
    cases this

end LineLog

/-- A log of a stream that arrives in chunks. -/
structure LineLog (α : Type*) where
  pending : List α
  committed : List (List α)
  deriving DecidableEq, Repr

namespace LineLog

variable {α β : Type*} {nl : α → Bool} {g : LineLog α} {l c : List α} {cs : List (List α)}
  {n : Nat}

/-- The log before the first chunk. -/
def empty : LineLog α := ⟨[], []⟩

/-- A chunk: it is appended to the pending elements, and if it has a terminator they are all
committed. -/
def write (nl : α → Bool) (g : LineLog α) (c : List α) : LineLog α :=
  if c.any nl then ⟨[], g.committed ++ [g.pending ++ c]⟩ else ⟨g.pending ++ c, g.committed⟩

/-- A sequence of chunks. -/
def writes (nl : α → Bool) (g : LineLog α) (cs : List (List α)) : LineLog α := cs.foldl (write nl) g

theorem write_of_any (h : c.any nl = true) :
    g.write nl c = ⟨[], g.committed ++ [g.pending ++ c]⟩ := if_pos h

theorem write_of_not_any (h : c.any nl = false) : g.write nl c = ⟨g.pending ++ c, g.committed⟩ :=
  if_neg (by simp [h])

theorem open_of_not_any (h : c.any nl = false) : Open nl c := by
  intro b hb
  simpa using List.any_eq_false.mp h b hb

theorem writes_snoc : g.writes nl (cs ++ [c]) = (g.writes nl cs).write nl c := by
  simp [writes]

/-- The pending elements have no terminator. -/
theorem write_open (h : Open nl g.pending) (c : List α) : Open nl (g.write nl c).pending := by
  cases hc : c.any nl with
  | true =>
    rw [write_of_any hc]
    simp [Open]
  | false =>
    rw [write_of_not_any hc]
    exact h.append (open_of_not_any hc)

theorem writes_open (h : Open nl g.pending) (cs : List (List α)) :
    Open nl (g.writes nl cs).pending := by
  induction cs generalizing g with
  | nil => exact h
  | cons c cs ih => exact ih (write_open h c)

theorem empty_open : Open nl (empty : LineLog α).pending := by simp [empty, Open]

variable (nl) in
/-- The log loses and reorders nothing. -/
theorem writes_flatten (cs : List (List α)) :
    (empty.writes nl cs).committed.flatten ++ (empty.writes nl cs).pending = cs.flatten := by
  induction cs using List.reverseRecOn with
  | nil => rfl
  | append_singleton cs c ih =>
    rw [writes_snoc, List.flatten_append, List.flatten_singleton, ← ih]
    cases hc : c.any nl with
    | true => simp [write_of_any hc]
    | false => simp [write_of_not_any hc]

/-- The image of a log. -/
def map (f : α → β) (g : LineLog α) : LineLog β := ⟨g.pending.map f, g.committed.map (List.map f)⟩

/-- The log only looks at which elements are terminators. -/
theorem write_map {nl' : β → Bool} {f : α → β} (hf : ∀ a, nl' (f a) = nl a) (c : List α) :
    (g.write nl c).map f = (g.map f).write nl' (c.map f) := by
  have hc : (c.map f).any nl' = c.any nl := by simp [List.any_map, Function.comp_def, hf]
  unfold write
  rw [hc]
  split <;> simp [map]

theorem writes_map {nl' : β → Bool} {f : α → β} (hf : ∀ a, nl' (f a) = nl a) (cs : List (List α)) :
    (g.writes nl cs).map f = (g.map f).writes nl' (cs.map (List.map f)) := by
  induction cs generalizing g with
  | nil => rfl
  | cons c cs ih =>
    have := ih (g := g.write nl c)
    rw [write_map hf] at this
    exact this

/-! ## A log that retains its last commits -/

/-- The log with its last `n` commits only. -/
def last (n : Nat) (g : LineLog α) : LineLog α := ⟨g.pending, g.committed.rtake n⟩

/-- A chunk, to a log that retains `n` commits. -/
def writeLast (n : Nat) (nl : α → Bool) (g : LineLog α) (c : List α) : LineLog α :=
  if c.any nl then ⟨[], Fifo.push n g.committed (g.pending ++ c)⟩
  else ⟨g.pending ++ c, g.committed⟩

theorem writeLast_of_any (h : c.any nl = true) :
    g.writeLast n nl c = ⟨[], Fifo.push n g.committed (g.pending ++ c)⟩ := if_pos h

theorem writeLast_of_not_any (h : c.any nl = false) :
    g.writeLast n nl c = ⟨g.pending ++ c, g.committed⟩ := if_neg (by simp [h])

/-- The last commits are enough to go on. -/
theorem last_writeLast (hn : 0 < n) (c : List α) :
    (g.last n).writeLast n nl c = (g.write nl c).last n := by
  cases hc : c.any nl with
  | true =>
    rw [writeLast_of_any hc, write_of_any hc]
    simp only [last, Fifo.push_rtake hn]
  | false =>
    rw [writeLast_of_not_any hc, write_of_not_any hc]
    rfl

/-- Behind elements without a terminator, a test of the chunk is a test of the whole. -/
theorem any_append_of_open (h : Open nl l) : (l ++ c).any nl = c.any nl := by
  rw [List.any_append, List.any_eq_false.mpr, Bool.false_or]
  intro a ha
  simp [h a ha]

/-! ## The stream of commits -/

/-- All commits, one after the other. -/
def stream (g : LineLog α) : List α := g.committed.flatten

/-- The commits that a log of the last `n` does not retain. -/
def evicted (n : Nat) (g : LineLog α) : List (List α) := g.committed.rdrop n

/-- The evicted commits and the retained ones are the stream. -/
theorem evicted_append_last (n : Nat) (g : LineLog α) :
    (g.evicted n).flatten ++ (g.last n).committed.flatten = g.stream := by
  rw [← List.flatten_append]
  exact congrArg List.flatten (List.take_append_drop ..)

theorem committed_write_isPrefix (c : List α) : g.committed <+: (g.write nl c).committed := by
  cases hc : c.any nl with
  | true =>
    rw [write_of_any hc]
    exact List.prefix_append _ _
  | false => simp [write_of_not_any hc]

theorem isPrefix_flatten {ls ms : List (List α)} (h : ls <+: ms) : ls.flatten <+: ms.flatten := by
  obtain ⟨r, rfl⟩ := h
  rw [List.flatten_append]
  exact List.prefix_append _ _

/-- What is evicted stays evicted. -/
theorem evicted_isPrefix {g' : LineLog α} (h : g.committed <+: g'.committed) (n : Nat) :
    g.evicted n <+: g'.evicted n := by
  obtain ⟨r, hr⟩ := h
  have htake : (g.committed ++ r).take (g.committed.length - n) =
      g.committed.take (g.committed.length - n) := List.take_append_of_le_length (Nat.sub_le _ _)
  rw [evicted, evicted, List.rdrop, List.rdrop, ← hr, List.length_append, ← htake]
  exact List.take_prefix_take_left (by omega)

theorem commits_ne_nil_write (h : ∀ l ∈ g.committed, l ≠ []) (c : List α) :
    ∀ l ∈ (g.write nl c).committed, l ≠ [] := by
  cases hc : c.any nl with
  | true =>
    rw [write_of_any hc]
    intro l hl
    rcases List.mem_append.mp hl with hl | hl
    · exact h l hl
    · obtain ⟨b, hb, -⟩ := List.any_eq_true.mp hc
      rw [List.mem_singleton.mp hl]
      exact List.append_ne_nil_of_right_ne_nil _ (List.ne_nil_of_mem hb)
  | false =>
    rw [write_of_not_any hc]
    exact h

/-! ## When chunks frame lines -/

variable (nl) in
/-- Each commit is one chunk with a terminator, after elements without one. -/
theorem committed_forall₂ (cs : List (List α)) :
    List.Forall₂ (fun e c => ∃ p, e = p ++ c ∧ Open nl p) (empty.writes nl cs).committed
      (cs.filter (·.any nl)) := by
  induction cs using List.reverseRecOn with
  | nil => exact .nil
  | append_singleton cs c ih =>
    rw [writes_snoc, List.filter_append]
    cases hc : c.any nl with
    | true =>
      rw [write_of_any hc, List.filter_singleton, hc, cond_true]
      exact List.rel_append ih (.cons ⟨_, rfl, writes_open empty_open cs⟩ .nil)
    | false =>
      rw [write_of_not_any hc, List.filter_singleton, hc, cond_false, List.append_nil]
      exact ih

/-- In the last `n` chunks with a terminator it is only the last element; and if there are more
such chunks, the one before these ends with it. -/
def Framed (nl : α → Bool) (n : Nat) (cs : List (List α)) : Prop :=
  let k := cs.filter (·.any nl)
  (∀ c ∈ k.rtake n, Open nl c.dropLast) ∧ ∀ c ∈ (k.rdrop n).getLast?, ∃ a ∈ c.getLast?, nl a = true

instance : DecidablePred (Open nl) := fun l => inferInstanceAs (Decidable (∀ b ∈ l, nl b = false))

instance (n : Nat) (cs : List (List α)) : Decidable (Framed nl n cs) :=
  inferInstanceAs (Decidable ((∀ c ∈ (cs.filter (·.any nl)).rtake n, Open nl c.dropLast) ∧
    ∀ c ∈ ((cs.filter (·.any nl)).rdrop n).getLast?, ∃ a ∈ c.getLast?, nl a = true))

/-- A commit is a line exactly when its chunk has its terminator only at the end. -/
theorem isLine_append_iff {p : List α} (hp : Open nl p) (hc : c.any nl = true) :
    IsLine nl (p ++ c) ↔ Open nl c.dropLast := by
  obtain ⟨b, hb, hnl⟩ := List.any_eq_true.mp hc
  obtain ⟨c', a, rfl⟩ := exists_concat (List.ne_nil_of_mem hb)
  rw [List.dropLast_concat]
  constructor
  · rintro ⟨body, x, he, -, hbody⟩
    rw [← List.append_assoc] at he
    obtain ⟨rfl, -⟩ := List.append_inj' he rfl
    exact fun y hy => hbody y (by simp [hy])
  · intro ho
    refine ⟨p ++ c', a, by simp, ?_, hp.append ho⟩
    rcases List.mem_append.mp hb with hb | hb
    · rw [ho b hb] at hnl
      cases hnl
    · rwa [← List.mem_singleton.mp hb]

theorem ne_nil_of_any (h : c.any nl = true) : c ≠ [] := by
  obtain ⟨b, hb, -⟩ := List.any_eq_true.mp h
  exact List.ne_nil_of_mem hb

/-- The last `n` commits are lines exactly when their chunks have the terminator only at the end. -/
theorem isLine_rtake_iff (cs : List (List α)) :
    (∀ l ∈ (empty.writes nl cs).committed.rtake n, IsLine nl l) ↔
      ∀ c ∈ (cs.filter (·.any nl)).rtake n, Open nl c.dropLast := by
  have h := committed_forall₂ nl cs
  have hk : ∀ c ∈ cs.filter (·.any nl), c.any nl = true := fun c hc => (List.mem_filter.mp hc).2
  have hr := List.forall₂_drop ((empty.writes nl cs).committed.length - n) h
  have hlen := h.length_eq
  change List.Forall₂ _ ((empty.writes nl cs).committed.rtake n) _ at hr
  rw [hlen] at hr
  change List.Forall₂ _ _ ((cs.filter (·.any nl)).rtake n) at hr
  have hk' : ∀ c ∈ (cs.filter (·.any nl)).rtake n, c.any nl = true :=
    fun c hc => hk c (List.mem_of_mem_drop hc)
  generalize (empty.writes nl cs).committed.rtake n = E at hr
  generalize (cs.filter (·.any nl)).rtake n = K at hr hk'
  induction hr with
  | nil => simp
  | cons hec _ ih =>
    obtain ⟨p, rfl, hp⟩ := hec
    rw [List.forall_mem_cons, List.forall_mem_cons, isLine_append_iff hp (hk' _ (by simp))]
    exact and_congr_right fun _ => ih fun c hc => hk' c (List.mem_cons_of_mem _ hc)

/-- The commits before the last `n` end with a terminator exactly when the last of their chunks
does. -/
theorem tail_rdrop_iff (cs : List (List α)) :
    tail nl ((empty.writes nl cs).committed.rdrop n).flatten = [] ↔
      ∀ c ∈ ((cs.filter (·.any nl)).rdrop n).getLast?, ∃ a ∈ c.getLast?, nl a = true := by
  have h := committed_forall₂ nl cs
  have hr := List.forall₂_take ((empty.writes nl cs).committed.length - n) h
  have hlen := h.length_eq
  change List.Forall₂ _ ((empty.writes nl cs).committed.rdrop n) _ at hr
  rw [hlen] at hr
  change List.Forall₂ _ _ ((cs.filter (·.any nl)).rdrop n) at hr
  have hk : ∀ c ∈ (cs.filter (·.any nl)).rdrop n, c.any nl = true :=
    fun c hc => (List.mem_filter.mp (List.mem_of_mem_take hc)).2
  generalize (empty.writes nl cs).committed.rdrop n = E at hr
  generalize (cs.filter (·.any nl)).rdrop n = K at hr hk
  by_cases hK : K = []
  · subst hK
    cases hr
    simp [tail, split]
  · obtain ⟨K', c, rfl⟩ := exists_concat hK
    have hE := List.forall₂_reverse_iff.mpr hr
    rw [List.reverse_concat] at hE
    generalize hEr : E.reverse = R at hE
    cases hE with
    | cons hec _ =>
      obtain ⟨p, rfl, -⟩ := hec
      rw [List.reverse_eq_iff] at hEr
      obtain ⟨c', a, rfl⟩ := exists_concat (ne_nil_of_any (hk c (by simp)))
      rw [tail_eq_nil_iff (by simp [hEr]), hEr]
      simp

/-- The log's last `n` commits and pending elements are the last `n` lines and the tail of the
stream exactly when the chunks are framed. -/
theorem framed_iff (n : Nat) (cs : List (List α)) :
    ((empty.writes nl cs).committed.rtake n = (lines nl cs.flatten).rtake n ∧
        (∀ l ∈ (empty.writes nl cs).committed.rtake n, IsLine nl l) ∧
        (empty.writes nl cs).pending = tail nl cs.flatten) ↔ Framed nl n cs := by
  have hflat := writes_flatten nl cs
  have hopen : Open nl (empty.writes nl cs).pending := writes_open empty_open cs
  simp only [Framed]
  rw [← isLine_rtake_iff, ← tail_rdrop_iff]
  generalize empty.writes nl cs = g at hflat hopen
  have hsplit : g.committed.rdrop n ++ g.committed.rtake n = g.committed := List.take_append_drop ..
  constructor
  · rintro ⟨h1, h2, h3⟩
    refine ⟨h2, ?_⟩
    obtain ⟨hs, hl, -⟩ := split_spec nl cs.flatten
    have hsplit' : (lines nl cs.flatten).rdrop n ++ (lines nl cs.flatten).rtake n =
        lines nl cs.flatten := List.take_append_drop ..
    -- both decompositions have the same end, so the same beginning
    have he : (g.committed.rdrop n).flatten = ((lines nl cs.flatten).rdrop n).flatten := by
      have := hflat.trans hs.symm
      rw [h3] at this
      have := List.append_cancel_right this
      rw [← hsplit, ← hsplit', List.flatten_append, List.flatten_append, h1] at this
      exact List.append_cancel_right this
    rw [he]
    have : split nl (((lines nl cs.flatten).rdrop n).flatten ++ []) =
        ((lines nl cs.flatten).rdrop n, []) :=
      split_flatten_append (fun l hl' => hl l (List.mem_of_mem_take hl')) (by simp [Open])
    rw [List.append_nil] at this
    simp [tail, this]
  · rintro ⟨h1, h2⟩
    have hl := split_flatten_append h1 hopen
    have hcut : cs.flatten =
        (g.committed.rdrop n).flatten ++ ((g.committed.rtake n).flatten ++ g.pending) := by
      rw [← List.append_assoc, ← List.flatten_append, hsplit, hflat]
    obtain ⟨h3, h4⟩ := lines_append h2 ((g.committed.rtake n).flatten ++ g.pending)
    rw [← hcut] at h3 h4
    refine ⟨?_, h1, by rw [h4, tail, hl]⟩
    rw [h3, lines, lines, hl]
    simp only
    by_cases hn : n ≤ g.committed.length
    · have hlen : (g.committed.rtake n).length = n := by
        rw [Fifo.length_rtake]
        omega
      conv => rhs; rw [List.rtake, List.length_append, hlen, Nat.add_sub_cancel, List.drop_left]
    · have hd : g.committed.rdrop n = [] := by
        rw [List.rdrop, Nat.sub_eq_zero_of_le (by omega), List.take_zero]
      rw [hd]
      simp only [List.flatten_nil, split, List.nil_append]
      exact (Fifo.rtake_of_length_le (by rw [Fifo.length_rtake]; omega)).symm

end LineLog
