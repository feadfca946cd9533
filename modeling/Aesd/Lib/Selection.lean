import Aesd.Lib.LineLog
import Mathlib.Data.List.Nodup

/-!
# Dropping lines from a stream that arrives in chunks

Some lines of a stream are to be dropped (`sel`). A program that only sees the chunks drops chunks
instead, by the same test.

* `kept` are the elements of the segments that are not dropped, with their positions in the stream;
  `keptLines` does the same for the lines of a stream, and keeps its tail.
* `kept_eq_iff`: what is kept is a matter of the flags (`mask`) of the stream's elements.
* `aligned_iff`: chunks and lines drop the same elements, in equally many segments, exactly when the
  chunks are `Aligned`: a dropped chunk is one dropped line, and no other chunk completes one.
-/

namespace Selection

open LineLog (IsLine Open lines tail)

variable {α : Type*} (nl : α → Bool) (sel : List α → Bool)

/-- The elements of the segments that are not dropped, with positions from `b` on. -/
def kept : Nat → List (List α) → List (α × Nat)
  | _, [] => []
  | b, s :: ss => (if sel s then [] else s.zipIdx b) ++ kept (b + s.length) ss

/-- The same for the lines of a stream; its tail is kept. -/
def keptLines (s : List α) : List (α × Nat) :=
  kept sel 0 (lines nl s) ++ (tail nl s).zipIdx (lines nl s).flatten.length

/-- For each element of the segments: is it kept? -/
def mask (ss : List (List α)) : List Bool := ss.flatMap fun s => List.replicate s.length (!sel s)

/-- For each element of a stream: is it kept? -/
def lineMask (s : List α) : List Bool :=
  mask sel (lines nl s) ++ List.replicate (tail nl s).length true

/-- The elements with a flag. -/
def pick {β : Type*} (l : List β) (m : List Bool) : List β := ((l.zip m).filter (·.2)).map (·.1)

variable {nl sel} {b : Nat} {s t c l : List α} {ss cs ls : List (List α)}

/-! ## Elements and flags -/

section

variable {β : Type*} {x y : List β} {m n : List Bool}

theorem pick_append (h : x.length = m.length) : pick (x ++ y) (m ++ n) = pick x m ++ pick y n := by
  simp [pick, List.zip_append h]

theorem pick_replicate (x : List β) (f : Bool) :
    pick x (List.replicate x.length f) = if f then x else [] := by
  induction x with
  | nil => simp [pick]
  | cons a x ih =>
    cases f
    · simpa [pick, List.replicate_succ] using ih
    · simpa [pick, List.replicate_succ] using ih

theorem mem_of_mem_pick {a : β} (h : a ∈ pick x m) : a ∈ x := by
  obtain ⟨p, hp, rfl⟩ := List.mem_map.mp h
  exact (List.of_mem_zip (List.mem_filter.mp hp).1).1

/-- The flags can be read off the elements that they pick. -/
theorem pick_inj (hx : x.Nodup) (hm : x.length = m.length) (hn : x.length = n.length) :
    pick x m = pick x n ↔ m = n := by
  refine ⟨fun h => ?_, congrArg _⟩
  induction x generalizing m n with
  | nil => rw [List.length_eq_zero_iff.mp hm.symm, List.length_eq_zero_iff.mp hn.symm]
  | cons a x ih =>
    obtain ⟨f, m, rfl⟩ := List.exists_cons_of_length_eq_add_one hm.symm
    obtain ⟨g, n, rfl⟩ := List.exists_cons_of_length_eq_add_one hn.symm
    obtain ⟨ha, hx⟩ := List.nodup_cons.mp hx
    have hcons : ∀ f m, pick (a :: x) (f :: m) = (if f then [a] else []) ++ pick x m := by
      intro f m
      cases f <;> simp [pick]
    rw [hcons, hcons] at h
    -- the element at the front is picked by both or by none
    cases f <;> cases g <;>
      simp only [Bool.false_eq_true, ↓reduceIte, List.nil_append, List.singleton_append,
        List.cons.injEq, true_and] at h
    · rw [ih hx (by simpa using hm) (by simpa using hn) h]
    · exact absurd (mem_of_mem_pick (h ▸ List.mem_cons_self)) ha
    · exact absurd (mem_of_mem_pick (h ▸ List.mem_cons_self)) ha
    · rw [ih hx (by simpa using hm) (by simpa using hn) h]

end

theorem length_mask (ss : List (List α)) : (mask sel ss).length = ss.flatten.length := by
  simp [mask, List.length_flatMap, List.length_flatten]

theorem mask_append (ss ts : List (List α)) : mask sel (ss ++ ts) = mask sel ss ++ mask sel ts := by
  simp [mask]

theorem mask_cons (s : List α) (ss : List (List α)) :
    mask sel (s :: ss) = List.replicate s.length (!sel s) ++ mask sel ss := by
  simp [mask]

theorem length_lineMask (s : List α) : (lineMask nl sel s).length = s.length := by
  obtain ⟨h, -, -⟩ := LineLog.split_spec nl s
  conv => rhs; rw [← h]
  simp [lineMask, length_mask]

theorem kept_eq_pick (b : Nat) (ss : List (List α)) :
    kept sel b ss = pick (ss.flatten.zipIdx b) (mask sel ss) := by
  induction ss generalizing b with
  | nil => simp [kept, mask, pick]
  | cons s ss ih =>
    have hlen : (s.zipIdx b).length = (List.replicate s.length (!sel s)).length := by simp
    have hrep := pick_replicate (s.zipIdx b) (!sel s)
    rw [List.length_zipIdx] at hrep
    rw [List.flatten_cons, mask_cons, List.zipIdx_append, pick_append hlen, hrep, kept, ih,
      Nat.add_comm b]
    cases sel s <;> rfl

theorem keptLines_eq_pick (s : List α) :
    keptLines nl sel s = pick s.zipIdx (lineMask nl sel s) := by
  obtain ⟨h, -, -⟩ := LineLog.split_spec nl s
  conv => rhs; rw [← h]
  have hlen : ((lines nl s).flatten.zipIdx).length = (mask sel (lines nl s)).length := by
    simp [length_mask]
  have hrep := pick_replicate ((tail nl s).zipIdx (lines nl s).flatten.length) true
  rw [List.length_zipIdx] at hrep
  rw [List.zipIdx_append, h, lineMask, pick_append hlen, Nat.zero_add, hrep, keptLines,
    kept_eq_pick]
  rfl

theorem nodup_zipIdx (b : Nat) (s : List α) : (s.zipIdx b).Nodup := by
  apply List.Nodup.of_map Prod.snd
  rw [List.zipIdx_map_snd]
  exact List.nodup_range'

/-- Chunks and lines keep the same elements of a stream when they give them the same flags. -/
theorem kept_eq_iff (cs : List (List α)) :
    kept sel 0 cs = keptLines nl sel cs.flatten ↔ mask sel cs = lineMask nl sel cs.flatten := by
  rw [kept_eq_pick, keptLines_eq_pick]
  apply pick_inj (nodup_zipIdx _ _)
  · rw [List.length_zipIdx, length_mask]
  · rw [List.length_zipIdx, length_lineMask]

/-! ## Chunks that are aligned with the lines -/

variable (nl sel) in
/-- The chunks, behind an unfinished line `t`, are aligned with the lines to drop: a chunk that is
dropped is exactly one line, and no line that another chunk completes is to be dropped. -/
def Aligned : List α → List (List α) → Prop
  | _, [] => True
  | t, c :: cs =>
    if sel c then t = [] ∧ IsLine nl c ∧ Aligned [] cs
    else (∀ l ∈ lines nl (t ++ c), sel l = false) ∧ Aligned (tail nl (t ++ c)) cs

variable (nl) in
/-- Behind `s`, the lines of `s` are done and its tail goes on. -/
theorem lines_append_eq (s c : List α) :
    lines nl (s ++ c) = lines nl s ++ lines nl (tail nl s ++ c) ∧
      tail nl (s ++ c) = tail nl (tail nl s ++ c) := by
  obtain ⟨h1, h2, -⟩ := LineLog.split_spec nl s
  have hstream : s ++ c = (lines nl s).flatten ++ (tail nl s ++ c) := by
    rw [← List.append_assoc, h1]
  rw [hstream]
  exact LineLog.lines_flatten_append h2 _

theorem lineMask_append (s c : List α) :
    lineMask nl sel (s ++ c) = mask sel (lines nl s) ++ lineMask nl sel (tail nl s ++ c) := by
  obtain ⟨h1, h2⟩ := lines_append_eq nl s c
  rw [lineMask, h1, h2, mask_append, List.append_assoc, lineMask]

theorem tail_open (s : List α) : Open nl (tail nl s) := (LineLog.split_spec nl s).2.2

theorem tail_of_open (h : Open nl t) : lines nl t = [] ∧ tail nl t = t := by
  simp [lines, tail, LineLog.split_of_open h]

variable (sel) in
/-- An unfinished line and what follows it have the same flag. -/
theorem lineMask_open_append (ht : Open nl t) (hs : s ≠ []) :
    ∃ f m, lineMask nl sel (t ++ s) = List.replicate (t.length + 1) f ++ m ∧
      (f = true ∨ ∃ r s', s = r ++ s' ∧ r ≠ [] ∧ t ++ r ∈ lines nl (t ++ s) ∧ sel (t ++ r) = true) := by
  obtain ⟨h1, h2, h3⟩ := LineLog.split_spec nl s
  cases hl : lines nl s with
  | nil =>
    rw [hl, List.flatten_nil, List.nil_append] at h1
    rw [h1] at h3
    obtain ⟨h4, h5⟩ := tail_of_open (ht.append h3)
    obtain ⟨n, hn⟩ : ∃ n, s.length = 1 + n :=
      ⟨s.length - 1, by have := List.length_pos_iff.mpr hs; omega⟩
    refine ⟨true, List.replicate n true, ?_, .inl rfl⟩
    rw [lineMask, h4, h5, List.length_append, hn, ← Nat.add_assoc, List.replicate_append_replicate]
    rfl
  | cons l ls =>
    rw [hl, List.flatten_cons, List.append_assoc] at h1
    obtain ⟨body, a, rfl, ha, hb⟩ := h2 l (by simp [hl])
    have hline : IsLine nl (t ++ (body ++ [a])) :=
      ⟨t ++ body, a, by simp, ha, ht.append hb⟩
    have hsplit := LineLog.split_line_append (s := ls.flatten ++ tail nl s) hline
    rw [List.append_assoc, h1] at hsplit
    have hlines : lines nl (t ++ s) = (t ++ (body ++ [a])) ::
        lines nl (ls.flatten ++ tail nl s) := congrArg Prod.fst hsplit
    refine ⟨!sel (t ++ (body ++ [a])), List.replicate body.length (!sel (t ++ (body ++ [a]))) ++
      (mask sel (lines nl (ls.flatten ++ tail nl s)) ++
        List.replicate (tail nl (t ++ s)).length true), ?_, ?_⟩
    · have hlen : (t ++ (body ++ [a])).length = (t.length + 1) + body.length := by
        simp only [List.length_append, List.length_singleton]
        omega
      rw [lineMask, hlines, mask_cons, hlen, ← List.replicate_append_replicate]
      simp only [List.append_assoc]
    · cases hsel : sel (t ++ (body ++ [a])) with
      | false => exact .inl rfl
      | true => exact .inr ⟨body ++ [a], _, h1.symm, by simp, by simp [hlines], hsel⟩

/-- The segments of a list all have the flag that their elements have. -/
theorem mask_eq_replicate {f : Bool} (h : mask sel ls = List.replicate ls.flatten.length f)
    (hne : ∀ l ∈ ls, l ≠ []) : ∀ l ∈ ls, sel l = !f := by
  intro l hl
  obtain ⟨u, v, rfl⟩ := List.append_of_mem hl
  have hmem : (!sel l) ∈ mask sel (u ++ l :: v) := by
    rw [mask_append, mask_cons]
    have := List.length_pos_iff.mpr (hne l hl)
    simp only [List.mem_append, List.mem_replicate]
    exact .inr (.inl ⟨by omega, trivial⟩)
  rw [h, List.mem_replicate] at hmem
  rw [← hmem.2, Bool.not_not]

theorem countP_lines_append (s c : List α) :
    (lines nl (s ++ c)).countP sel =
      (lines nl s).countP sel + (lines nl (tail nl s ++ c)).countP sel := by
  rw [(lines_append_eq nl s c).1, List.countP_append]

/-- Aligned chunks drop the lines that are to be dropped. -/
theorem Aligned.spec (h : Aligned nl sel t cs) (ht : Open nl t) :
    lineMask nl sel (t ++ cs.flatten) = List.replicate t.length true ++ mask sel cs ∧
      cs.filter sel = (lines nl (t ++ cs.flatten)).filter sel := by
  induction cs generalizing t with
  | nil =>
    obtain ⟨h1, h2⟩ := tail_of_open ht
    simp [lineMask, h1, h2, mask]
  | cons c cs ih =>
    rw [Aligned] at h
    rw [mask_cons, List.flatten_cons, ← List.append_assoc]
    split at h
    · -- the chunk is a line
      rename_i hsel
      obtain ⟨rfl, hline, hcs⟩ := h
      obtain ⟨h1, h2⟩ := ih hcs (by simp [LineLog.Open])
      have hsplit := LineLog.split_line_append (s := cs.flatten) hline
      have hlines : lines nl (c ++ cs.flatten) = c :: lines nl cs.flatten :=
        congrArg Prod.fst hsplit
      have htail : tail nl (c ++ cs.flatten) = tail nl cs.flatten := by rw [tail, hsplit]
      simp only [List.nil_append, List.length_nil, List.replicate_zero] at h1 h2 ⊢
      refine ⟨?_, ?_⟩
      · rw [lineMask, hlines, htail, mask_cons, List.append_assoc]
        exact congrArg _ h1
      · rw [hlines, List.filter_cons_of_pos hsel, List.filter_cons_of_pos hsel, h2]
    · -- no line that it completes is to be dropped
      rename_i hsel
      obtain ⟨hls, hcs⟩ := h
      obtain ⟨h1, h2⟩ := ih hcs (tail_open _)
      obtain ⟨h3, -, -⟩ := LineLog.split_spec nl (t ++ c)
      have hmask : mask sel (lines nl (t ++ c)) =
          List.replicate (lines nl (t ++ c)).flatten.length true := by
        have hlen : (mask sel (lines nl (t ++ c))).length = _ := length_mask _
        rw [← hlen, List.eq_replicate_iff]
        refine ⟨rfl, fun f hf => ?_⟩
        obtain ⟨l, hl, hf⟩ := List.mem_flatMap.mp hf
        rw [List.eq_of_mem_replicate hf, hls l hl]
        rfl
      have hlen := congrArg List.length h3
      simp only [List.length_append] at hlen
      refine ⟨?_, ?_⟩
      · rw [lineMask_append, hmask, h1, ← List.append_assoc, ← List.append_assoc,
          List.replicate_append_replicate, hlen]
        simp [hsel, List.replicate_append_replicate]
      · have hnone : (lines nl (t ++ c)).filter sel = [] :=
          List.filter_eq_nil_iff.mpr (by simpa using hls)
        rw [(lines_append_eq nl _ _).1, List.filter_append, ← h2, List.filter_cons_of_neg hsel,
          hnone, List.nil_append]

variable (nl sel) in
/-- A segment that is dropped does not start inside the line `l`. -/
def Whole (l : List α) : Prop :=
  ∀ u v c, l = u ++ v → u ≠ [] → v ≠ [] → (c <+: v ∨ v <+: c) → sel c = false

theorem replicate_succ_inj {k : Nat} {f g : Bool} {m n : List Bool} (hk : k ≠ 0)
    (h : List.replicate (k + 1) f ++ m = List.replicate k g ++ n) : f = g ∧ n = f :: m := by
  rw [← List.replicate_append_replicate, List.append_assoc] at h
  obtain ⟨h1, h2⟩ := List.append_inj h (by simp)
  exact ⟨(List.replicate_inj.mp h1).2.resolve_left hk, h2.symm⟩

/-- A stream whose flags begin with those of an unfinished line goes on in the same line. -/
theorem exists_line_of_lineMask {f : Bool} (ht : Open nl t) (ht0 : t ≠ []) (hs : s ≠ [])
    {n : List Bool} (h : lineMask nl sel (t ++ s) = List.replicate t.length f ++ n) :
    n.head? = some f ∧ (f = true ∨
      ∃ r s', s = r ++ s' ∧ r ≠ [] ∧ t ++ r ∈ lines nl (t ++ s) ∧ sel (t ++ r) = true) := by
  obtain ⟨g, m, hg, hline⟩ := lineMask_open_append sel ht hs
  obtain ⟨rfl, rfl⟩ := replicate_succ_inj (by simp [ht0]) (hg.symm.trans h)
  exact ⟨rfl, hline⟩

/-- Chunks that drop what the lines drop: they drop at most as many segments, and if as many, then
they are aligned. -/
theorem aligned_of_mask (hsel : ∀ c, sel c = true → c ≠ []) (hne : ∀ c ∈ cs, c ≠ [])
    (hwhole : ∀ l ∈ lines nl (t ++ cs.flatten), sel l = true → Whole sel l) (ht : Open nl t)
    (h : lineMask nl sel (t ++ cs.flatten) = List.replicate t.length true ++ mask sel cs) :
    cs.countP sel ≤ (lines nl (t ++ cs.flatten)).countP sel ∧
      (cs.countP sel = (lines nl (t ++ cs.flatten)).countP sel → Aligned nl sel t cs) := by
  induction cs generalizing t with
  | nil => simp [Aligned]
  | cons c cs ih =>
    have hne' : ∀ c ∈ cs, c ≠ [] := fun c hc => hne c (by simp [hc])
    have hc0 : c.length ≠ 0 := by simpa using hne c (by simp)
    rw [List.flatten_cons, ← List.append_assoc] at h hwhole ⊢
    rw [mask_cons] at h
    have hwhole' : ∀ l ∈ lines nl (tail nl (t ++ c) ++ cs.flatten), sel l = true → Whole sel l :=
      fun l hl => hwhole l (by rw [(lines_append_eq nl _ _).1]; exact List.mem_append_right _ hl)
    rw [countP_lines_append, Aligned]
    cases hc : sel c with
    | false =>
      rw [List.countP_cons_of_neg (by simp [hc]), if_neg (by simp)]
      obtain ⟨h1, h2, -⟩ := LineLog.split_spec nl (t ++ c)
      have hlen := congrArg List.length h1
      simp only [List.length_append] at hlen
      rw [lineMask_append, hc, Bool.not_false, ← List.append_assoc (List.replicate _ _),
        List.replicate_append_replicate, ← hlen, ← List.replicate_append_replicate,
        List.append_assoc] at h
      obtain ⟨h3, h4⟩ := List.append_inj h (by simp [length_mask])
      have hls := mask_eq_replicate h3 fun l hl => (h2 l hl).ne_nil
      have hzero : (lines nl (t ++ c)).countP sel = 0 :=
        List.countP_eq_zero.mpr (by simpa using hls)
      rw [hzero, Nat.zero_add]
      obtain ⟨h5, h6⟩ := ih hne' hwhole' (tail_open _) h4
      exact ⟨h5, fun heq => ⟨hls, h6 heq⟩⟩
    | true =>
      rw [List.countP_cons_of_pos hc, if_pos rfl]
      rw [hc, Bool.not_true] at h
      -- the chunk begins at the start of a line
      obtain rfl : t = [] := by
        by_contra ht0
        rw [List.append_assoc] at h
        have h1 := (exists_line_of_lineMask ht ht0 (by simp [hsel c hc]) h).1
        rw [List.head?_append, List.head?_replicate, if_neg hc0] at h1
        cases h1
      simp only [List.nil_append, List.length_nil, List.replicate_zero] at h hwhole hwhole' ⊢
      obtain ⟨h1, h2, h3⟩ := LineLog.split_spec nl c
      have hlen := congrArg List.length h1
      simp only [List.length_append] at hlen
      rw [lineMask_append, ← hlen, ← List.replicate_append_replicate, List.append_assoc] at h
      obtain ⟨h4, h5⟩ := List.append_inj h (by simp [length_mask])
      have hls := mask_eq_replicate h4 fun l hl => (h2 l hl).ne_nil
      -- it ends at the end of a line: the next chunk would be dropped, from inside the line
      have htail : tail nl c = [] := by
        by_contra ht0
        cases cs with
        | nil =>
          rw [List.flatten_nil, List.append_nil, lineMask, (tail_of_open h3).1,
            (tail_of_open h3).2] at h5
          simp [mask, ht0] at h5
        | cons d cs =>
          have hd : d ≠ [] := hne' d (by simp)
          obtain ⟨h6, h7⟩ := exists_line_of_lineMask h3 ht0 (by simp [hd]) h5
          obtain ⟨r, s', hr, hr0, hmem, hselr⟩ := h7.resolve_left (by simp)
          rw [mask_cons, List.head?_append, List.head?_replicate, if_neg (by simpa using hd)] at h6
          have hdrop : sel d = false := by
            apply hwhole' _ hmem hselr (tail nl c) r d rfl ht0 hr0
            rw [List.flatten_cons] at hr
            exact List.prefix_or_prefix_of_prefix ⟨_, rfl⟩ ⟨_, hr.symm⟩
          rw [hdrop] at h6
          cases h6
      rw [htail, List.append_nil] at h1
      rw [htail, List.nil_append, List.length_nil, List.replicate_zero, List.nil_append] at h5
      obtain ⟨h6, h7⟩ := ih (t := []) hne' (by simpa [htail] using hwhole') (by simp [LineLog.Open])
        (by simpa using h5)
      rw [htail]
      have hcount : (lines nl c).countP sel = (lines nl c).length :=
        List.countP_eq_length.mpr (by simpa using hls)
      have hpos : lines nl c ≠ [] := by
        intro h0
        rw [h0] at h1
        exact hc0 (by rw [← h1]; rfl)
      have hpos' := List.length_pos_iff.mpr hpos
      rw [hcount]
      refine ⟨by omega, fun heq => ⟨trivial, ?_, h7 (by omega)⟩⟩
      obtain ⟨l, hl⟩ := List.length_eq_one_iff.mp (show (lines nl c).length = 1 by omega)
      rw [hl, List.flatten_singleton] at h1
      exact h1 ▸ h2 l (by simp [hl])

/-- Chunks and lines drop the same elements of a stream, and the chunks are not fewer segments,
exactly when the chunks are aligned with the lines. -/
theorem aligned_iff (hsel : ∀ c, sel c = true → c ≠ []) (hne : ∀ c ∈ cs, c ≠ [])
    (hwhole : ∀ l ∈ lines nl cs.flatten, sel l = true → Whole sel l) :
    kept sel 0 cs = keptLines nl sel cs.flatten ∧
        (lines nl cs.flatten).countP sel ≤ cs.countP sel ↔ Aligned nl sel [] cs := by
  rw [kept_eq_iff]
  constructor
  · rintro ⟨h1, h2⟩
    obtain ⟨h3, h4⟩ := aligned_of_mask (t := []) hsel hne (by simpa using hwhole)
      (by simp [LineLog.Open]) (by simpa using h1.symm)
    exact h4 (Nat.le_antisymm h3 (by simpa using h2))
  · intro h
    obtain ⟨h1, h2⟩ := h.spec (by simp [LineLog.Open])
    refine ⟨by simpa using h1.symm, ?_⟩
    rw [List.countP_eq_length_filter, List.countP_eq_length_filter, h2]
    rfl

end Selection
