import Aesd.Server.Service
import Aesd.Server.Stream

/-!
# Seek commands in a stream

A seek command is a line of the stream, but `handle_client` looks for it at the start of a chunk.

* `seek_line_iff`: exactly when a seek command at the start of a connection is not written to the
  device and its seek is made.
* `seek_stream_iff`: exactly when a thread writes its stream without the seek commands, and makes
  their seeks.
-/

namespace Aesd

open Selection (kept keptLines Aligned Whole)
open LineLog (IsLine lines tail)

/-- Decimal digits. -/
def Decimal (xs : Bytes) : Prop := xs ≠ [] ∧ ∀ c ∈ xs, isDigit c = true

/-- The line `AESDCHAR_IOCSEEKTO:X,Y`. -/
def seekLine (xs ys : Bytes) : Bytes := seekPrefix ++ (xs ++ 44 :: (ys ++ [10]))

/-- The seek `(x, y)`. -/
def IsPair (k : AesdSeekto) (x y : Nat) : Prop := k.writeCmd.toNat = x ∧ k.writeCmdOffset.toNat = y

variable {xs ys : Bytes} {c : Bytes} {k : AesdSeekto} {b : Nat} {chunks : List Bytes}

theorem decimal_singleton {d : UInt8} (h : isDigit d = true) : Decimal [d] :=
  ⟨List.cons_ne_nil _ _, List.forall_mem_singleton.mpr h⟩

theorem IsPair.lt {x y : Nat} (h : IsPair k x y) : x < 2 ^ 32 ∧ y < 2 ^ 32 := by
  obtain ⟨rfl, rfl⟩ := h
  exact ⟨k.writeCmd.toNat_lt, k.writeCmdOffset.toNat_lt⟩

/-- A chunk that begins with a seek command, of numbers that fit. -/
theorem seekOf_seekLine (hx : Decimal xs) (hy : Decimal ys) (hxlt : decimal xs < 2 ^ 32)
    (hylt : decimal ys < 2 ^ 32) (hc : seekLine xs ys <+: c) :
    ∃ k, seekOf c = some k ∧ IsPair k (decimal xs) (decimal ys) := by
  obtain ⟨w, rfl⟩ := hc
  have hsel : isSeek (seekLine xs ys ++ w) = true := by
    rw [isSeek_iff, seekLine, List.append_assoc]
    exact List.prefix_append _ _
  have hdrop : (seekLine xs ys ++ w).drop seekPrefix.length = xs ++ 44 :: (ys ++ 10 :: w) := by
    rw [seekLine, List.append_assoc, List.drop_left]
    simp
  refine ⟨⟨UInt32.ofNat (decimal xs), UInt32.ofNat (decimal ys)⟩, ?_, ?_⟩
  · rw [seekOf, if_pos hsel, hdrop]
    exact sscanfSeekto_digits hx.1 hy.1 hx.2 hy.2 (by simp [isDigit]) hxlt hylt
  · exact ⟨UInt32.toNat_ofNat_of_lt' hxlt, UInt32.toNat_ofNat_of_lt' hylt⟩

theorem getElem?_eq_of_isPrefix {α : Type*} {l m : List α} {i : Nat} {a : α} (h : l <+: m)
    (hi : l[i]? = some a) : m[i]? = some a := by
  obtain ⟨r, rfl⟩ := h
  rw [List.getElem?_append_left (List.getElem?_eq_some_iff.mp hi).1, hi]

/-- The digits, the comma and the newline of a seek command are not `'A'`. -/
theorem seekLine_rest (hx : Decimal xs) (hy : Decimal ys) :
    ∀ a ∈ xs ++ 44 :: (ys ++ [10]), a ≠ 65 := by
  have hdigit : ∀ a, isDigit a = true → a ≠ 65 := by
    rintro a ha rfl
    cases ha
  intro a ha
  simp only [List.mem_append, List.mem_cons, List.not_mem_nil, or_false] at ha
  rcases ha with ha | rfl | ha | rfl
  · exact hdigit a (hx.2 a ha)
  · decide
  · exact hdigit a (hy.2 a ha)
  · decide

/-- A chunk with the seek prefix does not start inside a seek command. -/
theorem seekLine_whole (hx : Decimal xs) (hy : Decimal ys) : Whole isSeek (seekLine xs ys) := by
  intro u v c huv hu hv hcv
  rw [← Bool.not_eq_true, isSeek_iff]
  intro hc
  -- what follows `u` agrees with the prefix
  have hagree : ∀ (i : Nat) (a d : UInt8), seekPrefix[i]? = some a → v[i]? = some d → a = d := by
    intro i a d ha hd
    have ha' := getElem?_eq_of_isPrefix hc ha
    rcases hcv with h | h
    · exact Option.some.inj ((getElem?_eq_of_isPrefix h ha').symm.trans hd)
    · exact Option.some.inj (ha'.symm.trans (getElem?_eq_of_isPrefix h hd))
  have hv' : ∀ i, v[i]? = (seekLine xs ys)[u.length + i]? := by
    intro i
    rw [huv, List.getElem?_append_right (Nat.le_add_right _ _), Nat.add_sub_cancel_left]
  have hu' := List.length_pos_iff.mpr hu
  obtain ⟨d, v, rfl⟩ := List.exists_cons_of_ne_nil hv
  obtain rfl : 65 = d := hagree 0 65 d rfl rfl
  by_cases hlt : u.length < seekPrefix.length
  · -- inside the prefix: only `"AR_"` begins with an `'A'`
    have h0 := hv' 0
    have h1 := hv' 1
    rw [seekLine, List.getElem?_append_left (by omega)] at h0
    have h6 : u.length = 6 := by
      have hall : ∀ n < seekPrefix.length, 0 < n → some 65 = seekPrefix[n]? → n = 6 := by decide
      exact hall _ hlt hu' (by simpa using h0)
    rw [h6, seekLine, List.getElem?_append_left (by decide)] at h1
    exact absurd (hagree 1 69 82 rfl h1) (by decide)
  · have h0 := hv' 0
    rw [seekLine, List.getElem?_append_right (by omega)] at h0
    exact seekLine_rest hx hy 65 (List.mem_of_getElem? h0.symm) rfl

/-! ## Positions -/

theorem le_of_mem_kept {p : UInt8 × Nat} (hp : p ∈ kept isSeek b chunks) : b ≤ p.2 := by
  induction chunks generalizing b with
  | nil => cases hp
  | cons c chunks ih =>
    rw [Selection.kept, List.mem_append] at hp
    rcases hp with hp | hp
    · split at hp
      · cases hp
      · exact List.le_snd_of_mem_zipIdx hp
    · exact (Nat.le_add_right _ _).trans (ih hp)

theorem le_of_mem_seekRequests {p : Nat × AesdSeekto} (hp : p ∈ seekRequests b chunks) :
    b ≤ p.1 := by
  induction chunks generalizing b with
  | nil => cases hp
  | cons c chunks ih =>
    rw [seekRequests, List.mem_append] at hp
    rcases hp with hp | hp
    · obtain ⟨k, -, rfl⟩ := List.mem_map.mp hp
      exact Nat.le_refl _
    · exact (Nat.le_add_right _ _).trans (ih hp)

theorem Observed.mem_requests {o : Observed} {s : Nat × AesdSeekto × Bool} (h : s ∈ o.seeks) :
    (s.1, s.2.1) ∈ o.requests := List.mem_map.mpr ⟨s, h, rfl⟩

/-! ## A seek command at the start of a connection -/

/-- Of the first `n` bytes none was written to the device, and the one seek asked for by a chunk that
starts there is `(x, y)`. -/
def KeepsSeek (n x y : Nat) (o : Observed) : Prop :=
  (∀ p ∈ o.written, n ≤ p.2) ∧
    ∃ k taken, o.seeks.filter (fun s => s.1 < n) = [(0, k, taken)] ∧ IsPair k x y

/-- What the device answered to the seeks of a thread. -/
def seekResults (evs : List Sys) : List Bool :=
  evs.filterMap fun
    | .ioctl _ ok => some ok
    | _ => none

theorem map_seeks (evs : List Sys) :
    (observe evs).seeks.map (fun s => s.2.2) = seekResults evs := by
  induction evs using List.reverseRecOn with
  | nil => rfl
  | append_singleton evs ev ih =>
    rw [observe_snoc, seekResults, List.filterMap_append, ← seekResults, ← ih]
    cases ev with
    | recv chunk => cases chunk <;> simp [Observed.next]
    | _ => simp [Observed.next]

/-- Between two chunks nothing is left to do, and the thread waits for the next chunk or leaves. -/
theorem Pc.served_cases {pc : Pc} (h : pc.served = true) :
    pc.toWrite b = [] ∧ pc.toSeek b = [] ∧ (pc = .recv ∨ pc.leaving = true) := by
  cases pc <;> first | exact ⟨rfl, rfl, .inl rfl⟩ | exact ⟨rfl, rfl, .inr rfl⟩ | cases h

/-- A chunk that is not a seek is written from its first byte on. -/
theorem mem_kept_of_not_isSeek (hc : c ≠ []) (hsel : isSeek c = false) :
    ∃ p ∈ kept isSeek b (c :: chunks), p.2 = b := by
  obtain ⟨a, c, rfl⟩ := List.exists_cons_of_ne_nil hc
  exact ⟨(a, b), by simp [Selection.kept, hsel], rfl⟩

theorem isSeek_of_seekOf (h : seekOf c = some k) : isSeek c = true := by
  unfold seekOf at h
  split at h
  · assumption
  · cases h

theorem ne_nil_of_isSeek (h : isSeek c = true) : c ≠ [] := by
  rintro rfl
  exact absurd h (by decide)

/-- What a thread between two chunks has written and asked for. -/
theorem Tally.served {ok : Prop} {o : Observed} {pc : Pc} (h : Tally ok chunks o pc)
    (hserved : pc.served = true) :
    o.written.Sublist (kept isSeek 0 chunks) ∧ o.requests.Sublist (seekRequests 0 chunks) ∧
      (ok → o.written = kept isSeek 0 chunks ∧ o.requests = seekRequests 0 chunks) := by
  obtain ⟨hnoWrite, hnoSeek, -⟩ := Pc.served_cases (b := o.base) hserved
  have hw := h.written
  have hs := h.seeks
  have hwAll := h.writtenAll
  have hsAll := h.seeksAll
  rw [hnoWrite, List.append_nil] at hw hwAll
  rw [hnoSeek, List.append_nil] at hs hsAll
  exact ⟨hw, hs, fun hok => ⟨hwAll hok, hsAll hok⟩⟩

section

variable {o : Observed} {c₁ : Bytes} {n x y : Nat}

/-- Whatever fails: of a first chunk that is a seek nothing is written, and no other seek is made
for it. -/
theorem seeks_of_seekOf (hk : seekOf c₁ = some k) (hn : n ≤ c₁.length)
    (hw : o.written.Sublist (kept isSeek 0 (c₁ :: chunks)))
    (hs : o.requests.Sublist (seekRequests 0 (c₁ :: chunks))) :
    (∀ p ∈ o.written, n ≤ p.2) ∧ ∀ s ∈ o.seeks, s.1 < n → s.1 = 0 ∧ s.2.1 = k := by
  rw [Selection.kept, if_pos (isSeek_of_seekOf hk), List.nil_append, Nat.zero_add] at hw
  rw [seekRequests, hk, Nat.zero_add] at hs
  refine ⟨fun p hp => hn.trans (le_of_mem_kept (hw.subset hp)), fun s hmem hlt => ?_⟩
  have hreq := hs.subset (Observed.mem_requests hmem)
  rw [List.mem_append] at hreq
  rcases hreq with hreq | hreq
  · simpa using hreq
  · have hle := le_of_mem_seekRequests hreq
    simp only at hle
    omega

/-- A chunk that begins with the seek command. -/
theorem keepsSeek_of_prefix (hk : seekOf c₁ = some k) (hp : IsPair k x y) (hn : n ≤ c₁.length)
    (hw : o.written = kept isSeek 0 (c₁ :: chunks))
    (hs : o.requests = seekRequests 0 (c₁ :: chunks)) (h0 : 0 < n) :
    KeepsSeek n x y o := by
  have hwritten := (seeks_of_seekOf hk hn (by rw [hw]) (by rw [hs])).1
  rw [seekRequests, hk, Nat.zero_add] at hs
  obtain ⟨⟨i, k', taken⟩, ss, heq, hfst, hrest⟩ := List.map_eq_cons_iff.mp hs
  obtain ⟨rfl, rfl⟩ := Prod.mk.inj hfst
  refine ⟨hwritten, k', taken, ?_, hp⟩
  have hnone : ss.filter (fun s => s.1 < n) = [] := by
    refine List.filter_eq_nil_iff.mpr fun s hs => ?_
    have hmem : (s.1, s.2.1) ∈ seekRequests c₁.length chunks := by
      rw [show seekRequests c₁.length chunks = _ from hrest.symm]
      exact List.mem_map.mpr ⟨s, hs, rfl⟩
    have hle := le_of_mem_seekRequests hmem
    simp only [decide_eq_true_eq]
    omega
  rw [heq, List.filter_cons_of_pos (by simpa using h0), hnone]

/-- A thread whose only chunk asks for the seek. -/
theorem keepsSeek_of_single (hk : seekOf c₁ = some k) (hp : IsPair k x y)
    (hw : o.written = kept isSeek 0 [c₁]) (hs : o.requests = seekRequests 0 [c₁]) (h0 : 0 < n) :
    KeepsSeek n x y o := by
  rw [Selection.kept, if_pos (isSeek_of_seekOf hk)] at hw
  rw [seekRequests, hk] at hs
  obtain ⟨⟨i, k', taken⟩, heq, hfst⟩ := List.map_eq_singleton_iff.mp hs
  obtain ⟨rfl, rfl⟩ := Prod.mk.inj hfst
  refine ⟨fun p hmem => ?_, k', taken, ?_, hp⟩
  · rw [hw] at hmem
    cases hmem
  · rw [heq, List.filter_cons_of_pos (by simpa using h0), List.filter_nil]

/-- The first chunk carries the pair. -/
theorem seekOf_of_keepsSeek (hc : c₁ ≠ [])
    (hs : o.requests = seekRequests 0 (c₁ :: chunks))
    (h : KeepsSeek n x y o) : ∃ k, seekOf c₁ = some k ∧ IsPair k x y := by
  obtain ⟨-, k, taken, hfilter, hp⟩ := h
  have hmem : (0, k, taken) ∈ o.seeks.filter (fun s => s.1 < n) := by
    rw [hfilter]
    exact List.mem_singleton_self _
  have hreq : (0, k) ∈ seekRequests 0 (c₁ :: chunks) :=
    hs ▸ Observed.mem_requests (List.mem_of_mem_filter hmem)
  rw [seekRequests, List.mem_append] at hreq
  rcases hreq with hreq | hreq
  · obtain ⟨k', hk', heq⟩ := List.mem_map.mp hreq
    obtain rfl : k' = k := (Prod.mk.inj heq).2
    exact ⟨k', by simpa using hk', hp⟩
  · have hle := le_of_mem_seekRequests hreq
    have := List.length_pos_iff.mpr hc
    simp only at hle
    omega

/-- A chunk that follows inside the line is written. -/
theorem eq_nil_of_keepsSeek {l v : Bytes} (hwhole : Whole isSeek l) (hl : l = c₁ ++ v) (hc : c₁ ≠ [])
    (hv : v ≠ []) (hne : ∀ c ∈ chunks, c ≠ []) (hstream : v <+: chunks.flatten ∨ chunks.flatten <+: v)
    (hw : o.written = kept isSeek 0 (c₁ :: chunks)) (h : KeepsSeek l.length x y o) :
    chunks = [] := by
  cases chunks with
  | nil => rfl
  | cons c₂ chunks =>
    have hc₂ : c₂ <+: (c₂ :: chunks).flatten := by simp
    have hsel : isSeek c₂ = false := by
      apply hwhole c₁ v c₂ hl hc hv
      rcases hstream with h | h
      · exact (List.prefix_or_prefix_of_prefix hc₂ h)
      · exact .inl (hc₂.trans h)
    obtain ⟨p, hp, hpos⟩ : ∃ p ∈ kept isSeek (0 + c₁.length) (c₂ :: chunks), p.2 = 0 + c₁.length :=
      mem_kept_of_not_isSeek (hne c₂ (by simp)) hsel
    have hmem : p ∈ o.written := by
      rw [hw, Selection.kept]
      exact List.mem_append_right _ hp
    have hle := h.1 p hmem
    have := List.length_pos_iff.mpr hv
    rw [hl, List.length_append, hpos] at hle
    omega

variable {ok : Prop} {pc : Pc}

/-- A thread that has left before the end of its stream has received a chunk. -/
theorem Tally.ne_nil (h : Tally ok chunks o pc) (hok : ok) (hleave : pc.leaving = true)
    (hend : ¬ o.ended = true) : chunks ≠ [] := by
  rintro rfl
  rcases h.left hok hleave with hend' | ⟨s, hmem, -⟩ | ⟨_, hlast, -⟩
  · exact hend hend'
  · have hs := h.seeksAll hok
    rw [seekRequests, List.append_eq_nil_iff, Observed.requests, List.map_eq_nil_iff] at hs
    rw [hs.1] at hmem
    cases hmem
  · cases hlast

/-- If its only chunk is a seek, the device refused it. -/
theorem Tally.refused_of_leaving (h : Tally ok [c₁] o pc) (hok : ok) (hleave : pc.leaving = true)
    (hk : seekOf c₁ = some k) (hs : o.requests = seekRequests 0 [c₁]) (hend : ¬ o.ended = true) :
    (o.seeks.map fun s => s.2.2).head? = some false := by
  rcases h.left hok hleave with hend' | ⟨s, hmem, hrefused⟩ | ⟨d, hlast, hnone, -⟩
  · exact absurd hend' hend
  · rw [seekRequests, hk] at hs
    obtain ⟨s', hseeks, -⟩ := List.map_eq_singleton_iff.mp hs
    rw [hseeks] at hmem
    rw [hseeks, ← List.mem_singleton.mp hmem]
    simp [hrefused]
  · obtain rfl : c₁ = d := by simpa using hlast
    rw [hk] at hnone
    cases hnone

/-- If the device refused the first seek, and the first chunk asked for it, no chunk followed. -/
theorem Tally.eq_nil_of_refused (h : Tally ok (c₁ :: chunks) o pc) (hc : c₁ ≠ [])
    (hk : seekOf c₁ = some k) (hs : o.requests = seekRequests 0 (c₁ :: chunks))
    (hrefused : (o.seeks.map fun s => s.2.2).head? = some false) : chunks = [] := by
  rw [List.head?_map] at hrefused
  obtain ⟨s, hhead, hf⟩ := Option.map_eq_some_iff.mp hrefused
  have hbase := (h.refused s (List.mem_of_mem_head? hhead) hf).2
  have hreq : o.requests.head? = some (s.1, s.2.1) := by
    rw [Observed.requests, List.head?_map, hhead]
    rfl
  rw [hs, seekRequests, hk] at hreq
  obtain ⟨h0, -⟩ := Prod.mk.inj (Option.some.inj hreq)
  rw [h.base, ← h0] at hbase
  cases chunks with
  | nil => rfl
  | cons d chunks =>
    rw [List.dropLast_cons_of_ne_nil (List.cons_ne_nil _ _), List.flatten_cons,
      List.length_append] at hbase
    have := List.length_pos_iff.mpr hc
    omega

end

/-- A connection whose stream, cut into the chunks `cs`, begins with a seek command. Whatever fails:
if the first chunk contains the command and its numbers fit, nothing of it is written and no other
seek is made for it. If no call fails: nothing of it is written and its seek is made exactly when the
numbers fit and the first chunk contains the whole line, or both numbers in front of a cut, and the
device refuses the seek (so that the thread leaves before the rest of the line arrives). -/
theorem seek_line_iff (xs ys : Bytes) (cs : List Bytes) (evs : List Sys) (c : Client)
    (hx : Decimal xs) (hy : Decimal ys) (hstream : seekLine xs ys <+: cs.flatten)
    (hrun : (Client.lts .charDevice).run .start evs = some c) (hchunks : chunksOf evs <+: cs)
    (hended : (observe evs).ended = true → chunksOf evs = cs) (hserved : c.pc.served = true)
    (hline : c.pc = .recv → (seekLine xs ys).length ≤ (chunksOf evs).flatten.length) :
    ((∃ c₁ ∈ cs.head?, seekLine xs ys <+: c₁) → decimal xs < 2 ^ 32 → decimal ys < 2 ^ 32 →
      (∀ p ∈ (observe evs).written, (seekLine xs ys).length ≤ p.2) ∧
        ∀ s ∈ (observe evs).seeks, s.1 < (seekLine xs ys).length →
          s.1 = 0 ∧ IsPair s.2.1 (decimal xs) (decimal ys)) ∧
    ((∀ ev ∈ evs, ev.ok = true) →
      (KeepsSeek (seekLine xs ys).length (decimal xs) (decimal ys) (observe evs) ↔
        decimal xs < 2 ^ 32 ∧ decimal ys < 2 ^ 32 ∧ ∃ c₁ ∈ cs.head?, seekLine xs ys <+: c₁ ∨
          (∃ k, seekOf c₁ = some k ∧ IsPair k (decimal xs) (decimal ys)) ∧
            (seekResults evs).head? = some false)) := by
  have htally := run_tally hrun
  have hne := fun c hc => (run_chunks hrun c hc).1
  obtain ⟨hsubw, hsubs, hall⟩ := htally.served hserved
  have hleave := (Pc.served_cases (b := (observe evs).base) hserved).2.2
  have hpos : 0 < (seekLine xs ys).length := by simp [seekLine, seekPrefix]
  constructor
  · rintro ⟨c₁, hc₁, hprefix⟩ hxlt hylt
    obtain ⟨k, hk, hp⟩ := seekOf_seekLine hx hy hxlt hylt hprefix
    cases hfirst : chunksOf evs with
    | nil =>
      rw [hfirst] at hsubw hsubs
      rw [List.sublist_nil.mp hsubw, List.map_eq_nil_iff.mp (List.sublist_nil.mp hsubs)]
      exact ⟨nofun, nofun⟩
    | cons c₁' tl =>
      obtain rfl : c₁' = c₁ := by
        obtain ⟨more, rfl⟩ := hchunks
        rw [hfirst] at hc₁
        exact Option.some.inj hc₁
      rw [hfirst] at hsubw hsubs
      obtain ⟨hwritten, hseeks⟩ := seeks_of_seekOf hk hprefix.length_le hsubw hsubs
      refine ⟨hwritten, fun s hmem hlt => ?_⟩
      obtain ⟨h0, h1⟩ := hseeks s hmem hlt
      exact ⟨h0, h1 ▸ hp⟩
  · intro hok
    obtain ⟨hw, hs⟩ := hall hok
    cases hfirst : chunksOf evs with
    | nil =>
      -- the stream does not end before the line
      rcases hleave with hrecv | hleave
      · have := hline hrecv
        rw [hfirst, List.flatten_nil, List.length_nil] at this
        omega
      · refine absurd hfirst (htally.ne_nil hok hleave fun hend => ?_)
        rw [← hended hend, hfirst, List.flatten_nil, List.prefix_nil] at hstream
        rw [hstream] at hpos
        cases hpos
    | cons c₁ tl =>
      obtain ⟨more, rfl⟩ := hchunks
      rw [hfirst] at hw hs hline hended hstream hne htally ⊢
      have hc₁ : c₁ ≠ [] := hne c₁ (by simp)
      constructor
      · intro h
        obtain ⟨k, hk, hp⟩ := seekOf_of_keepsSeek hc₁ hs h
        refine ⟨hp.lt.1, hp.lt.2, c₁, rfl, ?_⟩
        rw [List.cons_append, List.flatten_cons] at hstream
        rcases List.prefix_or_prefix_of_prefix hstream (List.prefix_append _ _) with
          hprefix | ⟨v, hv⟩
        · exact .inl hprefix
        by_cases hv0 : v = []
        · rw [hv0, List.append_nil] at hv
          exact .inl (hv ▸ List.prefix_refl _)
        -- the line is cut: there is no other chunk, and the thread left for the refused seek
        refine .inr ⟨⟨k, hk, hp⟩, ?_⟩
        rw [← hv, List.prefix_append_right_inj, List.flatten_append] at hstream
        obtain rfl := eq_nil_of_keepsSeek (seekLine_whole hx hy) hv.symm hc₁ hv0
          (fun c hc => hne c (by simp [hc]))
          (List.prefix_or_prefix_of_prefix hstream (List.prefix_append _ _)) hw h
        rw [← map_seeks]
        rcases hleave with hrecv | hleave
        · have hlen := hline hrecv
          have := List.length_pos_iff.mpr hv0
          rw [List.flatten_singleton, ← hv, List.length_append] at hlen
          omega
        · refine htally.refused_of_leaving hok hleave hk hs fun hend => ?_
          obtain rfl : [] = more := (List.cons.inj (hended hend)).2
          exact hv0 (List.prefix_nil.mp hstream)
      · rintro ⟨hxlt, hylt, d, hd, hcond⟩
        obtain rfl : c₁ = d := Option.some.inj hd
        rcases hcond with hprefix | ⟨⟨k, hk, hp⟩, hrefused⟩
        · obtain ⟨k, hk, hp⟩ := seekOf_seekLine hx hy hxlt hylt hprefix
          exact keepsSeek_of_prefix hk hp hprefix.length_le hw hs hpos
        · -- the refused seek was that of the first chunk, and of the last
          rw [← map_seeks] at hrefused
          obtain rfl := htally.eq_nil_of_refused hc₁ hk hs hrefused
          exact keepsSeek_of_single hk hp hw hs hpos

/-- The line `AESDCHAR_IOCSEEKTO:0,0` in one chunk. -/
def wholeSeek : List Sys := toFirstRecv ++ seeks ⟨0, 0⟩ (seekLine [48] [48]) ++ releases

theorem seek_line_iff_whole : KeepsSeek 23 0 0 (observe wholeSeek) :=
  ((seek_line_iff [48] [48] [seekLine [48] [48]] wholeSeek { pc := .recv, node := true }
    (decimal_singleton rfl) (decimal_singleton rfl) (by simp) (by decide) (by decide) (by decide) rfl
    (by decide)).2 (by decide)).mpr
    ⟨by decide, by decide, seekLine [48] [48], rfl, .inl (List.prefix_refl _)⟩

/-- The same line in two chunks, cut inside the prefix. -/
def cutSeek : List Sys :=
  toFirstRecv ++ writesChunk ((seekLine [48] [48]).take 12) ++ releases ++
    writesChunk ((seekLine [48] [48]).drop 12) ++ responds (seekLine [48] [48]) ++ releases

/-- The device stores the line as a command, and no seek is made. -/
theorem cutSeek_stored :
    ((server Nat kernel64).lts.run (server.init Nat) (calls 0 cutSeek)).map
        (·.shared.driver.commands) = some [seekLine [48] [48]] ∧
      (observe cutSeek).received = seekLine [48] [48] ∧ ¬ KeepsSeek 23 0 0 (observe cutSeek) :=
  ⟨by decide, by decide, fun h => absurd (h.1 (65, 0) (by decide)) (by decide)⟩

/-! ## All seek commands of a connection -/

/-- The line `l` is the seek command for `k`. -/
def SeekOfLine (l : Bytes) (k : AesdSeekto) : Prop :=
  ∃ xs ys, Decimal xs ∧ Decimal ys ∧ l = seekLine xs ys ∧ IsPair k (decimal xs) (decimal ys)

/-- The stream was written without its seek commands, and their seeks were asked for, in order. -/
structure Separates (o : Observed) : Prop where
  written : o.written = keptLines isNewline isSeek o.received
  seeks : List.Forall₂ SeekOfLine ((lines isNewline o.received).filter isSeek)
    (o.seeks.map fun s => s.2.1)

theorem seekOf_of_line (h : SeekOfLine c k) : ∃ k', seekOf c = some k' ∧ SeekOfLine c k' := by
  obtain ⟨xs, ys, hx, hy, rfl, hp⟩ := h
  obtain ⟨k', hk', hp'⟩ := seekOf_seekLine hx hy hp.lt.1 hp.lt.2 (List.prefix_refl _)
  exact ⟨k', hk', xs, ys, hx, hy, rfl, hp'⟩

/-- Chunks that are seek commands get their seeks. -/
theorem forall₂_seekRequests (h : ∀ c ∈ chunks, isSeek c = true → ∃ k, SeekOfLine c k) :
    List.Forall₂ SeekOfLine (chunks.filter isSeek) ((seekRequests b chunks).map Prod.snd) := by
  induction chunks generalizing b with
  | nil => exact .nil
  | cons c chunks ih =>
    have ih := ih (b := b + c.length) fun d hd => h d (by simp [hd])
    rw [seekRequests]
    cases hc : isSeek c with
    | false =>
      have hnone : seekOf c = none := by rw [seekOf, if_neg (by simp [hc])]
      rw [hnone, List.filter_cons_of_neg (by simp [hc])]
      exact ih
    | true =>
      obtain ⟨k, hk⟩ := h c (by simp) hc
      obtain ⟨k', hk', hline⟩ := seekOf_of_line hk
      rw [hk', List.filter_cons_of_pos hc]
      exact .cons hline ih

theorem length_seekRequests_le (b : Nat) (chunks : List Bytes) :
    (seekRequests b chunks).length ≤ chunks.countP isSeek := by
  induction chunks generalizing b with
  | nil => exact Nat.le_refl _
  | cons c chunks ih =>
    rw [seekRequests, List.length_append, List.countP_cons, Nat.add_comm]
    apply Nat.add_le_add (ih _)
    cases hk : seekOf c with
    | none => exact Nat.zero_le _
    | some k =>
      rw [isSeek_of_seekOf hk]
      exact Nat.le_refl _

/-- A thread, none of whose calls fails, between two chunks or at its end: it wrote its stream without
the seek commands, and made their seeks, exactly when the chunks were aligned with the commands. -/
theorem seek_stream_iff (evs : List Sys) (c : Client)
    (hrun : (Client.lts .charDevice).run .start evs = some c) (hserved : c.pc.served = true)
    (hok : ∀ ev ∈ evs, ev.ok = true)
    (hlines : ∀ l ∈ lines isNewline (chunksOf evs).flatten, isSeek l = true →
      ∃ k, SeekOfLine l k) :
    Separates (observe evs) ↔ Aligned isNewline isSeek [] (chunksOf evs) := by
  have htally := run_tally hrun
  obtain ⟨hw, hs⟩ := (htally.served hserved).2.2 hok
  have hmap : (observe evs).seeks.map (fun s => s.2.1) =
      (seekRequests 0 (chunksOf evs)).map Prod.snd := by
    rw [← hs, Observed.requests, List.map_map]
    rfl
  have hwhole : ∀ l ∈ LineLog.lines isNewline (chunksOf evs).flatten, isSeek l = true →
      Selection.Whole isSeek l := by
    intro l hl hsel
    obtain ⟨k, xs, ys, hx, hy, rfl, -⟩ := hlines l hl hsel
    exact seekLine_whole hx hy
  have hiff := Selection.aligned_iff (fun c => ne_nil_of_isSeek)
    (fun c hc => (run_chunks hrun c hc).1) hwhole
  rw [← hiff]
  constructor
  · rintro ⟨h1, h2⟩
    rw [hw, htally.received] at h1
    rw [htally.received, hmap] at h2
    refine ⟨h1, ?_⟩
    have hlen := h2.length_eq
    rw [List.length_map, ← List.countP_eq_length_filter] at hlen
    rw [hlen]
    exact length_seekRequests_le 0 _
  · intro h
    have hfilter := ((hiff.mp h).spec (by simp [LineLog.Open])).2
    rw [List.nil_append] at hfilter
    refine ⟨by rw [hw, htally.received, h.1], ?_⟩
    rw [htally.received, hmap, ← hfilter]
    refine forall₂_seekRequests fun d hd hsel => hlines d ?_ hsel
    exact List.mem_of_mem_filter (hfilter ▸ List.mem_filter.mpr ⟨hd, hsel⟩)

/-- A thread receives two seek commands, `"a"` and `"b\n"`, behind which it ends: data does not stand
before a seek command that gets its seek. -/
def dataBehindSeek : List Sys :=
  toFirstRecv ++ seeks ⟨0, 0⟩ (seekLine [48] [48]) ++ releases ++ seeks ⟨0, 1⟩ (seekLine [48] [49]) ++
    releases ++ writesChunk [97] ++ releases ++ writesChunk [98, 10] ++ responds [97, 98, 10] ++
    releases

/-- It makes the seeks, and writes `"ab\n"`. -/
theorem seek_stream_iff_behind : Separates (observe dataBehindSeek) := by
  have hline : SeekOfLine (seekLine [48] [48]) ⟨0, 0⟩ ∧ SeekOfLine (seekLine [48] [49]) ⟨0, 1⟩ :=
    ⟨⟨[48], [48], decimal_singleton rfl, decimal_singleton rfl, rfl, by decide, by decide⟩,
      ⟨[48], [49], decimal_singleton rfl, decimal_singleton rfl, rfl, by decide, by decide⟩⟩
  refine (seek_stream_iff dataBehindSeek { pc := .freeBuffer, node := true } (by decide) rfl
    (by decide) fun l hl hsel => ?_).mpr ?_
  · have hlines : lines isNewline (chunksOf dataBehindSeek).flatten =
        [seekLine [48] [48], seekLine [48] [49], [97, 98, 10]] := by decide
    rw [hlines] at hl
    simp only [List.mem_cons, List.not_mem_nil, or_false] at hl
    rcases hl with rfl | rfl | rfl
    · exact ⟨_, hline.1⟩
    · exact ⟨_, hline.2⟩
    · exact absurd hsel (by decide)
  · have hchunks : chunksOf dataBehindSeek =
        [seekLine [48] [48], seekLine [48] [49], [97], [98, 10]] := by decide
    have htail : tail isNewline [97] = [97] := by decide
    have hwhole : ∀ x y : UInt8, isNewline x = false → isNewline y = false →
        IsLine isNewline (seekLine [x] [y]) := fun x y hx hy =>
      ⟨seekPrefix ++ [x, 44, y], 10, rfl, rfl, by
        simp_all [seekPrefix, isNewline, newline]⟩
    rw [hchunks, Aligned, if_pos (by decide), Aligned, if_pos (by decide), Aligned,
      if_neg (by decide), List.nil_append, htail, Aligned, if_neg (by decide)]
    exact ⟨rfl, hwhole _ _ rfl rfl, rfl, hwhole _ _ rfl rfl, by decide, by decide, trivial⟩

/-- A client stores `"a\n"`; then another one sends a seek command and `"b\n"` in one chunk. -/
def joinedSeek : List (Threads.Label Nat Sys Env) :=
  calls 1 (toFirstRecv ++ writesChunk [97, 10] ++ responds [97, 10] ++ releases) ++
    calls 0 (toFirstRecv ++ [.recv (some (seekLine [48] [48] ++ [98, 10])), .lock .file true,
      .open true, .ioctl ⟨0, 0⟩ true, .read (some [97, 10]), .send [97, 10] 2, .read (some [])] ++
        releases)

/-- The bytes `"b\n"` are dropped. -/
theorem joinedSeek_drops :
    ((server Nat kernel64).lts.run (server.init Nat) joinedSeek).map (fun s =>
        ((s.local_ 0).pc, s.shared.driver.commands, s.shared.driver.pendingBytes)) =
          some (.recv, [[97, 10]], []) ∧
      (observe (Threads.callsOf 0 joinedSeek)).received = seekLine [48] [48] ++ [98, 10] ∧
      (observe (Threads.callsOf 0 joinedSeek)).written = [] ∧
      ¬ Separates (observe (Threads.callsOf 0 joinedSeek)) := by
  refine ⟨by decide, by decide, by decide, fun h => ?_⟩
  have hw := h.written
  revert hw
  decide

end Aesd
