import Aesd.Lib.LineLog

/-!
# Where the elements of a log come from

Chunks that arrive from several sources, tagged with their source. A log of tagged elements says
where each element of a commit comes from (`tagged`), and forgets to the log of the elements
(`map_snd_writes_tagged`). `oneSource_iff`: every commit comes from one source exactly when each
chunk with a terminator follows only chunks of its own source since the last terminator.
-/

namespace LineLog

variable {α τ : Type*} {nl : α → Bool} {cs u v w : List (List α)} {c e : List α} {n : Nat}

/-! ## The chunks of a commit -/

/-- `w` are the chunks since the last one with a terminator, after the chunks `u`. -/
def Since (nl : α → Bool) (u w : List (List α)) : Prop :=
  (∀ c ∈ w, c.any nl = false) ∧ ∀ c ∈ u.getLast?, c.any nl = true

/-- Chunks can be cut behind the last one with a terminator. -/
theorem exists_since (nl : α → Bool) (cs : List (List α)) : ∃ u w, cs = u ++ w ∧ Since nl u w := by
  induction cs using List.reverseRecOn with
  | nil => exact ⟨[], [], rfl, by simp, by simp⟩
  | append_singleton cs c ih =>
    obtain ⟨u, w, rfl, hw, hu⟩ := ih
    cases hc : c.any nl with
    | true => exact ⟨u ++ w ++ [c], [], by simp, by simp, by simpa using hc⟩
    | false =>
      refine ⟨u, w ++ [c], by simp, ?_, hu⟩
      intro x hx
      rcases List.mem_append.mp hx with hx | hx
      · exact hw x hx
      · rwa [List.mem_singleton.mp hx]

/-- The pending elements are the chunks since the last terminator. -/
theorem pending_of_since (h : Since nl u w) : (empty.writes nl (u ++ w)).pending = w.flatten := by
  obtain ⟨hw, hu⟩ := h
  induction w using List.reverseRecOn with
  | nil =>
    rw [List.append_nil]
    rcases List.eq_nil_or_concat' u with rfl | ⟨u, c, rfl⟩
    · rfl
    · have hc : c.any nl = true := hu c (by simp)
      rw [writes_snoc, write_of_any hc]
      rfl
  | append_singleton w c ih =>
    have hc : c.any nl = false := hw c (by simp)
    rw [← List.append_assoc, writes_snoc, write_of_not_any hc]
    simp only [List.flatten_append, List.flatten_singleton]
    rw [ih fun x hx => hw x (by simp [hx])]

/-- A commit is a chunk with a terminator behind the chunks since the one before. -/
theorem mem_committed_iff : e ∈ (empty.writes nl cs).committed ↔
    ∃ u w c v, cs = u ++ w ++ c :: v ∧ Since nl u w ∧ c.any nl = true ∧ e = w.flatten ++ c := by
  induction cs using List.reverseRecOn with
  | nil => simp [writes, empty]
  | append_singleton cs c ih =>
    obtain ⟨u, w, hcs, hs⟩ := exists_since nl cs
    constructor
    · intro he
      rw [writes_snoc] at he
      have hold : e ∈ (empty.writes nl cs).committed →
          ∃ u w c' v, cs ++ [c] = u ++ w ++ c' :: v ∧ Since nl u w ∧ c'.any nl = true ∧
            e = w.flatten ++ c' := by
        intro he
        obtain ⟨u, w, c', v, rfl, h1, h2, h3⟩ := ih.mp he
        exact ⟨u, w, c', v ++ [c], by simp, h1, h2, h3⟩
      cases hc : c.any nl with
      | false =>
        rw [write_of_not_any hc] at he
        exact hold he
      | true =>
        rw [write_of_any hc, List.mem_append, List.mem_singleton] at he
        rcases he with he | rfl
        · exact hold he
        · refine ⟨u, w, c, [], by simp [hcs], hs, hc, ?_⟩
          rw [hcs, pending_of_since hs]
    · rintro ⟨u', w', c', v, h1, h2, h3, rfl⟩
      rw [writes_snoc]
      rcases List.eq_nil_or_concat' v with rfl | ⟨v, x, rfl⟩
      · obtain ⟨rfl, hc'⟩ := List.append_inj' h1 rfl
        cases hc'
        rw [write_of_any h3, pending_of_since h2]
        simp
      · have h1 : cs ++ [c] = (u' ++ w' ++ c' :: v) ++ [x] := by simpa using h1
        obtain ⟨rfl, -⟩ := List.append_inj' h1 rfl
        have hm := ih.mpr ⟨u', w', c', v, rfl, h2, h3, rfl⟩
        cases hc : c.any nl with
        | false =>
          rw [write_of_not_any hc]
          exact hm
        | true =>
          rw [write_of_any hc, List.mem_append]
          exact .inl hm

/-- Every commit is at some time among the last ones. -/
theorem forall_rtake_iff (hn : 0 < n) {P : List α → Prop} :
    (∀ u v, cs = u ++ v → ∀ e ∈ (empty.writes nl u).committed.rtake n, P e) ↔
      ∀ e ∈ (empty.writes nl cs).committed, P e := by
  constructor
  · intro h e he
    obtain ⟨u, w, c, v, rfl, hs, hc, rfl⟩ := mem_committed_iff.mp he
    apply h (u ++ w ++ [c]) v (by simp) _
    rw [writes_snoc, write_of_any hc, pending_of_since hs, ← Fifo.push_rtake hn, Fifo.push]
    split <;> simp
  · rintro h u v rfl e he
    obtain ⟨u', w, c, v', rfl, hs⟩ := mem_committed_iff.mp (List.mem_of_mem_drop he)
    exact h e (mem_committed_iff.mpr ⟨u', w, c, v' ++ v, by simp, hs⟩)

/-! ## Tagged chunks -/

/-- Each element with the source of its chunk. -/
def tagged (cs : List (τ × List α)) : List (List (τ × α)) := cs.map fun p => p.2.map (p.1, ·)

/-- The elements come from one source. -/
def OneSource (e : List (τ × α)) : Prop := ∃ t, ∀ b ∈ e, b.1 = t

/-- The log of the tagged elements is a log of the elements. -/
theorem map_snd_writes_tagged (nl : α → Bool) (cs : List (τ × List α)) :
    (empty.writes (fun b => nl b.2) (tagged cs)).map Prod.snd = empty.writes nl (cs.map Prod.snd) := by
  have hmap : (tagged cs).map (List.map Prod.snd) = cs.map Prod.snd := by
    rw [tagged, List.map_map]
    exact List.map_congr_left fun p _ => by simp [Function.comp_def]
  rw [← hmap]
  exact writes_map (fun _ => rfl) _

theorem any_tag (t : τ) (c : List α) : (c.map (t, ·)).any (fun b => nl b.2) = c.any nl := by
  simp [List.any_map, Function.comp_def]

/-- A commit comes from one source exactly when its chunks do. -/
theorem oneSource_flatten_iff {w : List (τ × List α)} {t : τ} (hw : ∀ p ∈ w, p.2 ≠ []) (hc : c ≠ []) :
    OneSource ((tagged w).flatten ++ c.map (t, ·)) ↔ ∀ p ∈ w, p.1 = t := by
  constructor
  · rintro ⟨t', ht⟩ p hp
    obtain ⟨b, hb⟩ := List.exists_mem_of_ne_nil _ hc
    obtain ⟨x, hx⟩ := List.exists_mem_of_ne_nil _ (hw p hp)
    have h1 : t = t' := ht (t, b) (by simp [hb])
    have h2 : p.1 = t' := by
      apply ht (p.1, x)
      rw [List.mem_append, List.mem_flatten]
      exact .inl ⟨_, List.mem_map_of_mem hp, List.mem_map_of_mem hx⟩
    rw [h1, h2]
  · intro h
    refine ⟨t, fun b hb => ?_⟩
    rcases List.mem_append.mp hb with hb | hb
    · obtain ⟨l, hl, hb⟩ := List.mem_flatten.mp hb
      obtain ⟨p, hp, rfl⟩ := List.mem_map.mp hl
      obtain ⟨x, -, rfl⟩ := List.mem_map.mp hb
      exact h p hp
    · obtain ⟨x, -, rfl⟩ := List.mem_map.mp hb
      rfl

/-- Every commit comes from one source exactly when each chunk with a terminator follows only chunks
of its own source since the last terminator. -/
theorem oneSource_iff {cs : List (τ × List α)} (hne : ∀ p ∈ cs, p.2 ≠ []) :
    (∀ e ∈ (empty.writes (fun b => nl b.2) (tagged cs)).committed, OneSource e) ↔
      ∀ u w v t c, cs = u ++ w ++ (t, c) :: v → c.any nl = true →
        (∀ p ∈ w, p.2.any nl = false) → ∀ p ∈ w, p.1 = t := by
  constructor
  · intro h u w v t c hcs hc hw p hp
    -- go back to the last terminator
    obtain ⟨u', w', hu, hs⟩ := exists_since (fun b : τ × α => nl b.2) (tagged u)
    obtain ⟨u₁, u₂, rfl, rfl, rfl⟩ := List.map_eq_append_iff.mp hu
    have hw' : ∀ q ∈ u₂ ++ w, q.2 ≠ [] := by
      intro q hq
      apply hne q
      rw [hcs]
      simp only [List.mem_append] at hq ⊢
      rcases hq with hq | hq
      · exact .inl (.inl (.inr hq))
      · exact .inl (.inr hq)
    refine (oneSource_flatten_iff hw' (ne_nil_of_any hc)).mp ?_ p (by simp [hp])
    refine h _ (mem_committed_iff.mpr ⟨tagged u₁, tagged (u₂ ++ w), c.map (t, ·), tagged v, ?_, ?_, ?_,
      rfl⟩)
    · simp [hcs, tagged]
    · refine ⟨fun x hx => ?_, hs.2⟩
      obtain ⟨q, hq, rfl⟩ := List.mem_map.mp hx
      rcases List.mem_append.mp hq with hq | hq
      · exact hs.1 _ (List.mem_map_of_mem hq)
      · rw [any_tag]
        exact hw q hq
    · rw [any_tag, hc]
  · intro h e he
    obtain ⟨u, w, c, v, hcs, hs, hc, rfl⟩ := mem_committed_iff.mp he
    obtain ⟨cs', cv, rfl, hcs', hcv⟩ := List.map_eq_append_iff.mp hcs
    obtain ⟨u', w', rfl, rfl, rfl⟩ := List.map_eq_append_iff.mp hcs'
    obtain ⟨⟨t, c'⟩, v', rfl, rfl, rfl⟩ := List.map_eq_cons_iff.mp hcv
    have hc' : c'.any nl = true := by simpa [List.any_map, Function.comp_def] using hc
    refine (oneSource_flatten_iff (fun p hp => hne p (by simp [hp])) (ne_nil_of_any hc')).mpr ?_
    refine h u' w' v' t c' rfl hc' fun p hp => ?_
    have := hs.1 _ (List.mem_map_of_mem hp)
    rwa [any_tag] at this

end LineLog
