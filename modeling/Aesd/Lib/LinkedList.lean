import Mathlib.Data.List.Nodup
import Mathlib.Logic.Function.Basic

/-!
# Singly linked lists in memory

A store maps the addresses of the nodes that are allocated to cells: a value and the pointer to the
next node (`none` is null). `Seg h p l q` says that the pointers lead from `p` through the nodes of
`l`, in this order, to `q`; `IsList h p l` that they lead to null and that no other node is
allocated.

A list that ends in null has no node twice (`Seg.nodup`). The rules `IsList.push`, `IsList.setVal`,
`IsList.unlinkFirst` and `IsList.unlinkNext` say what the updates of a store do to its list.
-/

namespace LinkedList

/-- A node in memory. -/
structure Cell (α β : Type*) where
  val : β
  next : Option α
  deriving DecidableEq, Repr

/-- The nodes that are allocated, by address. -/
abbrev Store (α β : Type*) := α → Option (Cell α β)

variable {α β : Type*} {h h' : Store α β} {p q : Option α} {a b : α} {v w : β}
  {l m : List (α × β)}

/-- From `p` the pointers lead through the nodes of `l` to `q`. -/
def Seg (h : Store α β) : Option α → List (α × β) → Option α → Prop
  | p, [], q => p = q
  | p, (a, v) :: l, q => p = some a ∧ ∃ n, h a = some { val := v, next := n } ∧ Seg h n l q

@[simp] theorem seg_nil : Seg h p [] q ↔ p = q := Iff.rfl

theorem seg_cons : Seg h p ((a, v) :: l) q ↔
    p = some a ∧ ∃ n, h a = some { val := v, next := n } ∧ Seg h n l q := Iff.rfl

/-- A segment of `l ++ m` is a segment of `l` and then one of `m`. -/
theorem seg_append : Seg h p (l ++ m) q ↔ ∃ r, Seg h p l r ∧ Seg h r m q := by
  induction l generalizing p with
  | nil => simp
  | cons c l ih =>
    obtain ⟨a, v⟩ := c
    simp only [List.cons_append, seg_cons, ih]
    constructor
    · rintro ⟨hp, n, ha, r, hl, hm⟩
      exact ⟨r, ⟨hp, n, ha, hl⟩, hm⟩
    · rintro ⟨r, ⟨hp, n, ha, hl⟩, hm⟩
      exact ⟨hp, n, ha, r, hl, hm⟩

/-- A segment depends on its own nodes only. -/
theorem Seg.frame (hs : Seg h p l q) (heq : ∀ a ∈ l.map Prod.fst, h' a = h a) : Seg h' p l q := by
  induction l generalizing p with
  | nil => exact hs
  | cons c l ih =>
    obtain ⟨a, v⟩ := c
    obtain ⟨hp, n, ha, hl⟩ := hs
    exact ⟨hp, n, (heq a (by simp)).trans ha, ih hl fun b hb => heq b (by simp [hb])⟩

/-- The pointer to a list in memory is the address of its first node, or null. -/
theorem Seg.start (hs : Seg h p l none) : p = l.head?.map Prod.fst := by
  cases l with
  | nil => exact hs
  | cons c l => exact hs.1

theorem Seg.cell (hs : Seg h p l q) (hmem : (a, v) ∈ l) :
    ∃ n, h a = some { val := v, next := n } := by
  obtain ⟨l₁, l₂, rfl⟩ := List.append_of_mem hmem
  obtain ⟨r, -, -, n, ha, -⟩ := seg_append.mp hs
  exact ⟨n, ha⟩

/-- The nodes between a pointer and null are determined. -/
theorem Seg.unique (hl : Seg h p l none) (hm : Seg h p m none) : l = m := by
  induction l generalizing p m with
  | nil =>
    obtain rfl : p = none := hl
    cases m with
    | nil => rfl
    | cons c m => cases hm.1
  | cons c l ih =>
    obtain ⟨a, v⟩ := c
    obtain ⟨rfl, n, ha, hl⟩ := hl
    cases m with
    | nil => cases hm
    | cons d m =>
      obtain ⟨a', v'⟩ := d
      obtain ⟨heq, n', ha', hm⟩ := hm
      cases heq
      cases ha.symm.trans ha'
      rw [ih hl hm]

/-- A list that ends in null is acyclic: from a second visit of a node on, the rest would be the
same as from the first. -/
theorem Seg.nodup (hs : Seg h p l none) : (l.map Prod.fst).Nodup := by
  induction l generalizing p with
  | nil => exact List.nodup_nil
  | cons c l ih =>
    obtain ⟨a, v⟩ := c
    obtain ⟨rfl, n, ha, hl⟩ := hs
    refine List.nodup_cons.mpr ⟨fun hmem => ?_, ih hl⟩
    obtain ⟨⟨a', w⟩, hc, rfl⟩ := List.mem_map.mp hmem
    obtain ⟨l₁, l₂, rfl⟩ := List.append_of_mem hc
    obtain ⟨r, -, hr⟩ := seg_append.mp hl
    obtain rfl := hr.1
    have heq : (a', v) :: (l₁ ++ (a', w) :: l₂) = (a', w) :: l₂ := Seg.unique ⟨rfl, n, ha, hl⟩ hr
    have hlen := congrArg List.length heq
    simp only [List.length_cons, List.length_append] at hlen
    omega

/-- `l` is the list at `p`, and its nodes are all that is allocated. -/
structure IsList (h : Store α β) (p : Option α) (l : List (α × β)) : Prop where
  seg : Seg h p l none
  live : ∀ a c, h a = some c → a ∈ l.map Prod.fst

theorem IsList.nodup (hl : IsList h p l) : (l.map Prod.fst).Nodup := hl.seg.nodup

theorem isList_empty : IsList (fun _ => none : Store α β) none [] :=
  { seg := rfl, live := nofun }

variable [DecidableEq α]

theorem Seg.update {c : Option (Cell α β)} (hs : Seg h p l q) (ha : a ∉ l.map Prod.fst) :
    Seg (Function.update h a c) p l q := by
  apply hs.frame
  intro b hb
  rw [Function.update_of_ne]
  rintro rfl
  exact ha hb

/-- A new node in front. -/
theorem IsList.push (hl : IsList h p l) (ha : h a = none) :
    IsList (Function.update h a (some { val := v, next := p })) (some a) ((a, v) :: l) := by
  have hnot : a ∉ l.map Prod.fst := by
    intro hmem
    obtain ⟨⟨a, w⟩, hc, rfl⟩ := List.mem_map.mp hmem
    obtain ⟨n, hn⟩ := hl.seg.cell hc
    cases ha.symm.trans hn
  refine ⟨⟨rfl, p, Function.update_self .., hl.seg.update hnot⟩, fun b c hb => ?_⟩
  by_cases hab : b = a
  · simp [hab]
  · rw [Function.update_of_ne hab] at hb
    exact List.mem_cons_of_mem _ (hl.live b c hb)

/-- Another value in a node. -/
theorem IsList.setVal {n : Option α} (hl : IsList h p l) (ha : h a = some { val := v, next := n })
    (w : β) :
    IsList (Function.update h a (some { val := w, next := n })) p
      (l.map fun c => if c.1 = a then (a, w) else c) := by
  have hfst : (l.map fun c => if c.1 = a then (a, w) else c).map Prod.fst = l.map Prod.fst := by
    rw [List.map_map]
    refine List.map_congr_left fun c _ => ?_
    simp only [Function.comp_apply]
    split
    · exact Eq.symm ‹_›
    · rfl
  refine ⟨?_, fun b c hb => ?_⟩
  · have hs := hl.seg
    clear hl hfst
    induction l generalizing p with
    | nil => exact hs
    | cons c l ih =>
      obtain ⟨b, u⟩ := c
      obtain ⟨rfl, n', hb, hs⟩ := hs
      rw [List.map_cons]
      by_cases hba : b = a
      · subst hba
        cases ha.symm.trans hb
        rw [if_pos rfl]
        exact ⟨rfl, n, Function.update_self .., ih hs⟩
      · rw [if_neg hba]
        exact ⟨rfl, n', by rwa [Function.update_of_ne hba], ih hs⟩
  · rw [hfst]
    by_cases hba : b = a
    · exact hba ▸ hl.live a _ ha
    · rw [Function.update_of_ne hba] at hb
      exact hl.live b c hb

/-- The first node is freed: what it pointed to is the list. -/
theorem IsList.unlinkFirst {n : Option α} (hl : IsList h p ((a, v) :: l))
    (ha : h a = some { val := v, next := n }) : IsList (Function.update h a none) n l := by
  have hnot := (List.nodup_cons.mp hl.nodup).1
  obtain ⟨rfl, n', ha', hs⟩ := hl.seg
  cases ha.symm.trans ha'
  refine ⟨hs.update hnot, fun b c hb => ?_⟩
  have hba : b ≠ a := by
    rintro rfl
    rw [Function.update_self] at hb
    cases hb
  rw [Function.update_of_ne hba] at hb
  exact List.mem_of_ne_of_mem hba (hl.live b c hb)

/-- A node is freed after the node before it was made to point to the node behind it. -/
theorem IsList.unlinkNext {n : Option α} (hl : IsList h p (l ++ (b, w) :: (a, v) :: m))
    (ha : h a = some { val := v, next := n }) :
    IsList (Function.update (Function.update h b (some { val := w, next := n })) a none) p
      (l ++ (b, w) :: m) := by
  have hnodup := hl.nodup
  simp only [List.map_append, List.map_cons] at hnodup
  obtain ⟨-, hnodup', hdisj⟩ := List.nodup_append.mp hnodup
  obtain ⟨hb', hnodup''⟩ := List.nodup_cons.mp hnodup'
  have ha' := (List.nodup_cons.mp hnodup'').1
  obtain ⟨r, hl₁, rfl, k, -, rfl, k', hk', hm⟩ := seg_append.mp hl.seg
  cases ha.symm.trans hk'
  have hba : b ≠ a := fun h => hb' (h ▸ List.mem_cons_self)
  refine ⟨seg_append.mpr ⟨some b, ?_, rfl, n, ?_, ?_⟩, fun d c hd => ?_⟩
  · refine (hl₁.update fun hmem => hdisj _ hmem _ List.mem_cons_self rfl).update fun hmem => ?_
    exact hdisj _ hmem _ (List.mem_cons_of_mem _ List.mem_cons_self) rfl
  · rw [Function.update_of_ne hba, Function.update_self]
  · exact (hm.update fun hmem => hb' (List.mem_cons_of_mem _ hmem)).update ha'
  · have hda : d ≠ a := by
      rintro rfl
      rw [Function.update_self] at hd
      cases hd
    rw [Function.update_of_ne hda] at hd
    have hmem : d ∈ (l ++ (b, w) :: (a, v) :: m).map Prod.fst := by
      by_cases hdb : d = b
      · simp [hdb]
      · rw [Function.update_of_ne hdb] at hd
        exact hl.live d c hd
    simpa [hda] using hmem

end LinkedList
