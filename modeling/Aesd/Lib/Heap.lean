import Mathlib.Data.List.Perm.Lattice
import Mathlib.Data.List.Nodup
import Mathlib.Algebra.Order.BigOperators.Group.List
import Mathlib.Algebra.Order.Group.Nat
import Mathlib.Algebra.GroupWithZero.Nat

/-!
# A heap of blocks, and exact ownership

The heap keeps the outstanding blocks with their contents; a block id is never given out twice,
except that a reallocation may return the id that it retires. A use of an id that is not
outstanding, or an access outside a block, is undefined behaviour: it is recorded in `faults`, so a
proof that `faults` stays empty is a proof that there is none.

`h.Owns l` says that the outstanding blocks are exactly those of the list `l`, in some order, and
that nothing went wrong so far. The rules (`Owns.alloc`, `Owns.realloc`, `Owns.free`, `Owns.load`,
`Owns.store`) say what each operation does to that list; the blocks that it does not name are the
frame.
-/

namespace Heap

/-- Undefined behaviour. -/
inductive Fault where
  /-- A free or a reallocation of an id that is not outstanding. -/
  | badFree (p : Nat)
  /-- An access to a block that is not outstanding, or outside its bytes. -/
  | badAccess (p : Nat)
  deriving DecidableEq, Repr

/-- The choices of an allocator in one call: whether it refuses, whether a reallocation grows the
block in place, and what a new block holds. -/
structure Choice (α : Type*) where
  fails : Bool
  inPlace : Bool
  fill : α
  deriving DecidableEq, Repr

end Heap

/-- A heap of blocks of `α`. -/
structure Heap (α : Type*) where
  /-- The outstanding blocks: id and contents. -/
  blocks : List (Nat × List α)
  /-- Every id ever given out is below `fresh`. -/
  fresh : Nat
  faults : List Heap.Fault
  deriving DecidableEq, Repr

namespace Heap

variable {α : Type*}

/-- The heap before the first allocation. -/
def empty : Heap α := { blocks := [], fresh := 0, faults := [] }

/-- The outstanding ids. -/
def ids (h : Heap α) : List Nat := h.blocks.map Prod.fst

/-- The bytes of all outstanding blocks. -/
def total (h : Heap α) : Nat := (h.blocks.map fun b => b.2.length).sum

/-- The contents of the block `p`, if it is outstanding. -/
def block? (h : Heap α) (p : Nat) : Option (List α) := (h.blocks.find? (·.1 = p)).map Prod.snd

def fault (h : Heap α) (f : Fault) : Heap α := { h with faults := h.faults ++ [f] }

/-- Without the block `p`. -/
def erase (h : Heap α) (p : Nat) : Heap α := { h with blocks := h.blocks.filter (·.1 ≠ p) }

/-- An allocation of `n` bytes in a heap of at most `cap` bytes: the id, or `none` for a refusal. -/
def alloc (cap : Nat) (c : Choice α) (n : Nat) (h : Heap α) : Option Nat × Heap α :=
  if c.fails ∨ cap < h.total + n then (none, h)
  else
    (some h.fresh,
      { h with blocks := (h.fresh, List.replicate n c.fill) :: h.blocks, fresh := h.fresh + 1 })

/-- The end of the life of block `p`. -/
def free (p : Nat) (h : Heap α) : Heap α :=
  if p ∈ h.ids then h.erase p else h.fault (.badFree p)

/-- A reallocation of block `p` to `n` bytes: it keeps the contents up to the shorter length. If it
fails, the old block stays. -/
def realloc (cap : Nat) (c : Choice α) (p n : Nat) (h : Heap α) : Option Nat × Heap α :=
  match h.block? p with
  | none => (none, h.fault (.badFree p))
  | some bs =>
    if c.fails ∨ cap < h.total - bs.length + n then (none, h)
    else
      let q := if c.inPlace then p else h.fresh
      let bs' := bs.take n ++ List.replicate (n - bs.length) c.fill
      let h' := h.erase p
      (some q, { h' with blocks := (q, bs') :: h'.blocks, fresh := h'.fresh + 1 })

/-- The `n` bytes at offset `o` of block `p`. -/
def load (p : Nat) (o n : Nat) (h : Heap α) : List α × Heap α :=
  match h.block? p with
  | some bs => if o + n ≤ bs.length then ((bs.drop o).take n, h) else ([], h.fault (.badAccess p))
  | none => ([], h.fault (.badAccess p))

/-- `vs` at offset `o` of `bs`. -/
def splice (bs : List α) (o : Nat) (vs : List α) : List α :=
  bs.take o ++ vs ++ bs.drop (o + vs.length)

/-- A write of `vs` at offset `o` of block `p`. -/
def store (p : Nat) (o : Nat) (vs : List α) (h : Heap α) : Heap α :=
  match h.block? p with
  | some bs =>
    if o + vs.length ≤ bs.length then
      { h with blocks := h.blocks.map fun b => if b.1 = p then (p, splice bs o vs) else b }
    else h.fault (.badAccess p)
  | none => h.fault (.badAccess p)

/-- The outstanding blocks are exactly those of `l`, nothing went wrong so far, and the heap is
within its capacity. -/
structure Owns (cap : Nat) (h : Heap α) (l : List (Nat × List α)) : Prop where
  perm : h.blocks.Perm l
  nodup : (l.map Prod.fst).Nodup
  fresh : ∀ b ∈ l, b.1 < h.fresh
  faults : h.faults = []
  total : h.total ≤ cap

variable {cap : Nat} {h h' : Heap α} {l : List (Nat × List α)} {p q : Nat} {bs vs : List α}

theorem owns_empty : Owns cap (empty : Heap α) [] :=
  ⟨.refl _, .nil, by simp, rfl, Nat.zero_le _⟩

theorem Owns.of_perm {l' : List (Nat × List α)} (ho : h.Owns cap l) (hp : l.Perm l') :
    h.Owns cap l' :=
  ⟨ho.perm.trans hp, (hp.map _).nodup_iff.mp ho.nodup, fun b hb => ho.fresh b (hp.mem_iff.mpr hb),
    ho.faults, ho.total⟩

theorem Owns.ids_perm (ho : h.Owns cap l) : h.ids.Perm (l.map Prod.fst) := ho.perm.map _

theorem Owns.ids_nodup (ho : h.Owns cap l) : h.ids.Nodup := ho.ids_perm.nodup_iff.mpr ho.nodup

theorem Owns.total_eq (ho : h.Owns cap l) : h.total = (l.map fun b => b.2.length).sum :=
  (ho.perm.map _).sum_eq

/-- An owned block is within the capacity. -/
theorem Owns.length_le (ho : h.Owns cap l) {b : Nat × List α} (hb : b ∈ l) : b.2.length ≤ cap := by
  refine Nat.le_trans ?_ ho.total
  rw [ho.total_eq]
  exact List.single_le_sum (fun _ _ => Nat.zero_le _) _ (List.mem_map_of_mem hb)

/-- The contents of an owned block. -/
theorem Owns.block? (ho : h.Owns cap ((p, bs) :: l)) : h.block? p = some bs := by
  have hm : (p, bs) ∈ h.blocks := ho.perm.mem_iff.mpr (List.mem_cons_self ..)
  unfold Heap.block?
  cases hf : h.blocks.find? (·.1 = p) with
  | none =>
    have := List.find?_eq_none.mp hf _ hm
    simp at this
  | some b =>
    have hb := List.mem_of_find?_eq_some hf
    have hp : b.1 = p := by simpa using List.find?_some hf
    have : b = (p, bs) := List.inj_on_of_nodup_map ho.ids_nodup hb hm hp
    simp [this]

theorem Owns.block?_of_mem (ho : h.Owns cap l) (hm : (p, bs) ∈ l) : h.block? p = some bs := by
  obtain ⟨l₁, l₂, rfl⟩ := List.append_of_mem hm
  exact (ho.of_perm List.perm_middle).block?

/-- No other owned block has the id of the first one. -/
theorem Owns.ne (ho : h.Owns cap ((p, bs) :: l)) {b : Nat × List α} (hb : b ∈ l) : b.1 ≠ p := by
  have := ho.nodup
  rw [List.map_cons, List.nodup_cons] at this
  intro he
  exact this.1 (List.mem_map.mpr ⟨b, hb, he⟩)

theorem Owns.erase_perm (ho : h.Owns cap ((p, bs) :: l)) :
    (h.blocks.filter (·.1 ≠ p)).Perm l := by
  have hf := ho.perm.filter (·.1 ≠ p)
  rw [List.filter_cons_of_neg (by simp)] at hf
  have hl : l.filter (·.1 ≠ p) = l := by
    rw [List.filter_eq_self]
    intro b hb
    simpa using ho.ne hb
  rwa [hl] at hf

theorem Owns.total_erase (ho : h.Owns cap ((p, bs) :: l)) :
    h.total = (h.erase p).total + bs.length := by
  rw [ho.total_eq, List.map_cons, List.sum_cons]
  unfold Heap.total erase
  rw [(ho.erase_perm.map _).sum_eq, Nat.add_comm]

/-- An allocation that succeeds adds a block with a fresh id. -/
theorem Owns.alloc {c : Choice α} {n : Nat} (ho : h.Owns cap l)
    (ha : h.alloc cap c n = (some p, h')) : h'.Owns cap ((p, List.replicate n c.fill) :: l) := by
  unfold Heap.alloc at ha
  split at ha
  · cases ha
  · rename_i hc
    cases ha
    refine ⟨ho.perm.cons _, ?_, ?_, ho.faults, ?_⟩
    · rw [List.map_cons, List.nodup_cons]
      refine ⟨fun hm => ?_, ho.nodup⟩
      obtain ⟨b, hb, he⟩ := List.mem_map.mp hm
      exact absurd he (Nat.ne_of_lt (ho.fresh b hb))
    · intro b hb
      rcases List.mem_cons.mp hb with rfl | hb
      · exact Nat.lt_succ_self _
      · exact Nat.lt_succ_of_lt (ho.fresh b hb)
    · simp only [Heap.total, List.map_cons, List.length_replicate, List.sum_cons] at hc ⊢
      omega

/-- An allocation that fails changes nothing. -/
theorem alloc_none {c : Choice α} {n : Nat} (ha : h.alloc cap c n = (none, h')) : h' = h := by
  unfold Heap.alloc at ha
  split at ha <;> cases ha
  rfl

/-- An allocation that fits into the heap succeeds, unless the allocator refuses. -/
theorem exists_alloc {c : Choice α} {n : Nat} (hc : c.fails = false) (hn : h.total + n ≤ cap) :
    ∃ p h', h.alloc cap c n = (some p, h') := by
  refine ⟨_, _, if_neg ?_⟩
  simp [hc, hn]

/-- A refused allocation fails. -/
theorem alloc_of_fails {c : Choice α} {n : Nat} (hc : c.fails = true) :
    h.alloc cap c n = (none, h) := if_pos (.inl hc)

/-- A refused reallocation fails. -/
theorem realloc_of_fails {c : Choice α} {n : Nat} (hc : c.fails = true) :
    (h.realloc cap c p n).1 = none := by
  unfold Heap.realloc
  cases h.block? p with
  | none => rfl
  | some bs => simp [hc]

/-- A free of an owned block takes it off. -/
theorem Owns.free (ho : h.Owns cap ((p, bs) :: l)) : (h.free p).Owns cap l := by
  have hm : p ∈ h.ids := ho.ids_perm.mem_iff.mpr (by simp)
  have ht := ho.total_erase
  have hcap := ho.total
  rw [Heap.free, if_pos hm]
  refine ⟨ho.erase_perm, ?_, fun b hb => ho.fresh b (List.mem_cons_of_mem _ hb), ho.faults, by omega⟩
  have := ho.nodup
  rw [List.map_cons, List.nodup_cons] at this
  exact this.2

/-- A reallocation of an owned block that fails changes nothing. -/
theorem Owns.realloc_none {c : Choice α} {n : Nat} (ho : h.Owns cap ((p, bs) :: l))
    (hr : h.realloc cap c p n = (none, h')) : h' = h := by
  unfold Heap.realloc at hr
  rw [ho.block?] at hr
  simp only at hr
  split at hr <;> cases hr
  rfl

/-- A reallocation of an owned block that succeeds gives a block with the old contents at the
front. -/
theorem Owns.realloc {c : Choice α} {n : Nat} (ho : h.Owns cap ((p, bs) :: l))
    (hr : h.realloc cap c p n = (some q, h')) :
    h'.Owns cap ((q, bs.take n ++ List.replicate (n - bs.length) c.fill) :: l) := by
  have ht := ho.total_erase
  unfold Heap.realloc at hr
  rw [ho.block?] at hr
  simp only at hr
  split at hr
  · cases hr
  · rename_i hc
    cases hr
    have hpf : p < h.fresh := ho.fresh _ (List.mem_cons_self ..)
    refine ⟨ho.erase_perm.cons _, ?_, ?_, ho.faults, ?_⟩
    · have hn := ho.nodup
      rw [List.map_cons, List.nodup_cons] at hn ⊢
      refine ⟨fun hm => ?_, hn.2⟩
      obtain ⟨b, hb, he⟩ := List.mem_map.mp hm
      have hlt := ho.fresh b (List.mem_cons_of_mem _ hb)
      simp only at he
      split at he
      · exact ho.ne hb he
      · exact absurd he (Nat.ne_of_lt hlt)
    · intro b hb
      rcases List.mem_cons.mp hb with rfl | hb
      · show (if c.inPlace = true then p else h.fresh) < h.fresh + 1
        split <;> omega
      · exact Nat.lt_succ_of_lt (ho.fresh b (List.mem_cons_of_mem _ hb))
    · simp only [Heap.total, erase, List.map_cons, List.length_append, List.length_take,
        List.length_replicate, List.sum_cons] at hc ht ⊢
      omega

/-- A load inside an owned block reads it. -/
theorem Owns.load {o n : Nat} (ho : h.Owns cap ((p, bs) :: l)) (hn : o + n ≤ bs.length) :
    h.load p o n = ((bs.drop o).take n, h) := by
  rw [Heap.load, ho.block?]
  exact if_pos hn

@[simp] theorem length_splice {o : Nat} (hn : o + vs.length ≤ bs.length) :
    (splice bs o vs).length = bs.length := by
  simp [splice]
  omega

theorem take_splice {o : Nat} (ho : o ≤ bs.length) :
    (splice bs o vs).take (o + vs.length) = bs.take o ++ vs := by
  rw [splice, List.take_append_of_le_length (by simp; omega)]
  exact List.take_of_length_le (by simp)

theorem drop_splice {o : Nat} (ho : o ≤ bs.length) :
    (splice bs o vs).drop (o + vs.length) = bs.drop (o + vs.length) := by
  have hlen : (bs.take o ++ vs).length = o + vs.length := by simp; omega
  rw [splice, ← hlen, List.drop_left]

/-- A store inside an owned block changes it. -/
theorem Owns.store (ho : h.Owns cap ((p, bs) :: l)) (o : Nat) (vs : List α)
    (hn : o + vs.length ≤ bs.length) :
    (h.store p o vs).Owns cap ((p, splice bs o vs) :: l) := by
  have hl : l.map (fun b => if b.1 = p then (p, splice bs o vs) else b) = l := by
    conv => rhs; rw [← List.map_id l]
    refine List.map_congr_left fun b hb => ?_
    rw [if_neg (ho.ne hb), id]
  have hp := ho.perm.map fun b => if b.1 = p then (p, splice bs o vs) else b
  rw [List.map_cons, if_pos rfl, hl] at hp
  have ht := ho.total_eq
  have hcap := ho.total
  rw [Heap.store, ho.block?]
  simp only [if_pos hn]
  refine ⟨hp, by simpa using ho.nodup, ?_, ho.faults, ?_⟩
  · intro b hb
    rcases List.mem_cons.mp hb with rfl | hb
    · exact ho.fresh (p, bs) (List.mem_cons_self ..)
    · exact ho.fresh b (List.mem_cons_of_mem _ hb)
  · show ((h.blocks.map _).map _).sum ≤ cap
    rw [(hp.map _).sum_eq]
    simp only [List.map_cons, List.sum_cons, length_splice hn] at ht ⊢
    omega

/-! ## No fault is forgotten -/

theorem faults_fault (f : Fault) : h.faults <+: (h.fault f).faults := List.prefix_append _ _

theorem faults_alloc (cap : Nat) (c : Choice α) (n : Nat) :
    h.faults <+: (h.alloc cap c n).2.faults := by
  unfold alloc
  split <;> exact List.prefix_rfl

theorem faults_realloc (cap : Nat) (c : Choice α) (p n : Nat) :
    h.faults <+: (h.realloc cap c p n).2.faults := by
  unfold realloc
  split
  · exact faults_fault _
  · split <;> exact List.prefix_rfl

theorem faults_free (p : Nat) : h.faults <+: (h.free p).faults := by
  unfold free
  split
  · exact List.prefix_rfl
  · exact faults_fault _

theorem faults_load (p o n : Nat) : h.faults <+: (h.load p o n).2.faults := by
  unfold load
  split
  · split
    · exact List.prefix_rfl
    · exact faults_fault _
  · exact faults_fault _

theorem faults_store (p o : Nat) (vs : List α) : h.faults <+: (h.store p o vs).faults := by
  unfold store
  split
  · split
    · exact List.prefix_rfl
    · exact faults_fault _
  · exact faults_fault _

end Heap
