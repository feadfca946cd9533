import Aesd.Driver.CircularBuffer
import Aesd.Lib.Fifo

/-!
# The circular buffer is a bounded queue

What the circular buffer is for: a queue of the last ten entries (`Aesd/Lib/Fifo.lean`). Every run
of its operations refines that queue (`aesdCircularBuffer_refines`): one step lemma
(`RingOp.run_refines`), and the run by induction.
-/

namespace Aesd

open AesdCircularBuffer

/-- An operation of the circular buffer. -/
inductive RingOp where
  | init
  | addEntry (e : AesdBufferEntry)
  | removeEntry
  deriving DecidableEq, Repr

namespace RingOp

/-- The operation on the structure. -/
def run (b : AesdCircularBuffer) : RingOp → AesdCircularBuffer
  | init => aesdCircularBufferInit
  | addEntry e => aesdCircularBufferAddEntry b e
  | removeEntry => aesdCircularBufferRemoveEntry b

/-- The operation on the queue. -/
def spec (q : List AesdBufferEntry) : RingOp → List AesdBufferEntry
  | init => []
  | addEntry e => if e.buffptr = none then q else Fifo.push maxWriteOperationsSupported q e
  | removeEntry => Fifo.pop q

end RingOp

/-- The structure holds the queue `q`. -/
structure Refines (b : AesdCircularBuffer) (q : List AesdBufferEntry) : Prop where
  inv : b.RingInv q.length
  live : b.live = q

variable {b : AesdCircularBuffer} {q : List AesdBufferEntry}

theorem init_refines : Refines aesdCircularBufferInit [] := by
  refine ⟨init_ringInv, ?_⟩
  rw [init_ringInv.live_eq]
  rfl

/-- `add_entry` with a pointer pushes. -/
theorem Refines.addEntry (h : Refines b q) {e : AesdBufferEntry} (he : e.buffptr ≠ none) :
    Refines (aesdCircularBufferAddEntry b e) (Fifo.push maxWriteOperationsSupported q e) := by
  obtain ⟨hi, rfl⟩ := h
  rcases Nat.lt_or_eq_of_le hi.le with hn | hn
  · obtain ⟨hi', hl⟩ := addEntry_of_not_full hi hn he
    rw [Fifo.push_of_length_lt hn, ← hl]
    exact ⟨by rw [hl]; simpa using hi', rfl⟩
  · rw [hn] at hi
    obtain ⟨hi', hl⟩ := addEntry_of_full hi he
    rw [Fifo.push_of_length_eq hn, ← hl]
    exact ⟨by rw [hi'.length_live]; exact hi', rfl⟩

/-- `remove_entry` pops. -/
theorem Refines.removeEntry (h : Refines b q) :
    Refines (aesdCircularBufferRemoveEntry b) (Fifo.pop q) := by
  cases q with
  | nil =>
    rw [removeEntry_of_zero h.inv]
    exact h
  | cons e q =>
    obtain ⟨hi, hl⟩ := removeEntry_of_pos h.inv
    exact ⟨hi, by rw [hl, h.live]; rfl⟩

/-- Every operation refines its operation on the queue. -/
theorem RingOp.run_refines (h : Refines b q) (op : RingOp) : Refines (op.run b) (op.spec q) := by
  cases op with
  | init => exact init_refines
  | addEntry e =>
    by_cases he : e.buffptr = none
    · simpa [run, spec, he, addEntry_null he] using h
    · simpa [run, spec, he] using h.addEntry he
  | removeEntry => exact h.removeEntry

theorem foldl_refines (h : Refines b q) (ops : List RingOp) :
    Refines (ops.foldl RingOp.run b) (ops.foldl RingOp.spec q) := by
  induction ops generalizing b q with
  | nil => exact h
  | cons op ops ih => exact ih (op.run_refines h)

/-- From any memory, after `init` and any operations the structure holds the queue that they make;
the two indices, the flag and the cleared slots are those of that queue. -/
theorem aesdCircularBuffer_refines (b₀ : AesdCircularBuffer) (ops : List RingOp) :
    let b := (RingOp.init :: ops).foldl RingOp.run b₀
    let q := (RingOp.init :: ops).foldl RingOp.spec []
    b.live = q ∧ q.length ≤ maxWriteOperationsSupported ∧
      b.inOffs.toNat < maxWriteOperationsSupported ∧
      b.outOffs.toNat < maxWriteOperationsSupported ∧
      (b.full = true ↔ q.length = maxWriteOperationsSupported) ∧
      b.inOffs.toNat = (b.outOffs.toNat + q.length) % maxWriteOperationsSupported ∧
      ∀ i < maxWriteOperationsSupported, i ∉ b.liveSlots → b.slot i = .null := by
  have h : Refines ((RingOp.init :: ops).foldl RingOp.run b₀)
      ((RingOp.init :: ops).foldl RingOp.spec []) := foldl_refines init_refines ops
  exact ⟨h.live, h.inv.le, h.inv.in_lt, h.inv.out_lt, h.inv.full, h.inv.in_eq,
    fun i hi hl => h.inv.slot_eq_null hi hl⟩

end Aesd
