import Aesd.Lib.Selection
import Aesd.Server.HandleClient

/-!
# What `handle_client` makes of its stream

A client thread of the device build, alone, with any results of its calls: `observe` collects what it
received, what of it it wrote to the device, and the seeks it asked for, with positions in the
stream. The thread looks at each chunk's first bytes only:

* `run_tally`: it writes nothing but the chunks without the seek prefix, and asks for nothing but the
  pairs of the others, in order; if no call fails, it leaves nothing out.
-/

namespace Aesd

open Selection (kept)

/-- The call does not fail, or is interrupted and tried again. A seek that the device refuses, the end
of the stream and a client that takes no response are no failures here. -/
def Sys.ok : Sys → Bool
  | .malloc ok | .lock _ ok | .open ok | .lseek ok => ok
  | .write _ ret => decide (0 < ret ∨ ret = -eintr)
  | _ => true

/-- What a thread did with its stream so far. -/
structure Observed where
  /-- The position of the last chunk. -/
  base : Nat
  received : Bytes
  /-- The bytes written to the device, with their positions. -/
  written : List (UInt8 × Nat)
  /-- The seeks, with the positions of their chunks, and whether the device took them. -/
  seeks : List (Nat × AesdSeekto × Bool)
  /-- `recv` gave 0 or an error. -/
  ended : Bool
  deriving DecidableEq, Repr

/-- The seeks, with the positions of their chunks. -/
def Observed.requests (o : Observed) : List (Nat × AesdSeekto) := o.seeks.map fun s => (s.1, s.2.1)

/-- A call. What is written is the end of what was received. -/
def Observed.next (o : Observed) : Sys → Observed
  | .recv none => { o with ended := true }
  | .recv (some chunk) => { o with base := o.received.length, received := o.received ++ chunk }
  | .write bs ret =>
    { o with written :=
        o.written ++ (bs.take ret.toNat).zipIdx (o.received.length - bs.length) }
  | .ioctl seekto ok => { o with seeks := o.seeks ++ [(o.base, seekto, ok)] }
  | _ => o

/-- What a thread did with its stream. -/
def observe (evs : List Sys) : Observed :=
  evs.foldl Observed.next { base := 0, received := [], written := [], seeks := [], ended := false }

theorem observe_snoc (evs : List Sys) (ev : Sys) :
    observe (evs ++ [ev]) = (observe evs).next ev := by
  simp [observe]

/-- The chunk that a call received. -/
def received : Sys → Option Bytes
  | .recv chunk => chunk
  | _ => none

/-- The chunks that a thread received. -/
def chunksOf (evs : List Sys) : List Bytes := evs.filterMap received

theorem chunksOf_snoc (evs : List Sys) (ev : Sys) :
    chunksOf (evs ++ [ev]) = chunksOf evs ++ (received ev).toList := by
  rw [chunksOf, List.filterMap_append]
  cases h : received ev <;> simp [chunksOf, h]

/-- The chunk has the seek prefix. -/
def isSeek (c : Bytes) : Bool := decide (seekPrefix <+: c)

/-- The pair of a chunk with the seek prefix. -/
def seekOf (c : Bytes) : Option AesdSeekto :=
  if isSeek c then sscanfSeekto (c.drop seekPrefix.length) else none

/-- The pairs of the chunks with the seek prefix, with the positions of the chunks from `b` on. -/
def seekRequests : Nat → List Bytes → List (Nat × AesdSeekto)
  | _, [] => []
  | b, c :: cs => (seekOf c).toList.map (b, ·) ++ seekRequests (b + c.length) cs

theorem kept_snoc {α : Type*} {sel : List α → Bool} (b : Nat) (cs : List (List α)) (c : List α) :
    kept sel b (cs ++ [c]) =
      kept sel b cs ++ if sel c then [] else c.zipIdx (b + cs.flatten.length) := by
  induction cs generalizing b with
  | nil => simp [kept]
  | cons d cs ih => simp [kept, ih, Nat.add_assoc]

theorem seekRequests_snoc (b : Nat) (cs : List Bytes) (c : Bytes) :
    seekRequests b (cs ++ [c]) =
      seekRequests b cs ++ (seekOf c).toList.map (b + cs.flatten.length, ·) := by
  induction cs generalizing b with
  | nil => simp [seekRequests]
  | cons d cs ih => simp [seekRequests, ih, Nat.add_assoc]

namespace Pc

/-- What of the last chunk, at `b`, is still to be written. -/
def toWrite (b : Nat) : Pc → List (UInt8 × Nat)
  | .dataLock chunk | .dataOpen chunk => chunk.zipIdx b
  | .write chunk written => (chunk.drop written).zipIdx (b + written)
  | _ => []

/-- The seek of the last chunk, at `b`, if it is still to be made. -/
def toSeek (b : Nat) : Pc → List (Nat × AesdSeekto)
  | .seekLock seekto | .seekOpen seekto | .ioctl seekto => [(b, seekto)]
  | _ => []

/-- On the way out of the main loop. -/
def leaving : Pc → Bool
  | .reclose | .reopen | .lseek | .freeBuffer | .closeSocket | .freeData | .markLock | .mark
  | .markUnlock | .exited => true
  | .read after | .send after _ _ | .close after | .unlock after => after == .cleanup
  | _ => false

end Pc

/-! ## The first bytes of a chunk -/

section

variable {b : Nat} {c d : Bytes}

theorem isSeek_iff : isSeek c = true ↔ seekPrefix <+: c := decide_eq_true_iff

theorem toWrite_dispatch :
    (Client.dispatch c).toWrite b = if isSeek c then [] else c.zipIdx b := by
  unfold Client.dispatch isSeek
  by_cases h : seekPrefix <+: c
  · rw [if_pos h, if_pos (by simpa using h)]
    split <;> rfl
  · rw [if_neg h, if_neg (by simpa using h)]
    rfl

theorem toSeek_dispatch :
    (Client.dispatch c).toSeek b = (seekOf c).toList.map (b, ·) := by
  unfold Client.dispatch seekOf isSeek
  by_cases h : seekPrefix <+: c
  · rw [if_pos h, if_pos (by simpa using h)]
    split
    · rename_i hparse
      rw [hparse]
      rfl
    · rename_i hparse
      rw [hparse]
      rfl
  · rw [if_neg h, if_neg (by simpa using h)]
    rfl

theorem chunk_dispatch (h : (Client.dispatch c).chunk = some d) : c = d ∧ isSeek c = false := by
  refine ⟨Client.chunk_dispatch h, ?_⟩
  rw [← Bool.not_eq_true, isSeek_iff]
  intro hsel
  rw [Client.dispatch, if_pos hsel] at h
  split at h <;> cases h

theorem dispatch_ne_write (c d : Bytes) (n : Nat) : Client.dispatch c ≠ .write d n :=
  Client.dispatch_elim (P := (· ≠ .write d n)) nofun (fun _ => nofun) nofun

/-- The thread leaves at once on a format error. -/
theorem leaving_dispatch (h : (Client.dispatch c).leaving = true) :
    seekOf c = none ∧ isSeek c = true := by
  unfold Client.dispatch at h
  split at h
  · rename_i hsel
    split at h
    · rename_i hparse
      exact ⟨by rw [seekOf, if_pos (isSeek_iff.mpr hsel), hparse], isSeek_iff.mpr hsel⟩
    · cases h
  · cases h

end

/-! ## One call -/

/-- What a thread at `pc` did with its chunks. -/
structure Tally (ok : Prop) (chunks : List Bytes) (o : Observed) (pc : Pc) : Prop where
  received : o.received = chunks.flatten
  base : o.base = chunks.dropLast.flatten.length
  chunk : ∀ c, pc.chunk = some c → chunks.getLast? = some c ∧ isSeek c = false
  offset : ∀ c n, pc = .write c n → n ≤ c.length
  written : (o.written ++ pc.toWrite o.base).Sublist (kept isSeek 0 chunks)
  seeks : (o.requests ++ pc.toSeek o.base).Sublist (seekRequests 0 chunks)
  writtenAll : ok → o.written ++ pc.toWrite o.base = kept isSeek 0 chunks
  seeksAll : ok → o.requests ++ pc.toSeek o.base = seekRequests 0 chunks
  /-- The device refuses a seek only once. -/
  refused : ∀ s ∈ o.seeks, s.2.2 = false → pc.leaving = true ∧ s.1 = o.base
  /-- Why the thread left the main loop. -/
  left : ok → pc.leaving = true → o.ended = true ∨ (∃ s ∈ o.seeks, s.2.2 = false) ∨
    ∃ c, chunks.getLast? = some c ∧ seekOf c = none ∧ (isSeek c = false → c.any isNewline = true)

namespace Tally

variable {ok : Prop} {chunks : List Bytes} {o : Observed} {pc pc' : Pc} {c : Bytes}

/-- A call that does nothing with the stream. -/
theorem move {ok' : Prop} (h : Tally ok chunks o pc) (hok : ok' → ok)
    (hchunk : ∀ c, pc'.chunk = some c → pc.chunk = some c) (hoff : ∀ c n, pc' = .write c n → n = 0)
    (hw : pc'.toWrite o.base = pc.toWrite o.base ∨ pc'.toWrite o.base = [] ∧ ¬ ok')
    (hs : pc'.toSeek o.base = pc.toSeek o.base ∨ pc'.toSeek o.base = [] ∧ ¬ ok')
    (hl : pc.leaving = true → pc'.leaving = true)
    (hl' : ok' → pc'.leaving = true → pc.leaving = true) : Tally ok' chunks o pc' where
  received := h.received
  base := h.base
  chunk c hc := h.chunk c (hchunk c hc)
  offset c n hc := by
    rw [hoff c n hc]
    exact Nat.zero_le _
  written := by
    rcases hw with hw | ⟨hw, -⟩
    · rw [hw]
      exact h.written
    · rw [hw, List.append_nil]
      exact (List.sublist_append_left _ _).trans h.written
  seeks := by
    rcases hs with hs | ⟨hs, -⟩
    · rw [hs]
      exact h.seeks
    · rw [hs, List.append_nil]
      exact (List.sublist_append_left _ _).trans h.seeks
  writtenAll h' := by
    rw [hw.resolve_right fun hw => hw.2 h']
    exact h.writtenAll (hok h')
  seeksAll h' := by
    rw [hs.resolve_right fun hs => hs.2 h']
    exact h.seeksAll (hok h')
  refused s hs hf := ⟨hl (h.refused s hs hf).1, (h.refused s hs hf).2⟩
  left h' hlv := h.left (hok h') (hl' h' hlv)

/-- A chunk. -/
theorem recv (h : Tally ok chunks o .recv) (c : Bytes) :
    Tally ok (chunks ++ [c]) (o.next (.recv (some c))) (Client.dispatch c) := by
  have hlen : 0 + chunks.flatten.length = o.received.length := by rw [h.received, Nat.zero_add]
  have hkept : kept isSeek 0 (chunks ++ [c]) = _ := kept_snoc 0 chunks c
  have hreq := seekRequests_snoc 0 chunks c
  rw [hlen] at hkept hreq
  obtain ⟨hrecv, -, -, -, hw, hs, hwAll, hsAll, hrefused, -⟩ := h
  simp only [Pc.toWrite, Pc.toSeek, List.append_nil] at hw hs hwAll hsAll
  exact {
    received := by simp [Observed.next, hrecv]
    base := by simp [Observed.next, hrecv]
    chunk := fun d hd => by
      obtain ⟨rfl, hsel⟩ := chunk_dispatch hd
      exact ⟨by simp, hsel⟩
    offset := fun d n hd => absurd hd (dispatch_ne_write c d n)
    written := by
      rw [toWrite_dispatch, hkept]
      exact hw.append_right _
    seeks := by
      rw [toSeek_dispatch, hreq]
      exact hs.append_right _
    writtenAll := fun hok => by
      rw [toWrite_dispatch, hkept, ← hwAll hok]
      rfl
    seeksAll := fun hok => by
      rw [toSeek_dispatch, hreq, ← hsAll hok]
      rfl
    refused := fun s hs hf => by cases (hrefused s hs hf).1
    left := fun _ hl => by
      obtain ⟨hseek, hsel⟩ := leaving_dispatch hl
      exact .inr (.inr ⟨c, by simp, hseek, fun h => by rw [hsel] at h; cases h⟩) }

/-- A seek. -/
theorem ioctl {k : AesdSeekto} (h : Tally ok chunks o (.ioctl k)) (taken : Bool) :
    Tally ok chunks (o.next (.ioctl k taken))
      (if taken then .read .recv else .close .cleanup) where
  received := h.received
  base := h.base
  chunk := by cases taken <;> nofun
  offset := by cases taken <;> nofun
  written := by cases taken <;> exact h.written
  seeks := by
    have := h.seeks
    cases taken <;> simpa [Observed.next, Observed.requests, Pc.toSeek] using this
  writtenAll := by cases taken <;> exact h.writtenAll
  seeksAll := by
    have := h.seeksAll
    cases taken <;> simpa [Observed.next, Observed.requests, Pc.toSeek] using this
  refused := by
    intro s hs hf
    rcases List.mem_append.mp hs with hs | hs
    · cases (h.refused s hs hf).1
    · obtain rfl := List.mem_singleton.mp hs
      cases taken with
      | false => exact ⟨rfl, rfl⟩
      | true => cases hf
  left := by
    intro _ hl
    cases taken with
    | false => exact .inr (.inl ⟨(o.base, k, false), by simp [Observed.next], rfl⟩)
    | true => cases hl

/-- What an iteration of `write_all` leaves to be written. -/
theorem toWrite_afterWriteAll {b n : Nat} {ret : Int} (hn : n ≤ c.length)
    (hret : ret ≤ (c.drop n).length) :
    ((c.drop n).take ret.toNat).zipIdx (b + n) ++
        (Client.afterWriteAll .charDevice c (Client.writeAllStep c.length n ret)).toWrite b =
          (c.drop n).zipIdx (b + n) ∨
      (¬ (0 < ret ∨ ret = -eintr) ∧ (c.drop n).take ret.toNat = [] ∧
        (Client.afterWriteAll .charDevice c (Client.writeAllStep c.length n ret)).toWrite b = []) := by
  have hdone : ∀ r, (Client.afterWriteAll .charDevice c (.done r)).toWrite b = [] := by
    intro r
    unfold Client.afterWriteAll Client.afterWrite
    simp only
    split
    · split <;> rfl
    · rfl
  have htake : ¬ 0 < ret → (c.drop n).take ret.toNat = [] := by
    intro h
    rw [show ret.toNat = 0 by omega, List.take_zero]
  by_cases hneg : ret < 0
  · by_cases hintr : ret = -eintr
    · -- interrupted: nothing is written and all is left
      refine .inl ?_
      rw [htake (by omega), Client.writeAllStep, if_pos hneg, if_pos hintr]
      rfl
    · refine .inr ⟨by omega, htake (by omega), ?_⟩
      rw [Client.writeAllStep, if_pos hneg, if_neg hintr, hdone]
  · by_cases hzero : ret = 0
    · refine .inr ⟨by unfold eintr; omega, htake (by omega), ?_⟩
      rw [Client.writeAllStep, if_neg hneg, if_pos hzero, hdone]
    · refine .inl ?_
      obtain ⟨m, rfl⟩ : ∃ m : Nat, ret = m := ⟨ret.toNat, by omega⟩
      rw [List.length_drop] at hret
      rw [Int.toNat_natCast]
      by_cases hmore : n + m < c.length
      · rw [Client.writeAllStep_of_lt (by omega) hmore]
        have hsplit : ((c.drop n).take m ++ (c.drop n).drop m).zipIdx (b + n) = _ :=
          List.zipIdx_append
        rw [List.take_append_drop, List.length_take_of_le (by rw [List.length_drop]; omega),
          List.drop_drop] at hsplit
        rw [hsplit, Client.afterWriteAll, Pc.toWrite, Nat.add_assoc]
      · rw [Client.writeAllStep_of_eq (by omega) (show n + m = c.length by omega), hdone,
          List.append_nil, List.take_of_length_le (by rw [List.length_drop]; omega)]

theorem toSeek_afterWriteAll {b : Nat} (w : Client.WriteAll) :
    (Client.afterWriteAll .charDevice c w).toSeek b = [] :=
  Client.afterWriteAll_elim (P := fun pc => pc.toSeek b = []) w (fun _ => rfl) rfl rfl (fun _ => rfl)

/-- The thread leaves the loop for a newline, or after a failure. -/
theorem leaving_afterWriteAll {n : Nat} {ret : Int} (hret : 0 < ret ∨ ret = -eintr)
    (hle : ret ≤ (c.drop n).length)
    (h : (Client.afterWriteAll .charDevice c (Client.writeAllStep c.length n ret)).leaving = true) :
    c.any isNewline = true := by
  rcases hret with hret | rfl
  case inr => cases h
  obtain ⟨m, rfl⟩ : ∃ m : Nat, ret = m := ⟨ret.toNat, by omega⟩
  rw [List.length_drop] at hle
  by_cases hmore : n + m < c.length
  · rw [Client.writeAllStep_of_lt (by omega) hmore] at h
    cases h
  · rw [Client.writeAllStep_of_eq (by omega) (show n + m = c.length by omega),
      Client.afterWriteAll, if_pos rfl, Client.afterWrite] at h
    split at h
    · assumption
    · cases h

theorem offset_afterWriteAll {n m : Nat} {ret : Int} {d : Bytes} (hn : n ≤ c.length)
    (h : Client.afterWriteAll .charDevice c (Client.writeAllStep c.length n ret) = .write d m) :
    m ≤ d.length := by
  unfold Client.afterWriteAll at h
  split at h
  · rename_i k hk
    cases h
    unfold Client.writeAllStep at hk
    split at hk
    · split at hk <;> cases hk
      exact hn
    · split at hk
      · cases hk
      · split at hk <;> cases hk
        omega
  · unfold Client.afterWrite at h
    split at h
    · split at h <;> cases h
    · cases h

/-- An iteration of `write_all`. -/
theorem write {n : Nat} {ret : Int} (h : Tally ok chunks o (.write c n))
    (hret : ret ≤ (c.drop n).length) :
    Tally (ok ∧ (0 < ret ∨ ret = -eintr)) chunks (o.next (.write (c.drop n) ret))
      (Client.afterWriteAll .charDevice c (Client.writeAllStep c.length n ret)) := by
  have hn := h.offset c n rfl
  obtain ⟨hlast, hsel⟩ := h.chunk c rfl
  obtain ⟨cs, rfl⟩ := List.getLast?_eq_some_iff.mp hlast
  have hpos : o.received.length - (c.drop n).length = o.base + n := by
    rw [h.received, h.base, List.length_drop]
    simp only [List.dropLast_concat, List.flatten_concat, List.length_append]
    omega
  have hres := toWrite_afterWriteAll (b := o.base) hn hret
  have hw := h.written
  have hwAll := h.writtenAll
  simp only [Pc.toWrite] at hw hwAll
  exact {
    received := h.received
    base := h.base
    chunk := fun d hd => by
      obtain rfl := Client.chunk_afterWriteAll hd
      exact ⟨hlast, hsel⟩
    offset := fun d m hd => offset_afterWriteAll hn hd
    written := by
      simp only [Observed.next, hpos, List.append_assoc]
      rcases hres with hres | ⟨-, hnil, hres⟩
      · rw [hres]
        exact hw
      · rw [hnil, hres]
        simpa using (List.sublist_append_left _ _).trans hw
    seeks := by
      rw [toSeek_afterWriteAll]
      exact h.seeks
    writtenAll := fun ⟨hok, hpos'⟩ => by
      simp only [Observed.next, hpos, List.append_assoc]
      rw [hres.resolve_right fun hres => hres.1 hpos']
      exact hwAll hok
    seeksAll := fun ⟨hok, _⟩ => by
      rw [toSeek_afterWriteAll]
      exact h.seeksAll hok
    refused := fun s hs hf => by cases (h.refused s hs hf).1
    left := fun ⟨_, hpos'⟩ hl => by
      refine .inr (.inr ⟨c, hlast, ?_, fun _ => leaving_afterWriteAll hpos' hret hl⟩)
      rw [seekOf, if_neg (by simp [hsel])] }

theorem mono {ok' : Prop} (h : Tally ok chunks o pc) (hok : ok' → ok) : Tally ok' chunks o pc :=
  { h with
    writtenAll := fun h' => h.writtenAll (hok h')
    seeksAll := fun h' => h.seeksAll (hok h')
    left := fun h' => h.left (hok h') }

/-- The end of the stream. -/
theorem recvEnd (h : Tally ok chunks o .recv) :
    Tally ok chunks (o.next (.recv none)) .freeBuffer where
  received := h.received
  base := h.base
  chunk := nofun
  offset := nofun
  written := h.written
  seeks := h.seeks
  writtenAll := h.writtenAll
  seeksAll := h.seeksAll
  refused s hs hf := by cases (h.refused s hs hf).1
  left _ _ := .inl rfl

/-- In the response loop nothing happens to the stream. -/
theorem answering {ok' : Prop} (h : Tally ok chunks o pc) (hok : ok' → ok)
    (ha : pc.answering = true) (ha' : pc'.answering = true) (hl : pc'.leaving = pc.leaving) :
    Tally ok' chunks o pc' := by
  have hnone : ∀ p : Pc, p.answering = true →
      p.chunk = none ∧ (∀ c n, p ≠ .write c n) ∧ p.toWrite o.base = [] ∧ p.toSeek o.base = [] := by
    intro p hp
    cases p <;> first | exact ⟨rfl, nofun, rfl, rfl⟩ | cases hp
  obtain ⟨-, -, hw, hs⟩ := hnone pc ha
  obtain ⟨hc', hn', hw', hs'⟩ := hnone pc' ha'
  refine h.move hok ?_ (fun c n h => absurd h (hn' c n)) (.inl (hw'.trans hw.symm))
    (.inl (hs'.trans hs.symm)) ?_ ?_
  · intro c hc
    rw [hc'] at hc
    cases hc
  · rw [hl]
    exact id
  · rw [hl]
    exact fun _ => id

/-- A call of a client thread. -/
theorem step {node : Bool} {ev : Sys} (h : Tally ok chunks o pc)
    (hstep : Client.Step .charDevice node pc ev pc') :
    Tally (ok ∧ ev.ok = true) (chunks ++ (Aesd.received ev).toList) (o.next ev) pc' := by
  have hnil : chunks ++ [] = chunks := List.append_nil _
  cases hstep with
  | recv hne hfits => exact (h.recv _).mono And.left
  | recvEnd =>
    show Tally _ (chunks ++ []) _ _
    rw [hnil]
    exact h.recvEnd.mono And.left
  | ioctl =>
    show Tally _ (chunks ++ []) _ _
    rw [hnil]
    exact (h.ioctl true).mono And.left
  | ioctlFails =>
    show Tally _ (chunks ++ []) _ _
    rw [hnil]
    exact (h.ioctl false).mono And.left
  | write hret =>
    show Tally _ (chunks ++ []) _ _
    rw [hnil]
    exact (h.write hret).mono fun ⟨h1, h2⟩ => ⟨h1, by simpa [Sys.ok] using h2⟩
  | seekSkip hb => cases hb
  | read hfits =>
    show Tally _ (chunks ++ []) o _
    rw [hnil]
    exact h.answering And.left rfl
      (Client.afterRead_elim (P := fun pc => pc.answering = true) _ rfl fun _ => rfl)
      (Client.afterRead_elim (P := fun pc => pc.leaving = (Pc.read _).leaving) _ rfl fun _ => rfl)
  | send hret =>
    show Tally _ (chunks ++ []) o _
    rw [hnil]
    exact h.answering And.left rfl
      (Client.afterSendAll_elim (P := fun pc => pc.answering = true) _ _ (fun _ => rfl) rfl rfl)
      (Client.afterSendAll_elim (P := fun pc => pc.leaving = (Pc.read _).leaving) _ _ (fun _ => rfl)
        rfl rfl)
  | @unlock after =>
    show Tally _ (chunks ++ []) o _
    rw [hnil]
    cases after <;> refine h.move And.left ?_ ?_ ?_ ?_ ?_ ?_ <;>
      simp [Pc.chunk, Pc.toWrite, Pc.toSeek, Pc.leaving, Client.afterUnlock]
  | _ =>
    show Tally _ (chunks ++ []) o _
    rw [hnil]
    refine h.move And.left ?_ ?_ ?_ ?_ ?_ ?_ <;>
      simp [Pc.chunk, Pc.toWrite, Pc.toSeek, Pc.leaving, Sys.ok]

end Tally

/-! ## Runs -/

/-- What a thread did with its stream, after any run. -/
theorem run_tally {evs : List Sys} {c : Client}
    (h : (Client.lts .charDevice).run .start evs = some c) :
    Tally (∀ ev ∈ evs, ev.ok = true) (chunksOf evs) (observe evs) c.pc := by
  refine Lts.run_history (I := fun evs c =>
    Tally (∀ ev ∈ evs, ev.ok = true) (chunksOf evs) (observe evs) c.pc) ?_ ?_ h
  · exact {
      received := rfl
      base := rfl
      chunk := nofun
      offset := nofun
      written := List.Sublist.refl _
      seeks := List.Sublist.refl _
      writtenAll := fun _ => rfl
      seeksAll := fun _ => rfl
      refused := nofun
      left := fun _ hl => by cases hl }
  · rintro evs c ev c' - ih hs
    rw [chunksOf_snoc, observe_snoc]
    refine (ih.step (Client.next_eq_some hs).1).mono fun hok => ⟨fun e he => hok e ?_, hok ev ?_⟩
    · simp [he]
    · simp

/-- Every chunk is not empty and fits into the buffer. -/
theorem run_chunks {evs : List Sys} {c : Client}
    (h : (Client.lts .charDevice).run .start evs = some c) :
    ∀ chunk ∈ chunksOf evs, chunk ≠ [] ∧ chunk.length ≤ bufferSize - 1 := by
  refine Lts.run_history (I := fun evs _ =>
    ∀ chunk ∈ chunksOf evs, chunk ≠ [] ∧ chunk.length ≤ bufferSize - 1) (by simp [chunksOf]) ?_ h
  rintro evs c ev c' - ih hs chunk hchunk
  rw [chunksOf_snoc, List.mem_append] at hchunk
  rcases hchunk with hchunk | hchunk
  · exact ih chunk hchunk
  · have hstep := (Client.next_eq_some hs).1
    generalize c.pc = pc at hstep
    generalize c'.pc = pc' at hstep
    cases hstep with
    | recv hne hfits =>
      obtain rfl : chunk = _ := by simpa [received] using hchunk
      exact ⟨hne, hfits⟩
    | _ => simp [received] at hchunk

end Aesd
