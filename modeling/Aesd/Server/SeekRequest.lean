import Aesd.Server.SeekLine

/-!
# The grammar of seek requests

`handle_client` takes the bytes behind the seek prefix as `X,Y` when `sscanf` returns 2. That also
holds of texts with white space, signs, numbers that do not fit and trailing characters.

`seekRequest_exact_iff`: exactly for which texts a request is executed at the position that it
denotes, or not at all.
-/

namespace Aesd

open Client (dispatch fits)

/-- The text is `X,Y` and ends there or goes on with a newline. -/
def Denotes (s : Bytes) (x y : Nat) : Prop :=
  ∃ xs ys r, s = xs ++ 44 :: (ys ++ r) ∧ Decimal xs ∧ Decimal ys ∧ (∀ c ∈ r.head?, c = 10) ∧
    decimal xs = x ∧ decimal ys = y

/-- The thread is not back at `recv`. -/
def isRecv : Sys → Bool
  | .recv _ => true
  | _ => false

/-- A request with the text `s` seeks to the position that `s` denotes, if it seeks at all; if `s`
denotes no position of 32-bit numbers, there is no seek and nothing is sent. -/
def SeeksExactly (b : Build) (s : Bytes) : Prop :=
  ∀ (node : Bool) (evs : List Sys) (c : Client), (∀ ev ∈ evs, isRecv ev = false) →
    (Client.lts b).run { pc := .recv, node := node } (.recv (some (seekPrefix ++ s)) :: evs) =
      some c →
    (∀ k ok, .ioctl k ok ∈ evs → Denotes s k.writeCmd.toNat k.writeCmdOffset.toNat) ∧
      ((¬ ∃ x y, Denotes s x y ∧ x < 2 ^ 32 ∧ y < 2 ^ 32) →
        (∀ k ok, .ioctl k ok ∉ evs) ∧ ∀ bs ret, .send bs ret ∉ evs)

/-- Digits alone, of numbers that fit, and the end of the text or of the line. -/
def SeekText.Exact (t : SeekText) : Prop :=
  t.writeCmd.Plain ∧ t.writeCmdOffset.Plain ∧ decimal t.writeCmd.digits < 2 ^ 32 ∧
    decimal t.writeCmdOffset.digits < 2 ^ 32 ∧ ∀ c ∈ t.rest.head?, c = 10

/-! ## Texts that denote a position -/

section

variable {n m : Numeral} {xs ys r r' : Bytes} {x y : Nat} {t : SeekText}

/-- A text that starts with a digit is no numeral with white space or a sign. -/
theorem Numeral.plain_of_append (n : Numeral) {d : UInt8} {s : Bytes} (hd : isDigit d = true)
    (h : n.text ++ r = d :: s) : n.Plain := by
  rw [Numeral.text, List.append_assoc] at h
  have hspace : n.space = [] := by
    cases hw : n.space with
    | nil => rfl
    | cons c w =>
      rw [hw] at h
      cases h
      have hs := n.allSpace d (by simp [hw])
      rw [isSpace_of_isDigit hd] at hs
      cases hs
  rw [hspace, List.nil_append] at h
  refine ⟨hspace, ?_⟩
  cases hg : n.sign with
  | none => rfl
  | _ =>
    rw [hg] at h
    cases h
    cases hd

theorem Numeral.Plain.text (h : n.Plain) : n.text = n.digits := by
  rw [Numeral.text, h.1, h.2]
  rfl

/-- Digits in front of something else are determined. -/
theorem digits_unique (hxs : ∀ c ∈ xs, isDigit c = true) (hys : ∀ c ∈ ys, isDigit c = true)
    (hr : ∀ c ∈ r.head?, isDigit c = false) (hr' : ∀ c ∈ r'.head?, isDigit c = false)
    (h : xs ++ r = ys ++ r') : xs = ys ∧ r = r' := by
  obtain ⟨hx, hxr⟩ := span_digits hxs hr
  obtain ⟨hy, hyr⟩ := span_digits hys hr'
  rw [h] at hx hxr
  exact ⟨hx.symm.trans hy, hxr.symm.trans hyr⟩

/-- A numeral at the start of a text that starts with a number is that number. -/
theorem Numeral.eq_of_append (n : Numeral) (hxs : Decimal xs)
    (hr : ∀ c ∈ r.head?, isDigit c = false) (hr' : ∀ c ∈ r'.head?, isDigit c = false)
    (h : n.text ++ r = xs ++ r') : n.Plain ∧ n.digits = xs ∧ r = r' := by
  obtain ⟨d, ds, hds⟩ := List.exists_cons_of_ne_nil hxs.1
  have hplain : n.Plain := by
    rw [hds, List.cons_append] at h
    exact n.plain_of_append (hxs.2 d (by simp [hds])) h
  rw [hplain.text] at h
  exact ⟨hplain, digits_unique n.allDigit hxs.2 hr hr' h⟩

theorem not_isDigit_of_newline (hr : ∀ c ∈ r.head?, c = 10) : ∀ c ∈ r.head?, isDigit c = false := by
  intro c hc
  rw [hr c hc]
  rfl

/-- A text that `sscanf` reads and that denotes a position, is plain. -/
theorem SeekText.plain_of_denotes (h : Denotes t.text x y) :
    t.writeCmd.Plain ∧ t.writeCmdOffset.Plain ∧ decimal t.writeCmd.digits = x ∧
      decimal t.writeCmdOffset.digits = y ∧ ∀ c ∈ t.rest.head?, c = 10 := by
  obtain ⟨xs, ys, r, heq, hxs, hys, hr, rfl, rfl⟩ := h
  have hcomma : ∀ z : Bytes, ∀ c ∈ (44 :: z).head?, isDigit c = false := by
    intro z c hc
    cases hc
    rfl
  obtain ⟨hx, rfl, heq'⟩ := t.writeCmd.eq_of_append hxs (hcomma _) (hcomma _) heq
  obtain ⟨hy, rfl, rfl⟩ :=
    t.writeCmdOffset.eq_of_append hys t.stops (not_isDigit_of_newline hr) (List.cons.inj heq').2
  exact ⟨hx, hy, rfl, rfl, hr⟩

/-- A plain number that fits is stored as it is. -/
theorem Numeral.toNat_value (h : n.Plain) (hlt : decimal n.digits < 2 ^ 32) :
    n.value.toNat = decimal n.digits := by
  have hval : strtoul n.sign.negative n.digits = decimal n.digits := by
    rw [strtoul, if_neg (by omega), h.2]
    rfl
  rw [Numeral.value, hval]
  exact UInt32.toNat_ofNat_of_lt' hlt

/-- A text as it should be denotes the pair that `sscanf` stores. -/
theorem SeekText.Exact.denotes (h : t.Exact) :
    Denotes t.text t.seekto.writeCmd.toNat t.seekto.writeCmdOffset.toNat := by
  obtain ⟨hx, hy, hxlt, hylt, hr⟩ := h
  refine ⟨_, _, t.rest, ?_, ⟨t.writeCmd.ne_nil, t.writeCmd.allDigit⟩,
    ⟨t.writeCmdOffset.ne_nil, t.writeCmdOffset.allDigit⟩, hr, (Numeral.toNat_value hx hxlt).symm,
    (Numeral.toNat_value hy hylt).symm⟩
  rw [SeekText.text, hx.text, hy.text]

/-- The pair that `sscanf` stores is denoted only by a text as it should be. -/
theorem SeekText.exact_of_denotes
    (h : Denotes t.text t.seekto.writeCmd.toNat t.seekto.writeCmdOffset.toNat) : t.Exact := by
  obtain ⟨hx, hy, hxval, hyval, hr⟩ := SeekText.plain_of_denotes h
  exact ⟨hx, hy, hxval ▸ UInt32.toNat_lt _, hyval ▸ UInt32.toNat_lt _, hr⟩

end

/-! ## What a thread does with a request -/

section

variable {b : Build} {node : Bool} {pc pc' : Pc} {ev : Sys} {k : AesdSeekto} {s : Bytes}
  {c : Client} {evs : List Sys}

/-- A seek is to `k`. -/
def SeeksTo (k : AesdSeekto) : Sys → Prop
  | .ioctl k' _ => k' = k
  | _ => True

/-- Neither a seek nor something sent. -/
def Silent : Sys → Prop
  | .ioctl _ _ | .send _ _ => False
  | _ => True

namespace Pc

/-- With the request `k` at hand, up to the next `recv`. -/
def Requested (k : AesdSeekto) : Pc → Prop
  | .seekLock k' | .seekOpen k' | .ioctl k' => k' = k
  | .dataLock _ | .dataOpen _ | .write _ _ | .reclose | .reopen | .lseek => False
  | _ => True

/-- There is no seek and nothing to send up to the next `recv`. -/
def Quiet (b : Build) : Pc → Prop
  | .recv | .unlock _ | .freeBuffer | .closeSocket | .freeData | .markLock | .mark | .markUnlock
  | .exited => True
  | .seekLock _ => b = .file
  | _ => False

end Pc

theorem Client.Step.requested (h : Client.Step b node pc ev pc') (hpc : pc.Requested k)
    (hev : isRecv ev = false) : SeeksTo k ev ∧ pc'.Requested k := by
  cases h with
  | recvEnd | recv => cases hev
  | ioctl | ioctlFails => exact ⟨hpc, trivial⟩
  | read => exact ⟨trivial, Client.afterRead_elim (P := Pc.Requested k) _ trivial fun _ => trivial⟩
  | send =>
    exact ⟨trivial, Client.afterSendAll_elim (P := Pc.Requested k) _ _ (fun _ => trivial) trivial
      trivial⟩
  | @unlock after => cases after <;> exact ⟨trivial, trivial⟩
  | seekLock | seekOpen => exact ⟨trivial, hpc⟩
  | dataLock | dataOpen | write | reclose => exact hpc.elim
  | _ => exact ⟨trivial, trivial⟩

theorem Client.Step.quiet_of_quiet (h : Client.Step b node pc ev pc') (hpc : pc.Quiet b)
    (hev : isRecv ev = false) : Silent ev ∧ pc'.Quiet b := by
  cases h with
  | recvEnd | recv => cases hev
  | seekLock hb =>
    subst hb
    cases hpc
  | @unlock after => cases after <;> exact ⟨trivial, trivial⟩
  | write | read | send => exact hpc.elim
  | _ => first | exact hpc.elim | exact ⟨trivial, trivial⟩

/-- The branch for a chunk with the seek prefix. -/
theorem dispatch_seek (s : Bytes) : dispatch (seekPrefix ++ s) =
    match sscanfSeekto s with
    | none => .freeBuffer
    | some k => .seekLock k := by
  have hdrop : (seekPrefix ++ s).drop seekPrefix.length = s := List.drop_left
  cases hs : sscanfSeekto s with
  | none => simp only [dispatch, if_pos (List.prefix_append _ _), hdrop, hs]
  | some k => simp only [dispatch, if_pos (List.prefix_append _ _), hdrop, hs]

/-- A run that begins with a request goes on from its branch. -/
theorem run_of_request
    (hrun : (Client.lts b).run { pc := .recv, node := node }
      (.recv (some (seekPrefix ++ s)) :: evs) = some c) :
    fits (seekPrefix ++ s) ∧ ∃ node',
      (Client.lts b).run { pc := dispatch (seekPrefix ++ s), node := node' } evs = some c := by
  obtain ⟨⟨pc, node'⟩, hnext, hrest⟩ := Lts.run_cons_eq_some.mp hrun
  have hstep : Client.Step b node .recv (.recv (some (seekPrefix ++ s))) pc :=
    (Client.next_eq_some hnext).1
  cases hstep with
  | recv hne hfits => exact ⟨hfits, node', hrest⟩

/-- From a quiet place there is no seek and nothing is sent. -/
theorem silent_of_quiet (pc : Pc) (hpc : pc.Quiet b) (hevs : ∀ ev ∈ evs, isRecv ev = false)
    (hrun : (Client.lts b).run { pc := pc, node := node } evs = some c) :
    (∀ k ok, .ioctl k ok ∉ evs) ∧ ∀ bs ret, .send bs ret ∉ evs := by
  have hall := (Lts.run_region (I := fun c : Client => c.pc.Quiet b) (Q := Silent)
    (fun c ev c' hc hev h => (Client.next_eq_some h).1.quiet_of_quiet hc hev) hpc hevs hrun).1
  exact ⟨fun k ok hmem => hall _ hmem, fun bs ret hmem => hall _ hmem⟩

/-- With the request `k` at hand every seek is to `k`. -/
theorem seeksTo_of_requested (pc : Pc) (hpc : pc.Requested k) (hevs : ∀ ev ∈ evs, isRecv ev = false)
    (hrun : (Client.lts b).run { pc := pc, node := node } evs = some c) :
    ∀ k' ok, .ioctl k' ok ∈ evs → k' = k := by
  have hall := (Lts.run_region (I := fun c : Client => c.pc.Requested k) (Q := SeeksTo k)
    (fun c ev c' hc hev h => (Client.next_eq_some h).1.requested hc hev) hpc hevs hrun).1
  exact fun k' ok hmem => hall _ hmem

/-- A text that `sscanf` reads is sought for, when no call fails. -/
theorem run_seek (t : SeekText) (hfits : fits (seekPrefix ++ t.text)) :
    (Client.lts .charDevice).run { pc := .recv, node := false }
      [.recv (some (seekPrefix ++ t.text)), .lock .file true, .open true, .ioctl t.seekto true] =
      some { pc := .read .recv, node := false } := by
  have hne : seekPrefix ++ t.text ≠ [] := nofun
  have hdispatch : dispatch (seekPrefix ++ t.text) = .seekLock t.seekto := by
    rw [dispatch_seek, sscanfSeekto_text]
  have hrecv : (Client.lts .charDevice).next { pc := .recv, node := false }
      (.recv (some (seekPrefix ++ t.text))) = some { pc := .seekLock t.seekto, node := false } := by
    simp only [Client.lts, Client.nextPc, if_pos (And.intro hne hfits), hdispatch]
    rfl
  have hlock : (Client.lts .charDevice).next { pc := .seekLock t.seekto, node := false }
      (.lock .file true) = some { pc := .seekOpen t.seekto, node := false } := rfl
  have hopen : (Client.lts .charDevice).next { pc := .seekOpen t.seekto, node := false }
      (.open true) = some { pc := .ioctl t.seekto, node := false } := rfl
  have hioctl : (Client.lts .charDevice).next { pc := .ioctl t.seekto, node := false }
      (.ioctl t.seekto true) = some { pc := .read .recv, node := false } := by
    simp only [Client.lts, Client.nextPc, if_true]
    rfl
  rw [Lts.run_cons_eq_some]
  refine ⟨_, hrecv, Lts.run_cons_eq_some.mpr ⟨_, hlock, Lts.run_cons_eq_some.mpr ⟨_, hopen, ?_⟩⟩⟩
  exact Lts.run_cons_eq_some.mpr ⟨_, hioctl, rfl⟩

end

/-- A seek request with the text `s` is executed at the position that `s` denotes or not at all,
exactly if the device is not in use, or the request does not fit into the buffer, or whenever
`sscanf` reads two numbers from `s`, they are digits alone, fit into 32 bits, and the text or its
line ends behind them. -/
theorem seekRequest_exact_iff (b : Build) (s : Bytes) : SeeksExactly b s ↔
    (b = .charDevice → fits (seekPrefix ++ s) → ∀ t : SeekText, t.text = s → t.Exact) := by
  constructor
  · rintro h rfl hfits t rfl
    have hevs : ∀ ev ∈ [Sys.lock .file true, .open true, .ioctl t.seekto true],
        isRecv ev = false := by simp [isRecv]
    have hseek := (h false _ _ hevs (run_seek t hfits)).1 t.seekto true (by simp)
    exact SeekText.exact_of_denotes hseek
  · intro h node evs c hevs hrun
    obtain ⟨hfits, node', hrun⟩ := run_of_request hrun
    rw [dispatch_seek] at hrun
    cases hs : sscanfSeekto s with
    | none =>
      rw [hs] at hrun
      obtain ⟨hseek, hsend⟩ := silent_of_quiet .freeBuffer trivial hevs hrun
      exact ⟨fun k ok hmem => absurd hmem (hseek k ok), fun _ => ⟨hseek, hsend⟩⟩
    | some k =>
      rw [hs] at hrun
      cases b with
      | file =>
        obtain ⟨hseek, hsend⟩ := silent_of_quiet (.seekLock k) rfl hevs hrun
        exact ⟨fun k ok hmem => absurd hmem (hseek k ok), fun _ => ⟨hseek, hsend⟩⟩
      | charDevice =>
        obtain ⟨t, rfl, rfl⟩ := exists_seekText hs
        have hdenotes := (h rfl hfits t rfl).denotes
        refine ⟨fun k ok hmem => ?_, fun hnone => absurd ⟨_, _, hdenotes, ?_, ?_⟩ hnone⟩
        · rw [seeksTo_of_requested (.seekLock t.seekto) rfl hevs hrun k ok hmem]
          exact hdenotes
        · exact UInt32.toNat_lt _
        · exact UInt32.toNat_lt _

/-- The text `4294967296,0`, which asks for command `2 ^ 32`, seeks to command 0. -/
theorem seekRequest_not_exact :
    ¬ SeeksExactly .charDevice [52, 50, 57, 52, 57, 54, 55, 50, 57, 54, 44, 48] := by
  intro h
  have hrun : (Client.lts .charDevice).run { pc := .recv, node := false }
      [.recv (some (seekPrefix ++ [52, 50, 57, 52, 57, 54, 55, 50, 57, 54, 44, 48])),
        .lock .file true, .open true, .ioctl ⟨0, 0⟩ true] =
      some { pc := .read .recv, node := false } := by decide
  have hseek := (h false _ _ (by simp [isRecv]) hrun).1 ⟨0, 0⟩ true (by simp)
  obtain ⟨xs, ys, r, heq, hxs, -, -, hzero, -⟩ := hseek
  have hcomma : ∀ c ∈ (44 :: (ys ++ r)).head?, isDigit c = false := by
    intro c hc
    cases hc
    rfl
  have htake := (span_digits hxs.2 hcomma).1
  rw [← heq] at htake
  rw [← htake] at hzero
  exact absurd hzero (by decide)

end Aesd
