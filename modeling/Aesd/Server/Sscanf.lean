import Mathlib.Data.List.TakeWhile
import Aesd.Driver.Fileops

/-!
# `sscanf(command_str, "%u,%u", …)`

The conversion as glibc makes it on a 64-bit target: `%u` skips white space, takes an optional sign
and decimal digits, converts them with `strtoul` (64 bits, saturating; a minus sign negates modulo
`2 ^ 64`) and stores the low 32 bits; the `,` must follow at once.
-/

namespace Aesd

/-- The bytes of a C string: up to the first `'\0'`. -/
def cString (s : Bytes) : Bytes := s.takeWhile (· != 0)

/-- `isspace`. -/
def isSpace (c : UInt8) : Bool := c == 32 || (9 ≤ c && c ≤ 13)

/-- `isdigit`. -/
def isDigit (c : UInt8) : Bool := 48 ≤ c && c ≤ 57

/-- The number that a list of decimal digits denotes. -/
def decimal (ds : Bytes) : Nat := ds.foldl (fun n d => 10 * n + (d.toNat - 48)) 0

/-- `strtoul` of a sign and decimal digits: `ULONG_MAX` if the digits denote more than that. -/
def strtoul (negative : Bool) (ds : Bytes) : Nat :=
  if 2 ^ 64 ≤ decimal ds then 2 ^ 64 - 1
  else if negative then (2 ^ 64 - decimal ds) % 2 ^ 64
  else decimal ds

/-- The optional sign in front of a number: is it a minus, and what follows. -/
def scanSign : Bytes → Bool × Bytes
  | 43 :: s => (false, s)
  | 45 :: s => (true, s)
  | s => (false, s)

/-- A conversion `%u`: the stored number and the rest of the input. -/
def scanUnsigned (s : Bytes) : Option (UInt32 × Bytes) :=
  let (negative, s) := scanSign (s.dropWhile isSpace)
  let digits := s.takeWhile isDigit
  if digits = [] then none
  else some (UInt32.ofNat (strtoul negative digits), s.dropWhile isDigit)

/-- `sscanf(s, "%u,%u", &seekto.write_cmd, &seekto.write_cmd_offset)`: the two numbers, if it
returns 2. -/
def sscanfSeekto (s : Bytes) : Option AesdSeekto :=
  match scanUnsigned (cString s) with
  | some (writeCmd, 44 :: s) => (scanUnsigned s).map fun y => ⟨writeCmd, y.1⟩
  | _ => none

/-! ## What `%u` reads -/

/-- The optional sign. -/
inductive Sign where
  | none
  | plus
  | minus
  deriving DecidableEq, Repr

namespace Sign

def text : Sign → Bytes
  | .none => []
  | .plus => [43]
  | .minus => [45]

def negative : Sign → Bool
  | .minus => true
  | _ => false

end Sign

/-- White space, an optional sign and decimal digits. -/
structure Numeral where
  space : Bytes
  sign : Sign
  digits : Bytes
  allSpace : ∀ c ∈ space, isSpace c = true
  ne_nil : digits ≠ []
  allDigit : ∀ c ∈ digits, isDigit c = true

namespace Numeral

def text (n : Numeral) : Bytes := n.space ++ (n.sign.text ++ n.digits)

/-- What `%u` stores. -/
def value (n : Numeral) : UInt32 := UInt32.ofNat (strtoul n.sign.negative n.digits)

/-- Digits alone. -/
def Plain (n : Numeral) : Prop := n.space = [] ∧ n.sign = .none

end Numeral

variable {s xs ys r : Bytes} {k : UInt32}

theorem isSpace_of_isDigit {c : UInt8} (h : isDigit c = true) : isSpace c = false := by
  simp only [isDigit, Bool.and_eq_true, decide_eq_true_eq, UInt8.le_iff_toNat_le] at h
  simp only [isSpace, Bool.or_eq_false_iff, Bool.and_eq_false_iff, decide_eq_false_iff_not,
    beq_eq_false_iff_ne, ne_eq, UInt8.le_iff_toNat_le, ← UInt8.toNat_inj]
  have h1 : (48 : UInt8).toNat = 48 := rfl
  have h2 : (13 : UInt8).toNat = 13 := rfl
  have h3 : (32 : UInt8).toNat = 32 := rfl
  omega

/-- A digit is not a sign. -/
theorem scanSign_of_isDigit {c : UInt8} (h : isDigit c = true) (s : Bytes) :
    scanSign (c :: s) = (false, c :: s) := by
  unfold scanSign
  split
  · rename_i heq
    cases heq
    cases h
  · rename_i heq
    cases heq
    cases h
  · rfl

theorem scanSign_inv (s : Bytes) :
    ∃ g : Sign, s = g.text ++ (scanSign s).2 ∧ (scanSign s).1 = g.negative := by
  unfold scanSign
  split
  · exact ⟨.plus, rfl, rfl⟩
  · exact ⟨.minus, rfl, rfl⟩
  · exact ⟨.none, rfl, rfl⟩

/-- The white space and the sign of a numeral are skipped. -/
theorem scanSign_text (n : Numeral) (r : Bytes) :
    scanSign ((n.text ++ r).dropWhile isSpace) = (n.sign.negative, n.digits ++ r) := by
  obtain ⟨d, ds, hds⟩ := List.exists_cons_of_ne_nil n.ne_nil
  have hd : isDigit d = true := n.allDigit d (by simp [hds])
  rw [Numeral.text, List.append_assoc, List.append_assoc, List.dropWhile_append_of_pos n.allSpace]
  cases n.sign with
  | none =>
    rw [Sign.text, List.nil_append, hds, List.cons_append,
      List.dropWhile_cons_of_neg (by simp [isSpace_of_isDigit hd]), scanSign_of_isDigit hd]
    rfl
  | plus =>
    rw [Sign.text, List.singleton_append, List.dropWhile_cons_of_neg (by decide)]
    rfl
  | minus =>
    rw [Sign.text, List.singleton_append, List.dropWhile_cons_of_neg (by decide)]
    rfl

/-- The digits in front of something else. -/
theorem span_digits (hxs : ∀ c ∈ xs, isDigit c = true) (hr : ∀ c ∈ r.head?, isDigit c = false) :
    (xs ++ r).takeWhile isDigit = xs ∧ (xs ++ r).dropWhile isDigit = r := by
  rw [List.takeWhile_append_of_pos hxs, List.dropWhile_append_of_pos hxs]
  cases r with
  | nil => exact ⟨List.append_nil xs, rfl⟩
  | cons c r =>
    have hc : ¬ isDigit c = true := by simp [hr c rfl]
    rw [List.takeWhile_cons_of_neg hc, List.dropWhile_cons_of_neg hc]
    exact ⟨List.append_nil xs, rfl⟩

/-- A `%u` conversion of a numeral in front of something else. -/
theorem scanUnsigned_text (n : Numeral) (hr : ∀ c ∈ r.head?, isDigit c = false) :
    scanUnsigned (n.text ++ r) = some (n.value, r) := by
  obtain ⟨htake, hdrop⟩ := span_digits n.allDigit hr
  rw [scanUnsigned, scanSign_text]
  simp only [htake, hdrop, if_neg n.ne_nil]
  rfl

/-- What a `%u` conversion accepts is a numeral, and no digit follows. -/
theorem exists_numeral (h : scanUnsigned s = some (k, r)) :
    ∃ n : Numeral, s = n.text ++ r ∧ k = n.value ∧ ∀ c ∈ r.head?, isDigit c = false := by
  obtain ⟨g, hg, hneg⟩ := scanSign_inv (s.dropWhile isSpace)
  simp only [scanUnsigned] at h
  split at h
  · cases h
  · rename_i hne
    obtain ⟨hk, hr⟩ := Prod.mk.inj (Option.some.inj h)
    refine ⟨⟨s.takeWhile isSpace, g, _, fun c hc => List.mem_takeWhile_imp hc, hne,
      fun c hc => List.mem_takeWhile_imp hc⟩, ?_, ?_, ?_⟩
    · rw [← hr, Numeral.text, List.append_assoc, List.append_assoc, List.takeWhile_append_dropWhile,
        ← hg, List.takeWhile_append_dropWhile]
    · rw [← hk, Numeral.value, hneg]
    · intro c hc
      subst hr
      have hnot := List.head?_dropWhile_not isDigit (scanSign (s.dropWhile isSpace)).2
      rw [Option.mem_def.mp hc] at hnot
      simpa using hnot

/-! ## What the format reads -/

/-- Two numerals with a comma between them, in front of something that is not a digit. -/
structure SeekText where
  writeCmd : Numeral
  writeCmdOffset : Numeral
  rest : Bytes
  stops : ∀ c ∈ rest.head?, isDigit c = false

namespace SeekText

def text (t : SeekText) : Bytes := t.writeCmd.text ++ 44 :: (t.writeCmdOffset.text ++ t.rest)

/-- What `sscanf` stores. -/
def seekto (t : SeekText) : AesdSeekto := ⟨t.writeCmd.value, t.writeCmdOffset.value⟩

end SeekText

theorem ne_zero_of_isDigit {c : UInt8} (h : isDigit c = true) : c ≠ 0 := by
  rintro rfl
  cases h

/-- A numeral has no `'\0'`. -/
theorem Numeral.ne_zero (n : Numeral) : ∀ c ∈ n.text, c ≠ 0 := by
  intro c hc
  rw [Numeral.text, List.mem_append, List.mem_append] at hc
  rcases hc with hc | hc | hc
  · rintro rfl
    cases n.allSpace 0 hc
  · rintro rfl
    cases hg : n.sign with
    | _ =>
      rw [hg] at hc
      revert hc
      decide
  · exact ne_zero_of_isDigit (n.allDigit c hc)

theorem cString_append (h : ∀ c ∈ xs, c ≠ 0) : cString (xs ++ r) = xs ++ cString r := by
  rw [cString, List.takeWhile_append_of_pos fun c hc => by simpa using h c hc]
  rfl

/-- Behind a C string there is nothing, or a `'\0'`. -/
theorem exists_cString_append (s : Bytes) : ∃ z, s = cString s ++ z ∧ ∀ c ∈ z.head?, c = 0 := by
  refine ⟨s.dropWhile (· != 0), List.takeWhile_append_dropWhile.symm, fun c hc => ?_⟩
  have hnot := List.head?_dropWhile_not (· != 0) s
  rw [Option.mem_def.mp hc] at hnot
  simpa using hnot

theorem stops_cString (hr : ∀ c ∈ r.head?, isDigit c = false) :
    ∀ c ∈ (cString r).head?, isDigit c = false := by
  intro c hc
  cases r with
  | nil => cases hc
  | cons d r =>
    by_cases hd : d = 0
    · simp [cString, hd] at hc
    · have hcd : d = c := by simpa [cString, hd] using hc
      exact hr c (by simp [hcd])

/-- `sscanf` returns 2 on these texts. -/
theorem sscanfSeekto_text (t : SeekText) : sscanfSeekto t.text = some t.seekto := by
  have hstr : cString t.text =
      t.writeCmd.text ++ 44 :: (t.writeCmdOffset.text ++ cString t.rest) := by
    have hcons : ∀ z : Bytes, cString (44 :: z) = 44 :: cString z := fun z => rfl
    rw [SeekText.text, cString_append t.writeCmd.ne_zero, hcons,
      cString_append t.writeCmdOffset.ne_zero]
  rw [sscanfSeekto, hstr, scanUnsigned_text _ (by simp [isDigit])]
  simp only [scanUnsigned_text _ (stops_cString t.stops), Option.map_some]
  rfl

/-- `sscanf` returns 2 on no other texts. -/
theorem exists_seekText {seekto : AesdSeekto} (h : sscanfSeekto s = some seekto) :
    ∃ t : SeekText, s = t.text ∧ seekto = t.seekto := by
  unfold sscanfSeekto at h
  split at h
  · rename_i writeCmd s' hfirst
    obtain ⟨⟨writeCmdOffset, r⟩, hsecond, rfl⟩ := Option.map_eq_some_iff.mp h
    obtain ⟨n, hn, rfl, -⟩ := exists_numeral hfirst
    obtain ⟨m, rfl, rfl, hr⟩ := exists_numeral hsecond
    obtain ⟨z, hz, hz0⟩ := exists_cString_append s
    have hstops : ∀ c ∈ (r ++ z).head?, isDigit c = false := by
      intro c hc
      cases r with
      | nil => exact hz0 c hc ▸ rfl
      | cons d r => exact hr c hc
    refine ⟨⟨n, m, r ++ z, hstops⟩, ?_, rfl⟩
    rw [hz, hn]
    simp [SeekText.text]
  · cases h

/-! ## Plain decimal numbers -/

/-- Two plain 32-bit numbers with a comma between them, before something that is not a digit. -/
theorem sscanfSeekto_digits (hx : xs ≠ []) (hy : ys ≠ []) (hxd : ∀ c ∈ xs, isDigit c = true)
    (hyd : ∀ c ∈ ys, isDigit c = true) (hr : ∀ c ∈ r.head?, isDigit c = false)
    (hxlt : decimal xs < 2 ^ 32) (hylt : decimal ys < 2 ^ 32) :
    sscanfSeekto (xs ++ 44 :: (ys ++ r)) =
      some ⟨UInt32.ofNat (decimal xs), UInt32.ofNat (decimal ys)⟩ := by
  have hval : ∀ zs, decimal zs < 2 ^ 32 → strtoul false zs = decimal zs := by
    intro zs hlt
    rw [strtoul, if_neg (by omega)]
    rfl
  refine (sscanfSeekto_text ⟨⟨[], .none, xs, nofun, hx, hxd⟩, ⟨[], .none, ys, nofun, hy, hyd⟩, r,
    hr⟩).trans ?_
  simp only [SeekText.seekto, Numeral.value, Sign.negative, hval _ hxlt, hval _ hylt]

end Aesd
