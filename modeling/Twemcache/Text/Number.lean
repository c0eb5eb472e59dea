import Twemcache.Store.Items
import Mathlib.Data.List.TakeWhile

/-!
# Numbers in requests

The numeric fields of a request are read by `mc_strtoul`, `mc_strtol` and `mc_strtoull`
(`mc_util.c`), which are built on the functions of the C library.  A C string is the list of its
bytes before the terminating NUL; `long` has 64 bits.

## Main definitions

* `scanNumber` : what `strtol` and its relatives recognise, as an integer.
* `mcStrtoul`, `mcStrtol`, `mcStrtoull` : the functions of these names.
* `numeral` : the number that a string of decimal digits denotes.
-/

namespace Twemcache

/-- `isdigit`. -/
def isDigit (b : UInt8) : Bool := 48 ≤ b && b ≤ 57

/-- The number that decimal digits denote. -/
def numeral (digits : List UInt8) : ℕ := digits.foldl (fun n b => n * 10 + (b.toNat - 48)) 0

/-- The optional sign of a number: whether it is a minus, and what follows. -/
def scanSign : List UInt8 → Bool × List UInt8
  | [] => (false, [])
  | b :: bs => if b = 45 then (true, bs) else if b = 43 then (false, bs) else (false, b :: bs)

/-- The subject sequence of `strtol` in base 10: white space, a sign and digits.  The answer is the
sign, the magnitude and the string that is left, `none` if there are no digits. -/
def scanNumber (str : List UInt8) : Option (Bool × ℕ × List UInt8) :=
  let s := scanSign (str.dropWhile isSpace)
  if s.2.takeWhile isDigit = [] then none
  else some (s.1, numeral (s.2.takeWhile isDigit), s.2.dropWhile isDigit)

/-- `strtoul` and `strtoull`: the number and the string at `endptr`, `none` for `ERANGE`. -/
def strtoul (str : List UInt8) : Option (ℕ × List UInt8) :=
  match scanNumber str with
  | none => some (0, str)
  | some (neg, n, rest) =>
    if n ≥ 2 ^ 64 then none else some (if neg then (2 ^ 64 - n) % 2 ^ 64 else n, rest)

/-- `strtol`: the number and the string at `endptr`, `none` for `ERANGE`. -/
def strtol (str : List UInt8) : Option (ℤ × List UInt8) :=
  match scanNumber str with
  | none => some (0, str)
  | some (true, n, rest) => if n > 2 ^ 63 then none else some (-n, rest)
  | some (false, n, rest) => if n ≥ 2 ^ 63 then none else some (n, rest)

/-- The check of the character at `endptr`: white space, or the end of a string that is not
empty. -/
def endsField (str rest : List UInt8) : Bool :=
  match rest with
  | [] => str ≠ []
  | b :: _ => isSpace b

/-- The check for negative signs in numbers that are negative as signed ones. -/
def wrapsSign (str : List UInt8) (n : ℕ) : Bool := n ≥ 2 ^ 63 && str.contains 45

/-- `mc_strtoull`. -/
def mcStrtoull (str : List UInt8) : Option ℕ :=
  match strtoul str with
  | none => none
  | some (ull, rest) => if endsField str rest && !wrapsSign str ull then some ull else none

/-- `mc_strtoul`; the assignment keeps the low 32 bits. -/
def mcStrtoul (str : List UInt8) : Option ℕ :=
  match strtoul str with
  | none => none
  | some (l, rest) => if endsField str rest && !wrapsSign str l then some (l % 2 ^ 32) else none

/-- `mc_strtol`; the assignment keeps the low 32 bits. -/
def mcStrtol (str : List UInt8) : Option ℤ :=
  match strtol str with
  | none => none
  | some (l, rest) => if endsField str rest then some (l.bmod (2 ^ 32)) else none

/-! ### Fields that are numerals -/

/-- A non-empty string of digits. -/
def IsNumeral (w : List UInt8) : Prop := w ≠ [] ∧ ∀ b ∈ w, isDigit b = true

instance (w : List UInt8) : Decidable (IsNumeral w) := inferInstanceAs (Decidable (_ ∧ _))

/-- What follows a field: nothing, or a space. -/
def Separated (rest : List UInt8) : Prop := ∀ b ∈ rest.head?, b = 32

section

variable {w rest : List UInt8}

theorem isSpace_eq_false_of_isDigit {b : UInt8} (h : isDigit b = true) : isSpace b = false := by
  simp only [isDigit, isSpace, Bool.and_eq_true, decide_eq_true_eq, UInt8.le_iff_toNat_le,
    Bool.or_eq_false_iff,
    Bool.and_eq_false_iff, decide_eq_false_iff_not, beq_eq_false_iff_ne, ne_eq, ← UInt8.toNat_inj]
      at h ⊢
  have h9 : (9 : UInt8).toNat = 9 := rfl
  have h13 : (13 : UInt8).toNat = 13 := rfl
  have h32 : (32 : UInt8).toNat = 32 := rfl
  have h48 : (48 : UInt8).toNat = 48 := rfl
  omega

theorem Separated.isDigit (h : Separated rest) : ∀ b ∈ rest.head?, isDigit b = false := by
  intro b hb
  rw [h b hb]
  rfl

theorem takeWhile_isDigit (hw : ∀ b ∈ w, isDigit b = true) (hr : Separated rest) :
    (w ++ rest).takeWhile isDigit = w ∧ (w ++ rest).dropWhile isDigit = rest := by
  rw [List.takeWhile_append_of_pos hw, List.dropWhile_append_of_pos hw]
  cases rest with
  | nil => simp
  | cons b bs => simp [hr.isDigit b rfl]

theorem scanSign_digits (hw : IsNumeral w) (rest : List UInt8) :
    scanSign ((w ++ rest).dropWhile isSpace) = (false, w ++ rest) := by
  obtain ⟨hne, hdigits⟩ := hw
  cases w with
  | nil => exact absurd rfl hne
  | cons b bs =>
    have hb := hdigits b List.mem_cons_self
    have hsign : b ≠ 45 ∧ b ≠ 43 := by
      constructor <;> rintro rfl <;> cases hb
    rw [List.cons_append, List.dropWhile_cons_of_neg (by simp [isSpace_eq_false_of_isDigit hb])]
    simp [scanSign, hsign]

theorem scanNumber_numeral (hw : IsNumeral w) (hr : Separated rest) :
    scanNumber (w ++ rest) = some (false, numeral w, rest) := by
  obtain ⟨htake, hdrop⟩ := takeWhile_isDigit hw.2 hr
  simp only [scanNumber, scanSign_digits hw, htake, hdrop, if_neg hw.1]

theorem scanNumber_minus (hw : IsNumeral w) (hr : Separated rest) :
    scanNumber (45 :: w ++ rest) = some (true, numeral w, rest) := by
  obtain ⟨htake, hdrop⟩ := takeWhile_isDigit hw.2 hr
  have hsign : scanSign ((45 :: w ++ rest).dropWhile isSpace) = (true, w ++ rest) := rfl
  simp only [scanNumber, hsign, htake, hdrop, if_neg hw.1]

theorem Separated.endsField (hr : Separated rest) (str : List UInt8) (hstr : str ≠ []) :
    endsField str rest = true := by
  cases rest with
  | nil => simpa [Twemcache.endsField] using hstr
  | cons b bs => rw [hr b rfl]; rfl

/-- Unsigned numbers below `2^64`; a minus sign further on matters for large ones only. -/
theorem mcStrtoull_numeral (hw : IsNumeral w) (hr : Separated rest) (hlt : numeral w < 2 ^ 64)
    (hminus : 45 ∉ rest) : mcStrtoull (w ++ rest) = some (numeral w) := by
  have hsign : (w ++ rest).contains 45 = false := by
    rw [List.contains_eq_mem, decide_eq_false_iff_not, List.mem_append, not_or]
    exact ⟨fun h => absurd (hw.2 _ h) (by decide), hminus⟩
  have hend := hr.endsField (w ++ rest) (by simp [hw.1])
  simp only [mcStrtoull, strtoul, scanNumber_numeral hw hr, if_neg (not_le.2 hlt)]
  simp only [Bool.false_eq_true, if_false, hend, wrapsSign, hsign, Bool.and_false, Bool.not_false,
    Bool.and_self, if_true]

/-- Unsigned numbers below `2^32`. -/
theorem mcStrtoul_numeral (hw : IsNumeral w) (hr : Separated rest) (hlt : numeral w < 2 ^ 32) :
    mcStrtoul (w ++ rest) = some (numeral w) := by
  have hend := hr.endsField (w ++ rest) (by simp [hw.1])
  have hsmall : decide (numeral w ≥ 2 ^ 63) = false := by
    rw [decide_eq_false_iff_not]
    omega
  simp only [mcStrtoul, strtoul, scanNumber_numeral hw hr,
    if_neg (show ¬ numeral w ≥ 2 ^ 64 by omega)]
  simp only [Bool.false_eq_true, if_false, hend, wrapsSign, hsmall, Bool.false_and, Bool.not_false,
    Bool.and_self, if_true, Nat.mod_eq_of_lt hlt]

/-- Signed numbers: an optional minus sign and digits. -/
def signedNumeral (neg : Bool) (w : List UInt8) : ℤ := if neg then -(numeral w : ℤ) else numeral w

/-- Signed numbers of 32 bits. -/
theorem mcStrtol_numeral {neg : Bool} (hw : IsNumeral w) (hr : Separated rest)
    (hlow : -2 ^ 31 ≤ signedNumeral neg w) (hhigh : signedNumeral neg w < 2 ^ 31) :
    mcStrtol ((if neg then 45 :: w else w) ++ rest) = some (signedNumeral neg w) := by
  have hbmod : (signedNumeral neg w).bmod (2 ^ 32) = signedNumeral neg w :=
    Int.bmod_eq_of_le (by omega) (by omega)
  cases neg with
  | false =>
    simp only [signedNumeral, Bool.false_eq_true, if_false] at hlow hhigh hbmod ⊢
    have hend := hr.endsField (w ++ rest) (by simp [hw.1])
    simp only [mcStrtol, strtol, scanNumber_numeral hw hr,
      if_neg (show ¬ numeral w ≥ 2 ^ 63 by omega), hend, if_true, hbmod]
  | true =>
    simp only [signedNumeral, if_true] at hlow hhigh hbmod ⊢
    have hend := hr.endsField (45 :: w ++ rest) (by simp)
    simp only [mcStrtol, strtol, scanNumber_minus hw hr,
      if_neg (show ¬ numeral w > 2 ^ 63 by omega), hend, if_true, hbmod]

end

end Twemcache
