import Twemcache.Text.Decimal

/-!
# Numbers of a given length

`mc_strtoull_len` reads a number from `len` bytes that no NUL terminates.  Here it moves a pointer
over a memory, and the number is a word of 64 bits: `*out * 10 + *str` wraps round at the top of the
range, and the subtraction of `'0'` undoes it.

## Main definitions

* `Held` : the bytes at an address.
* `mcStrtoullLenAt` : the function over a memory and a word; a read from an unmapped address is a
  fault.
* `Padded` : digits between white space.

## Main results

* `mcStrtoullLen_eq_some_iff` : what the function accepts, on lists of bytes.
* `mcStrtoullLenAt_exact` : it accepts exactly the numbers up to `UINT64_MAX - 6`, and reads the
  given bytes only.
-/

namespace Twemcache

/-! ### The function over a memory -/

/-- A memory: the byte at each mapped address. -/
abbrev Bytes := ℕ → Option UInt8

/-- `mc_skip_space`: `*str` and `*len` afterwards. -/
def mcSkipSpace (mem : Bytes) (str : ℕ) : ℕ → Option (ℕ × ℕ)
  | 0 => some (str, 0)
  | len + 1 => do
    let b ← mem str
    if isSpace b then mcSkipSpace mem (str + 1) len else some (str, len + 1)

/-- How the digit loop ends. -/
inductive DigitScan where
  /-- It returns: the integer is considered out of range. -/
  | refused (out : UInt64)
  /-- It stops at a byte that is not a digit, or after the last one. -/
  | stopped (out : UInt64) (str len : ℕ)

/-- The digit loop of `mc_strtoull_len`.  A byte from 128 on is negative as a `char`, and no digit
either way. -/
def digitLoop (mem : Bytes) (out : UInt64) (str : ℕ) : ℕ → Option DigitScan
  | 0 => some (.stopped out str 0)
  | len + 1 => do
    let b ← mem str
    if 48 ≤ b ∧ b ≤ 57 then
      -- `UINT64_MAX / 10`
      if out ≥ 18446744073709551615 / 10 then some (.refused out)
      else digitLoop mem (out * 10 + b.toUInt64 - 48) (str + 1) len
    else some (.stopped out str (len + 1))

/-- `mc_strtoull_len`: what it returns, and `*out`. -/
def mcStrtoullLenAt (mem : Bytes) (str len : ℕ) : Option (Bool × UInt64) := do
  let (str, len) ← mcSkipSpace mem str len
  match ← digitLoop mem 0 str len with
  | .refused out => some (false, out)
  | .stopped out str len =>
    let (_, len) ← mcSkipSpace mem str len
    some (len == 0, out)

/-- The memory holds `bytes` at `str`. -/
def Held (mem : Bytes) (str : ℕ) (bytes : List UInt8) : Prop :=
  ∀ i b, bytes[i]? = some b → mem (str + i) = some b

section

variable {mem : Bytes} {str : ℕ} {b : UInt8} {bs : List UInt8}

theorem Held.head (h : Held mem str (b :: bs)) : mem str = some b := h 0 b rfl

theorem Held.tail (h : Held mem str (b :: bs)) : Held mem (str + 1) bs := by
  intro i c hc
  rw [Nat.add_assoc, Nat.add_comm 1]
  exact h (i + 1) c hc

/-- Skipping white space drops it. -/
theorem mcSkipSpace_held (h : Held mem str bs) : ∃ str', Held mem str' (bs.dropWhile isSpace) ∧
    mcSkipSpace mem str bs.length = some (str', (bs.dropWhile isSpace).length) := by
  induction bs generalizing str with
  | nil => exact ⟨str, h, rfl⟩
  | cons b bs ih =>
    cases hb : isSpace b with
    | false =>
      refine ⟨str, by rwa [List.dropWhile_cons_of_neg (by simp [hb])], ?_⟩
      rw [List.dropWhile_cons_of_neg (by simp [hb]), List.length_cons, mcSkipSpace, h.head]
      simp [hb]
    | true =>
      obtain ⟨str', hheld, hrun⟩ := ih h.tail
      rw [List.dropWhile_cons_of_pos hb, List.length_cons, mcSkipSpace, h.head]
      exact ⟨str', hheld, by simpa [hb] using hrun⟩

/-- The word after one digit more: below `UINT64_MAX / 10` the wrap of the sum is undone by the
subtraction. -/
theorem toNat_accumulate {out : UInt64} (hout : ¬ out ≥ 18446744073709551615 / 10)
    (hb : 48 ≤ b ∧ b ≤ 57) :
    (out * 10 + b.toUInt64 - 48).toNat = out.toNat * 10 + b.toNat - 48 := by
  have hlow : 48 ≤ b.toNat := hb.1
  have hhigh : b.toNat ≤ 57 := hb.2
  have hlt : out.toNat < 1844674407370955161 := Nat.lt_of_not_le hout
  have hten : (10 : UInt64).toNat = 10 := rfl
  have hzero : (48 : UInt64).toNat = 48 := rfl
  rw [UInt64.toNat_sub, UInt64.toNat_add, UInt64.toNat_mul, UInt8.toNat_toUInt64, hten, hzero]
  omega

/-- What the digit loop does is what `strtoullDigits` says. -/
theorem digitLoop_held (h : Held mem str bs) (out : UInt64) :
    (∃ out', strtoullDigits out.toNat bs = none ∧
      digitLoop mem out str bs.length = some (.refused out')) ∨
    ∃ out' str' rest, strtoullDigits out.toNat bs = some (out'.toNat, rest) ∧ Held mem str' rest ∧
      digitLoop mem out str bs.length = some (.stopped out' str' rest.length) := by
  induction bs generalizing str out with
  | nil => exact .inr ⟨out, str, [], rfl, h, rfl⟩
  | cons b bs ih =>
    rw [strtoullDigits, List.length_cons]
    by_cases hb : 48 ≤ b ∧ b ≤ 57
    · have hloop : digitLoop mem out str (bs.length + 1) = if out ≥ 18446744073709551615 /
          10 then some (.refused out)
          else digitLoop mem (out * 10 + b.toUInt64 - 48) (str + 1) bs.length := by
        rw [digitLoop, h.head, Option.bind_eq_bind, Option.bind_some, if_pos hb]
      by_cases hout : out ≥ 18446744073709551615 / 10
      · have hnat : out.toNat ≥ (2 ^ 64 - 1) / 10 := hout
        exact .inl ⟨out, by rw [if_pos hb, if_pos hnat], hloop.trans (if_pos hout)⟩
      · have hnat : ¬ out.toNat ≥ (2 ^ 64 - 1) / 10 := hout
        have hstep := ih h.tail (out * 10 + b.toUInt64 - 48)
        rw [toNat_accumulate hout hb, ← hloop.trans (if_neg hout)] at hstep
        rwa [if_pos hb, if_neg hnat]
    · exact .inr ⟨out, str, b :: bs, if_neg hb, h, by simp [digitLoop, h.head, hb]⟩

/-- **Over a memory the function is the one on lists**, and its reads stay within the bytes. -/
theorem mcStrtoullLenAt_held (h : Held mem str bs) :
    ∃ ok out, mcStrtoullLenAt mem str bs.length = some (ok, out) ∧
    mcStrtoullLen bs = if ok then some out.toNat else none := by
  obtain ⟨str₁, h₁, hskip₁⟩ := mcSkipSpace_held h
  rcases digitLoop_held h₁ 0 with ⟨out, hdigits, hloop⟩ | ⟨out, str₂, rest, hdigits, h₂, hloop⟩
  · refine ⟨false, out, ?_, ?_⟩
    · simp [mcStrtoullLenAt, hskip₁, hloop]
    · rw [mcStrtoullLen, show strtoullDigits 0 _ = none from hdigits]
      rfl
  · obtain ⟨str₃, -, hskip₃⟩ := mcSkipSpace_held h₂
    refine ⟨(rest.dropWhile isSpace).length == 0, out, ?_, ?_⟩
    · simp [mcStrtoullLenAt, hskip₁, hloop, hskip₃]
    · rw [mcStrtoullLen, show strtoullDigits 0 _ = _ from hdigits]
      simp

end

/-! ### What is accepted -/

/-- Digits between white space. -/
def Padded (bytes digits : List UInt8) : Prop :=
  ∃ before after, bytes = before ++ digits ++ after ∧ (∀ b ∈ before, isSpace b = true) ∧
    (∀ b ∈ digits, isDigit b = true) ∧ ∀ b ∈ after, isSpace b = true

/-- Digits do not make a number smaller. -/
theorem le_foldl_digits (out : ℕ) (digits : List UInt8) :
    out ≤ digits.foldl (fun n b => n * 10 + (b.toNat - 48)) out := by
  induction digits generalizing out with
  | nil => exact Nat.le_refl out
  | cons b digits ih => exact Nat.le_trans (by omega) (ih (out * 10 + (b.toNat - 48)))

/-- The digit loop with the digits it sees. -/
theorem strtoullDigits_eq {out : ℕ} (hout : out ≤ strtoullMax) (bs : List UInt8) :
    strtoullDigits out bs = if (bs.takeWhile isDigit).foldl (fun n b => n * 10 + (b.toNat - 48))
        out ≤ strtoullMax then
      some ((bs.takeWhile isDigit).foldl (fun n b => n * 10 + (b.toNat - 48)) out,
          bs.dropWhile isDigit) else none := by
  induction bs generalizing out with
  | nil => simp [strtoullDigits, hout]
  | cons b bs ih =>
    rw [strtoullDigits]
    by_cases hb : 48 ≤ b ∧ b ≤ 57
    · have hdigit : isDigit b = true := by simp [isDigit, hb]
      have hlow : 48 ≤ b.toNat := hb.1
      have hhigh : b.toNat ≤ 57 := hb.2
      have hsub : out * 10 + b.toNat - 48 = out * 10 + (b.toNat - 48) := by omega
      rw [if_pos hb, List.takeWhile_cons_of_pos hdigit, List.dropWhile_cons_of_pos hdigit,
        List.foldl_cons, hsub]
      split_ifs with hlarge hfit hfit
      · -- a number only grows with further digits
        have hgrow := le_foldl_digits (out * 10 + (b.toNat - 48)) (bs.takeWhile isDigit)
        rw [strtoullMax] at hfit
        omega
      · rfl
      · rw [ih, if_pos hfit]
        rw [strtoullMax]
        omega
      · rw [ih, if_neg hfit]
        rw [strtoullMax]
        omega
    · have hdigit : ¬ isDigit b = true := by simpa [isDigit] using hb
      rw [if_neg hb, List.takeWhile_cons_of_neg hdigit, List.dropWhile_cons_of_neg hdigit,
        List.foldl_nil, if_pos hout]

section

variable {bytes digits : List UInt8}

theorem isDigit_eq_false_of_isSpace {b : UInt8} (h : isSpace b = true) : isDigit b = false := by
  cases hdigit : isDigit b with
  | false => rfl
  | true => simp [isSpace_eq_false_of_isDigit hdigit] at h

/-- Padded digits are found by skipping white space. -/
theorem Padded.scan (h : Padded bytes digits) :
    digits = (bytes.dropWhile isSpace).takeWhile isDigit ∧
    ((bytes.dropWhile isSpace).dropWhile isDigit).dropWhile isSpace = [] := by
  obtain ⟨before, after, rfl, hbefore, hdigits, hafter⟩ := h
  rw [List.append_assoc, List.dropWhile_append_of_pos hbefore]
  have hdrop : after.dropWhile isSpace = [] := List.dropWhile_eq_nil_iff.2 hafter
  cases digits with
  | nil => simp [hdrop]
  | cons b digits =>
    have hspace : isSpace b = false := isSpace_eq_false_of_isDigit (hdigits b List.mem_cons_self)
    have hskip : ((b :: digits) ++ after).dropWhile isSpace = (b :: digits) ++ after := by
      rw [List.cons_append, List.dropWhile_cons_of_neg (by simp [hspace])]
    rw [hskip, List.takeWhile_append_of_pos hdigits, List.dropWhile_append_of_pos hdigits]
    cases after with
    | nil => simp
    | cons c after =>
      have hc : isDigit c = false := isDigit_eq_false_of_isSpace (hafter c List.mem_cons_self)
      rw [List.takeWhile_cons_of_neg (by simp [hc]), List.dropWhile_cons_of_neg (by simp [hc]),
        List.append_nil]
      exact ⟨rfl, hdrop⟩

theorem padded_of_scan (h : ((bytes.dropWhile isSpace).dropWhile isDigit).dropWhile isSpace = []) :
    Padded bytes ((bytes.dropWhile isSpace).takeWhile isDigit) := by
  refine ⟨bytes.takeWhile isSpace, (bytes.dropWhile isSpace).dropWhile isDigit, ?_, ?_, ?_, ?_⟩
  · rw [List.append_assoc, List.takeWhile_append_dropWhile, List.takeWhile_append_dropWhile]
  · exact fun b hb => List.mem_takeWhile_imp hb
  · exact fun b hb => List.mem_takeWhile_imp hb
  · exact List.dropWhile_eq_nil_iff.1 h

/-- **What `mc_strtoull_len` accepts**: digits between white space that denote a number up to
`UINT64_MAX - 6`. -/
theorem mcStrtoullLen_eq_some_iff {n : ℕ} :
    mcStrtoullLen bytes = some n ↔ ∃ digits, Padded bytes digits ∧ numeral digits ≤ strtoullMax ∧
        numeral digits = n := by
  have hscan := strtoullDigits_eq (Nat.zero_le strtoullMax) (bytes.dropWhile isSpace)
  rw [← numeral] at hscan
  rw [mcStrtoullLen, hscan]
  constructor
  · intro h
    by_cases hfit : numeral ((bytes.dropWhile isSpace).takeWhile isDigit) ≤ strtoullMax
    · simp only [if_pos hfit] at h
      split_ifs at h with hrest
      exact ⟨_, padded_of_scan hrest, hfit, Option.some.inj h⟩
    · simp only [if_neg hfit] at h
      cases h
  · rintro ⟨digits, hpadded, hfit, rfl⟩
    obtain ⟨rfl, hrest⟩ := hpadded.scan
    simp only [if_pos hfit, if_pos hrest]

end

/-- **`mc_strtoull_len` is exact.**  Whatever lies around the given bytes, mapped or not, it reads
none of it; it returns true for digits between white space that denote a number up to `UINT64_MAX -
6`, and then that number is stored. -/
theorem mcStrtoullLenAt_exact {mem : Bytes} {str : ℕ} {bytes : List UInt8}
    (h : Held mem str bytes) :
    ∃ ok out, mcStrtoullLenAt mem str bytes.length = some (ok, out) ∧
      (ok = true ↔ ∃ digits, Padded bytes digits ∧ numeral digits ≤ 2 ^ 64 - 7) ∧
      ∀ digits, Padded bytes digits → numeral digits ≤ 2 ^ 64 - 7 → out.toNat = numeral digits := by
  obtain ⟨ok, out, hrun, hlist⟩ := mcStrtoullLenAt_held h
  refine ⟨ok, out, hrun, ?_, ?_⟩
  · constructor
    · rintro rfl
      obtain ⟨digits, hpadded, hfit, -⟩ := mcStrtoullLen_eq_some_iff.1 hlist
      exact ⟨digits, hpadded, hfit⟩
    · rintro ⟨digits, hpadded, hfit⟩
      rw [mcStrtoullLen_eq_some_iff.2 ⟨digits, hpadded, hfit, rfl⟩] at hlist
      cases ok with
      | true => rfl
      | false => cases hlist
  · intro digits hpadded hfit
    rw [mcStrtoullLen_eq_some_iff.2 ⟨digits, hpadded, hfit, rfl⟩] at hlist
    cases ok with
    | true => exact (Option.some.inj hlist).symm
    | false => cases hlist

/-- A space and `UINT64_MAX - 6` at the end of the mapped memory; the last sum wraps round. -/
theorem mcStrtoullLenAt_exact_max :
    ∃ ok out, mcStrtoullLenAt (fun a => (32 :: decimal strtoullMax)[a]?) 0 21 = some (ok, out) ∧
      (ok = true ↔ ∃ digits, Padded (32 :: decimal strtoullMax) digits ∧
        numeral digits ≤ 2 ^ 64 - 7) ∧
      ∀ digits, Padded (32 :: decimal strtoullMax) digits → numeral digits ≤ 2 ^ 64 - 7 →
        out.toNat = numeral digits := by
  have hlength : (32 :: decimal strtoullMax).length = 21 := by decide +kernel
  rw [← hlength]
  exact mcStrtoullLenAt_exact fun i b hb => by rwa [Nat.zero_add]

example :
    mcStrtoullLenAt (fun a => (decimal strtoullMax)[a]?) 0 20 =
      some (true, 18446744073709551609) := by
  decide +kernel

end Twemcache
