import Twemcache.Text.Number

/-!
# Which strings are read as numbers

`mc_strtoul` and `mc_strtol` are meant to accept a string that begins with a number of their type,
followed by white space or nothing.  They look at the character where the library function stopped
and at the sign of the 64-bit result, and keep the low 32 bits of it.  So there are strings that
they accept and should not: white space without a number, numbers that do not fit into 32 bits, and
a few numbers with a minus sign. `numbers_exact` says that there are no others.

## Main definitions

* `Begins` : the string begins with a number.
* `Denotes` : and the number is followed by white space or nothing.
-/

namespace Twemcache

/-- The signs that a number may have, and whether it is a minus. -/
def IsSign (neg : Bool) (sign : List UInt8) : Prop :=
  if neg then sign = [45] else sign = [] ∨ sign = [43]

/-- The string is white space, a sign, a numeral for `n`, and `rest`, which does not begin with a
digit. -/
def Splits (str : List UInt8) (neg : Bool) (n : ℕ) (rest : List UInt8) : Prop :=
  ∃ ws sign w, str = ws ++ (sign ++ (w ++ rest)) ∧ (∀ b ∈ ws, isSpace b = true) ∧ IsSign neg sign ∧
    IsNumeral w ∧ numeral w = n ∧ ∀ b ∈ rest.head?, isDigit b = false

/-- The string begins with a number, after white space. -/
def Begins (str : List UInt8) (neg : Bool) (n : ℕ) : Prop := ∃ rest, Splits str neg n rest

/-- The string begins with a number, and white space or nothing follows it. -/
def Denotes (str : List UInt8) (neg : Bool) (n : ℕ) : Prop :=
  ∃ rest, Splits str neg n rest ∧ ∀ b ∈ rest.head?, isSpace b = true

/-- The number with its sign. -/
def signed (neg : Bool) (n : ℕ) : ℤ := if neg then -(n : ℤ) else n

variable {str rest : List UInt8} {neg : Bool} {n : ℕ}

/-! ### The library functions -/

theorem isSpace_sign_digits {ws sign w : List UInt8} (hws : ∀ b ∈ ws, isSpace b = true)
    (hsign : IsSign neg sign) (hw : IsNumeral w) (rest : List UInt8) :
    scanSign ((ws ++ (sign ++ (w ++ rest))).dropWhile isSpace) = (neg, w ++ rest) := by
  rw [List.dropWhile_append_of_pos hws]
  cases neg with
  | true =>
    obtain rfl : sign = [45] := by simpa [IsSign] using hsign
    rfl
  | false =>
    have hcases : sign = [] ∨ sign = [43] := by simpa [IsSign] using hsign
    rcases hcases with rfl | rfl
    · exact scanSign_digits hw rest
    · rfl

/-- The sign that `scanSign` takes off. -/
theorem exists_sign (t : List UInt8) :
    ∃ sign, IsSign (scanSign t).1 sign ∧ t = sign ++ (scanSign t).2 := by
  cases t with
  | nil => exact ⟨[], by simp [IsSign, scanSign], rfl⟩
  | cons b bs =>
    by_cases h45 : b = 45
    · exact ⟨[45], by simp [IsSign, scanSign, h45], by simp [scanSign, h45]⟩
    · by_cases h43 : b = 43
      · exact ⟨[43], by simp [IsSign, scanSign, h43], by simp [scanSign, h43]⟩
      · exact ⟨[], by simp [IsSign, scanSign, h45, h43], by simp [scanSign, h45, h43]⟩

/-- What `strtol` and its relatives recognise. -/
theorem scanNumber_eq_some_iff : scanNumber str = some (neg, n, rest) ↔ Splits str neg n rest := by
  constructor
  · intro h
    unfold scanNumber at h
    dsimp only at h
    split_ifs at h with hdigits
    simp only [Option.some.injEq, Prod.mk.injEq] at h
    obtain ⟨hneg, hn, hrest⟩ := h
    obtain ⟨sign, hsign, heq⟩ := exists_sign (str.dropWhile isSpace)
    refine ⟨str.takeWhile isSpace, sign, _, ?_, fun b hb => List.mem_takeWhile_imp hb, hneg ▸ hsign,
      ⟨hdigits, fun b hb => List.mem_takeWhile_imp hb⟩, hn, fun b hb => ?_⟩
    · rw [← hrest, List.takeWhile_append_dropWhile, ← heq, List.takeWhile_append_dropWhile]
    · have hhead := List.head?_dropWhile_not isDigit (scanSign (str.dropWhile isSpace)).2
      rw [hrest, hb] at hhead
      simpa using hhead
  · rintro ⟨ws, sign, w, rfl, hws, hsign, hw, rfl, hrest⟩
    have htake : (w ++ rest).takeWhile isDigit = w ∧ (w ++ rest).dropWhile isDigit = rest := by
      rw [List.takeWhile_append_of_pos hw.2, List.dropWhile_append_of_pos hw.2]
      cases rest with
      | nil => simp
      | cons b bs => simp [hrest b rfl]
    simp only [scanNumber, isSpace_sign_digits hws hsign hw, htake.1, htake.2, if_neg hw.1]

theorem begins_iff : Begins str neg n ↔ ∃ rest, scanNumber str = some (neg, n, rest) := by
  simp only [Begins, scanNumber_eq_some_iff]

/-- No number begins the string. -/
theorem not_begins (h : scanNumber str = none) (neg : Bool) (n : ℕ) : ¬ Begins str neg n := by
  rw [begins_iff, h]
  rintro ⟨rest, hrest⟩
  cases hrest

/-- What a string denotes, once it is known how it begins. -/
theorem denotes_iff (h : scanNumber str = some (neg, n, rest)) (neg' : Bool) (n' : ℕ) :
    Denotes str neg' n' ↔ neg' = neg ∧ n' = n ∧ endsField str rest = true := by
  have hstr : str ≠ [] := by
    rintro rfl
    cases h
  have hends : endsField str rest = true ↔ ∀ b ∈ rest.head?, isSpace b = true := by
    cases rest with
    | nil => simpa [endsField] using hstr
    | cons b bs => simp [endsField]
  constructor
  · rintro ⟨rest', hsplit, hrest⟩
    rw [← scanNumber_eq_some_iff, h] at hsplit
    simp only [Option.some.injEq, Prod.mk.injEq] at hsplit
    obtain ⟨rfl, rfl, rfl⟩ := hsplit
    exact ⟨rfl, rfl, hends.2 hrest⟩
  · rintro ⟨rfl, rfl, hrest⟩
    exact ⟨rest, scanNumber_eq_some_iff.1 h, hends.1 hrest⟩

theorem not_denotes (h : scanNumber str = none) (neg : Bool) (n : ℕ) : ¬ Denotes str neg n :=
  fun ⟨rest, hsplit, _⟩ => not_begins h neg n ⟨rest, hsplit⟩

/-! ### The functions -/

/-- The strings that `mc_strtoul` reads as it should: white space begins a number; numbers that do
not fit into 32 bits do not fit into 64 either, or they are seen as negative ones and there is a
minus sign somewhere; and a number with a minus sign is seen as negative, or does not fit into 64
bits. -/
structure ReadsUnsigned (str : List UInt8) : Prop where
  /-- White space at the beginning is before a number. -/
  blank : ∀ b ∈ str.head?, isSpace b = true → ∃ neg n, Begins str neg n
  /-- Numbers without a minus sign. -/
  plus : ∀ n, Denotes str false n → n < 2 ^ 32 ∨ 2 ^ 63 ≤ n ∧ 45 ∈ str ∨ 2 ^ 64 ≤ n
  /-- Numbers with a minus sign. -/
  minus : ∀ n, Denotes str true n → 0 < n ∧ n ≤ 2 ^ 63 ∨ 2 ^ 64 ≤ n

/-- The strings that `mc_strtol` reads as it should: white space begins a number, and numbers that
do not fit into 32 bits do not fit into 64 either. -/
structure ReadsSigned (str : List UInt8) : Prop where
  /-- White space at the beginning is before a number. -/
  blank : ∀ b ∈ str.head?, isSpace b = true → ∃ neg n, Begins str neg n
  /-- Numbers. -/
  number : ∀ neg n, Denotes str neg n →
    -2 ^ 31 ≤ signed neg n ∧ signed neg n < 2 ^ 31 ∨ signed neg n < -2 ^ 63 ∨ 2 ^ 63 ≤ signed neg n

/-- A string in which no number is recognised is accepted if it begins with white space. -/
theorem blank_iff (h : scanNumber str = none) :
    (∀ b ∈ str.head?, isSpace b = true → ∃ neg n, Begins str neg n) ↔
        endsField str str = false := by
  cases str with
  | nil => simp [endsField]
  | cons b bs =>
    constructor
    · intro hblank
      by_contra hspace
      obtain ⟨neg, n, hbegins⟩ := hblank b rfl (by simpa [endsField] using hspace)
      exact not_begins h neg n hbegins
    · intro hspace b' hb' hb
      obtain rfl := Option.some.inj hb'
      rw [endsField, hb] at hspace
      cases hspace

theorem blank_of_scanNumber (h : scanNumber str = some (neg, n, rest)) :
    ∀ b ∈ str.head?, isSpace b = true → ∃ neg n, Begins str neg n :=
  fun _ _ _ => ⟨neg, n, begins_iff.2 ⟨rest, h⟩⟩

/-- What `mc_strtoul` answers, once it is known how the string begins. -/
theorem mcStrtoul_of_scanNumber (h : scanNumber str = some (neg, n, rest)) : mcStrtoul str =
    if n ≥ 2 ^ 64 then none
    else if endsField str rest = true ∧
        wrapsSign str (if neg then (2 ^ 64 - n) % 2 ^ 64 else n) = false then
      some ((if neg then (2 ^ 64 - n) % 2 ^ 64 else n) % 2 ^ 32)
    else none := by
  simp only [mcStrtoul, strtoul, h]
  by_cases hn : n ≥ 2 ^ 64
  · rw [if_pos hn, if_pos hn]
  · rw [if_neg hn, if_neg hn]
    simp only [Bool.and_eq_true, Bool.not_eq_true']

/-- What `mc_strtol` answers, once it is known how the string begins. -/
theorem mcStrtol_of_scanNumber (h : scanNumber str = some (neg, n, rest)) : mcStrtol str =
    if signed neg n < -2 ^ 63 ∨ 2 ^ 63 ≤ signed neg n then none
    else if endsField str rest = true then some ((signed neg n).bmod (2 ^ 32))
    else none := by
  have hstrtol : strtol str = if signed neg n < -2 ^ 63 ∨ 2 ^ 63 ≤ signed neg n then none
      else some (signed neg n, rest) := by
    cases neg with
    | true =>
      have hiff : n > 2 ^ 63 ↔ signed true n < -2 ^ 63 ∨ 2 ^ 63 ≤ signed true n := by
        simp only [signed, if_true]
        omega
      simp only [strtol, h, ← hiff]
      rfl
    | false =>
      have hiff : n ≥ 2 ^ 63 ↔ signed false n < -2 ^ 63 ∨ 2 ^ 63 ≤ signed false n := by
        simp only [signed, Bool.false_eq_true, if_false]
        omega
      simp only [strtol, h, ← hiff]
      rfl
  rw [mcStrtol, hstrtol]
  split_ifs with hout hends
  · rfl
  · simp only [hends, if_true]
  · simp only [hends, Bool.false_eq_true, if_false]

/-- What the two functions answer if there is no number. -/
theorem mcStrtoul_of_none (h : scanNumber str = none) :
    mcStrtoul str = if endsField str str = true then some 0 else none := by
  have hwrap : wrapsSign str 0 = false := by simp [wrapsSign]
  simp only [mcStrtoul, strtoul, h, hwrap, Bool.not_false, Bool.and_true, Nat.zero_mod]

theorem mcStrtol_of_none (h : scanNumber str = none) :
    mcStrtol str = if endsField str str = true then some 0 else none := by
  simp only [mcStrtol, strtol, h]
  rfl

/-- `mc_strtoul` reads the strings of `ReadsUnsigned` as it should, and no others. -/
theorem readsUnsigned_iff (str : List UInt8) :
    (∀ n, mcStrtoul str = some n ↔ Denotes str false n ∧ n < 2 ^ 32) ↔ ReadsUnsigned str := by
  cases hscan : scanNumber str with
  | none =>
    -- there is no number in the string, and the answer is 0 if it is blank
    have hno := not_denotes hscan
    constructor
    · intro hall
      refine ⟨(blank_iff hscan).2 ?_, fun n hd => absurd hd (hno false n),
        fun n hd => absurd hd (hno true n)⟩
      by_contra hends
      rw [Bool.not_eq_false] at hends
      have hzero : mcStrtoul str = some 0 := by rw [mcStrtoul_of_none hscan, if_pos hends]
      exact hno false 0 ((hall 0).1 hzero).1
    · intro hr n
      rw [mcStrtoul_of_none hscan, (blank_iff hscan).1 hr.blank]
      exact ⟨fun h => (by cases h), fun hd => absurd hd.1 (hno false n)⟩
  | some r =>
    obtain ⟨neg, n, rest⟩ := r
    have hd := denotes_iff hscan
    have hanswer := mcStrtoul_of_scanNumber hscan
    constructor
    · intro hall
      refine ⟨blank_of_scanNumber hscan, fun m hm => ?_, fun m hm => ?_⟩
      · obtain ⟨rfl, rfl, hends⟩ := (hd false m).1 hm
        by_contra hbad
        have hlt : ¬ m ≥ 2 ^ 64 := by omega
        have hwrap : wrapsSign str m = false := by
          simp only [wrapsSign, Bool.and_eq_false_iff, decide_eq_false_iff_not,
            List.contains_eq_mem]
          tauto
        have hread : mcStrtoul str = some (m % 2 ^ 32) := by
          rw [hanswer, if_neg hlt]
          simp only [Bool.false_eq_true, if_false]
          rw [if_pos ⟨hends, hwrap⟩]
        obtain ⟨-, heq, -⟩ := (hd false _).1 ((hall _).1 hread).1
        omega
      · -- a minus sign is not refused where the value comes back small
        obtain ⟨rfl, rfl, hends⟩ := (hd true m).1 hm
        by_contra hbad
        have hlt : ¬ m ≥ 2 ^ 64 := by omega
        have hwrap : wrapsSign str ((2 ^ 64 - m) % 2 ^ 64) = false := by
          have hsmall : ¬ (2 ^ 64 - m) % 2 ^ 64 ≥ 2 ^ 63 := by omega
          simp only [wrapsSign, hsmall, decide_false, Bool.false_and]
        have hread : mcStrtoul str = some ((2 ^ 64 - m) % 2 ^ 64 % 2 ^ 32) := by
          rw [hanswer, if_neg hlt]
          simp only [if_true]
          rw [if_pos ⟨hends, hwrap⟩]
        obtain ⟨hneg, -⟩ := (hd false _).1 ((hall _).1 hread).1
        cases hneg
    · intro hr m
      rw [hanswer, hd false m]
      cases neg with
      | false =>
        have hplus := hr.plus n
        rw [hd] at hplus
        simp only [Bool.false_eq_true, if_false, true_and]
        split_ifs with hbig haccept
        · exact ⟨fun h => (by cases h), fun hm => by omega⟩
        · -- a number that does not fit would have been refused
          have hlt : n < 2 ^ 32 := by
            rcases hplus ⟨rfl, rfl, haccept.1⟩ with hlt | ⟨hge, hminus⟩ | hge
            · exact hlt
            · have hwrap : wrapsSign str n = true := by
                rw [wrapsSign, decide_eq_true (p := n ≥ 2 ^ 63) hge, List.contains_iff_mem.2 hminus,
                  Bool.and_self]
              rw [hwrap] at haccept
              cases haccept.2
            · exact absurd hge hbig
          rw [Option.some.injEq, Nat.mod_eq_of_lt hlt]
          exact ⟨fun hm => ⟨⟨hm.symm, haccept.1⟩, hm ▸ hlt⟩, fun hm => hm.1.1.symm⟩
        · refine ⟨fun h => (by cases h), fun hm => absurd ⟨hm.1.2, ?_⟩ haccept⟩
          have hsmall : ¬ n ≥ 2 ^ 63 := by omega
          simp only [wrapsSign, hsmall, decide_false, Bool.false_and]
      | true =>
        have hminus := hr.minus n
        rw [hd] at hminus
        have hnone : ∀ {x : Option ℕ}, x = none →
            (x = some m ↔ (false = true ∧ m = n ∧ endsField str rest = true) ∧ m < 2 ^ 32) := by
          rintro _ rfl
          exact ⟨fun h => (by cases h), fun hm => absurd hm.1.1 Bool.false_ne_true⟩
        refine hnone ?_
        simp only [if_true]
        split_ifs with hbig haccept
        · rfl
        · exfalso
          -- the negated value is large, and it is refused for its minus sign
          obtain ⟨hends, hwrap⟩ := haccept
          obtain ⟨ws, sign, w, hstr, -, hsign, -⟩ := scanNumber_eq_some_iff.1 hscan
          have hmem : 45 ∈ str := by
            obtain rfl : sign = [45] := by simpa [IsSign] using hsign
            simp [hstr]
          have hlow := (hminus ⟨rfl, rfl, hends⟩).resolve_right hbig
          have hge : (2 ^ 64 - n) % 2 ^ 64 ≥ 2 ^ 63 := by omega
          simp only [wrapsSign, hge, decide_true, Bool.true_and, List.contains_eq_mem, hmem]
            at hwrap
          cases hwrap
        · rfl

/-- `mc_strtol` reads the strings of `ReadsSigned` as it should, and no others. -/
theorem readsSigned_iff (str : List UInt8) :
    (∀ z, mcStrtol str = some z ↔ ∃ neg n, Denotes str neg n ∧ z = signed neg n ∧ -2 ^ 31 ≤ z ∧
      z < 2 ^ 31) ↔ ReadsSigned str := by
  cases hscan : scanNumber str with
  | none =>
    have hno := not_denotes hscan
    constructor
    · intro hall
      refine ⟨(blank_iff hscan).2 ?_, fun neg n hd => absurd hd (hno neg n)⟩
      by_contra hends
      rw [Bool.not_eq_false] at hends
      have hzero : mcStrtol str = some 0 := by rw [mcStrtol_of_none hscan, if_pos hends]
      obtain ⟨neg, n, hd, -⟩ := (hall 0).1 hzero
      exact hno neg n hd
    · intro hr z
      rw [mcStrtol_of_none hscan, (blank_iff hscan).1 hr.blank]
      exact ⟨fun h => (by cases h), fun ⟨neg, n, hd, _⟩ => absurd hd (hno neg n)⟩
  | some r =>
    obtain ⟨neg, n, rest⟩ := r
    have hd := denotes_iff hscan
    have hanswer := mcStrtol_of_scanNumber hscan
    constructor
    · intro hall
      refine ⟨blank_of_scanNumber hscan, fun neg' m hm => ?_⟩
      obtain ⟨rfl, rfl, hends⟩ := (hd neg' m).1 hm
      by_contra hbad
      have hin : ¬ (signed neg' m < -2 ^ 63 ∨ 2 ^ 63 ≤ signed neg' m) := by omega
      -- the cast to 32 bits would answer another number
      have hread : mcStrtol str = some ((signed neg' m).bmod (2 ^ 32)) := by
        rw [hanswer, if_neg hin, if_pos hends]
      obtain ⟨neg, k, hk, heq, hlow, hhigh⟩ := (hall _).1 hread
      obtain ⟨rfl, rfl, -⟩ := (hd _ _).1 hk
      omega
    · intro hr z
      have hnumber := hr.number neg n
      rw [hd] at hnumber
      rw [hanswer]
      have hiff : (∃ neg' n', Denotes str neg' n' ∧ z = signed neg' n' ∧ -2 ^ 31 ≤ z ∧ z < 2 ^ 31) ↔
          endsField str rest = true ∧ z = signed neg n ∧ -2 ^ 31 ≤ z ∧ z < 2 ^ 31 := by
        constructor
        · rintro ⟨neg', n', hden, hz⟩
          obtain ⟨rfl, rfl, hends⟩ := (hd _ _).1 hden
          exact ⟨hends, hz⟩
        · rintro ⟨hends, hz⟩
          exact ⟨neg, n, (hd _ _).2 ⟨rfl, rfl, hends⟩, hz⟩
      rw [hiff]
      generalize signed neg n = v at hnumber
      split_ifs with hout hends
      · exact ⟨fun h => (by cases h), fun hz => by omega⟩
      · have hin := (hnumber ⟨rfl, rfl, hends⟩).resolve_right hout
        have hbmod : v.bmod (2 ^ 32) = v := Int.bmod_eq_of_le (by omega) (by omega)
        rw [hbmod, Option.some.injEq]
        exact ⟨fun hz => ⟨hends, hz.symm, by omega, by omega⟩, fun hz => hz.2.1.symm⟩
      · exact ⟨fun h => (by cases h), fun hz => absurd hz.1 hends⟩

/-- **The two functions read exactly the numbers of their types**, on a string if and only if it
begins with white space only before a number, and a number in it that does not fit is one that the
functions of the library or the test for a minus sign take care of. -/
theorem numbers_exact (str : List UInt8) :
    ((∀ n, mcStrtoul str = some n ↔ Denotes str false n ∧ n < 2 ^ 32) ↔ ReadsUnsigned str) ∧
      ((∀ z, mcStrtol str = some z ↔ ∃ neg n, Denotes str neg n ∧ z = signed neg n ∧ -2 ^ 31 ≤ z ∧
        z < 2 ^ 31) ↔ ReadsSigned str) :=
  ⟨readsUnsigned_iff str, readsSigned_iff str⟩

/-- The string `4294967296` is read as 0, and as a signed number too. -/
theorem number_truncated :
    mcStrtoul [52, 50, 57, 52, 57, 54, 55, 50, 57, 54] = some 0 ∧
      ¬ (Denotes [52, 50, 57, 52, 57, 54, 55, 50, 57, 54] false 0 ∧ 0 < 2 ^ 32) ∧
      mcStrtol [52, 50, 57, 52, 57, 54, 55, 50, 57, 54] = some 0 ∧
      ¬ ∃ neg n, Denotes [52, 50, 57, 52, 57, 54, 55, 50, 57, 54] neg n ∧ 0 = signed neg n := by
  have hscan : scanNumber [52, 50, 57, 52, 57, 54, 55, 50, 57, 54] =
      some (false, 4294967296, []) := by
    decide +kernel
  refine ⟨by decide +kernel, ?_, by decide +kernel, ?_⟩
  · rintro ⟨hd, -⟩
    obtain ⟨-, hn, -⟩ := (denotes_iff hscan false 0).1 hd
    cases hn
  · rintro ⟨neg, n, hd, hzero⟩
    obtain ⟨rfl, rfl, -⟩ := (denotes_iff hscan neg n).1 hd
    exact absurd hzero (by decide)

end Twemcache
