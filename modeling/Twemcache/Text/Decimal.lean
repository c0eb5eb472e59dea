import Twemcache.Text.Number

/-!
# Decimal texts

`item_delta` writes numbers with `snprintf` and reads them with `mc_strtoull_len`, which refuses a
digit after `UINT64_MAX / 10` or more has been read.  A text is read back as its number up to
`UINT64_MAX - 6`, and the six larger numbers are refused.
-/

namespace Twemcache

/-- The largest number that `mc_strtoull_len` reads, `UINT64_MAX - 6`. -/
def strtoullMax : ℕ := 2 ^ 64 - 7

/-- The digit for `d`. -/
def digitByte (d : ℕ) : UInt8 := (Nat.digitChar d).toNat.toUInt8

theorem digitByte_spec :
    ∀ d < 10, (48 ≤ digitByte d ∧ digitByte d ≤ 57) ∧ (digitByte d).toNat = 48 + d := by
  decide

theorem decimal_of_lt {r : ℕ} (h : r < 10) : decimal r = [digitByte r] := by
  rw [decimal, Nat.toDigits_of_lt_base h]
  rfl

theorem decimal_of_le {r : ℕ} (h : 10 ≤ r) :
    decimal r = decimal (r / 10) ++ [digitByte (r % 10)] := by
  rw [decimal, Nat.toDigits_of_base_le (by decide) h, List.map_append]
  rfl

theorem decimal_ne_nil (r : ℕ) : decimal r ≠ [] := by
  simp [decimal, Nat.toDigits_ne_nil]

/-- The number that a text of digits stands for. -/
theorem foldl_decimal (r : ℕ) : (decimal r).foldl (fun v b => v * 10 + (b.toNat - 48)) 0 = r := by
  induction r using Nat.strongRecOn with
  | ind r ih =>
    rcases Nat.lt_or_ge r 10 with hlt | hge
    · rw [decimal_of_lt hlt, List.foldl_cons, List.foldl_nil, (digitByte_spec r hlt).2]
      omega
    · rw [decimal_of_le hge, List.foldl_append, ih (r / 10) (by omega), List.foldl_cons,
        List.foldl_nil, (digitByte_spec (r % 10) (by omega)).2]
      omega

/-- Different numbers have different texts. -/
theorem decimal_inj {r r' : ℕ} (h : decimal r = decimal r') : r = r' := by
  rw [← foldl_decimal r, h, foldl_decimal]

/-- Texts of numbers are digits. -/
theorem digit_of_mem_decimal {r : ℕ} {b : UInt8} (hb : b ∈ decimal r) : 48 ≤ b ∧ b ≤ 57 := by
  induction r using Nat.strongRecOn with
  | ind r ih =>
    rcases Nat.lt_or_ge r 10 with hlt | hge
    · rw [decimal_of_lt hlt, List.mem_singleton] at hb
      exact hb ▸ (digitByte_spec r hlt).1
    · rw [decimal_of_le hge, List.mem_append, List.mem_singleton] at hb
      rcases hb with hb | rfl
      · exact ih (r / 10) (by omega) hb
      · exact (digitByte_spec (r % 10) (by omega)).1

/-- The loop goes on after digits. -/
theorem strtoullDigits_append {ds : List UInt8} (hds : ∀ b ∈ ds, 48 ≤ b ∧ b ≤ 57) (out : ℕ)
    (bs : List UInt8) :
    strtoullDigits out (ds ++ bs) = (strtoullDigits out ds).bind fun x =>
        strtoullDigits x.1 bs := by
  induction ds generalizing out with
  | nil => rfl
  | cons b ds ih =>
    rw [List.cons_append, strtoullDigits, strtoullDigits, if_pos (hds b List.mem_cons_self),
      if_pos (hds b List.mem_cons_self)]
    split_ifs
    · rfl
    · exact ih (fun x hx => hds x (List.mem_cons_of_mem b hx)) _

/-- One digit more. -/
theorem strtoullDigits_digit {d : ℕ} (hd : d < 10) (out : ℕ) : strtoullDigits out [digitByte d] =
    if out ≥ (2 ^ 64 - 1) / 10 then none else some (out * 10 + d, []) := by
  obtain ⟨hdigit, hval⟩ := digitByte_spec d hd
  rw [strtoullDigits, if_pos hdigit, hval]
  have heq : out * 10 + (48 + d) - 48 = out * 10 + d := by omega
  rw [heq]
  rfl

/-- **The digit loop reads the texts of the numbers up to `UINT64_MAX - 6`**, and no others. -/
theorem strtoullDigits_decimal (r : ℕ) :
    strtoullDigits 0 (decimal r) = if r ≤ strtoullMax then some (r, []) else none := by
  induction r using Nat.strongRecOn with
  | ind r ih =>
    rcases Nat.lt_or_ge r 10 with hlt | hge
    · have hle : r ≤ strtoullMax := by
        rw [strtoullMax]
        omega
      rw [decimal_of_lt hlt, strtoullDigits_digit hlt, if_pos hle, if_neg (by decide), Nat.zero_mul,
        Nat.zero_add]
    · rw [decimal_of_le hge, strtoullDigits_append fun b hb => digit_of_mem_decimal hb,
        ih (r / 10) (by omega)]
      -- the last digit is refused if all the others make up `UINT64_MAX / 10` or more
      have hcut : r ≤ strtoullMax ↔ ¬ r / 10 ≥ (2 ^ 64 - 1) / 10 := by
        rw [strtoullMax]
        omega
      by_cases hle : r ≤ strtoullMax
      · have hfront : r / 10 ≤ strtoullMax := Nat.le_trans (Nat.div_le_self r 10) hle
        have hdiv : r / 10 * 10 + r % 10 = r := by omega
        rw [if_pos hfront, if_pos hle, Option.bind_some, strtoullDigits_digit (by omega),
          if_neg (hcut.1 hle), hdiv]
      · rw [if_neg hle]
        split_ifs with hfront
        · have hge' : r / 10 ≥ (2 ^ 64 - 1) / 10 := not_not.1 fun h => hle (hcut.2 h)
          rw [Option.bind_some, strtoullDigits_digit (by omega), if_pos hge']
        · rfl

/-- `mc_strtoull_len` reads the text of a number back, up to `UINT64_MAX - 6`. -/
theorem mcStrtoullLen_decimal (r : ℕ) :
    mcStrtoullLen (decimal r) = if r ≤ strtoullMax then some r else none := by
  have hskip : (decimal r).dropWhile isSpace = decimal r := by
    cases hd : decimal r with
    | nil => rfl
    | cons b bs =>
      have hb : isSpace b = false :=
        isSpace_eq_false_of_isDigit
          (by simpa [isDigit] using digit_of_mem_decimal (hd ▸ List.mem_cons_self))
      rw [List.dropWhile_cons_of_neg (by simp [hb])]
  rw [mcStrtoullLen, hskip, strtoullDigits_decimal]
  split_ifs <;> simp

end Twemcache
