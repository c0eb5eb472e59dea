import Twemcache.Hash.Basic
import Mathlib.Tactic.IntervalCases
import Mathlib.Tactic.SplitIfs

/-!
# The paths of the hash function agree

A word is the sum of its bytes, each shifted to its place, and a mask leaves some of the summands.
So every path adds the same to the internal state as the one that reads byte by byte
(`HashPath.Same`), which reads the key only (`HashPath.run_bytes_congr`).
-/

namespace Twemcache

/-! ### Words -/

section

variable (m : ℕ → UInt8) (k : ℕ)

theorem toNat_load8 : (load8 m k).toNat = (m k).toNat := UInt8.toNat_toUInt32 _

theorem toNat_load8_shift {n : ℕ} (hn : n ≤ 24) :
    (load8 m k <<< UInt32.ofNat n).toNat = (m k).toNat * 2 ^ n := by
  have hbyte : (m k).toNat < 2 ^ 8 := (m k).toNat_lt
  have hpow : (2 : ℕ) ^ n ≤ 2 ^ 24 := Nat.pow_le_pow_right (by omega) hn
  have hlt : (m k).toNat * 2 ^ n < 2 ^ 32 := by
    calc (m k).toNat * 2 ^ n < 2 ^ 8 * 2 ^ n :=
      Nat.mul_lt_mul_of_pos_right hbyte (Nat.two_pow_pos n)
      _ ≤ 2 ^ 8 * 2 ^ 24 := Nat.mul_le_mul_left _ hpow
  rw [UInt32.toNat_shiftLeft, UInt32.toNat_ofNat', toNat_load8,
    Nat.mod_eq_of_lt (by omega : n < 2 ^ 32),
    Nat.mod_eq_of_lt (by omega : n < 32), Nat.shiftLeft_eq, Nat.mod_eq_of_lt hlt]

theorem toNat_load8_8 :
    (load8 m k <<< 8).toNat = (m k).toNat * 2 ^ 8 := toNat_load8_shift m k (show 8 ≤ 24 by omega)

theorem toNat_load8_16 : (load8 m k <<< 16).toNat = (m k).toNat * 2 ^ 16 :=
  toNat_load8_shift m k (show 16 ≤ 24 by omega)

theorem toNat_load8_24 : (load8 m k <<< 24).toNat = (m k).toNat * 2 ^ 24 :=
  toNat_load8_shift m k (show 24 ≤ 24 by omega)

theorem toNat_load16Little :
    (load16Little m k).toNat = (m k).toNat + 2 ^ 8 * (m (k + 1)).toNat := by
  have h0 := (m k).toNat_lt
  have h1 := (m (k + 1)).toNat_lt
  rw [load16Little, UInt32.toNat_ofNat', Nat.mod_eq_of_lt (by omega)]

theorem toNat_load32Little : (load32Little m k).toNat =
    (m k).toNat + 2 ^ 8 * (m (k + 1)).toNat + 2 ^ 16 * (m (k + 2)).toNat + 2 ^ 24 *
        (m (k + 3)).toNat := by
  have h0 := (m k).toNat_lt
  have h1 := (m (k + 1)).toNat_lt
  have h2 := (m (k + 2)).toNat_lt
  have h3 := (m (k + 3)).toNat_lt
  rw [load32Little, UInt32.toNat_ofNat', Nat.mod_eq_of_lt (by omega)]

theorem toNat_load32Big : (load32Big m k).toNat =
    2 ^ 24 * (m k).toNat + 2 ^ 16 * (m (k + 1)).toNat + 2 ^ 8 * (m (k + 2)).toNat +
        (m (k + 3)).toNat := by
  have h0 := (m k).toNat_lt
  have h1 := (m (k + 1)).toNat_lt
  have h2 := (m (k + 2)).toNat_lt
  have h3 := (m (k + 3)).toNat_lt
  rw [load32Big, UInt32.toNat_ofNat', Nat.mod_eq_of_lt (by omega)]

theorem load16Little_eq : load16Little m k = load8 m k + (load8 m (k + 1) <<< 8) := by
  have h0 := (m k).toNat_lt
  have h1 := (m (k + 1)).toNat_lt
  rw [← UInt32.toNat_inj, UInt32.toNat_add, toNat_load16Little, toNat_load8, toNat_load8_8]
  omega

theorem load16Little_shift :
    load16Little m k <<< 16 = (load8 m k <<< 16) + (load8 m (k + 1) <<< 24) := by
  have h0 := (m k).toNat_lt
  have h1 := (m (k + 1)).toNat_lt
  rw [← UInt32.toNat_inj, UInt32.toNat_add, toNat_load8_16, toNat_load8_24, UInt32.toNat_shiftLeft,
    toNat_load16Little, Nat.shiftLeft_eq, show (16 : UInt32).toNat % 32 = 16 from rfl]
  omega

theorem load32Little_eq : load32Little m k =
    load8 m k + (load8 m (k + 1) <<< 8) + (load8 m (k + 2) <<< 16) + (load8 m (k + 3) <<< 24) := by
  have h0 := (m k).toNat_lt
  have h1 := (m (k + 1)).toNat_lt
  have h2 := (m (k + 2)).toNat_lt
  have h3 := (m (k + 3)).toNat_lt
  rw [← UInt32.toNat_inj, toNat_load32Little]
  simp only [UInt32.toNat_add, toNat_load8, toNat_load8_8, toNat_load8_16, toNat_load8_24]
  omega

theorem load32Big_eq : load32Big m k =
    (load8 m k <<< 24) + (load8 m (k + 1) <<< 16) + (load8 m (k + 2) <<< 8) + load8 m (k + 3) := by
  have h0 := (m k).toNat_lt
  have h1 := (m (k + 1)).toNat_lt
  have h2 := (m (k + 2)).toNat_lt
  have h3 := (m (k + 3)).toNat_lt
  rw [← UInt32.toNat_inj, toNat_load32Big]
  simp only [UInt32.toNat_add, toNat_load8, toNat_load8_8, toNat_load8_16, toNat_load8_24]
  omega

/-! ### Masks -/

/-- A mask of the low bits. -/
theorem toNat_and_low (x : UInt32) (n : ℕ) (hn : n < 32) :
    (x &&& UInt32.ofNat (2 ^ n - 1)).toNat = x.toNat % 2 ^ n := by
  have hlt : 2 ^ n - 1 < 2 ^ 32 := by
    have := Nat.pow_lt_pow_right (show 1 < 2 by omega) hn
    omega
  rw [UInt32.toNat_and, UInt32.toNat_ofNat', Nat.mod_eq_of_lt hlt, Nat.and_two_pow_sub_one_eq_mod]

/-- A mask of the high bits. -/
theorem toNat_and_high (x : UInt32) (n : ℕ) (hn : n < 32) :
    (x &&& UInt32.ofNat (2 ^ 32 - 2 ^ n)).toNat = x.toNat / 2 ^ n * 2 ^ n := by
  have hpos := Nat.two_pow_pos n
  have hlt : 2 ^ 32 - 2 ^ n < 2 ^ 32 := by omega
  rw [UInt32.toNat_and, UInt32.toNat_ofNat', Nat.mod_eq_of_lt hlt]
  refine Nat.eq_of_testBit_eq fun i => ?_
  have hmask : (2 ^ 32 - 2 ^ n).testBit i = (decide (i < 32) && !decide (i < n)) := by
    have hpow : 2 ^ n ≤ 2 ^ 32 := Nat.pow_le_pow_right (by omega) hn.le
    rw [show 2 ^ 32 - 2 ^ n = 2 ^ 32 - ((2 ^ n - 1) + 1) by omega,
      Nat.testBit_two_pow_sub_succ (by omega), Nat.testBit_two_pow_sub_one]
  rw [Nat.testBit_and, hmask, Nat.testBit_mul_two_pow, Nat.testBit_div_two_pow]
  by_cases hi : n ≤ i
  · have hbits : x.toNat.testBit i = true → i < 32 := by
      intro hbit
      by_contra hge
      have := Nat.testBit_lt_two_pow (i := i) (lt_of_lt_of_le x.toNat_lt
        (Nat.pow_le_pow_right (by omega) (Nat.le_of_not_lt hge)))
      simp [this] at hbit
    rw [Nat.sub_add_cancel hi]
    cases hbit : x.toNat.testBit i with
    | false => simp
    | true => simp [hbits hbit, hi]
  · simp [hi, Nat.lt_of_not_le hi]

theorem load32Little_and_one : load32Little m k &&& (0xff : UInt32) = load8 m k := by
  have h0 := (m k).toNat_lt
  rw [← UInt32.toNat_inj, show (0xff : UInt32) = .ofNat (2 ^ 8 - 1) from rfl,
    toNat_and_low _ 8 (by omega), toNat_load32Little, toNat_load8]
  omega

theorem load32Little_and_two :
    load32Little m k &&& (0xffff : UInt32) = load8 m k + (load8 m (k + 1) <<< 8) := by
  have h0 := (m k).toNat_lt
  have h1 := (m (k + 1)).toNat_lt
  rw [← UInt32.toNat_inj, show (0xffff : UInt32) = .ofNat (2 ^ 16 - 1) from rfl,
    toNat_and_low _ 16 (by omega), toNat_load32Little, UInt32.toNat_add, toNat_load8, toNat_load8_8]
  omega

theorem load32Little_and_three : load32Little m k &&& (0xffffff : UInt32) =
    load8 m k + (load8 m (k + 1) <<< 8) + (load8 m (k + 2) <<< 16) := by
  have h0 := (m k).toNat_lt
  have h1 := (m (k + 1)).toNat_lt
  have h2 := (m (k + 2)).toNat_lt
  rw [← UInt32.toNat_inj, show (0xffffff : UInt32) = .ofNat (2 ^ 24 - 1) from rfl,
    toNat_and_low _ 24 (by omega),
    toNat_load32Little, UInt32.toNat_add, UInt32.toNat_add, toNat_load8, toNat_load8_8,
      toNat_load8_16]
  omega

theorem load32Big_and_one : load32Big m k &&& (0xff000000 : UInt32) = load8 m k <<< 24 := by
  have h1 := (m (k + 1)).toNat_lt
  have h2 := (m (k + 2)).toNat_lt
  have h3 := (m (k + 3)).toNat_lt
  rw [← UInt32.toNat_inj, show (0xff000000 : UInt32) = .ofNat (2 ^ 32 - 2 ^ 24) from rfl,
    toNat_and_high _ 24 (by omega), toNat_load32Big, toNat_load8_24]
  omega

theorem load32Big_and_two : load32Big m k &&& (0xffff0000 : UInt32) =
    (load8 m k <<< 24) + (load8 m (k + 1) <<< 16) := by
  have h0 := (m k).toNat_lt
  have h1 := (m (k + 1)).toNat_lt
  have h2 := (m (k + 2)).toNat_lt
  have h3 := (m (k + 3)).toNat_lt
  rw [← UInt32.toNat_inj, show (0xffff0000 : UInt32) = .ofNat (2 ^ 32 - 2 ^ 16) from rfl,
    toNat_and_high _ 16 (by omega), toNat_load32Big, UInt32.toNat_add, toNat_load8_24,
      toNat_load8_16]
  omega

theorem load32Big_and_three : load32Big m k &&& (0xffffff00 : UInt32) =
    (load8 m k <<< 24) + (load8 m (k + 1) <<< 16) + (load8 m (k + 2) <<< 8) := by
  have h0 := (m k).toNat_lt
  have h1 := (m (k + 1)).toNat_lt
  have h2 := (m (k + 2)).toNat_lt
  have h3 := (m (k + 3)).toNat_lt
  rw [← UInt32.toNat_inj, show (0xffffff00 : UInt32) = .ofNat (2 ^ 32 - 2 ^ 8) from rfl,
    toNat_and_high _ 8 (by omega), toNat_load32Big, UInt32.toNat_add, UInt32.toNat_add,
      toNat_load8_24, toNat_load8_16,
    toNat_load8_8]
  omega

end

/-! ### Paths -/

namespace HashPath

variable {m m' : ℕ → UInt8} {k k' n : ℕ} {s : Abc}

theorem run_eq (p : HashPath) (m : ℕ → UInt8) (length k : ℕ) (s : Abc) : p.run m length k s =
    if length > 12 then p.run m (length - 12) (k + 12) (p.block m k s).mix
    else if length = 0 then s.c
    else (p.tail m k length s).final.c := by
  rw [HashPath.run]

/-- Two paths add the same to the internal state. -/
structure Same (p q : HashPath) : Prop where
  /-- In a whole block. -/
  block : ∀ m k s, p.block m k s = q.block m k s
  /-- In the last block. -/
  tail : ∀ m k n s, 1 ≤ n → n ≤ 12 → p.tail m k n s = q.tail m k n s

/-- Then they compute the same. -/
theorem Same.run {p q : HashPath} (h : p.Same q) (m : ℕ → UInt8) (length k : ℕ) (s : Abc) :
    p.run m length k s = q.run m length k s := by
  induction length using Nat.strong_induction_on generalizing k s with
  | _ length ih =>
    rw [run_eq p, run_eq q, h.block]
    split_ifs with hlong hzero
    · exact ih (length - 12) (by omega) (k + 12) _
    · rfl
    · rw [h.tail m k length s (by omega) (by omega)]

/-- The sum of the first `n` bytes, each shifted to its place. -/
def sumBytes (shift : ℕ → UInt32) (m : ℕ → UInt8) (k : ℕ) : (n : ℕ) → UInt32
  | 0 => 0
  | n + 1 => (load8 m (k + n) <<< shift n) + sumBytes shift m k n

theorem sumBytes_zero (shift : ℕ → UInt32) : sumBytes shift m k 0 = 0 := rfl

theorem sumBytes_succ (shift : ℕ → UInt32) (m : ℕ → UInt8) (k n : ℕ) :
    sumBytes shift m k (n + 1) = (load8 m (k + n) <<< shift n) + sumBytes shift m k n := rfl

theorem addBytes_eq (shift : ℕ → UInt32) (hn : n ≤ 12) : addBytes (fun i => shift (i % 4)) m k n s =
    ⟨s.a + sumBytes shift m k (min n 4), s.b + sumBytes shift m (k + 4) (min (n - 4) 4),
      s.c + sumBytes shift m (k + 8) (n - 8)⟩ := by
  induction n generalizing s with
  | zero => simp [addBytes, sumBytes_zero]
  | succ i ih =>
    rw [addBytes, ih (by omega), addByte]
    split_ifs with hfour height
    · rw [show min i 4 = i by omega, show min (i + 1) 4 = i + 1 by omega, show i - 4 = 0 by omega,
        show i + 1 - 4 = 0 by omega, show i - 8 = 0 by omega, show i + 1 - 8 = 0 by
          omega, show i % 4 = i by omega,
        sumBytes_succ]
      simp only [UInt32.add_assoc]
    · obtain ⟨j, rfl⟩ : ∃ j, i = 4 + j := ⟨i - 4, by omega⟩
      rw [show min (4 + j) 4 = 4 by omega, show min (4 + j + 1) 4 = 4 by omega,
        show 4 + j + 1 - 4 = j + 1 by omega,
        show 4 + j - 4 = j by omega, show min j 4 = j by omega, show min (j + 1) 4 = j + 1 by omega,
        show 4 + j - 8 = 0 by omega, show 4 + j + 1 - 8 = 0 by omega, show (4 + j) % 4 = j by omega,
        sumBytes_succ shift m (k + 4) j]
      simp only [UInt32.add_assoc, Nat.add_assoc]
    · obtain ⟨j, rfl⟩ : ∃ j, i = 8 + j := ⟨i - 8, by omega⟩
      rw [show min (8 + j) 4 = 4 by omega, show min (8 + j + 1) 4 = 4 by omega,
        show min (8 + j - 4) 4 = 4 by omega,
        show min (8 + j + 1 - 4) 4 = 4 by omega, show 8 + j + 1 - 8 = j + 1 by
          omega, show 8 + j - 8 = j by omega,
        sumBytes_succ shift m (k + 8) j, show (8 + j) % 4 = j by omega]
      simp only [UInt32.add_assoc, Nat.add_assoc]

/-- The places of the bytes of a little-endian word. -/
def littleShift (i : ℕ) : UInt32 := .ofNat (8 * i)

/-- The places of the bytes of a big-endian word. -/
def bigShift (i : ℕ) : UInt32 := .ofNat (24 - 8 * i)

section

variable (m : ℕ → UInt8) (k : ℕ)

theorem sumLittle_one : sumBytes littleShift m k 1 = load8 m k := by
  rw [sumBytes_succ, sumBytes_zero, show littleShift 0 = 0 from rfl, UInt32.shiftLeft_zero,
    UInt32.add_zero]
  rfl

theorem sumLittle_two : sumBytes littleShift m k 2 = (load8 m (k + 1) <<< 8) + load8 m k := by
  rw [sumBytes_succ, sumLittle_one, show littleShift 1 = 8 from rfl]

theorem sumLittle_three : sumBytes littleShift m k 3 =
    (load8 m (k + 2) <<< 16) + ((load8 m (k + 1) <<< 8) + load8 m k) := by
  rw [sumBytes_succ, sumLittle_two, show littleShift 2 = 16 from rfl]

theorem sumLittle_four : sumBytes littleShift m k 4 =
    (load8 m (k + 3) <<< 24) +
        ((load8 m (k + 2) <<< 16) + ((load8 m (k + 1) <<< 8) + load8 m k)) := by
  rw [sumBytes_succ, sumLittle_three, show littleShift 3 = 24 from rfl]

theorem sumBig_one : sumBytes bigShift m k 1 = load8 m k <<< 24 := by
  rw [sumBytes_succ, sumBytes_zero, show bigShift 0 = 24 from rfl, UInt32.add_zero]
  rfl

theorem sumBig_two : sumBytes bigShift m k 2 = (load8 m (k + 1) <<< 16) + (load8 m k <<< 24) := by
  rw [sumBytes_succ, sumBig_one, show bigShift 1 = 16 from rfl]

theorem sumBig_three : sumBytes bigShift m k 3 =
    (load8 m (k + 2) <<< 8) + ((load8 m (k + 1) <<< 16) + (load8 m k <<< 24)) := by
  rw [sumBytes_succ, sumBig_two, show bigShift 2 = 8 from rfl]

theorem sumBig_four : sumBytes bigShift m k 4 =
    load8 m (k + 3) +
        ((load8 m (k + 2) <<< 8) + ((load8 m (k + 1) <<< 16) + (load8 m k <<< 24))) := by
  rw [sumBytes_succ, sumBig_three, show bigShift 3 = 0 from rfl, UInt32.shiftLeft_zero]

theorem add_reverse_three (a b c : UInt32) : a + b + c = c + (b + a) := by
  rw [UInt32.add_comm, UInt32.add_comm a b]

theorem add_reverse_four (a b c d : UInt32) : a + b + c + d = d + (c + (b + a)) := by
  rw [add_reverse_three, UInt32.add_comm a b]

theorem load32Little_eq_sum : load32Little m k = sumBytes littleShift m k 4 := by
  rw [load32Little_eq, sumLittle_four, add_reverse_four]

theorem load32Little_and_one_sum :
    load32Little m k &&& (0xff : UInt32) = sumBytes littleShift m k 1 := by
  rw [load32Little_and_one, sumLittle_one]

theorem load32Little_and_two_sum :
    load32Little m k &&& (0xffff : UInt32) = sumBytes littleShift m k 2 := by
  rw [load32Little_and_two, sumLittle_two, UInt32.add_comm]

theorem load32Little_and_three_sum :
    load32Little m k &&& (0xffffff : UInt32) = sumBytes littleShift m k 3 := by
  rw [load32Little_and_three, sumLittle_three, add_reverse_three]

theorem load16Little_eq_sum : load16Little m k = sumBytes littleShift m k 2 := by
  rw [load16Little_eq, sumLittle_two, UInt32.add_comm]

theorem load16Little_add_eq_sum :
    load16Little m k + (load16Little m (k + 2) <<< 16) = sumBytes littleShift m k 4 := by
  rw [load16Little_shift, load16Little_eq, sumLittle_four, ← UInt32.add_assoc, add_reverse_four]

theorem add_load16Little_eq_sum :
    (load8 m (k + 2) <<< 16) + load16Little m k = sumBytes littleShift m k 3 := by
  rw [load16Little_eq_sum, sumLittle_two, sumLittle_three]

theorem load32Big_eq_sum : load32Big m k = sumBytes bigShift m k 4 := by
  rw [load32Big_eq, sumBig_four, add_reverse_four]

theorem load32Big_and_one_sum :
    load32Big m k &&& (0xff000000 : UInt32) = sumBytes bigShift m k 1 := by
  rw [load32Big_and_one, sumBig_one]

theorem load32Big_and_two_sum :
    load32Big m k &&& (0xffff0000 : UInt32) = sumBytes bigShift m k 2 := by
  rw [load32Big_and_two, sumBig_two, UInt32.add_comm]

theorem load32Big_and_three_sum :
    load32Big m k &&& (0xffffff00 : UInt32) = sumBytes bigShift m k 3 := by
  rw [load32Big_and_three, sumBig_three, add_reverse_three]

end

theorem littleBytes_tail (hn : n ≤ 12) : littleBytes.tail m k n s =
    ⟨s.a + sumBytes littleShift m k (min n 4), s.b + sumBytes littleShift m (k + 4) (min (n - 4) 4),
      s.c + sumBytes littleShift m (k + 8) (n - 8)⟩ :=
  addBytes_eq littleShift hn

theorem bigBytes_tail (hn : n ≤ 12) : bigBytes.tail m k n s =
    ⟨s.a + sumBytes bigShift m k (min n 4), s.b + sumBytes bigShift m (k + 4) (min (n - 4) 4),
      s.c + sumBytes bigShift m (k + 8) (n - 8)⟩ :=
  addBytes_eq bigShift hn

theorem littleWords_same : littleWords.Same littleBytes where
  block m k s := by
    simp only [littleWords, littleBytes, load32Little_eq, UInt32.add_assoc, Nat.add_assoc,
      Nat.reduceAdd]
  tail m k n s hpos hle := by
    rw [littleBytes_tail hle]
    simp only [littleWords]
    interval_cases n <;>
      simp only [← load32Little_and_one_sum, ← load32Little_and_two_sum,
        ← load32Little_and_three_sum,
        ← load32Little_eq_sum, sumBytes_zero, UInt32.add_zero, Nat.min_def, Nat.reduceSub,
          Nat.reduceLeDiff,
        reduceIte]

theorem littleWordsValgrind_same : littleWordsValgrind.Same littleBytes where
  block := littleWords_same.block
  tail m k n s hpos hle := by
    rw [littleBytes_tail hle]
    simp only [littleWordsValgrind]
    interval_cases n <;>
      simp only [← load32Little_eq_sum, sumLittle_one, sumLittle_two, sumLittle_three,
        sumBytes_zero, UInt32.add_zero,
        UInt32.add_assoc, Nat.add_assoc, Nat.reduceAdd, Nat.min_def, Nat.reduceSub,
          Nat.reduceLeDiff, reduceIte]

theorem littleHalves_same : littleHalves.Same littleBytes where
  block m k s := by
    rw [← littleWords_same.block]
    simp only [littleHalves, littleWords, load16Little_add_eq_sum, load32Little_eq_sum]
  tail m k n s hpos hle := by
    rw [littleBytes_tail hle]
    simp only [littleHalves]
    interval_cases n <;>
      simp only [← load16Little_add_eq_sum, ← load16Little_eq_sum, sumLittle_one,
        ← add_load16Little_eq_sum,
        sumBytes_zero, UInt32.add_zero, UInt32.add_assoc, Nat.add_assoc, Nat.reduceAdd, Nat.min_def,
          Nat.reduceSub,
        Nat.reduceLeDiff, reduceIte]

theorem bigWords_same : bigWords.Same bigBytes where
  block m k s := by
    simp only [bigWords, bigBytes, load32Big_eq, UInt32.add_assoc, Nat.add_assoc, Nat.reduceAdd]
  tail m k n s hpos hle := by
    rw [bigBytes_tail hle]
    simp only [bigWords]
    interval_cases n <;>
      simp only [← load32Big_and_one_sum, ← load32Big_and_two_sum, ← load32Big_and_three_sum,
        ← load32Big_eq_sum, sumBytes_zero, UInt32.add_zero, Nat.min_def, Nat.reduceSub,
          Nat.reduceLeDiff,
        reduceIte]

theorem bigWordsValgrind_block : bigWordsValgrind.block = bigWords.block := rfl

theorem bigWordsValgrind_same : bigWordsValgrind.Same bigBytes where
  block m k s := by
    rw [bigWordsValgrind_block]
    exact bigWords_same.block m k s
  tail m k n s hpos hle := by
    rw [bigBytes_tail hle]
    simp only [bigWordsValgrind]
    interval_cases n <;>
      simp only [← load32Big_eq_sum, sumBig_one, sumBig_two, sumBig_three, sumBytes_zero,
        UInt32.add_zero,
        UInt32.add_assoc, Nat.add_assoc, Nat.reduceAdd, Nat.min_def, Nat.reduceSub,
          Nat.reduceLeDiff, reduceIte]

/-! ### The bytes of the key -/

theorem addBytes_congr (shift : ℕ → UInt32) (hkey : ∀ i < n, m (k + i) = m' (k' + i)) :
    addBytes shift m k n s = addBytes shift m' k' n s := by
  induction n generalizing s with
  | zero => rfl
  | succ n ih =>
    have hbyte : addByte m k n (shift n) s = addByte m' k' n (shift n) s := by
      rw [addByte, addByte, load8, load8, hkey n (by omega)]
    rw [addBytes, addBytes, hbyte, ih fun i hi => hkey i (by omega)]

/-- A path that reads the key only. -/
structure ReadsKey (p : HashPath) : Prop where
  /-- In a whole block. -/
  block : ∀ m m' k k' s, (∀ i < 12, m (k + i) = m' (k' + i)) → p.block m k s = p.block m' k' s
  /-- In the last block. -/
  tail : ∀ m m' k k' n s, (∀ i < n, m (k + i) = m' (k' + i)) → p.tail m k n s = p.tail m' k' n s

/-- Then the bytes after the key do not matter. -/
theorem ReadsKey.run {p : HashPath} (h : p.ReadsKey) {length : ℕ} (s : Abc)
    (hkey : ∀ i < length, m (k + i) = m' (k' + i)) : p.run m length k s = p.run m' length k' s := by
  induction length using Nat.strong_induction_on generalizing k k' s with
  | _ length ih =>
    rw [run_eq p m, run_eq p m']
    split_ifs with hlong hzero
    · rw [h.block m m' k k' s fun i hi => hkey i (by omega)]
      refine ih (length - 12) (by omega) _ fun i hi => ?_
      rw [Nat.add_assoc, Nat.add_assoc]
      exact hkey (12 + i) (by omega)
    · rfl
    · rw [h.tail m m' k k' length s hkey]

theorem load8_congr (hkey : ∀ i < n, m (k + i) = m' (k' + i)) {i : ℕ} (hi : i < n) :
    load8 m (k + i) = load8 m' (k' + i) := by
  rw [load8, load8, hkey i hi]

theorem littleBytes_readsKey : littleBytes.ReadsKey where
  block m m' k k' s hkey := by
    have hfirst : load8 m k = load8 m' k' := load8_congr hkey (i := 0) (by omega)
    simp only [littleBytes, hfirst, load8_congr hkey, Nat.reduceLT]
  tail m m' k k' n s hkey := addBytes_congr _ hkey

theorem bigBytes_readsKey : bigBytes.ReadsKey where
  block m m' k k' s hkey := by
    have hfirst : load8 m k = load8 m' k' := load8_congr hkey (i := 0) (by omega)
    simp only [bigBytes, hfirst, load8_congr hkey, Nat.reduceLT]
  tail m m' k k' n s hkey := addBytes_congr _ hkey

/-- The paths of a little-endian build. -/
def littlePaths : List HashPath := [littleWords, littleWordsValgrind, littleHalves, littleBytes]

/-- The paths of a big-endian build. -/
def bigPaths : List HashPath := [bigWords, bigWordsValgrind, bigBytes]

theorem same_of_mem_littlePaths {p : HashPath} (h : p ∈ littlePaths) : p.Same littleBytes := by
  simp only [littlePaths, List.mem_cons, List.not_mem_nil, or_false] at h
  obtain rfl | rfl | rfl | rfl := h
  · exact littleWords_same
  · exact littleWordsValgrind_same
  · exact littleHalves_same
  · exact ⟨fun _ _ _ => rfl, fun _ _ _ _ _ _ => rfl⟩

theorem same_of_mem_bigPaths {p : HashPath} (h : p ∈ bigPaths) : p.Same bigBytes := by
  simp only [bigPaths, List.mem_cons, List.not_mem_nil, or_false] at h
  obtain rfl | rfl | rfl := h
  · exact bigWords_same
  · exact bigWordsValgrind_same
  · exact ⟨fun _ _ _ => rfl, fun _ _ _ _ _ _ => rfl⟩

theorem run_littlePaths {p q : HashPath} (hp : p ∈ littlePaths) (hq : q ∈ littlePaths) {length : ℕ}
    (s : Abc) (hkey : ∀ i < length, m (k + i) = m' (k' + i)) :
    p.run m length k s = q.run m' length k' s := by
  rw [(same_of_mem_littlePaths hp).run, (same_of_mem_littlePaths hq).run]
  exact littleBytes_readsKey.run s hkey

theorem run_bigPaths {p q : HashPath} (hp : p ∈ bigPaths) (hq : q ∈ bigPaths) {length : ℕ} (s : Abc)
    (hkey : ∀ i < length, m (k + i) = m' (k' + i)) : p.run m length k s = q.run m' length k' s := by
  rw [(same_of_mem_bigPaths hp).run, (same_of_mem_bigPaths hq).run]
  exact bigBytes_readsKey.run s hkey

end HashPath

/-! ### The hash of a key -/

theorem hashLittle_eq_run (valgrind : Bool) (m : ℕ → UInt8) (key length : ℕ) (initval : UInt32) :
    ∃ p ∈ HashPath.littlePaths,
      hashLittle valgrind m key length initval = p.run m length key (hashStart length initval) := by
  refine ⟨_, ?_, rfl⟩
  simp only [HashPath.littlePaths]
  split_ifs <;> simp

theorem hashBig_eq_run (valgrind : Bool) (m : ℕ → UInt8) (key length : ℕ) (initval : UInt32) :
    ∃ p ∈ HashPath.bigPaths,
      hashBig valgrind m key length initval = p.run m length key (hashStart length initval) := by
  refine ⟨_, ?_, rfl⟩
  simp only [HashPath.bigPaths]
  split_ifs <;> simp

/-- The bytes are at the address. -/
def BytesAt (m : ℕ → UInt8) (key : ℕ) (bytes : List UInt8) : Prop :=
  ∀ i (h : i < bytes.length), m (key + i) = bytes[i]

theorem BytesAt.agree {m m' : ℕ → UInt8} {key key' : ℕ} {bytes : List UInt8}
    (h : BytesAt m key bytes) (h' : BytesAt m' key' bytes) :
    ∀ i < bytes.length, m (key + i) = m' (key' + i) := by
  intro i hi
  rw [h i hi, h' i hi]

/-- **The hash is a function of the bytes of the key.**  All paths of a build agree, so neither the
address of the key nor what follows it in memory matters. -/
theorem hash_of_bytes (bytes : List UInt8) (initval : UInt32) (m m' : ℕ → UInt8) (key key' : ℕ)
    (valgrind valgrind' : Bool) (h : BytesAt m key bytes) (h' : BytesAt m' key' bytes) :
    (∀ p ∈ HashPath.littlePaths, ∀ q ∈ HashPath.littlePaths, ∀ s,
      p.run m bytes.length key s = q.run m' bytes.length key' s) ∧
    (∀ p ∈ HashPath.bigPaths, ∀ q ∈ HashPath.bigPaths, ∀ s,
      p.run m bytes.length key s = q.run m' bytes.length key' s) ∧
    hashLittle valgrind m key bytes.length initval =
      hashLittle valgrind' m' key' bytes.length initval ∧
    hashBig valgrind m key bytes.length initval = hashBig valgrind' m' key' bytes.length
        initval := by
  have hkey := h.agree h'
  refine ⟨fun p hp q hq s => HashPath.run_littlePaths hp hq s hkey,
    fun p hp q hq s => HashPath.run_bigPaths hp hq s hkey, ?_, ?_⟩
  · obtain ⟨p, hp, hrun⟩ := hashLittle_eq_run valgrind m key bytes.length initval
    obtain ⟨q, hq, hrun'⟩ := hashLittle_eq_run valgrind' m' key' bytes.length initval
    rw [hrun, hrun']
    exact HashPath.run_littlePaths hp hq _ hkey
  · obtain ⟨p, hp, hrun⟩ := hashBig_eq_run valgrind m key bytes.length initval
    obtain ⟨q, hq, hrun'⟩ := hashBig_eq_run valgrind' m' key' bytes.length initval
    rw [hrun, hrun']
    exact HashPath.run_bigPaths hp hq _ hkey

/-- A key of thirteen bytes at an aligned and at an odd address, with different bytes after it. -/
theorem hash_of_bytes_aligned :
    hashLittle false (fun a => .ofNat a) 100 13 0 =
      hashLittle false (fun a => if a < 20 then .ofNat (a + 93) else 0) 7 13 0 := by
  have hword : BytesAt (fun a => .ofNat a) 100 ((List.range 13).map fun i => .ofNat (100 + i)) := by
    unfold BytesAt
    decide
  have hodd : BytesAt (fun a => if a < 20 then .ofNat (a + 93) else 0) 7
      ((List.range 13).map fun i => .ofNat (100 + i)) := by
    unfold BytesAt
    decide
  exact (hash_of_bytes _ 0 _ _ 100 7 false false hword hodd).2.2.1

end Twemcache
