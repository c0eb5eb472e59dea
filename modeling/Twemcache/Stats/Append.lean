import Mathlib.Data.List.Basic
import Mathlib.Tactic.Ring

/-!
# The buffer of the stats commands

The lines of an answer to `stats` are appended to a buffer of the connection.  `stats_append`
reserves `vlen + klen + 10` bytes, `asc_append_stats` leaves `snprintf` all that is left of the
buffer but one byte, and the offset moves by what `snprintf` returns.

## Main definitions

* `StatsBuf` : `stats` in a connection.
* `statsAppend` : `stats_append`.
* `StatsBuf.Exact` : what the buffer is to hold.

## Main results

* `statsBufGrow_spec` : what is reserved.
* `StatsBuf.Exact.statsAppend` : one more line.
* `statsRun_exact` : all lines, as long as the lengths fit their types.
-/

namespace Twemcache

/-- `stats` in a connection. -/
structure StatsBuf where
  /-- The memory at `stats.buffer`, `none` for `NULL`. -/
  buffer : Option (List UInt8)
  /-- `stats.size`. -/
  size : ℕ
  /-- `stats.offset`. -/
  offset : ℕ
  deriving DecidableEq

/-- The arguments of `stats_append`; a C string is the list of its bytes before the NUL. -/
structure StatsCall where
  /-- The key. -/
  key : List UInt8
  /-- `klen`. -/
  klen : UInt16
  /-- The value. -/
  val : List UInt8
  /-- `vlen`. -/
  vlen : UInt32

/-- The difference of two `size_t`. -/
def sizeSub (a b : ℕ) : ℕ := (a + (2 ^ 64 - b)) % 2 ^ 64

/-- What `mc_realloc` does: `none` if it fails, otherwise the bytes in the new part of the memory.
-/
abbrev Realloc := Option (ℕ → UInt8)

/-- `mc_realloc` to `n` bytes. -/
def mcRealloc (old : List UInt8) (n : ℕ) (answer : Realloc) : Option (List UInt8) :=
  answer.map fun fresh => old.take n ++ (List.range (n - old.length)).map fresh

/-- The loop of `stats_buf_grow`, `none` if the assertion in it fails.  After 64 doublings nothing
is left of `nsize`. -/
def growLoop (offset needed : ℕ) : (fuel nsize available : ℕ) → Option ℕ
  | 0, _, _ => none
  | fuel + 1, nsize, available =>
    if needed > available then
      if nsize = 0 then none
      else growLoop offset needed fuel (nsize * 2 % 2 ^ 64) (sizeSub (nsize * 2 % 2 ^ 64) offset)
    else some nsize

/-- `stats_buf_grow`: what it returns, and `stats` afterwards. -/
def statsBufGrow (s : StatsBuf) (needed : ℕ) (answer : Realloc) : Option (Bool × StatsBuf) :=
  let start := if s.buffer = none then (1024, 0) else (s.size, sizeSub s.size s.offset)
  let s := if s.buffer = none then { s with size := 0, offset := 0 } else s
  (growLoop s.offset needed 65 start.1 start.2).map fun nsize =>
    if nsize ≠ s.size then
      match mcRealloc (s.buffer.getD []) nsize answer with
      | some ptr => (true, { s with buffer := some ptr, size := nsize })
      | none => (false, s)
    else (true, s)

/-- `snprintf` of a text at position `pos` of a buffer, with size `n`: the buffer, and what is
returned, which is negative if the length of the text does not fit an `int`.  A write behind the
end of the buffer is a fault. -/
def snprintf (buffer : List UInt8) (pos n : ℕ) (text : List UInt8) : Option (List UInt8 × ℤ) :=
  let ret : ℤ := if text.length < 2 ^ 31 then text.length else -1
  if n = 0 then some (buffer, ret)
  else
    let out := text.take (n - 1) ++ [0]
    if pos + out.length ≤ buffer.length then
      some (buffer.take pos ++ out ++ buffer.drop (pos + out.length), ret)
    else none

/-- The text that `asc_append_stats` prints. -/
def StatsCall.text (c : StatsCall) : List UInt8 :=
  if c.klen = 0 ∧ c.vlen = 0 then [69, 78, 68, 13, 10]
  else if c.vlen = 0 then [83, 84, 65, 84, 32] ++ c.key ++ [13, 10]
  else [83, 84, 65, 84, 32] ++ c.key ++ [32] ++ c.val ++ [13, 10]

/-- `asc_append_stats`.  `remaining` and `room` are of type `int`, and `room` is converted to
`size_t`. -/
def ascAppendStats (s : StatsBuf) (c : StatsCall) : Option StatsBuf :=
  let remaining := Int.bmod (sizeSub s.size s.offset) (2 ^ 32)
  -- the subtraction overflows
  if remaining = -2 ^ 31 then none
  else
    let room := remaining - 1
    (snprintf (s.buffer.getD []) s.offset (room % 2 ^ 64).toNat c.text).map fun (buffer, ret) =>
      let nbyte := (ret % 2 ^ 32).toNat
      { s with buffer := some buffer, offset := (s.offset + nbyte) % 2 ^ 64 }

/-- A value without a key. -/
def StatsCall.Ignored (c : StatsCall) : Prop := c.klen = 0 ∧ c.vlen > 0

instance (c : StatsCall) : Decidable c.Ignored := inferInstanceAs (Decidable (_ ∧ _))

/-- `needed` without the wrap. -/
def StatsCall.need (c : StatsCall) : ℕ := c.vlen.toNat + c.klen.toNat + 10

/-- `stats_append`; the sum of the lengths has 32 bits. -/
def statsAppend (s : StatsBuf) (c : StatsCall) (answer : Realloc) : Option StatsBuf :=
  if c.Ignored then some s
  else do
    let (rv, s) ← statsBufGrow s (c.need % 2 ^ 32) answer
    if rv then ascAppendStats s c else some s

/-- A sequence of calls, all reallocations succeeding. -/
def statsRun (s : StatsBuf) : List (StatsCall × (ℕ → UInt8)) → Option StatsBuf
  | [] => some s
  | (c, fresh) :: calls => do
    let s ← statsAppend s c (some fresh)
    statsRun s calls

/-! ### What the buffer is to hold -/

/-- `klen` is the length of the key, and `vlen` at least the one of the value. -/
structure StatsCall.Proper (c : StatsCall) : Prop where
  /-- The key. -/
  klen : c.klen.toNat = c.key.length
  /-- The value. -/
  vlen : c.val.length ≤ c.vlen.toNat

/-- The line for a call. -/
def StatsCall.line (c : StatsCall) : List UInt8 := if c.Ignored then [] else c.text

/-- The buffer holds `bytes` up to the offset, and a NUL behind them. -/
def StatsBuf.Exact (s : StatsBuf) (bytes : List UInt8) : Prop :=
  match s.buffer with
  | none => bytes = []
  | some buffer => buffer.length = s.size ∧ s.size < 2 ^ 64 ∧ s.offset + 1 ≤ s.size ∧
      buffer.take s.offset = bytes ∧ buffer[s.offset]? = some 0

/-- The size and the offset that the loop of `stats_buf_grow` starts from. -/
def StatsBuf.base (s : StatsBuf) :
    ℕ × ℕ := if s.buffer = none then (2048, 0) else (s.size, s.offset)

/-- What is free behind the offset, converted to an `int`, is not `INT_MIN` and is either not
positive, so that `room` is a huge `size_t`, or enough for the line and two bytes more. -/
def StatsCall.Roomy (c : StatsCall) (free : ℕ) : Prop :=
  Int.bmod free (2 ^ 32) ≠ -2 ^ 31 ∧
    (Int.bmod free (2 ^ 32) ≤ 0 ∨ (c.text.length + 2 : ℤ) ≤ Int.bmod free (2 ^ 32))

/-- The lengths of a call fit their types: `needed` 32 bits, the line an `int`, the size, doubled
until it is enough, a `size_t`, and what is free then leaves `room` for the line. -/
def StatsBuf.Fits (s : StatsBuf) (c : StatsCall) : Prop :=
  c.need < 2 ^ 32 ∧ c.text.length < 2 ^ 31 ∧
    ∃ k, s.base.2 + c.need ≤ s.base.1 * 2 ^ k ∧ (∀ j < k, s.base.1 * 2 ^ j < s.base.2 + c.need) ∧
      s.base.1 * 2 ^ k < 2 ^ 64 ∧ c.Roomy (s.base.1 * 2 ^ k - s.base.2)

/-- All calls of a sequence fit, each in the state that it finds. -/
def AllFit (s : StatsBuf) : List (StatsCall × (ℕ → UInt8)) → Prop
  | [] => True
  | (c, fresh) :: calls =>
    (c.Ignored ∨ s.Fits c) ∧ ∀ t, statsAppend s c (some fresh) = some t → AllFit t calls

/-! ### Reserving -/

section

variable {s : StatsBuf} {c : StatsCall} {bytes : List UInt8}

theorem sizeSub_of_le {a b : ℕ} (hle : b ≤ a) (ha : a < 2 ^ 64) : sizeSub a b = a - b := by
  rw [sizeSub]
  omega

/-- The loop doubles the size as long as it has to. -/
theorem growLoop_spec {offset needed fuel nsize k : ℕ} (hoffset : offset ≤ nsize) (hpos : 0 < nsize)
    (hneed : offset + needed ≤ nsize * 2 ^ k) (hleast : ∀ j < k, nsize * 2 ^ j < offset + needed)
    (hlt : nsize * 2 ^ k < 2 ^ 64) (hfuel : k < fuel) :
    growLoop offset needed fuel nsize (sizeSub nsize offset) = some (nsize * 2 ^ k) := by
  induction fuel generalizing nsize k with
  | zero => exact absurd hfuel (Nat.not_lt_zero k)
  | succ fuel ih =>
    have hone : nsize * 1 ≤ nsize * 2 ^ k := Nat.mul_le_mul_left nsize Nat.one_le_two_pow
    rw [growLoop, sizeSub_of_le hoffset (by omega)]
    cases k with
    | zero =>
      rw [Nat.pow_zero] at hneed ⊢
      rw [if_neg (by omega), Nat.mul_one]
    | succ k =>
      have hmore : nsize * 2 ^ 0 < offset + needed := hleast 0 (Nat.succ_pos k)
      have hdouble : ∀ j, nsize * 2 ^ (j + 1) = nsize * 2 * 2 ^ j := fun j => by ring
      have htwo : nsize * 2 * 1 ≤ nsize * 2 * 2 ^ k := Nat.mul_le_mul_left _ Nat.one_le_two_pow
      rw [hdouble] at hneed hlt ⊢
      have hmod : nsize * 2 % 2 ^ 64 = nsize * 2 := Nat.mod_eq_of_lt (by omega)
      rw [if_pos (by omega), if_neg (by omega), hmod]
      exact ih (by omega) (by omega) hneed
        (fun j hj => (hdouble j) ▸ hleast (j + 1) (Nat.succ_lt_succ hj)) hlt (by omega)

/-- A size that fits its type was doubled fewer than 64 times. -/
theorem doubled_lt {size k : ℕ} (hpos : 0 < size) (hlt : size * 2 ^ k < 2 ^ 64) : k < 64 := by
  have hpow : 1 * 2 ^ k ≤ size * 2 ^ k := Nat.mul_le_mul_right _ hpos
  exact (Nat.pow_lt_pow_iff_right (by decide)).1 (by omega : (2 : ℕ) ^ k < 2 ^ 64)

theorem take_mcRealloc (old : List UInt8) (n offset : ℕ) (fresh : ℕ → UInt8)
    (hoffset : offset ≤ old.length) (hn : old.length ≤ n) :
    ∃ ptr, mcRealloc old n (some fresh) = some ptr ∧ ptr.length = n ∧
      ptr.take offset = old.take offset := by
  refine ⟨_, rfl, ?_, ?_⟩
  · rw [List.length_append, List.length_take, List.length_map, List.length_range]
    omega
  · rw [List.take_append_of_le_length (by rw [List.length_take]; omega), List.take_take,
      Nat.min_eq_left (by omega)]

/-- **What `stats_buf_grow` reserves**: the size is doubled until `n` bytes are free behind the
offset, and what is in the buffer stays. -/
theorem statsBufGrow_spec (h : s.Exact bytes) (fresh : ℕ → UInt8) {n k : ℕ} (hn : 0 < n)
    (hneed : s.base.2 + n ≤ s.base.1 * 2 ^ k) (hleast : ∀ j < k, s.base.1 * 2 ^ j < s.base.2 + n)
    (hlt : s.base.1 * 2 ^ k < 2 ^ 64) :
    ∃ t buffer, statsBufGrow s n (some fresh) = some (true, t) ∧ t.buffer = some buffer ∧
      buffer.length = t.size ∧ t.size = s.base.1 * 2 ^ k ∧ t.offset = s.base.2 ∧
      t.offset = bytes.length ∧ buffer.take t.offset = bytes := by
  cases hbuf : s.buffer with
  | none =>
    rw [StatsBuf.Exact, hbuf] at h
    subst h
    rw [StatsBuf.base, if_pos hbuf] at hneed hleast hlt ⊢
    simp only at hneed hleast hlt ⊢
    have hloop := growLoop_spec (Nat.zero_le 2048) (by decide) hneed hleast hlt
      (doubled_lt (by decide) hlt)
    have hpos : 0 < 2048 * 2 ^ k := Nat.mul_pos (by decide) (Nat.two_pow_pos k)
    have hfirst : growLoop 0 n 65 1024 0 = some (2048 * 2 ^ k) := by
      rw [growLoop, if_pos hn, if_neg (by decide)]
      exact hloop
    obtain ⟨ptr, hptr, hlen, -⟩ :=
      take_mcRealloc [] (2048 * 2 ^ k) 0 fresh (Nat.le_refl 0) (Nat.zero_le _)
    refine ⟨⟨some ptr, 2048 * 2 ^ k, 0⟩, ptr, ?_, rfl, hlen, rfl, rfl, rfl, rfl⟩
    simp only [statsBufGrow, hbuf, if_true, hfirst, Option.map_some, if_pos hpos.ne',
      Option.getD_none, hptr]
  | some buffer =>
    rw [StatsBuf.Exact, hbuf] at h
    obtain ⟨hlength, hsize, hoffset, htake, -⟩ := h
    have hne : ¬ s.buffer = none := by simp [hbuf]
    rw [StatsBuf.base, if_neg hne] at hneed hleast hlt ⊢
    simp only at hneed hleast hlt ⊢
    have hloop := growLoop_spec (by omega) (by omega) hneed hleast hlt
      (Nat.lt_succ_of_lt (doubled_lt (by omega) hlt))
    have hgrow : s.size * 1 ≤ s.size * 2 ^ k := Nat.mul_le_mul_left _ Nat.one_le_two_pow
    have hbytes : s.offset = bytes.length := by
      rw [← htake, List.length_take]
      omega
    by_cases hsame : s.size * 2 ^ k = s.size
    · refine ⟨s, buffer, ?_, hbuf, hlength, hsame.symm, rfl, hbytes, htake⟩
      simp only [statsBufGrow, if_neg hne, hloop, Option.map_some, if_neg (not_not.2 hsame)]
    · obtain ⟨ptr, hptr, hlen, hkeep⟩ :=
        take_mcRealloc buffer (s.size * 2 ^ k) s.offset fresh (by omega) (by omega)
      refine ⟨⟨some ptr, s.size * 2 ^ k, s.offset⟩, ptr, ?_, rfl, hlen, rfl, rfl, hbytes,
        hkeep.trans htake⟩
      simp only [statsBufGrow, if_neg hne, hloop, Option.map_some, if_pos hsame]
      rw [hbuf, Option.getD_some, hptr]

/-! ### Printing -/

/-- With room for the text and its NUL, `snprintf` prints all of it. -/
theorem snprintf_of_lt (buffer text : List UInt8) (pos n : ℕ) (hint : text.length < 2 ^ 31)
    (htext : text.length < n) (hfit : pos + text.length < buffer.length) :
    ∃ out : List UInt8, snprintf buffer pos n text = some (out, (text.length : ℤ)) ∧
      out.length = buffer.length ∧ out.take (pos + text.length) = buffer.take pos ++ text ∧
      out[pos + text.length]? = some 0 := by
  have htake : text.take (n - 1) = text := List.take_of_length_le (by omega)
  have hpos : (buffer.take pos).length = pos := by
    rw [List.length_take]
    omega
  have htaken : (buffer.take pos ++ text).length = pos + text.length := by
    rw [List.length_append, hpos]
  refine ⟨buffer.take pos ++ (text ++ [0]) ++ buffer.drop (pos + (text ++ [0]).length),
    ?_, ?_, ?_, ?_⟩
  · simp only [snprintf, if_pos hint, if_neg (show ¬ n = 0 by omega), htake]
    rw [if_pos]
    rw [List.length_append, List.length_singleton]
    omega
  · simp only [List.length_append, List.length_drop, List.length_singleton, hpos]
    omega
  · rw [← List.append_assoc, List.append_assoc _ [0], List.take_append_of_le_length htaken.ge,
      List.take_of_length_le htaken.le]
  · rw [← List.append_assoc, List.append_assoc _ [0], List.getElem?_append_right htaken.le, htaken,
      Nat.sub_self]
    rfl

/-- The text takes two bytes less than `needed`. -/
theorem length_text_le (hc : c.Proper) : c.text.length + 2 ≤ c.need := by
  have hkey := hc.klen
  have hval := hc.vlen
  rw [StatsCall.text, StatsCall.need]
  split_ifs <;> simp only [List.length_append, List.length_cons, List.length_nil] <;> omega

/-- `asc_append_stats` appends the text to what is reserved. -/
theorem ascAppendStats_spec {buffer : List UInt8} (hc : c.Proper) (hint : c.text.length < 2 ^ 31)
    (hbuf : s.buffer = some buffer) (hlength : buffer.length = s.size) (hsize : s.size < 2 ^ 64)
    (hneed : s.offset + c.need ≤ s.size) (hroom : c.Roomy (s.size - s.offset)) :
    ∃ t, ascAppendStats s c = some t ∧ t.Exact (buffer.take s.offset ++ c.text) := by
  have htext := length_text_le hc
  obtain ⟨hmin, hroom⟩ := hroom
  have hsub : sizeSub s.size s.offset = s.size - s.offset := sizeSub_of_le (by omega) hsize
  -- a negative `room` becomes a size that is larger than any line
  have hroom' :
      c.text.length < ((Int.bmod (s.size - s.offset : ℕ) (2 ^ 32) - 1) % 2 ^ 64).toNat := by
    have hlow : -2 ^ 31 ≤ Int.bmod (s.size - s.offset : ℕ) (2 ^ 32) :=
      Int.le_bmod (by decide)
    have hhigh : Int.bmod (s.size - s.offset : ℕ) (2 ^ 32) < 2 ^ 31 :=
      Int.bmod_lt (by decide)
    omega
  obtain ⟨out, hprint, hout, htake, hnul⟩ :=
    snprintf_of_lt buffer c.text s.offset _ hint hroom' (by omega)
  have hbyte : ((c.text.length : ℤ) % 2 ^ 32).toNat = c.text.length := by omega
  have hoffset : (s.offset + c.text.length) % 2 ^ 64 = s.offset + c.text.length :=
    Nat.mod_eq_of_lt (by omega)
  refine ⟨⟨some out, s.size, s.offset + c.text.length⟩, ?_, ?_⟩
  · dsimp only [ascAppendStats]
    rw [hsub, if_neg hmin, hbuf, Option.getD_some, hprint, Option.map_some, hbyte, hoffset]
  · exact ⟨hout.trans hlength, hsize, by simp only; omega, htake, hnul⟩

/-! ### Appending -/

/-- **One more line**: a call that fits appends its line, and none if it is ignored. -/
theorem StatsBuf.Exact.statsAppend (h : s.Exact bytes) (hc : c.Proper)
    (hfit : c.Ignored ∨ s.Fits c) (fresh : ℕ → UInt8) :
    ∃ t, Twemcache.statsAppend s c (some fresh) = some t ∧ t.Exact (bytes ++ c.line) := by
  by_cases hignored : c.Ignored
  · exact ⟨s, by rw [Twemcache.statsAppend, if_pos hignored],
      by simpa [StatsCall.line, hignored] using h⟩
  · obtain ⟨hsum, hint, k, hneed, hleast, hlt, hroom⟩ := hfit.resolve_left hignored
    have hpos : 0 < c.need := Nat.succ_pos _
    obtain ⟨t, buffer, hrun, hbuf, hlength, hsize, hoffset, -, htake⟩ :=
      statsBufGrow_spec h fresh hpos hneed hleast hlt
    rw [← hsize, ← hoffset] at hneed hroom
    obtain ⟨u, happend, hexact⟩ :=
      ascAppendStats_spec hc hint hbuf hlength (hsize ▸ hlt) hneed hroom
    refine ⟨u, ?_, by rwa [htake, ← show c.line = c.text from if_neg hignored] at hexact⟩
    rw [Twemcache.statsAppend, if_neg hignored, Nat.mod_eq_of_lt hsum, hrun, Option.bind_eq_bind,
      Option.bind_some]
    simpa using happend

/-- The lines of a sequence of calls. -/
def statsLines (calls : List (StatsCall × (ℕ → UInt8))) :
    List UInt8 := calls.flatMap fun x => x.1.line

theorem StatsBuf.Exact.statsRun {calls : List (StatsCall × (ℕ → UInt8))} (h : s.Exact bytes)
    (hproper : ∀ x ∈ calls, x.1.Proper) (hfit : AllFit s calls) :
    ∃ t, Twemcache.statsRun s calls = some t ∧ t.Exact (bytes ++ statsLines calls) := by
  induction calls generalizing s bytes with
  | nil => exact ⟨s, rfl, by simpa [statsLines] using h⟩
  | cons x calls ih =>
    obtain ⟨c, fresh⟩ := x
    obtain ⟨hfirst, hrest⟩ := hfit
    obtain ⟨t, ht, hexact⟩ := h.statsAppend (hproper _ List.mem_cons_self) hfirst fresh
    obtain ⟨u, hu, hlast⟩ :=
      ih hexact (fun x hx => hproper x (List.mem_cons_of_mem _ hx)) (hrest t ht)
    refine ⟨u, ?_, ?_⟩
    · rw [Twemcache.statsRun, ht]
      exact hu
    · rwa [List.append_assoc] at hlast

end

/-- **The buffer of the stats commands is exact.**  As long as the lengths fit their types, it holds
the lines of all calls in their order, with a NUL behind them. -/
theorem statsRun_exact (s : StatsBuf) (hs : s.buffer = none)
    (calls : List (StatsCall × (ℕ → UInt8))) (hproper : ∀ x ∈ calls, x.1.Proper)
    (hfit : AllFit s calls) :
    ∃ t, statsRun s calls = some t ∧ t.Exact (statsLines calls) := by
  have hstart : s.Exact [] := by rw [StatsBuf.Exact, hs]
  exact hstart.statsRun hproper hfit

/-- `STAT a 1` and `END`. -/
theorem statsRun_exact_two :
    ∃ t, statsRun ⟨none, 7, 9⟩ [(⟨[97], 1, [49], 1⟩, fun _ => 0), (⟨[], 0, [], 0⟩, fun _ => 0)] =
      some t ∧ t.Exact ([83, 84, 65, 84, 32, 97, 32, 49, 13, 10] ++ [69, 78, 68, 13, 10]) := by
  refine statsRun_exact
    ⟨none, 7, 9⟩ rfl [(⟨[97], 1, [49], 1⟩, fun _ => 0), (⟨[], 0, [], 0⟩, fun _ => 0)] ?_ ?_
  · intro x hx
    rcases List.mem_pair.1 hx with rfl | rfl
    · exact ⟨rfl, by decide⟩
    · exact ⟨rfl, by decide⟩
  · refine ⟨.inr ⟨by decide, by decide, 0, by decide, nofun, by decide, by decide,
      .inr (by decide)⟩, fun t ht => ⟨.inr ⟨by decide, by decide, 0, ?_⟩, fun _ _ => trivial⟩⟩
    have hrun : (statsAppend ⟨none, 7, 9⟩ ⟨[97], 1, [49], 1⟩ (some fun _ => 0)).map
        (fun t => (t.buffer.isSome, t.size, t.offset)) = some (true, 2048, 10) := by decide +kernel
    rw [ht, Option.map_some] at hrun
    obtain ⟨hbuf, hsize, hoffset⟩ : t.buffer.isSome = true ∧ t.size = 2048 ∧ t.offset = 10 := by
      simpa using hrun
    rw [StatsBuf.base, if_neg (by simpa [Option.isSome_iff_ne_none] using hbuf), hsize, hoffset]
    exact ⟨by decide, nofun, by decide, by decide, .inr (by decide)⟩

/-- A value of 1020 bytes, and the largest `vlen` for which the sum of the lengths wraps round to
nothing. -/
def wrappingCall : StatsCall := ⟨[97], 1, List.replicate 1020 49, 4294967285⟩

/-- The sum wraps: 1024 bytes are reserved, the line is cut off in them, and the offset leaves the
buffer. -/
theorem statsRun_cut :
    wrappingCall.Proper ∧ ∃ t, statsRun ⟨none, 0, 0⟩ [(wrappingCall, fun _ => 0)] = some t ∧
    ¬ t.Exact (statsLines [(wrappingCall, fun _ => 0)]) ∧ t.size = 1024 ∧ t.offset = 1029 := by
  have hrun : (statsRun ⟨none, 0, 0⟩ [(wrappingCall, fun _ => 0)]).map
      (fun t => (t.buffer.isSome, t.size, t.offset)) = some (true, 1024, 1029) := by decide +kernel
  obtain ⟨t, ht, heq⟩ := Option.map_eq_some_iff.1 hrun
  obtain ⟨hbuf, hsize, hoffset⟩ : t.buffer.isSome = true ∧ t.size = 1024 ∧ t.offset = 1029 := by
    simpa using heq
  refine ⟨⟨rfl, by decide +kernel⟩, t, ht, ?_, hsize, hoffset⟩
  obtain ⟨buffer, hbuffer⟩ := Option.isSome_iff_exists.1 hbuf
  intro hexact
  rw [StatsBuf.Exact, hbuffer] at hexact
  have hle := hexact.2.2.1
  omega

end Twemcache
