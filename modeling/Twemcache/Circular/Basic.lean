import Mathlib.Data.List.Basic
import Mathlib.Data.Nat.ModEq
import Mathlib.Logic.Function.Basic

/-!
# Circular buffers

A buffer of `size` cells is read and written round its end.  `slice` is what a reader finds from an
index on, `store` what a writer leaves behind, and `span` the number of cells between two
indices.
-/

namespace Twemcache

namespace Circular

variable {α : Type*}

/-- The `n` cells from index `i` on, going round the end. -/
def slice (size : ℕ) (buf : ℕ → α) (i n : ℕ) : List α :=
  (List.range n).map fun k => buf ((i + k) % size)

/-- The elements are written from index `i` on, going round the end. -/
def store (size : ℕ) (buf : ℕ → α) : ℕ → List α → ℕ → α
  | _, [] => buf
  | i, x :: xs => store size (Function.update buf (i % size) x) (i + 1) xs

/-- The number of cells from `r` to `w`. -/
def span (size r w : ℕ) : ℕ := (w + size - r) % size

variable {size : ℕ} {buf buf' : ℕ → α} {i j m n r w : ℕ}

/-! ### Spans -/

theorem span_lt (h : 0 < size) : span size r w < size := Nat.mod_lt _ h

@[simp] theorem span_self : span size r r = 0 := by
  rw [span, Nat.add_sub_cancel_left, Nat.mod_self]

theorem span_of_le (hw : w < size) (h : r ≤ w) : span size r w = w - r := by
  rw [span, show w + size - r = w - r + size by omega, Nat.add_mod_right,
    Nat.mod_eq_of_lt (by omega)]

theorem span_of_lt (hr : r < size) (h : w < r) : span size r w = w + size - r := by
  rw [span, Nat.mod_eq_of_lt (by omega)]

/-- The writer moves on. -/
theorem span_write (hr : r < size) (hw : w < size) (hn : span size r w + n < size) :
    span size r ((w + n) % size) = span size r w + n := by
  rcases Nat.lt_or_ge w r with h | h
  · rw [span_of_lt hr h] at hn ⊢
    rw [Nat.mod_eq_of_lt (by omega), span_of_lt hr (by omega)]
    omega
  · rw [span_of_le hw h] at hn ⊢
    rcases Nat.lt_or_ge (w + n) size with hlt | hge
    · rw [Nat.mod_eq_of_lt hlt, span_of_le hlt (by omega)]
      omega
    · rw [Nat.mod_eq_sub_mod hge, Nat.mod_eq_of_lt (by omega), span_of_lt hr (by omega)]
      omega

/-- The reader moves on. -/
theorem span_read (hr : r < size) (hw : w < size) (hn : n ≤ span size r w) :
    span size ((r + n) % size) w = span size r w - n := by
  rcases Nat.lt_or_ge w r with h | h
  · rw [span_of_lt hr h] at hn ⊢
    rcases Nat.lt_or_ge (r + n) size with hlt | hge
    · rw [Nat.mod_eq_of_lt hlt, span_of_lt hlt (by omega)]
      omega
    · rw [Nat.mod_eq_sub_mod hge, Nat.mod_eq_of_lt (by omega), span_of_le hw (by omega)]
      omega
  · rw [span_of_le hw h] at hn ⊢
    rw [Nat.mod_eq_of_lt (by omega), span_of_le hw (by omega)]
    omega

/-- What lies between the indices ends at `w`. -/
theorem add_span_mod (hr : r < size) (hw : w < size) : (r + span size r w) % size = w := by
  rcases Nat.lt_or_ge w r with h | h
  · rw [span_of_lt hr h, show r + (w + size - r) = w + size by omega, Nat.add_mod_right,
      Nat.mod_eq_of_lt hw]
  · rw [span_of_le hw h, show r + (w - r) = w by omega, Nat.mod_eq_of_lt hw]

/-! ### Slices -/

@[simp] theorem slice_zero : slice size buf i 0 = [] := rfl

@[simp] theorem length_slice : (slice size buf i n).length = n := by simp [slice]

theorem slice_mod : slice size buf (i % size) n = slice size buf i n := by
  simp [slice, Nat.mod_add_mod]

theorem slice_add : slice size buf i (m + n) = slice size buf i m ++ slice size buf (i + m) n := by
  rw [slice, List.range_add, List.map_append, List.map_map]
  congr 1
  refine List.map_congr_left fun k _ => ?_
  rw [Function.comp, Nat.add_assoc]

theorem take_slice (h : m ≤ n) : (slice size buf i n).take m = slice size buf i m := by
  obtain ⟨k, rfl⟩ := Nat.exists_eq_add_of_le h
  rw [slice_add, List.take_append_of_le_length (by simp), List.take_of_length_le (by simp)]

/-- A slice that does not go round the end is read in place. -/
theorem slice_of_le (h : i + n ≤ size) :
    slice size buf i n = (List.range n).map fun k => buf (i + k) := by
  refine List.map_congr_left fun k hk => ?_
  rw [List.mem_range] at hk
  rw [Nat.mod_eq_of_lt (by omega)]

theorem slice_congr (h : ∀ k < n, buf' ((i + k) % size) = buf ((i + k) % size)) :
    slice size buf' i n = slice size buf i n :=
  List.map_congr_left fun k hk => h k (List.mem_range.1 hk)

/-- Cells at different distances from `i` are different. -/
theorem mod_ne_of_lt (hmn : m < n) (hn : n < size) : (i + m) % size ≠ (i + n) % size := by
  intro heq
  have h := (Nat.modEq_iff_dvd' (Nat.add_le_add_left hmn.le i)).1 heq
  rw [Nat.add_sub_add_left] at h
  exact absurd (Nat.le_of_dvd (by omega) h) (by omega)

/-! ### Stores -/

theorem store_congr {xs : List α} (h : i % size = j % size) :
    store size buf i xs = store size buf j xs := by
  induction xs generalizing buf i j with
  | nil => rfl
  | cons x xs ih =>
    rw [store, store, h]
    exact ih (by rw [Nat.add_mod, h, ← Nat.add_mod])

/-- Cells before the place of writing are kept. -/
theorem slice_store_before {xs : List α} (h : n ≤ m) (hlen : m + xs.length ≤ size) :
    slice size (store size buf (i + m) xs) i n = slice size buf i n := by
  induction xs generalizing buf m with
  | nil => rfl
  | cons x xs ih =>
    rw [List.length_cons] at hlen
    rw [store, Nat.add_assoc, ih (by omega) (by omega)]
    refine slice_congr fun k hk => Function.update_of_ne ?_ _ _
    exact mod_ne_of_lt (by omega) (by omega)

/-- What was written is found. -/
theorem slice_store {xs : List α} (hlen : xs.length ≤ size) :
    slice size (store size buf i xs) i xs.length = xs := by
  induction xs generalizing buf i with
  | nil => rfl
  | cons x xs ih =>
    rw [List.length_cons] at hlen
    rw [store, List.length_cons, Nat.add_comm xs.length, slice_add, ih (by omega),
      slice_store_before le_rfl (by omega)]
    simp [slice]

end Circular

end Twemcache
