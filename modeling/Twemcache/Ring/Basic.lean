import Twemcache.Circular.Basic

/-!
# The ring array

`mc_ring_array.c`: a first-in first-out queue of at most `cap` elements in `cap + 1` cells.  The
positions are of type `uint32_t`, and so is `cap + 1`: it is zero for the largest capacity.

## Main results

* `Ring.push_elems`, `Ring.pop_elems` : on a well-formed ring, `ring_array_push` and
  `ring_array_pop` are those of a queue.
-/

namespace Twemcache

/-- `struct ring_array`; the elements are of one type, so there is no `elem_size`. -/
structure Ring (α : Type) where
  /-- `cap`. -/
  cap : UInt32
  /-- `rpos`. -/
  rpos : UInt32
  /-- `wpos`. -/
  wpos : UInt32
  /-- `data`. -/
  data : ℕ → α

/-- Why an operation on a ring fails. -/
inductive RingError where
  /-- `MC_ERROR` of `ring_array_push`. -/
  | full
  /-- `MC_ERROR` of `ring_array_pop`. -/
  | empty
  /-- The remainder by `cap + 1` is a division by zero. -/
  | divByZero
  deriving DecidableEq, Repr

/-- `ring_array_nelem`. -/
def ringArrayNelem (rpos wpos cap : UInt32) : UInt32 :=
  if rpos ≤ wpos then wpos - rpos else wpos + (cap - rpos + 1)

/-- `ring_array_empty`. -/
def ringArrayEmpty (rpos wpos : UInt32) : Bool := rpos == wpos

/-- `ring_array_full`. -/
def ringArrayFull (rpos wpos cap : UInt32) : Bool := ringArrayNelem rpos wpos cap == cap

namespace Ring

variable {α : Type}

/-- `(pos + 1) % (cap + 1)`. -/
def next (r : Ring α) (pos : UInt32) : Except RingError UInt32 :=
  if r.cap + 1 = 0 then .error .divByZero else .ok ((pos + 1) % (r.cap + 1))

/-- `ring_array_push`. -/
def push (elem : α) (r : Ring α) : Except RingError (Ring α) := do
  if ringArrayFull r.rpos r.wpos r.cap then throw .full
  let data := Function.update r.data r.wpos.toNat elem
  let newWpos ← r.next r.wpos
  return { r with data := data, wpos := newWpos }

/-- `ring_array_pop`. -/
def pop (r : Ring α) : Except RingError (α × Ring α) := do
  if ringArrayEmpty r.rpos r.wpos then throw .empty
  let elem := r.data r.rpos.toNat
  let newRpos ← r.next r.rpos
  return (elem, { r with rpos := newRpos })

/-- `ring_array_create`, on memory that holds `data`. -/
def create (cap : UInt32) (data : ℕ → α) : Ring α := ⟨cap, 0, 0, data⟩

/-! ### Rings as queues -/

/-- The cells of the ring. -/
def cells (r : Ring α) : ℕ := r.cap.toNat + 1

/-- The number of elements. -/
def nelem (r : Ring α) : ℕ := Circular.span r.cells r.rpos.toNat r.wpos.toNat

/-- The elements, the oldest first. -/
def elems (r : Ring α) : List α := Circular.slice r.cells r.data r.rpos.toNat r.nelem

/-- The positions are those of cells, and the number of cells can be represented. -/
structure Wf (r : Ring α) : Prop where
  /-- `cap + 1` does not wrap. -/
  cells : r.cells < 2 ^ 32
  /-- The read position. -/
  rpos : r.rpos.toNat < r.cells
  /-- The write position. -/
  wpos : r.wpos.toNat < r.cells

@[simp] theorem length_elems {r : Ring α} : r.elems.length = r.nelem := Circular.length_slice

theorem wf_create {cap : UInt32} {data : ℕ → α} (h : cap.toNat + 1 < 2 ^ 32) :
    (create cap data).Wf :=
  ⟨h, Nat.succ_pos _, Nat.succ_pos _⟩

@[simp] theorem elems_create {cap : UInt32} {data : ℕ → α} : (create cap data).elems = [] := by
  simp [elems, nelem, create]

namespace Wf

variable {r r' : Ring α} {x : α}

theorem cells_pos (h : r.Wf) : 0 < r.cells := Nat.zero_lt_of_lt h.rpos

theorem nelem_le (h : r.Wf) :
    r.nelem ≤ r.cap.toNat := Nat.le_of_lt_succ (Circular.span_lt h.cells_pos)

theorem toNat_cells (h : r.Wf) : (r.cap + 1).toNat = r.cells := by
  rw [UInt32.toNat_add, UInt32.toNat_one]
  exact Nat.mod_eq_of_lt h.cells

/-- The number of elements is what the program takes it for. -/
theorem toNat_nelem (h : r.Wf) : (ringArrayNelem r.rpos r.wpos r.cap).toNat = r.nelem := by
  obtain ⟨hlt, hr, hw⟩ := h
  rw [ringArrayNelem, nelem]
  split
  · rename_i hle
    have hle' := UInt32.le_iff_toNat_le.1 hle
    rw [UInt32.toNat_sub_of_le _ _ hle, Circular.span_of_le hw hle']
  · rename_i hle
    rw [UInt32.le_iff_toNat_le, not_le] at hle
    rw [Circular.span_of_lt hr hle]
    simp only [Ring.cells] at hlt hr hw ⊢
    have hsub : (r.cap - r.rpos).toNat = r.cap.toNat - r.rpos.toNat :=
      UInt32.toNat_sub_of_le _ _ (UInt32.le_iff_toNat_le.2 (by omega))
    rw [UInt32.toNat_add, UInt32.toNat_add, hsub, UInt32.toNat_one]
    omega

theorem full_iff (h : r.Wf) : ringArrayFull r.rpos r.wpos r.cap = true ↔ r.nelem = r.cap.toNat := by
  rw [ringArrayFull, beq_iff_eq, ← UInt32.toNat_inj, h.toNat_nelem]

theorem empty_iff (h : r.Wf) : ringArrayEmpty r.rpos r.wpos = true ↔ r.elems = [] := by
  rw [ringArrayEmpty, beq_iff_eq, ← List.length_eq_zero_iff, length_elems, nelem]
  constructor
  · intro heq
    rw [heq, Circular.span_self]
  · intro hz
    have hend := Circular.add_span_mod h.rpos h.wpos
    rw [hz, Nat.add_zero, Nat.mod_eq_of_lt h.rpos] at hend
    exact UInt32.toNat_inj.1 hend

/-- A position is moved on. -/
theorem next_eq (h : r.Wf) {pos : UInt32} (hpos : pos.toNat < r.cells) :
    ∃ pos', r.next pos = .ok pos' ∧ pos'.toNat = (pos.toNat + 1) % r.cells := by
  have hc := h.toNat_cells
  have hne : r.cap + 1 ≠ 0 := fun heq => by
    have hz := h.cells_pos
    rw [← hc, heq] at hz
    exact absurd hz (by decide)
  refine ⟨(pos + 1) % (r.cap + 1), by rw [next, if_neg hne], ?_⟩
  have hlt : pos.toNat + 1 < 2 ^ 32 := Nat.lt_of_le_of_lt hpos h.cells
  rw [UInt32.toNat_mod, hc, UInt32.toNat_add, UInt32.toNat_one, Nat.mod_eq_of_lt hlt]

end Wf

variable {r : Ring α} {x : α}

/-- **A push appends.** -/
theorem push_elems (h : r.Wf) (hlt : r.nelem < r.cap.toNat) :
    ∃ r', r.push x = .ok r' ∧ r'.Wf ∧ r'.cap = r.cap ∧ r'.elems = r.elems ++ [x] := by
  obtain ⟨pos, hnext, hpos⟩ := h.next_eq h.wpos
  have hfull : ringArrayFull r.rpos r.wpos r.cap = false := by
    rw [← Bool.not_eq_true, h.full_iff]
    exact hlt.ne
  refine ⟨{ r with data := Function.update r.data r.wpos.toNat x, wpos := pos }, ?_, ?_, rfl, ?_⟩
  · rw [push, hfull, hnext]
    rfl
  · exact ⟨h.cells, h.rpos, hpos ▸ Nat.mod_lt _ h.cells_pos⟩
  -- the cell written is the one after the last element
  have hspan : Circular.span r.cells r.rpos.toNat pos.toNat = r.nelem + 1 := by
    rw [hpos]
    exact Circular.span_write h.rpos h.wpos (Nat.succ_lt_succ hlt)
  have hstore : Function.update r.data r.wpos.toNat x =
      Circular.store r.cells r.data (r.rpos.toNat + r.nelem) [x] := by
    rw [Circular.store, Circular.store, nelem, Circular.add_span_mod h.rpos h.wpos]
  change Circular.slice r.cells (Function.update r.data r.wpos.toNat x) r.rpos.toNat
    (Circular.span r.cells r.rpos.toNat pos.toNat) = _
  rw [hspan, Circular.slice_add, hstore,
    Circular.slice_store_before le_rfl (Nat.succ_le_succ h.nelem_le),
      ← List.length_singleton (a := x),
    Circular.slice_store (Nat.succ_pos _)]
  rfl

/-- Nothing is pushed if `cap + 1` wraps. -/
theorem push_ne_ok (h : r.cap + 1 = 0) {r' : Ring α} : r.push x ≠ .ok r' := by
  rw [push, next, if_pos h]
  split <;> exact fun heq => by cases heq

/-- **A pop takes the first.** -/
theorem pop_elems (h : r.Wf) {xs : List α} (helems : r.elems = x :: xs) :
    ∃ r', r.pop = .ok (x, r') ∧ r'.Wf ∧ r'.cap = r.cap ∧ r'.elems = xs := by
  obtain ⟨pos, hnext, hpos⟩ := h.next_eq h.rpos
  have hempty : ringArrayEmpty r.rpos r.wpos = false := by
    rw [← Bool.not_eq_true, h.empty_iff, helems]
    exact List.cons_ne_nil _ _
  have hlen : r.nelem = xs.length + 1 := by rw [← length_elems, helems, List.length_cons]
  -- the slice is the cell read and the slice from the next position on
  have hslice : r.elems = r.data r.rpos.toNat :: Circular.slice r.cells r.data pos.toNat
      xs.length := by
    rw [elems, hlen, Nat.add_comm, Circular.slice_add, hpos, Circular.slice_mod]
    simp [Circular.slice, Nat.mod_eq_of_lt h.rpos]
  obtain ⟨hx, hxs⟩ := List.cons.inj (helems.symm.trans hslice)
  refine ⟨{ r with rpos := pos }, ?_, ?_, rfl, ?_⟩
  · rw [pop, hempty, hnext, hx]
    rfl
  · exact ⟨h.cells, hpos ▸ Nat.mod_lt _ h.cells_pos, h.wpos⟩
  · have hspan : Circular.span r.cells pos.toNat r.wpos.toNat = xs.length := by
      rw [hpos, Circular.span_read h.rpos h.wpos (by rw [← nelem, hlen]; omega), ← nelem, hlen,
        Nat.add_sub_cancel]
    change Circular.slice r.cells r.data pos.toNat (Circular.span r.cells pos.toNat r.wpos.toNat) =
        _
    rw [hspan]
    exact hxs.symm

end Ring

end Twemcache
