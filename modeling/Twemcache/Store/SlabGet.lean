import Twemcache.Store.Alloc

/-!
# The slabs that `slab_get` looks at

When no new slab can be had, `slab_get` looks for one that nobody uses: first among the oldest 50 of
the slab queue, then among 50 random picks from the slab table.  The first search returns the first
slab without references.  So does the second one, but not when that is its last pick: it counts the
picks down before it looks at the slab, and reads from the count alone whether it found one.

## Main definitions

* `slabGetAccesses` : what `slab_get` reads from and writes to the slab table, with the divisors of
  the picks.
* `slabsExamined` : the slabs that `slab_get` looks at.
-/

namespace Twemcache

/-- An access of `slab_get` to `heapinfo.slab_table`. -/
structure TableAccess where
  /-- What `rand` was divided by to obtain the index, if it was. -/
  divisor : Option ℕ
  /-- The index. -/
  idx : ℕ
  /-- The number of slabs that have been allocated, with the one that is being appended. -/
  nslab : ℕ
  deriving DecidableEq, Repr

/-- The index is not the remainder of a division by zero, and is that of a slab. -/
def TableAccess.Valid (a : TableAccess) : Prop := a.divisor ≠ some 0 ∧ a.idx < a.nslab

instance (a : TableAccess) : Decidable a.Valid := inferInstanceAs (Decidable (_ ∧ _))

namespace Store

variable (cfg : Config) (ch : Choice) (s : Store)

/-- The accesses of `slab_table_rand`, call by call, in the loop of `slab_evict_rand`. -/
def slabRandAccesses (rand : ℕ → ℕ) : ℕ → ℕ → List TableAccess
  | 0, _ => []
  | tries + 1, k =>
    ⟨some s.slabTable.length, rand k % s.slabTable.length, s.slabTable.length⟩ ::
      match s.slabTableRand (rand k) with
      | none => []
      | some sl =>
        if tries > 0 ∧ (s.slabs sl).refcount ≠ 0 then slabRandAccesses rand tries (k + 1)
        else []

/-- The accesses of `slab_get`. -/
def slabGetAccesses : List TableAccess :=
  match s.slabGetNew cfg ch with
  | (some sl, s') => [⟨none, sl, s'.slabTable.length⟩]
  | (none, s') =>
    match (if s'.evictOpt &&& (evictCs ||| evictAs) ≠ 0 then s'.slabEvictLruPick else none) with
    | some _ => []
    | none => if s'.evictOpt &&& evictRs ≠ 0 then s'.slabRandAccesses ch.rand
        slabRandMaxTries 0 else []

/-- The first `n` random picks. -/
def slabPicks (n : ℕ) : List ℕ := (List.range n).filterMap fun k => s.slabTableRand (ch.rand k)

/-- The slabs of the slab queue that `slab_get` looks at. -/
def slabsOldest : List ℕ :=
  if s.evictOpt &&& (evictCs ||| evictAs) ≠ 0 then s.slabLruq.take slabLruMaxTries else []

/-- The slabs that `slab_get` looks at, up to the one that it takes. -/
def slabsExamined : List ℕ :=
  s.slabsOldest ++ if s.evictOpt &&& evictRs ≠ 0 then s.slabPicks ch slabRandMaxTries else []

/-- Nobody uses the slab. -/
def unreferenced (sl : ℕ) : Bool := decide ((s.slabs sl).refcount = 0)

variable {cfg ch s} {rand : ℕ → ℕ}

/-! ### The random picks -/

/-- With a slab in the table, picks are valid. -/
theorem slabRandAccesses_valid (hne : s.slabTable ≠ []) (tries k : ℕ) :
    ∀ a ∈ s.slabRandAccesses rand tries k, a.Valid := by
  have hpos : 0 < s.slabTable.length := List.length_pos_iff.2 hne
  induction tries generalizing k with
  | zero => simp [slabRandAccesses]
  | succ tries ih =>
    intro a ha
    simp only [slabRandAccesses, List.mem_cons] at ha
    rcases ha with rfl | ha
    · exact ⟨fun h => hpos.ne' (Option.some.inj h), Nat.mod_lt _ hpos⟩
    · cases hpick : s.slabTableRand (rand k) with
      | none => simp [hpick] at ha
      | some sl =>
        simp only [hpick] at ha
        split_ifs at ha with hgo
        · exact ih (k + 1) a ha
        · simp at ha

/-- Without one, the first pick divides by zero. -/
theorem slabRandAccesses_valid_iff {tries : ℕ} (htries : 0 < tries) (k : ℕ) :
    (∀ a ∈ s.slabRandAccesses rand tries k, a.Valid) ↔ s.slabTable ≠ [] := by
  obtain ⟨n, rfl⟩ : ∃ n, tries = n + 1 := ⟨tries - 1, by omega⟩
  refine ⟨fun hall hnil => ?_, fun hne => slabRandAccesses_valid hne (n + 1) k⟩
  have hvalid := hall ⟨some s.slabTable.length, rand k % s.slabTable.length, s.slabTable.length⟩
    (by simp [slabRandAccesses])
  refine hvalid.1 ?_
  rw [hnil]
  rfl

/-- The loop of `slab_evict_rand` finds the first unreferenced slab among all its picks but the
last. -/
theorem slabRandLoop_eq_find (tries k : ℕ) :
    (match s.slabRandLoop rand (tries + 1) k with
      | (some sl, left) => if left = 0 then none else some sl
      | (none, _) => none) =
      ((List.range' k tries).filterMap fun i => s.slabTableRand (rand i)).find? s.unreferenced := by
  by_cases hnil : s.slabTable = []
  · have hpick : ∀ i, s.slabTableRand (rand i) = none := fun i => by simp [slabTableRand, hnil]
    simp [slabRandLoop, hpick]
  · have hpos : 0 < s.slabTable.length := List.length_pos_iff.2 hnil
    induction tries generalizing k with
    | zero =>
      simp only [slabRandLoop]
      cases s.slabTableRand (rand k) with
      | none => rfl
      | some sl => simp
    | succ tries ih =>
      obtain ⟨sl, hpick⟩ : ∃ sl, s.slabTableRand (rand k) = some sl :=
        ⟨_, List.getElem?_eq_getElem (Nat.mod_lt _ hpos)⟩
      rw [List.range'_succ, List.filterMap_cons, hpick, slabRandLoop, hpick]
      dsimp only
      rw [List.find?_cons]
      by_cases href : (s.slabs sl).refcount = 0
      · rw [if_neg fun h => h.2 href]
        simp [unreferenced, href]
      · rw [if_pos ⟨Nat.succ_pos _, href⟩, ih (k + 1)]
        simp [unreferenced, href]

/-- **`slab_evict_rand` finds the first unreferenced slab of the first 49 picks.** -/
theorem slabEvictRandPick_eq_find :
    s.slabEvictRandPick ch = (s.slabPicks ch (slabRandMaxTries - 1)).find? s.unreferenced := by
  rw [slabPicks, List.range_eq_range', ← slabRandLoop_eq_find]
  rfl

/-! ### What `slab_get` returns -/

theorem slabGetNew_of_noSlab (hno : s.NoSlab cfg ch) : s.slabGetNew cfg ch = (none, s) :=
  Prod.ext hno (slabGetNew_none (Prod.ext hno rfl))

/-- The search of the slab queue, where it is made. -/
theorem slabsOldest_find :
    (if s.evictOpt &&& (evictCs ||| evictAs) ≠ 0 then s.slabEvictLruPick else none) =
      s.slabsOldest.find? s.unreferenced := by
  unfold slabsOldest
  split_ifs with hopt
  · rfl
  · rfl

/-- Slabs are picked at random when `EVICT_RS` is set and the slab queue has not given one. -/
theorem slabGetAccesses_of_noSlab (hno : s.NoSlab cfg ch) :
    s.slabGetAccesses cfg ch =
      if s.slabsOldest.find? s.unreferenced = none ∧ s.evictOpt &&& evictRs ≠ 0 then
        s.slabRandAccesses ch.rand slabRandMaxTries 0
      else [] := by
  rw [slabGetAccesses, slabGetNew_of_noSlab hno]
  dsimp only
  rw [slabsOldest_find]
  cases s.slabsOldest.find? s.unreferenced with
  | some sl => simp
  | none => simp

/-- The slab that `slab_get` evicts when there is no new one. -/
theorem slabGet_of_noSlab (hno : s.NoSlab cfg ch) (id : ℕ) :
    s.slabGet cfg ch id =
      match (s.slabsOldest ++ if s.evictOpt &&& evictRs ≠ 0 then s.slabPicks ch
        (slabRandMaxTries - 1)
        else []).find? s.unreferenced with
      | some sl => (true, (s.slabEvictOne cfg sl).slabAddOne cfg sl id)
      | none => (false, s) := by
  have hrand : (if s.evictOpt &&& evictRs ≠ 0 then s.slabEvictRandPick ch else none) =
      (if s.evictOpt &&& evictRs ≠ 0 then s.slabPicks ch (slabRandMaxTries - 1) else []).find?
          s.unreferenced := by
    split_ifs with hopt
    · exact slabEvictRandPick_eq_find
    · rfl
  rw [slabGet, slabObtain, slabGetNew_of_noSlab hno]
  dsimp only
  rw [slabsOldest_find, hrand, List.find?_append]
  cases s.slabsOldest.find? s.unreferenced with
  | some sl => rfl
  | none =>
    dsimp only [Option.none_or]
    generalize (if s.evictOpt &&& evictRs ≠ 0 then s.slabPicks ch (slabRandMaxTries - 1)
      else []).find?
      s.unreferenced = r
    cases r with
    | some sl => rfl
    | none => rfl

theorem find_unreferenced_eq_none {l : List ℕ} :
    l.find? s.unreferenced = none ↔ ∀ sl ∈ l, (s.slabs sl).refcount ≠ 0 := by
  simp [unreferenced]

/-- The last pick. -/
theorem slabPicks_succ (n : ℕ) :
    s.slabPicks ch (n + 1) = s.slabPicks ch n ++ (s.slabTableRand (ch.rand n)).toList := by
  rw [slabPicks, List.range_succ, List.filterMap_append, slabPicks]
  rfl

end Store

end Twemcache
