import Mathlib.Algebra.BigOperators.Group.Finset.Basic
import Mathlib.Data.Set.Card
import Mathlib.Algebra.Order.BigOperators.Group.Finset

/-!
# Families of queues

A family of duplicate-free lists `q i` that together hold the elements of a relation: `x` is in
`q i` exactly when `C i x`.  Moving an element changes one list of the family and one pair of
the relation; the lemmas here say so for the operations on tail queues (insert at the head or
the tail, remove, move to the tail).
-/

namespace Twemcache

variable {ι α : Type*}

/-- The queue `q i` holds exactly the elements related to `i` by `C`, each once. -/
def Tracks (q : ι → List α) (C : ι → α → Prop) : Prop :=
  ∀ i, (q i).Nodup ∧ ∀ x, x ∈ q i ↔ C i x

namespace Tracks

variable {q : ι → List α} {C D : ι → α → Prop}

theorem mem_iff (h : Tracks q C) {i : ι} {x : α} : x ∈ q i ↔ C i x := (h i).2 x

theorem congr (h : Tracks q C) (hCD : ∀ i x, C i x ↔ D i x) : Tracks q D :=
  fun i => ⟨(h i).1, fun x => ((h i).2 x).trans (hCD i x)⟩

variable [DecidableEq ι] {i : ι} {x : α}

theorem insertTail (h : Tracks q C) (hx : ¬ C i x)
    (hD : ∀ j y, D j y ↔ C j y ∨ (j = i ∧ y = x)) :
    Tracks (Function.update q i (q i ++ [x])) D := by
  intro j
  rw [Function.update_apply]
  split_ifs with hj
  · subst hj
    refine ⟨List.nodup_append.2 ⟨(h j).1, List.nodup_singleton x, ?_⟩, fun y => ?_⟩
    · rintro y hy z hz rfl
      rw [List.mem_singleton.1 hz] at hy
      exact hx ((h j).2 x |>.1 hy)
    · simp [hD, (h j).2]
  · exact ⟨(h j).1, fun y => by simp [hD, hj, (h j).2]⟩

theorem insertHead (h : Tracks q C) (hx : ¬ C i x)
    (hD : ∀ j y, D j y ↔ C j y ∨ (j = i ∧ y = x)) :
    Tracks (Function.update q i (x :: q i)) D := by
  intro j
  rw [Function.update_apply]
  split_ifs with hj
  · subst hj
    refine ⟨List.nodup_cons.2 ⟨fun hm => hx ((h j).2 x |>.1 hm), (h j).1⟩, fun y => ?_⟩
    simp [hD, (h j).2, or_comm]
  · exact ⟨(h j).1, fun y => by simp [hD, hj, (h j).2]⟩

variable [DecidableEq α]

theorem erase (h : Tracks q C) (hD : ∀ j y, D j y ↔ C j y ∧ ¬ (j = i ∧ y = x)) :
    Tracks (Function.update q i ((q i).erase x)) D := by
  intro j
  rw [Function.update_apply]
  split_ifs with hj
  · subst hj
    refine ⟨(h j).1.erase x, fun y => ?_⟩
    rw [(h j).1.mem_erase_iff, (h j).2, hD]
    simp [and_comm]
  · exact ⟨(h j).1, fun y => by simp [hD, hj, (h j).2]⟩

theorem moveToTail (h : Tracks q C) (hx : C i x) :
    Tracks (Function.update q i ((q i).erase x ++ [x])) C := by
  have herase := h.erase (i := i) (x := x) (D := fun j y => C j y ∧ ¬ (j = i ∧ y = x))
    fun _ _ => Iff.rfl
  have htail := herase.insertTail (i := i) (x := x) (D := C) (by simp) fun j y => by
    by_cases hjy : j = i ∧ y = x
    · simp [hjy.1, hjy.2, hx]
    · simp [hjy]
  simpa using htail

end Tracks

/-! ### The number of queued elements -/

/-- The number of elements in the queues `0, …, n - 1`. -/
def queued (q : ℕ → List α) (n : ℕ) : ℕ := ∑ i ∈ Finset.range n, (q i).length

theorem queued_update (q : ℕ → List α) {n i : ℕ} (hi : i < n) (l : List α) :
    queued (Function.update q i l) n + (q i).length = queued q n + l.length := by
  have hmem : i ∈ Finset.range n := Finset.mem_range.2 hi
  rw [queued, queued, ← Finset.add_sum_erase _ _ hmem, ← Finset.add_sum_erase _ _ hmem,
    Function.update_self]
  have : ∑ j ∈ (Finset.range n).erase i, (Function.update q i l j).length =
      ∑ j ∈ (Finset.range n).erase i, (q j).length :=
    Finset.sum_congr rfl fun j hj => by
      rw [Function.update_of_ne (Finset.ne_of_mem_erase hj)]
  omega

/-- Elements that are in one queue each are as many as the queues are long. -/
theorem Tracks.ncard [DecidableEq α] {q : ℕ → List α} {C : ℕ → α → Prop} {P : α → Prop}
    (h : Tracks q C) {n : ℕ} (hn : ∀ i x, C i x → i < n) (hinj : ∀ i j x, C i x → C j x → i = j)
    (hP : ∀ x, P x ↔ ∃ i, C i x) : {x | P x}.ncard = queued q n := by
  have hset : {x | P x} = ((Finset.range n).biUnion fun i => (q i).toFinset : Finset α) := by
    ext x
    simp only [Set.mem_ofPred_eq, hP, Finset.coe_biUnion, Finset.coe_range, Set.mem_Iio,
      List.coe_toFinset, Set.mem_iUnion, h.mem_iff, exists_prop]
    exact ⟨fun ⟨i, hi⟩ => ⟨i, hn i x hi, hi⟩, fun ⟨i, _, hi⟩ => ⟨i, hi⟩⟩
  rw [hset, Set.ncard_coe_finset, Finset.card_biUnion, queued]
  · exact Finset.sum_congr rfl fun i _ => List.toFinset_card_of_nodup (h i).1
  · intro i _ j _ hij
    rw [Function.onFun, Finset.disjoint_left]
    intro x hxi hxj
    rw [List.mem_toFinset, h.mem_iff] at hxi hxj
    exact hij (hinj i j x hxi hxj)

end Twemcache
