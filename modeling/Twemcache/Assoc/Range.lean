import Twemcache.Assoc.Refine

/-!
# Bucket indices and table sizes

`assoc_get_bucket` masks the hash value in 64 bits, while the number of buckets of a new table is
kept in 32 bits.  The option `-e` admits the power 32, at which a table has no bucket at all.

## Main results

* `Assoc.bucket_in_range` : when an index is that of a bucket, in every run of the hash table.
-/

namespace Twemcache

/-- `HASH_MAX_POWER`. -/
def hashMaxPower : ℕ := 32

namespace Assoc

variable {α κ : Type*} {hash : κ → UInt32} {keyOf : α → κ} {a : Assoc α}

/-- The index is smaller than the number of buckets of the table that it is used with. -/
def InRange (a : Assoc α) : Bucket → Prop
  | .primary i => i < a.primary.size
  | .old i => i < a.old.size

instance (a : Assoc α) (b : Bucket) : Decidable (a.InRange b) := by
  cases b <;> exact Nat.decLt _ _

/-- A table of `2^n` buckets has room for all values that the mask leaves, unless its size is cut to
32 bits. -/
theorem mod_hashSize_lt_iff (hv n : ℕ) : hv % hashSize n < hashSize n % 2 ^ 32 ↔ n < 32 := by
  constructor
  · intro hlt
    by_contra hge
    obtain ⟨k, rfl⟩ := Nat.exists_eq_add_of_le (Nat.le_of_not_lt hge)
    have hzero : hashSize (32 + k) % 2 ^ 32 = 0 := by
      rw [hashSize, Nat.pow_add]
      exact Nat.mul_mod_right _ _
    omega
  · intro hn
    have hsize : hashSize n < 2 ^ 32 := Nat.pow_lt_pow_right (by omega) hn
    rw [Nat.mod_eq_of_lt hsize]
    exact Nat.mod_lt _ (hashSize_pos n)

/-- The index is in range if the table that is used was not cut. -/
theorem Wf.inRange_iff (h : a.Wf hash keyOf) (key : κ) : a.InRange (a.getBucket hash key) ↔
    a.hashPower < 32 ∨ a.hashPower = 32 ∧ a.expanding = true ∧
      a.expandBucket ≤ (hash key).toNat % hashSize (a.hashPower - 1) := by
  have hpos := h.power_pos
  rw [getBucket, bucketOf_eq]
  split_ifs with hold
  · change _ < a.old.size ↔ _
    rw [h.old_size hold.1, mod_hashSize_lt_iff]
    constructor
    · intro hlt
      have hcases : a.hashPower < 32 ∨ a.hashPower = 32 := by omega
      exact hcases.imp_right fun heq => ⟨heq, hold⟩
    · rintro (hlt | ⟨heq, -⟩)
      · omega
      · omega
  · change _ < a.primary.size ↔ _
    rw [h.primary_size, mod_hashSize_lt_iff]
    exact ⟨.inl, fun hcases => hcases.resolve_right fun hbig => hold hbig.2⟩

variable [DecidableEq κ] [DecidableEq α]

/-- **A bucket index is in range if and only if the hash power is below 32**, or the expansion from
31 to 32 is under way and has not come to the bucket of the key; this in every state of every run,
for every initial power and every sequence of insertions, deletions, look-ups and bucket moves. -/
theorem bucket_in_range (power : ℕ) (ops : List (AssocOp α κ)) (m : κ → Option α)
    (hops : ops.foldlM (fun m op => op.spec keyOf m) (fun _ => none) = some m) (key : κ) :
    let a := ops.foldl (fun a op => op.exec hash keyOf power a) (init power)
    a.InRange (a.getBucket hash key) ↔ a.hashPower < 32 ∨ a.hashPower = 32 ∧ a.expanding = true ∧
      a.expandBucket ≤ (hash key).toNat % hashSize (a.hashPower - 1) := by
  intro a
  have h : Holds hash keyOf a m := (holds_init power).foldl ops hops
  exact h.wf.inRange_iff key

/-- With `-e 1`, four items share two buckets. -/
theorem bucket_in_range_four :
    let ops : List (AssocOp ℕ ℕ) :=
      [.insert 1 true, .insert 2 true, .insert 3 true, .insert 4 true, .move]
    let a := ops.foldl (fun a op => op.exec (fun k => k.toUInt32) id 1 a) (init 1)
    a.InRange (a.getBucket (fun k => k.toUInt32) 3) :=
  (@bucket_in_range ℕ ℕ (fun k => k.toUInt32) id _ _ 1 _ _ rfl 3).2 (.inl (by decide))

/-- With `-e 32` the table has no bucket, and every index is out of range. -/
theorem bucket_out_of_range : 32 ≤ hashMaxPower ∧ ((init 32 : Assoc ℕ).primary.size = 0) ∧
    ¬ ∀ key : ℕ,
        (init 32 : Assoc ℕ).InRange ((init 32 : Assoc ℕ).getBucket (fun k => k.toUInt32) key) := by
  refine ⟨le_rfl, rfl, fun hall => ?_⟩
  have hzero := hall 0
  revert hzero
  decide

end Assoc

end Twemcache
