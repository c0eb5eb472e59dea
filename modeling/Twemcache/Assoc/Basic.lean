import Mathlib.Algebra.Group.Nat.Defs
import Mathlib.Data.List.Basic
import Mathlib.Data.List.Nodup
import Mathlib.Logic.Function.Basic

/-!
# The hash table

`mc_assoc.c`: a table of `2^hash_power` bucket lists that grows by incremental expansion.
While an expansion is under way items live in two tables, and a boundary `expand_bucket`
moves through the old one, one bucket at each step of the maintenance thread.

The table is generic in the items `α` it chains and in their keys `κ`; the items' own memory
holds the keys, so `keyOf` is an argument of every operation.  A bucket list is a `List`, its
head the first item of the chain.

A table records the number of buckets it was allocated with, computed in 32 bits as in the
source.  The source does not check an index against it; neither does the model, which treats
the buckets as a total function (`Assoc.getBucket_lt_size` says when the index is in range).
-/

namespace Twemcache

/-- `HASHSIZE(n)`. -/
def hashSize (n : ℕ) : ℕ := 2 ^ n

/-- `HASHMASK(n)`. -/
def hashMask (n : ℕ) : ℕ := hashSize n - 1

/-- `HASH_DEFAULT_POWER`. -/
def hashDefaultPower : ℕ := 16

/-- A bucket array: the number of buckets allocated and the bucket lists. -/
structure Table (α : Type*) where
  /-- Number of buckets allocated. -/
  size : ℕ
  /-- The list in each bucket. -/
  bucket : ℕ → List α

/-- `assoc_create_table`: `table_sz` is a `uint32_t`. -/
def assocCreateTable {α : Type*} (tableSz : ℕ) : Table α := ⟨tableSz % 2 ^ 32, fun _ => []⟩

/-- The static variables of `mc_assoc.c`. -/
structure Assoc (α : Type*) where
  /-- `primary_hashtable`. -/
  primary : Table α
  /-- `old_hashtable`. -/
  old : Table α
  /-- `nhash_item`. -/
  nhashItem : ℕ
  /-- `hash_power`. -/
  hashPower : ℕ
  /-- `expanding`. -/
  expanding : Bool
  /-- `expand_bucket`. -/
  expandBucket : ℕ

/-- The address of a bucket. -/
inductive Bucket where
  /-- `&primary_hashtable[i]`. -/
  | primary (i : ℕ)
  /-- `&old_hashtable[i]`. -/
  | old (i : ℕ)
  deriving DecidableEq

namespace Assoc

variable {α κ : Type*} [DecidableEq κ] (hash : κ → UInt32) (keyOf : α → κ)

/-- `assoc_init`; `power` is `settings.hash_power`. -/
def init (power : ℕ) : Assoc α where
  primary := assocCreateTable (hashSize (if 0 < power then power else hashDefaultPower))
  old := ⟨0, fun _ => []⟩
  nhashItem := 0
  hashPower := if 0 < power then power else hashDefaultPower
  expanding := false
  expandBucket := 0

variable (a : Assoc α)

/-- The list in a bucket. -/
def list : Bucket → List α
  | .primary i => a.primary.bucket i
  | .old i => a.old.bucket i

/-- Overwrite the list in a bucket. -/
def setList (b : Bucket) (l : List α) : Assoc α :=
  match b with
  | .primary i => { a with primary := ⟨a.primary.size, Function.update a.primary.bucket i l⟩ }
  | .old i => { a with old := ⟨a.old.size, Function.update a.old.bucket i l⟩ }

/-- `assoc_get_bucket`, for the hash value `hv`. -/
def bucketOf (hv : ℕ) : Bucket :=
  let oldbucket := hv &&& hashMask (a.hashPower - 1)
  let curbucket := hv &&& hashMask a.hashPower
  if a.expanding = true ∧ a.expandBucket ≤ oldbucket then .old oldbucket
  else .primary curbucket

/-- `assoc_get_bucket`. -/
def getBucket (key : κ) : Bucket := a.bucketOf (hash key).toNat

/-- `assoc_find`. -/
def find (key : κ) : Option α := (a.list (a.getBucket hash key)).find? fun it => keyOf it = key

/-- `assoc_expand_needed`; `power` is `settings.hash_power`, `0` for autotune. -/
def expandNeeded (power : ℕ) : Bool :=
  decide (power = 0 ∧ a.expanding = false ∧ a.nhashItem > hashSize a.hashPower * 3 / 2)

/-- `assoc_expand`; `ok` says whether the new table could be allocated. -/
def expand (ok : Bool) : Assoc α :=
  if ok then
    { a with
      old := a.primary
      primary := assocCreateTable (hashSize (a.hashPower + 1))
      hashPower := a.hashPower + 1
      expanding := true
      expandBucket := 0 }
  else { a with old := ⟨0, fun _ => []⟩ }

/-- The list update of `assoc_insert`. -/
def push (it : α) : Assoc α :=
  let b := a.getBucket hash (keyOf it)
  { a.setList b (it :: a.list b) with nhashItem := a.nhashItem + 1 }

/-- `assoc_insert`. -/
def insert (power : ℕ) (ok : Bool) (it : α) : Assoc α :=
  let a' := a.push hash keyOf it
  if a'.expandNeeded power then a'.expand ok else a'

/-- `assoc_delete`: unlink the first item of the bucket with this key. -/
def delete (key : κ) : Assoc α :=
  let b := a.getBucket hash key
  { a.setList b ((a.list b).eraseP fun it => keyOf it = key) with nhashItem := a.nhashItem - 1 }

/-- The loop body of the maintenance thread: take an item off its old bucket and put it at the
head of its new one. -/
def moveItem (a : Assoc α) [DecidableEq α] (it : α) : Assoc α :=
  let b := Bucket.primary ((hash (keyOf it)).toNat &&& hashMask a.hashPower)
  let a' := a.setList (.old a.expandBucket) ((a.list (.old a.expandBucket)).erase it)
  a'.setList b (it :: a'.list b)

/-- One bucket move of `assoc_maintenance_thread` (`nhash_move_size` is 1). -/
def moveBucket [DecidableEq α] : Assoc α :=
  if a.expanding then
    let a' := (a.list (.old a.expandBucket)).foldl (fun a it => a.moveItem hash keyOf it) a
    if a'.expandBucket + 1 = hashSize (a'.hashPower - 1) then
      { a' with expandBucket := a'.expandBucket + 1, expanding := false }
    else { a' with expandBucket := a'.expandBucket + 1 }
  else a

end Assoc

end Twemcache
