import Mathlib.Logic.Function.Basic
import Mathlib.Data.Nat.Notation

/-!
# The abstract cache

A cache is a partial map from keys to entries.  The storage operations bind a key to an entry
under a cas id that the cache chooses; an entry that has expired when it is stored is not
visible, and the operation leaves its key unbound.  A cache may forget entries when room is made
for a new one, and at no other time.
-/

namespace Twemcache

/-- What a key is bound to. -/
structure Entry (V : Type*) where
  /-- The value. -/
  value : V
  /-- Flags of the client. -/
  flags : ℕ
  /-- Expiry time, `0` for never. -/
  exptime : ℕ
  /-- The cas id. -/
  cas : ℕ
  deriving DecidableEq, Repr

/-- The entry has expired. -/
def Entry.Expired {V : Type*} (e : Entry V) (now : ℕ) : Prop := e.exptime ≠ 0 ∧ e.exptime ≤ now

instance {V : Type*} (e : Entry V) (now : ℕ) : Decidable (e.Expired now) :=
  inferInstanceAs (Decidable (_ ∧ _))

/-- A cache: the entries that are visible. -/
abbrev Cache (K V : Type*) := K → Option (Entry V)

namespace Cache

/-- The operations of a cache.  With the storage operations comes the new entry; its cas id is
the one that the client sent. -/
inductive Op (K V : Type*) where
  /-- Room is made. -/
  | alloc
  /-- Nothing. -/
  | skip
  | get (key : K)
  | set (key : K) (e : Entry V)
  | add (key : K) (e : Entry V)
  | replace (key : K) (e : Entry V)
  | cas (key : K) (e : Entry V)
  | delete (key : K)
  deriving DecidableEq, Repr

/-- The answers of a cache. -/
inductive Reply (V : Type*) where
  | none
  | value (e : Option (Entry V))
  | stored
  | exists
  | notFound
  | deleted
  deriving DecidableEq, Repr

variable {K V : Type*} [DecidableEq K]

/-- Bind a key under the id `cas`. -/
def bind (now cas : ℕ) (m : Cache K V) (key : K) (e : Entry V) : Cache K V :=
  Function.update m key (if e.Expired now then Option.none else some { e with cas := cas })

/-- The answer to an operation and the cache after it; `cas` is the next cas id. -/
def apply (now cas : ℕ) (m : Cache K V) : Op K V → Reply V × Cache K V
  | .alloc => (.none, m)
  | .skip => (.none, m)
  | .get key => (.value (m key), m)
  | .set key e => (.none, m.bind now cas key e)
  | .add key e =>
    match m key with
    | Option.none => (.stored, m.bind now cas key e)
    | some _ => (.exists, m)
  | .replace key e =>
    match m key with
    | Option.none => (.notFound, m)
    | some _ => (.stored, m.bind now cas key e)
  | .cas key e =>
    match m key with
    | Option.none => (.notFound, m)
    | some o => if o.cas = e.cas then (.stored, m.bind now cas key e) else (.exists, m)
  | .delete key =>
    match m key with
    | Option.none => (.notFound, m)
    | some _ => (.deleted, Function.update m key Option.none)

/-- A key that was deleted is unbound. -/
theorem apply_delete_self {now cas : ℕ} {m m' : Cache K V} {key : K} {r : Reply V}
    (h : m.apply now cas (.delete key) = (r, m')) : m' key = Option.none := by
  simp only [apply] at h
  cases hm : m key with
  | none =>
    rw [hm] at h
    obtain ⟨-, rfl⟩ := Prod.mk.inj h
    exact hm
  | some e =>
    rw [hm] at h
    obtain ⟨-, rfl⟩ := Prod.mk.inj h
    exact Function.update_self ..

/-- `m'` is `m` without some of its entries. -/
def Forgets (m m' : Cache K V) : Prop := ∀ key, m' key = m key ∨ m' key = Option.none

/-- An operation is answered: making room may forget entries, all others do what `apply` says. -/
def Step (now cas : ℕ) (m : Cache K V) : Op K V → Reply V → Cache K V → Prop
  | .alloc, _, m' => m.Forgets m'
  | op, r, m' => m.apply now cas op = (r, m')

end Cache

end Twemcache
