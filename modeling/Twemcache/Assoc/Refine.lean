import Twemcache.Assoc.Wf

/-!
# The hash table is a finite map

A history of the hash table is a list of `AssocOp`s: insertions of keys not present, deletions
of keys present, look-ups and steps of the maintenance thread, with the outcome of each
allocation of an expansion table.  `AssocOp.spec` is what such a history means for a finite
map from keys to items; `Assoc.refines_map` says that the two tables implement it, whatever
the hash function and wherever the boundary of an expansion under way stands.
-/

namespace Twemcache

/-- One call on the hash table. -/
inductive AssocOp (α κ : Type*) where
  /-- `assoc_insert(it)`; `ok` says whether an expansion table, if one is wanted, can be
  allocated. -/
  | insert (it : α) (ok : Bool)
  /-- `assoc_delete(key)`. -/
  | delete (key : κ)
  /-- `assoc_find(key)`. -/
  | find (key : κ)
  /-- One bucket move of the maintenance thread. -/
  | move

namespace AssocOp

variable {α κ : Type*} [DecidableEq κ] [DecidableEq α] (hash : κ → UInt32) (keyOf : α → κ)

/-- The effect of a call on the tables; `power` is `settings.hash_power`. -/
def exec (power : ℕ) (a : Assoc α) : AssocOp α κ → Assoc α
  | insert it ok => a.insert hash keyOf power ok it
  | delete key => a.delete hash keyOf key
  | find _ => a
  | move => a.moveBucket hash keyOf

/-- The abstract meaning of a call, `none` where the callers never make it: only absent keys
are inserted and only present ones deleted. -/
def spec (m : κ → Option α) : AssocOp α κ → Option (κ → Option α)
  | insert it _ => if m (keyOf it) = none then some (Function.update m (keyOf it) (some it)) else
      none
  | delete key => if m key = none then none else some (Function.update m key none)
  | find _ => some m
  | move => some m

end AssocOp

namespace Assoc

variable {α κ : Type*} {hash : κ → UInt32} {keyOf : α → κ}

variable (hash keyOf) in
/-- The tables `a` hold the finite map `m`. -/
structure Holds (a : Assoc α) (m : κ → Option α) : Prop where
  /-- The tables are well formed. -/
  wf : a.Wf hash keyOf
  /-- Chained are the items the map binds. -/
  has_iff : ∀ it, a.Has it ↔ m (keyOf it) = some it
  /-- The map binds a key to an item with that key. -/
  key_eq : ∀ key it, m key = some it → keyOf it = key

variable {a : Assoc α} {m m' : κ → Option α}

theorem Holds.keyInj (h : Holds hash keyOf a m) : a.KeyInj keyOf := by
  intro x y hx hy hxy
  have h1 := (h.has_iff x).1 hx
  have h2 := (h.has_iff y).1 hy
  rw [hxy, h2] at h1
  exact (Option.some.inj h1).symm

theorem Holds.find_eq [DecidableEq κ] (h : Holds hash keyOf a m) (key : κ) :
    a.find hash keyOf key = m key := by
  ext it
  rw [h.wf.find_eq_some_iff h.keyInj, h.has_iff]
  constructor
  · rintro ⟨hm, rfl⟩; exact hm
  · intro hm; exact ⟨by rw [h.key_eq key it hm]; exact hm, h.key_eq key it hm⟩

theorem holds_init (power : ℕ) : Holds hash keyOf (init power) fun _ => none :=
  ⟨wf_init power, fun it => by simp [not_has_init], fun _ _ h => by cases h⟩

variable [DecidableEq κ] [DecidableEq α]

/-- One call keeps the tables and the map in step. -/
theorem Holds.exec (h : Holds hash keyOf a m) {power : ℕ} {op : AssocOp α κ}
    (hop : op.spec keyOf m = some m') : Holds hash keyOf (op.exec hash keyOf power a) m' := by
  cases op with
  | insert it ok =>
    simp only [AssocOp.spec, Option.ite_none_right_eq_some, Option.some.injEq] at hop
    obtain ⟨hnone, rfl⟩ := hop
    have hit : ¬ a.Has it := by rw [h.has_iff, hnone]; simp
    refine ⟨h.wf.insert hit, fun x => ?_, fun key x hx => ?_⟩
    · rw [AssocOp.exec, h.wf.has_insert hit, h.has_iff, Function.update_apply]
      split_ifs with hkey
      · simp only [hkey, hnone, reduceCtorEq, or_false, Option.some.injEq, eq_comm]
      · exact or_iff_right fun hx => hkey (congrArg keyOf hx)
    · rw [Function.update_apply] at hx
      split_ifs at hx with hkey
      · obtain rfl := Option.some.inj hx; exact hkey.symm
      · exact h.key_eq key x hx
  | delete key =>
    simp only [AssocOp.spec] at hop
    split_ifs at hop with hnone
    obtain rfl := Option.some.inj hop
    obtain ⟨it, hit⟩ := Option.ne_none_iff_exists'.1 hnone
    obtain rfl := h.key_eq key it hit
    have hhas := (h.has_iff it).2 hit
    refine ⟨h.wf.delete h.keyInj hhas, fun x => ?_, fun key x hx => ?_⟩
    · rw [AssocOp.exec, h.wf.has_delete h.keyInj hhas, h.has_iff, Function.update_apply]
      split_ifs with hkey
      · simp only [hkey, hit, Option.some.injEq, iff_false, not_and]
        exact fun hne he => hne he.symm
      · exact and_iff_right_of_imp fun _ hx => hkey (congrArg keyOf hx)
    · rw [Function.update_apply] at hx
      split_ifs at hx
      exact h.key_eq key x hx
  | find key =>
    obtain rfl := Option.some.inj hop
    exact h
  | move =>
    obtain rfl := Option.some.inj hop
    exact ⟨h.wf.moveBucket, fun x => h.wf.has_moveBucket.trans (h.has_iff x), h.key_eq⟩

theorem Holds.foldl (ops : List (AssocOp α κ)) {power : ℕ} (h : Holds hash keyOf a m)
    (hops : ops.foldlM (fun m op => op.spec keyOf m) m = some m') :
    Holds hash keyOf (ops.foldl (fun a op => op.exec hash keyOf power a) a) m' := by
  induction ops generalizing a m with
  | nil =>
    obtain rfl : m = m' := Option.some.inj hops
    exact h
  | cons op ops ih =>
    obtain ⟨m₁, hop, hrest⟩ := Option.bind_eq_some_iff.1 hops
    exact ih (h.exec hop) hrest

/-- **The hash table refines a finite map**, also in the middle of an expansion: after any
admissible history, `assoc_find` returns what the map binds; every bound item is in exactly
one bucket list, once, and nothing else is chained; when the boundary has reached the end of
the old table that table is empty; and all bucket indices are in range as long as the power
is below 32. -/
theorem refines_map (power : ℕ) (ops : List (AssocOp α κ)) (m : κ → Option α)
    (hops : ops.foldlM (fun m op => op.spec keyOf m) (fun _ => none) = some m) :
    let a := ops.foldl (fun a op => op.exec hash keyOf power a) (init power)
    (∀ key, a.find hash keyOf key = m key) ∧
      (∀ it, m (keyOf it) = some it →
        ∃ b, (a.list b).count it = 1 ∧ ∀ b', b' ≠ b → it ∉ a.list b') ∧
      (∀ b, ∀ it ∈ a.list b, m (keyOf it) = some it) ∧
      (a.expandBucket = hashSize (a.hashPower - 1) → ∀ i, a.old.bucket i = []) ∧
      (a.hashPower < 32 → ∀ key, match a.getBucket hash key with
        | .primary i => i < a.primary.size
        | .old i => i < a.old.size) := by
  intro a
  have h : Holds hash keyOf a m := (holds_init power).foldl ops hops
  refine ⟨h.find_eq, fun it hit => ?_, fun b it hit => (h.has_iff it).1 ⟨b, hit⟩, fun hend => ?_,
    fun hp key => h.wf.getBucket_lt_size hp key⟩
  · have hmem := h.wf.has_iff.1 ((h.has_iff it).2 hit)
    refine ⟨_, List.count_eq_one_of_mem (h.wf.nodup _) hmem, fun b' hb' hmem' => ?_⟩
    exact hb' (h.wf.home b' it hmem')
  · refine h.wf.old_eq_nil ?_
    by_contra hexp
    exact absurd hend (h.wf.bound (by simpa using hexp)).ne

/-! ### An expansion under way

With autotune, a table of `2 ^ 16` buckets is expanded when it holds more than 98304 items. -/

/-- The keys before `n` are inserted, and expansion tables can be allocated. -/
def inserts (n : ℕ) : List (AssocOp ℕ ℕ) := (List.range n).map fun key => .insert key true

/-- The tables after some calls, without a `hash_power` of one's own. -/
def after (ops : List (AssocOp ℕ ℕ)) : Assoc ℕ :=
  ops.foldl (fun a op => op.exec (fun key => key.toUInt32) id 0 a) (init 0)

theorem inserts_succ (n : ℕ) : inserts (n + 1) = inserts n ++ [.insert n true] := by
  simp [inserts, List.range_succ]

theorem spec_inserts (n : ℕ) : (inserts n).foldlM (fun m op => op.spec id m) (fun _ => none) =
    some fun key => if key < n then some key else none := by
  induction n with
  | zero => rfl
  | succ n ih =>
    rw [inserts_succ, List.foldlM_append, ih]
    simp only [Option.bind_eq_bind, Option.bind_some, List.foldlM_cons, List.foldlM_nil,
      AssocOp.spec, id_eq, lt_irrefl, if_false, if_true, Option.pure_def, Option.some.injEq]
    funext key
    rw [Function.update_apply]
    split_ifs with h1 h2 h3 <;> simp_all <;> omega

/-- Up to 98304 items, there is no expansion. -/
theorem after_inserts {n : ℕ} (hn : n ≤ 98304) :
    (after (inserts n)).nhashItem = n ∧ (after (inserts n)).hashPower = 16 ∧
      (after (inserts n)).expanding = false := by
  induction n with
  | zero => exact ⟨rfl, rfl, rfl⟩
  | succ n ih =>
    obtain ⟨hitems, hpower, hexp⟩ := ih (by omega)
    have hsucc : after (inserts (n + 1)) =
        (after (inserts n)).insert (fun key => key.toUInt32) id 0 true n := by
      rw [after, inserts_succ, List.foldl_append]
      rfl
    have hneeded : ((after (inserts n)).push (fun key => key.toUInt32) id n).expandNeeded 0 =
        false := by
      simp only [expandNeeded, push, setList_hashPower, hitems, hpower, decide_eq_false_iff_not]
      have hsize : hashSize 16 * 3 / 2 = 98304 := by decide
      omega
    rw [hsucc, insert, hneeded]
    exact ⟨by simp [push, hitems], by simp [push, hpower], by simp [push, hexp]⟩

/-- Moving items off an old bucket leaves the boundary where it is. -/
theorem foldl_moveItem_fields (l : List ℕ) (a : Assoc ℕ) (hash : ℕ → UInt32) :
    let a' := l.foldl (fun a it => a.moveItem hash id it) a
    a'.hashPower = a.hashPower ∧ a'.expanding = a.expanding ∧ a'.expandBucket = a.expandBucket := by
  induction l generalizing a with
  | nil => exact ⟨rfl, rfl, rfl⟩
  | cons it l ih => simpa [moveItem] using ih (a.moveItem hash id it)

/-- A bucket that is not the last one moves the boundary by one. -/
theorem moveBucket_fields {a : Assoc ℕ} (hash : ℕ → UInt32) (he : a.expanding = true)
    (hmore : a.expandBucket + 1 ≠ hashSize (a.hashPower - 1)) :
    (a.moveBucket hash id).expanding = true ∧
        (a.moveBucket hash id).expandBucket = a.expandBucket + 1 := by
  obtain ⟨hpower, hexp, hbucket⟩ := foldl_moveItem_fields (a.list (.old a.expandBucket)) a hash
  rw [moveBucket, if_pos he]
  generalize (a.list (.old a.expandBucket)).foldl (fun a it => a.moveItem hash id it) a = moved
    at hpower hexp hbucket
  simp [hpower, hexp, hbucket, hmore, he]

/-- One item more than `n` is inserted, one bucket is moved, and a key is deleted. -/
def expandingOps (n : ℕ) : List (AssocOp ℕ ℕ) := inserts (n + 1) ++ [.move, .delete 0]

/-- One item more than fits starts an expansion. -/
theorem expanding_after {n : ℕ} (hn : n = 98304) :
    (after (expandingOps n)).expanding = true ∧ (after (expandingOps n)).expandBucket = 1 := by
  obtain ⟨hitems, hpower, hexp⟩ := after_inserts hn.le
  generalize hfull : after (inserts n) = full at hitems hpower hexp
  have hneeded : (full.push (fun key => key.toUInt32) id n).expandNeeded 0 = true := by
    simp [expandNeeded, push, hitems, hpower, hexp, hashSize, hn]
  have hops :
      after (expandingOps n) = (((full.insert (fun key => key.toUInt32) id 0 true n).moveBucket
      (fun key => key.toUInt32) id).delete (fun key => key.toUInt32) id 0) := by
    rw [← hfull, after, expandingOps, inserts_succ, List.append_assoc, List.foldl_append]
    rfl
  have hgrown : (full.insert (fun key => key.toUInt32) id 0 true n).hashPower = 17 ∧
      (full.insert (fun key => key.toUInt32) id 0 true n).expanding = true ∧
      (full.insert (fun key => key.toUInt32) id 0 true n).expandBucket = 0 := by
    rw [insert, if_pos hneeded]
    exact ⟨by simp [expand, push, hpower], rfl, rfl⟩
  generalize full.insert (fun key => key.toUInt32) id 0 true n = grown at hops hgrown
  obtain ⟨hpower', hexpanding, hbucket⟩ := hgrown
  have hmoved :=
    moveBucket_fields (fun key => key.toUInt32) hexpanding (by rw [hbucket, hpower']; decide)
  rw [hops, delete]
  simpa [hbucket] using hmoved

/-- While the table is being expanded, the deleted key is not found, and the others are, in the old
table and in the new one. -/
theorem refines_map_expanding :
    (after (expandingOps 98304)).expanding = true ∧
      (after (expandingOps 98304)).find (fun key => key.toUInt32) id 0 = none ∧
      (after (expandingOps 98304)).find (fun key => key.toUInt32) id 65536 = some 65536 ∧
      (after (expandingOps 98304)).find (fun key => key.toUInt32) id 1 = some 1 := by
  have hexp := (expanding_after (n := 98304) rfl).1
  have hspec : ∀ n, (expandingOps n).foldlM (fun m op => op.spec id m) (fun _ => none) =
      some (Function.update (fun key => if key < n + 1 then some key else none) 0 none) :=
        fun n => by
    rw [expandingOps, List.foldlM_append, spec_inserts]
    simp [AssocOp.spec]
  have hfind := (@refines_map ℕ ℕ (fun key => key.toUInt32) id _ _ 0 _ _ (hspec 98304)).1
  exact ⟨hexp, hfind 0, hfind 65536, hfind 1⟩

end Assoc

end Twemcache
