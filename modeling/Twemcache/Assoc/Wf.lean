import Twemcache.Assoc.Basic
import Mathlib.Tactic.Ring

/-!
# Well-formed hash tables

The invariant that relates the two tables, the two masks and the moving boundary: an item is
only ever in the bucket that `assoc_get_bucket` computes for its key (`Assoc.Wf.home`), and
there once.  Each operation is then described by what it does to the set of chained items
(`Assoc.Has`); the tables, masks and boundary do not occur in these descriptions.
-/

namespace Twemcache

namespace Assoc

variable {α κ : Type*} {hash : κ → UInt32} {keyOf : α → κ} {a : Assoc α}

/-- `it` is chained in some bucket. -/
def Has (a : Assoc α) (it : α) : Prop := ∃ b, it ∈ a.list b

variable (hash keyOf a) in
/-- The tables are well formed. -/
structure Wf : Prop where
  /-- There are at least two buckets. -/
  power_pos : 0 < a.hashPower
  /-- The boundary is a bucket of the old table. -/
  bound : a.expanding = true → a.expandBucket < hashSize (a.hashPower - 1)
  /-- An item is in the bucket its key selects. -/
  home : ∀ b it, it ∈ a.list b → b = a.getBucket hash (keyOf it)
  /-- No item is twice in a bucket. -/
  nodup : ∀ b, (a.list b).Nodup
  /-- The size of the primary table. -/
  primary_size : a.primary.size = hashSize a.hashPower % 2 ^ 32
  /-- The size of the old table. -/
  old_size : a.expanding = true → a.old.size = hashSize (a.hashPower - 1) % 2 ^ 32

variable (keyOf a) in
/-- No two chained items have the same key. -/
def KeyInj : Prop := ∀ x y, a.Has x → a.Has y → keyOf x = keyOf y → x = y

/-! ### Buckets -/

theorem land_hashMask (n hv : ℕ) : hv &&& hashMask n = hv % hashSize n :=
  Nat.and_two_pow_sub_one_eq_mod hv n

theorem hashSize_pos (n : ℕ) : 0 < hashSize n := Nat.two_pow_pos n

theorem bucketOf_eq (hv : ℕ) : a.bucketOf hv =
    if a.expanding = true ∧ a.expandBucket ≤ hv % hashSize (a.hashPower - 1) then
      .old (hv % hashSize (a.hashPower - 1))
    else .primary (hv % hashSize a.hashPower) := by
  simp only [bucketOf, land_hashMask]

theorem bucketOf_of_not_expanding (h : a.expanding = false) (hv : ℕ) :
    a.bucketOf hv = .primary (hv % hashSize a.hashPower) := by
  simp [bucketOf_eq, h]

theorem list_setList (a : Assoc α) (b b' : Bucket) (l : List α) :
    (a.setList b l).list b' = if b' = b then l else a.list b' := by
  cases b <;> cases b' <;> simp [setList, list, Function.update_apply]

@[simp] theorem setList_hashPower (b : Bucket) (l : List α) :
    (a.setList b l).hashPower = a.hashPower := by cases b <;> rfl

@[simp] theorem setList_expanding (b : Bucket) (l : List α) :
    (a.setList b l).expanding = a.expanding := by cases b <;> rfl

@[simp] theorem setList_expandBucket (b : Bucket) (l : List α) :
    (a.setList b l).expandBucket = a.expandBucket := by cases b <;> rfl

@[simp] theorem setList_nhashItem (b : Bucket) (l : List α) :
    (a.setList b l).nhashItem = a.nhashItem := by cases b <;> rfl

@[simp] theorem setList_primary_size (b : Bucket) (l : List α) :
    (a.setList b l).primary.size = a.primary.size := by cases b <;> rfl

@[simp] theorem setList_old_size (b : Bucket) (l : List α) :
    (a.setList b l).old.size = a.old.size := by cases b <;> rfl

/-- `assoc_get_bucket` depends on the power and the boundary only. -/
theorem getBucket_congr {a' : Assoc α} (hp : a'.hashPower = a.hashPower)
    (he : a'.expanding = a.expanding) (hb : a'.expandBucket = a.expandBucket) (key : κ) :
    a'.getBucket hash key = a.getBucket hash key := by
  simp only [getBucket, bucketOf, hp, he, hb]

@[simp] theorem setList_getBucket (b : Bucket) (l : List α) (key : κ) :
    (a.setList b l).getBucket hash key = a.getBucket hash key :=
  getBucket_congr (by simp) (by simp) (by simp) key

/-! ### Looking up -/

theorem Wf.has_iff (h : a.Wf hash keyOf) {it : α} :
    a.Has it ↔ it ∈ a.list (a.getBucket hash (keyOf it)) :=
  ⟨fun ⟨b, hb⟩ => h.home b it hb ▸ hb, fun hm => ⟨_, hm⟩⟩

theorem Wf.find_eq_some_iff [DecidableEq κ] (h : a.Wf hash keyOf) (hk : a.KeyInj keyOf) {key : κ}
    {it : α} :
    a.find hash keyOf key = some it ↔ a.Has it ∧ keyOf it = key := by
  constructor
  · intro hf
    refine ⟨⟨_, List.mem_of_find?_eq_some hf⟩, ?_⟩
    simpa using List.find?_some hf
  · rintro ⟨hit, rfl⟩
    have hmem := h.has_iff.1 hit
    obtain ⟨x, hx⟩ : ∃ x, a.find hash keyOf (keyOf it) = some x := by
      rw [← Option.isSome_iff_exists, find, List.find?_isSome]
      exact ⟨it, hmem, by simp⟩
    have hkey : keyOf x = keyOf it := by simpa using List.find?_some hx
    rw [hx, hk x it ⟨_, List.mem_of_find?_eq_some hx⟩ hit hkey]

theorem Wf.find_eq_none_iff [DecidableEq κ] (h : a.Wf hash keyOf) (hk : a.KeyInj keyOf) {key : κ} :
    a.find hash keyOf key = none ↔ ∀ it, a.Has it → keyOf it ≠ key := by
  rw [Option.eq_none_iff_forall_ne_some]
  refine forall_congr' fun it => ?_
  rw [Ne, h.find_eq_some_iff hk, not_and]

/-- Without an expansion under way the old table is empty. -/
theorem Wf.old_eq_nil (h : a.Wf hash keyOf) (he : a.expanding = false) (i : ℕ) :
    a.old.bucket i = [] := by
  refine List.eq_nil_iff_forall_not_mem.2 fun it hit => ?_
  have := h.home (.old i) it hit
  rw [getBucket, bucketOf_of_not_expanding he] at this
  cases this

/-- The bucket index is inside the table it indexes, for powers below 32. -/
theorem Wf.getBucket_lt_size (h : a.Wf hash keyOf) (hp : a.hashPower < 32) (key : κ) :
    match a.getBucket hash key with
    | .primary i => i < a.primary.size
    | .old i => i < a.old.size := by
  have hsize : ∀ n < 32, hashSize n % 2 ^ 32 = hashSize n := fun n hn =>
    Nat.mod_eq_of_lt (Nat.pow_lt_pow_right (by omega) hn)
  rw [getBucket, bucketOf_eq]
  split_ifs with hexp
  · simp only [h.old_size hexp.1, hsize _ (show a.hashPower - 1 < 32 by omega)]
    exact Nat.mod_lt _ (hashSize_pos _)
  · simp only [h.primary_size, hsize _ hp]
    exact Nat.mod_lt _ (hashSize_pos _)

/-- The items' memory may change as long as the keys of chained items do not. -/
theorem Wf.congr_keyOf (h : a.Wf hash keyOf) {keyOf' : α → κ}
    (hkey : ∀ it, a.Has it → keyOf' it = keyOf it) : a.Wf hash keyOf' :=
  { h with home := fun b it hit => by rw [hkey it ⟨b, hit⟩]; exact h.home b it hit }

/-! ### Initial table -/

theorem not_has_init (power : ℕ) (it : α) : ¬ (init power : Assoc α).Has it := by
  rintro ⟨b, hb⟩
  cases b <;> simp [list, init, assocCreateTable] at hb

theorem wf_init (power : ℕ) : (init power : Assoc α).Wf hash keyOf where
  power_pos := by
    simp only [init, hashDefaultPower]
    split_ifs <;> omega
  bound := fun he => by simp [init] at he
  home := fun b it hit => absurd ⟨b, hit⟩ (not_has_init power it)
  nodup := fun b => by cases b <;> simp [list, init, assocCreateTable]
  primary_size := rfl
  old_size := fun he => by simp [init] at he

/-! ### Inserting -/

theorem has_push {it x : α} :
    (a.push hash keyOf it).Has x ↔ x = it ∨ a.Has x := by
  have hlist : ∀ b, (a.push hash keyOf it).list b =
      if b = a.getBucket hash (keyOf it) then it :: a.list (a.getBucket hash (keyOf it))
      else a.list b := fun b => list_setList a _ b _
  constructor
  · rintro ⟨b, hb⟩
    rw [hlist] at hb
    split_ifs at hb with hb'
    · rcases List.mem_cons.1 hb with rfl | hx
      · exact .inl rfl
      · exact .inr ⟨_, hx⟩
    · exact .inr ⟨b, hb⟩
  · rintro (rfl | ⟨b, hb⟩)
    · exact ⟨a.getBucket hash (keyOf x), by simp [hlist]⟩
    · refine ⟨b, ?_⟩
      rw [hlist]
      split_ifs with hb'
      · exact List.mem_cons_of_mem _ (hb' ▸ hb)
      · exact hb

theorem Wf.push (h : a.Wf hash keyOf) {it : α} (hit : ¬ a.Has it) :
    (a.push hash keyOf it).Wf hash keyOf where
  power_pos := by simpa [Assoc.push] using h.power_pos
  bound := by simpa [Assoc.push] using h.bound
  home := fun b x hx => by
    have hbucket : (a.push hash keyOf it).getBucket hash (keyOf x) =
        a.getBucket hash (keyOf x) :=
      getBucket_congr (by simp [Assoc.push]) (by simp [Assoc.push]) (by simp [Assoc.push]) _
    rw [hbucket]
    change x ∈ (a.setList _ _).list b at hx
    rw [list_setList] at hx
    split_ifs at hx with hb
    · rcases List.mem_cons.1 hx with rfl | hx
      · exact hb
      · exact hb.trans (h.home _ x hx)
    · exact h.home b x hx
  nodup := fun b => by
    change ((a.setList _ _).list b).Nodup
    rw [list_setList]
    split_ifs
    · exact List.nodup_cons.2 ⟨fun hmem => hit ⟨_, hmem⟩, h.nodup _⟩
    · exact h.nodup b
  primary_size := by simpa [Assoc.push] using h.primary_size
  old_size := by simpa [Assoc.push] using h.old_size

theorem Wf.has_expand (h : a.Wf hash keyOf) (he : a.expanding = false) {ok : Bool} {x : α} :
    (a.expand ok).Has x ↔ a.Has x := by
  have hold : ∀ i, a.old.bucket i = [] := h.old_eq_nil he
  cases ok with
  | false =>
    constructor
    · rintro ⟨b, hb⟩
      cases b with
      | primary i => exact ⟨.primary i, hb⟩
      | old i => simp [Assoc.expand, list] at hb
    · rintro ⟨b, hb⟩
      cases b with
      | primary i => exact ⟨.primary i, hb⟩
      | old i => simp [list, hold] at hb
  | true =>
    constructor
    · rintro ⟨b, hb⟩
      cases b with
      | primary i => simp [Assoc.expand, list, assocCreateTable] at hb
      | old i => exact ⟨.primary i, hb⟩
    · rintro ⟨b, hb⟩
      cases b with
      | primary i => exact ⟨.old i, hb⟩
      | old i => simp [list, hold] at hb

/-- The primary table becomes the old one: index `hv % 2^power` in it is `hv % 2^(power' - 1)`
for the new power. -/
theorem Wf.expand (h : a.Wf hash keyOf) (he : a.expanding = false) (ok : Bool) :
    (a.expand ok).Wf hash keyOf := by
  have hprimary : ∀ i x, x ∈ a.primary.bucket i →
      i = (hash (keyOf x)).toNat % hashSize a.hashPower := fun i x hx => by
    have := h.home (.primary i) x hx
    rw [getBucket, bucketOf_of_not_expanding he] at this
    exact Bucket.primary.inj this
  cases ok with
  | false =>
    exact
      { power_pos := h.power_pos
        bound := fun hexp => absurd (he.symm.trans hexp) (by simp)
        home := fun b x hx => by
          cases b with
          | primary i => exact h.home (.primary i) x hx
          | old i => simp [Assoc.expand, list] at hx
        nodup := fun b => by
          cases b with
          | primary i => exact h.nodup (.primary i)
          | old i => simp [Assoc.expand, list]
        primary_size := h.primary_size
        old_size := fun hexp => absurd (he.symm.trans hexp) (by simp) }
  | true =>
    exact
      { power_pos := Nat.succ_pos _
        bound := fun _ => hashSize_pos _
        home := fun b x hx => by
          cases b with
          | primary i => simp [Assoc.expand, list, assocCreateTable] at hx
          | old i =>
            -- the old bucket has not been moved: `expandBucket` starts at 0
            have hi := hprimary i x hx
            simp [getBucket, bucketOf_eq, Assoc.expand, hi]
        nodup := fun b => by
          cases b with
          | primary i => simp [Assoc.expand, list, assocCreateTable]
          | old i => exact h.nodup (.primary i)
        primary_size := rfl
        old_size := fun _ => by simpa [Assoc.expand] using h.primary_size }

theorem Wf.has_insert (h : a.Wf hash keyOf) {power : ℕ} {ok : Bool} {it x : α}
    (hit : ¬ a.Has it) :
    (a.insert hash keyOf power ok it).Has x ↔ x = it ∨ a.Has x := by
  rw [← has_push]
  simp only [Assoc.insert]
  split_ifs with hexp
  · exact (h.push hit).has_expand (by simp_all [expandNeeded])
  · rfl

theorem Wf.insert (h : a.Wf hash keyOf) {power : ℕ} {ok : Bool} {it : α} (hit : ¬ a.Has it) :
    (a.insert hash keyOf power ok it).Wf hash keyOf := by
  simp only [Assoc.insert]
  split_ifs with hexp
  · exact (h.push hit).expand (by simp_all [expandNeeded]) ok
  · exact h.push hit

theorem insert_nhashItem (power : ℕ) (ok : Bool) (it : α) :
    (a.insert hash keyOf power ok it).nhashItem = a.nhashItem + 1 := by
  simp only [Assoc.insert]
  split_ifs
  · cases ok <;> simp [Assoc.expand, Assoc.push]
  · simp [Assoc.push]

/-! ### Deleting -/

/-- In a bucket that holds `it` and no other item with its key, unlinking the first item with
the key unlinks `it`. -/
theorem eraseP_key_eq [DecidableEq κ] [DecidableEq α] {l : List α} {it : α} (hit : it ∈ l)
    (huniq : ∀ x ∈ l, keyOf x = keyOf it → x = it) :
    (l.eraseP fun x => keyOf x = keyOf it) = l.erase it := by
  induction l with
  | nil => rfl
  | cons x l ih =>
    by_cases hx : x = it
    · subst hx; simp
    · have hne : keyOf x ≠ keyOf it := fun hc => hx (huniq x List.mem_cons_self hc)
      have hl : it ∈ l := (List.mem_cons.1 hit).resolve_left (Ne.symm hx)
      rw [List.eraseP_cons_of_neg (by simpa using hne), List.erase_cons_tail (by simpa using hx),
        ih hl fun y hy => huniq y (List.mem_cons_of_mem _ hy)]

section Delete

variable [DecidableEq κ] [DecidableEq α]

theorem Wf.delete_list (h : a.Wf hash keyOf) (hk : a.KeyInj keyOf) {it : α} (hit : a.Has it)
    (b : Bucket) : (a.delete hash keyOf (keyOf it)).list b = (a.list b).erase it := by
  change (a.setList _ _).list b = _
  rw [list_setList, eraseP_key_eq (h.has_iff.1 hit) fun x hx => hk x it ⟨_, hx⟩ hit]
  split_ifs with hb
  · rw [hb]
  · exact (List.erase_of_not_mem fun hmem => hb (h.home b it hmem)).symm

theorem Wf.has_delete (h : a.Wf hash keyOf) (hk : a.KeyInj keyOf) {it x : α} (hit : a.Has it) :
    (a.delete hash keyOf (keyOf it)).Has x ↔ x ≠ it ∧ a.Has x := by
  simp only [Has, h.delete_list hk hit, (h.nodup _).mem_erase_iff, exists_and_left]

theorem Wf.delete (h : a.Wf hash keyOf) (hk : a.KeyInj keyOf) {it : α} (hit : a.Has it) :
    (a.delete hash keyOf (keyOf it)).Wf hash keyOf where
  power_pos := by simpa [Assoc.delete] using h.power_pos
  bound := by simpa [Assoc.delete] using h.bound
  home := fun b x hx => by
    have hbucket : (a.delete hash keyOf (keyOf it)).getBucket hash (keyOf x) =
        a.getBucket hash (keyOf x) :=
      getBucket_congr (by simp [Assoc.delete]) (by simp [Assoc.delete]) (by simp [Assoc.delete]) _
    rw [h.delete_list hk hit] at hx
    rw [hbucket]
    exact h.home b x (List.mem_of_mem_erase hx)
  nodup := fun b => by
    rw [h.delete_list hk hit]
    exact (h.nodup b).erase it
  primary_size := by simpa [Assoc.delete] using h.primary_size
  old_size := by simpa [Assoc.delete] using h.old_size

end Delete

theorem delete_nhashItem [DecidableEq κ] (key : κ) :
    (a.delete hash keyOf key).nhashItem = a.nhashItem - 1 := by
  simp [Assoc.delete]

/-! ### Moving a bucket -/

section Move

variable (hash keyOf) in
/-- The state of the move loop: the items `l` are still in the old bucket, those moved so far
are already in their new one. -/
structure Moving (a : Assoc α) (l : List α) : Prop where
  /-- Whatever is in the bucket being moved is still to be moved. -/
  list_old : a.list (.old a.expandBucket) = l
  /-- Items elsewhere in the old table are past the boundary. -/
  home_old : ∀ i it, i ≠ a.expandBucket → it ∈ a.list (.old i) →
    i = (hash (keyOf it)).toNat % hashSize (a.hashPower - 1) ∧ a.expandBucket < i
  /-- Items of the old bucket being moved belong there. -/
  home_cur : ∀ it ∈ l, (hash (keyOf it)).toNat % hashSize (a.hashPower - 1) = a.expandBucket
  /-- Items of the primary table are up to the boundary. -/
  home_primary : ∀ i it, it ∈ a.list (.primary i) →
    i = (hash (keyOf it)).toNat % hashSize a.hashPower ∧
      (hash (keyOf it)).toNat % hashSize (a.hashPower - 1) ≤ a.expandBucket
  /-- No item is twice in a bucket. -/
  nodup : ∀ b, (a.list b).Nodup
  /-- No item waiting to be moved is in the primary table. -/
  disjoint : ∀ it ∈ l, ∀ i, it ∉ a.list (.primary i)

theorem Wf.moving (h : a.Wf hash keyOf) (he : a.expanding = true) :
    Moving hash keyOf a (a.list (.old a.expandBucket)) := by
  have hold : ∀ i it, it ∈ a.list (.old i) →
      i = (hash (keyOf it)).toNat % hashSize (a.hashPower - 1) ∧ a.expandBucket ≤ i := by
    intro i it hit
    have := h.home _ it hit
    rw [getBucket, bucketOf_eq] at this
    split_ifs at this with hc
    exact ⟨Bucket.old.inj this, Bucket.old.inj this ▸ hc.2⟩
  have hprimary : ∀ i it, it ∈ a.list (.primary i) →
      i = (hash (keyOf it)).toNat % hashSize a.hashPower ∧
        (hash (keyOf it)).toNat % hashSize (a.hashPower - 1) < a.expandBucket := by
    intro i it hit
    have := h.home _ it hit
    rw [getBucket, bucketOf_eq] at this
    split_ifs at this with hc
    exact ⟨Bucket.primary.inj this, Nat.lt_of_not_le fun hle => hc ⟨he, hle⟩⟩
  exact
    { list_old := rfl
      home_old := fun i it hi hit => ⟨(hold i it hit).1, lt_of_le_of_ne (hold i it hit).2 hi.symm⟩
      home_cur := fun it hit => (hold _ it hit).1.symm
      home_primary := fun i it hit => ⟨(hprimary i it hit).1, (hprimary i it hit).2.le⟩
      nodup := h.nodup
      disjoint := fun it hit i hit' =>
        absurd (hold _ it hit).1 (hprimary i it hit').2.ne' }

/-- The boundary moves past an emptied bucket. -/
theorem Moving.advance (h : Moving hash keyOf a []) (he : a.expanding = true)
    (hlt : a.expandBucket < hashSize (a.hashPower - 1)) (hpos : 0 < a.hashPower)
    (hps : a.primary.size = hashSize a.hashPower % 2 ^ 32)
    (hos : a.old.size = hashSize (a.hashPower - 1) % 2 ^ 32) :
    (if a.expandBucket + 1 = hashSize (a.hashPower - 1) then
      { a with expandBucket := a.expandBucket + 1, expanding := false }
    else { a with expandBucket := a.expandBucket + 1 }).Wf hash keyOf := by
  have hold : ∀ i it, it ∈ a.list (.old i) →
      i = (hash (keyOf it)).toNat % hashSize (a.hashPower - 1) ∧ a.expandBucket < i := by
    intro i it hit
    by_cases hi : i = a.expandBucket
    · rw [hi, h.list_old] at hit; cases hit
    · exact h.home_old i it hi hit
  split_ifs with hend
  · refine ⟨hpos, fun hc => by simp at hc, fun b it hit => ?_, h.nodup, hps,
      fun hc => by simp at hc⟩
    -- the last bucket was moved: the old table holds nothing any more
    rw [getBucket, bucketOf_of_not_expanding rfl]
    cases b with
    | primary i => rw [(h.home_primary i it hit).1]
    | old i =>
      obtain ⟨hi, hlt'⟩ := hold i it hit
      have := Nat.mod_lt (hash (keyOf it)).toNat (hashSize_pos (a.hashPower - 1))
      omega
  · refine ⟨hpos, fun _ => ?_, fun b it hit => ?_, h.nodup, hps, fun _ => hos⟩
    · change a.expandBucket + 1 < hashSize (a.hashPower - 1)
      omega
    · rw [getBucket, bucketOf_eq]
      cases b with
      | primary i =>
        obtain ⟨hi, hle⟩ := h.home_primary i it hit
        -- what was moved came from buckets up to the boundary
        rw [if_neg (by simp only [not_and, not_le]; intro; omega), hi]
      | old i =>
        obtain ⟨hi, hlt'⟩ := hold i it hit
        -- what was not moved lies beyond it
        rw [if_pos ⟨he, by simp only; omega⟩, hi]

variable [DecidableEq α]

theorem moveItem_list_primary (a : Assoc α) (it : α) (i : ℕ) :
    (a.moveItem hash keyOf it).list (.primary i) =
      if i = (hash (keyOf it)).toNat % hashSize a.hashPower then it :: a.list (.primary i)
      else a.list (.primary i) := by
  simp only [moveItem, land_hashMask, list_setList, Bucket.primary.injEq, reduceCtorEq, ite_false]
  split_ifs with h
  · rw [h]
  · rfl

theorem moveItem_list_old (a : Assoc α) (it : α) (i : ℕ) :
    (a.moveItem hash keyOf it).list (.old i) =
      if i = a.expandBucket then (a.list (.old i)).erase it else a.list (.old i) := by
  simp only [moveItem, land_hashMask, list_setList, Bucket.old.injEq, reduceCtorEq, ite_false]
  split_ifs with h
  · rw [h]
  · rfl

/-- One turn of the move loop. -/
theorem Moving.moveItem {it : α} {l : List α} (h : Moving hash keyOf a (it :: l)) :
    Moving hash keyOf (a.moveItem hash keyOf it) l := by
  have hpow : (a.moveItem hash keyOf it).hashPower = a.hashPower := by simp [Assoc.moveItem]
  have hbd : (a.moveItem hash keyOf it).expandBucket = a.expandBucket := by
    simp [Assoc.moveItem]
  have hnd : (it :: l).Nodup := by rw [← h.list_old]; exact h.nodup _
  refine ⟨?_, ?_, ?_, ?_, ?_, ?_⟩
  · rw [hbd, moveItem_list_old, if_pos rfl, h.list_old, List.erase_cons_head]
  · intro i x hi hx
    rw [hpow, hbd]
    rw [hbd] at hi
    rw [moveItem_list_old, if_neg hi] at hx
    exact h.home_old i x hi hx
  · intro x hx
    rw [hpow, hbd]
    exact h.home_cur x (List.mem_cons_of_mem _ hx)
  · intro i x hx
    rw [hpow, hbd]
    rw [moveItem_list_primary] at hx
    -- the item is put at the head of the bucket that `it` has in the larger table
    split_ifs at hx with hi
    · rcases List.mem_cons.1 hx with rfl | hx
      · exact ⟨hi, (h.home_cur x List.mem_cons_self).le⟩
      · exact h.home_primary i x hx
    · exact h.home_primary i x hx
  · intro b
    cases b with
    | primary i =>
      rw [moveItem_list_primary]
      split_ifs
      · exact List.nodup_cons.2 ⟨h.disjoint it List.mem_cons_self i, h.nodup _⟩
      · exact h.nodup _
    | old i =>
      rw [moveItem_list_old]
      split_ifs
      · exact (h.nodup _).erase it
      · exact h.nodup _
  · intro x hx i hxi
    rw [moveItem_list_primary] at hxi
    split_ifs at hxi
    · -- the rest of the bucket is still apart from the primary table, as `it` was in it only once
      rcases List.mem_cons.1 hxi with rfl | hxi
      · exact (List.nodup_cons.1 hnd).1 hx
      · exact h.disjoint x (List.mem_cons_of_mem _ hx) i hxi
    · exact h.disjoint x (List.mem_cons_of_mem _ hx) i hxi

theorem Moving.has_moveItem {it x : α} {l : List α} (h : Moving hash keyOf a (it :: l)) :
    (a.moveItem hash keyOf it).Has x ↔ a.Has x := by
  have hcur : it ∈ a.list (.old a.expandBucket) := by rw [h.list_old]; exact List.mem_cons_self
  have hnew : (a.moveItem hash keyOf it).Has it :=
    ⟨.primary ((hash (keyOf it)).toNat % hashSize a.hashPower), by simp [moveItem_list_primary]⟩
  constructor
  · rintro ⟨b, hb⟩
    cases b with
    | primary i =>
      rw [moveItem_list_primary] at hb
      split_ifs at hb
      · rcases List.mem_cons.1 hb with rfl | hb
        · exact ⟨_, hcur⟩
        · exact ⟨_, hb⟩
      · exact ⟨_, hb⟩
    | old i =>
      rw [moveItem_list_old] at hb
      split_ifs at hb
      · exact ⟨_, List.mem_of_mem_erase hb⟩
      · exact ⟨_, hb⟩
  · rintro ⟨b, hb⟩
    -- `it` changes its place, every other item stays where it is
    by_cases hx : x = it
    · exact hx ▸ hnew
    refine ⟨b, ?_⟩
    cases b with
    | primary i =>
      rw [moveItem_list_primary]
      split_ifs
      · exact List.mem_cons_of_mem _ hb
      · exact hb
    | old i =>
      rw [moveItem_list_old]
      split_ifs
      · exact (List.mem_erase_of_ne hx).2 hb
      · exact hb

/-- The move loop, over the whole bucket. -/
theorem Moving.foldl (l : List α) (h : Moving hash keyOf a l) :
    Moving hash keyOf (l.foldl (fun a it => a.moveItem hash keyOf it) a) [] ∧
      (∀ x, (l.foldl (fun a it => a.moveItem hash keyOf it) a).Has x ↔ a.Has x) ∧
      (l.foldl (fun a it => a.moveItem hash keyOf it) a).hashPower = a.hashPower ∧
      (l.foldl (fun a it => a.moveItem hash keyOf it) a).expanding = a.expanding ∧
      (l.foldl (fun a it => a.moveItem hash keyOf it) a).expandBucket = a.expandBucket ∧
      (l.foldl (fun a it => a.moveItem hash keyOf it) a).nhashItem = a.nhashItem ∧
      (l.foldl (fun a it => a.moveItem hash keyOf it) a).primary.size = a.primary.size ∧
      (l.foldl (fun a it => a.moveItem hash keyOf it) a).old.size = a.old.size := by
  induction l generalizing a with
  | nil => exact ⟨h, fun _ => Iff.rfl, rfl, rfl, rfl, rfl, rfl, rfl⟩
  | cons it l ih =>
    obtain ⟨h1, h2, h3, h4, h5, h6, h7, h8⟩ := ih h.moveItem
    refine ⟨h1, fun x => (h2 x).trans h.has_moveItem, ?_, ?_, ?_, ?_, ?_, ?_⟩
    · exact h3.trans (by simp [Assoc.moveItem])
    · exact h4.trans (by simp [Assoc.moveItem])
    · exact h5.trans (by simp [Assoc.moveItem])
    · exact h6.trans (by simp [Assoc.moveItem])
    · exact h7.trans (by simp [Assoc.moveItem])
    · exact h8.trans (by simp [Assoc.moveItem])

theorem Wf.moveBucket (h : a.Wf hash keyOf) : (a.moveBucket hash keyOf).Wf hash keyOf := by
  simp only [Assoc.moveBucket]
  by_cases he : a.expanding = true
  · rw [if_pos he]
    obtain ⟨h1, -, h3, h4, h5, -, h7, h8⟩ := (h.moving he).foldl
    refine h1.advance (h4.trans he) ?_ ?_ ?_ ?_
    · rw [h5, h3]; exact h.bound he
    · rw [h3]; exact h.power_pos
    · rw [h7, h3]; exact h.primary_size
    · rw [h8, h3]; exact h.old_size he
  · rw [if_neg he]; exact h

theorem Wf.has_moveBucket (h : a.Wf hash keyOf) {x : α} :
    (a.moveBucket hash keyOf).Has x ↔ a.Has x := by
  simp only [Assoc.moveBucket]
  by_cases he : a.expanding = true
  · rw [if_pos he]
    obtain ⟨-, h2, -⟩ := (h.moving he).foldl
    rw [← h2 x]
    split_ifs <;> rfl
  · rw [if_neg he]

theorem Wf.moveBucket_nhashItem (h : a.Wf hash keyOf) :
    (a.moveBucket hash keyOf).nhashItem = a.nhashItem := by
  simp only [Assoc.moveBucket]
  by_cases he : a.expanding = true
  · rw [if_pos he]
    obtain ⟨-, -, -, -, -, h6, -⟩ := (h.moving he).foldl
    rw [← h6]
    split_ifs <;> rfl
  · rw [if_neg he]

end Move

end Assoc

end Twemcache
