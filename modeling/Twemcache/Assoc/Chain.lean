import Twemcache.Assoc.Wf

/-!
# Chains in any state of the table

What is said here needs no assumption about the table: an operation chains no item but the one it is
given, an item that was just inserted is the one that is found under its key, and deleting a key
does not change what is found under others.  These facts remain when the rest of the server has lost
track of its items.
-/

namespace Twemcache

namespace Assoc

variable {α κ : Type*} {hash : κ → UInt32} {keyOf : α → κ} {a : Assoc α} {it x : α} {power : ℕ}
  {ok : Bool} {key : κ}

theorem Has.of_setList {b : Bucket} {l : List α} (h : (a.setList b l).Has x) : x ∈ l ∨ a.Has x := by
  obtain ⟨b', hb'⟩ := h
  rw [list_setList] at hb'
  split_ifs at hb'
  · exact .inl hb'
  · exact .inr ⟨b', hb'⟩

theorem Has.of_expand (h : (a.expand ok).Has x) : a.Has x := by
  obtain ⟨b, hb⟩ := h
  cases ok with
  | true =>
    cases b with
    | primary i => exact absurd hb List.not_mem_nil
    | old i => exact ⟨.primary i, hb⟩
  | false =>
    cases b with
    | primary i => exact ⟨.primary i, hb⟩
    | old i => exact absurd hb List.not_mem_nil

theorem Has.of_insert (h : (a.insert hash keyOf power ok it).Has x) : x = it ∨ a.Has x := by
  unfold insert at h
  dsimp only at h
  split_ifs at h
  · exact has_push.1 h.of_expand
  · exact has_push.1 h

theorem Has.of_moveItem [DecidableEq α] (h : (a.moveItem hash keyOf it).Has x) :
    x = it ∨ a.Has x := by
  have hold : ∀ y, (a.setList (.old a.expandBucket) ((a.list (.old a.expandBucket)).erase it)).Has
      y → a.Has y :=
    fun y hy => hy.of_setList.elim (fun hx => ⟨_, List.mem_of_mem_erase hx⟩) id
  rcases Has.of_setList h with hx | hx
  · exact (List.mem_cons.1 hx).imp_right fun hx => hold x ⟨_, hx⟩
  · exact .inr (hold x hx)

theorem Has.of_moveBucket [DecidableEq α] (h : (a.moveBucket hash keyOf).Has x) : a.Has x := by
  -- the items that are moved were chained before
  have hfold : ∀ (l : List α) (b : Assoc α), (∀ y ∈ l, a.Has y) → (∀ y, b.Has y → a.Has y) →
      (l.foldl (fun b it => b.moveItem hash keyOf it) b).Has x → a.Has x := by
    intro l
    induction l with
    | nil => exact fun b _ hb hx => hb x hx
    | cons y l ih =>
      refine fun b hl hb => ih _ (fun z hz => hl z (List.mem_cons_of_mem y hz)) fun z hz => ?_
      rcases hz.of_moveItem with rfl | hz
      · exact hl z List.mem_cons_self
      · exact hb z hz
  unfold moveBucket at h
  split_ifs at h
  · refine hfold (a.list (.old a.expandBucket)) a (fun y hy => ⟨_, hy⟩) (fun _ => id) ?_
    dsimp only at h
    split_ifs at h <;> exact h
  · exact h

/-- A lookup searches the bucket that it would have searched before the expansion that an insertion
may start. -/
theorem list_insert (hash : κ → UInt32) (keyOf : α → κ) (a : Assoc α) (power : ℕ) (ok : Bool)
    (it : α) (k : κ) :
    (a.insert hash keyOf power ok it).list ((a.insert hash keyOf power ok it).getBucket hash k) =
      (a.push hash keyOf it).list (a.getBucket hash k) := by
  have hbucket : (a.push hash keyOf it).getBucket hash k = a.getBucket hash k :=
    getBucket_congr (by simp [push]) (by simp [push]) (by simp [push]) _
  unfold insert
  dsimp only
  split_ifs with hneed
  · -- an expansion starts with the bucket in the table that was the primary one
    simp only [expandNeeded, decide_eq_true_eq] at hneed
    rw [← hbucket]
    cases ok <;> simp [expand, getBucket, bucketOf, hneed.2.1, list]
  · rw [hbucket]

theorem list_push (b : Bucket) : (a.push hash keyOf it).list b =
    if b = a.getBucket hash (keyOf it) then it :: a.list b else a.list b := by
  change (a.setList _ _).list _ = _
  rw [list_setList]
  split_ifs with hb
  · rw [hb]
  · rfl

variable [DecidableEq κ]

theorem Has.of_find (h : a.find hash keyOf key = some it) :
    a.Has it := ⟨_, List.mem_of_find?_eq_some h⟩

theorem Has.of_delete (h : (a.delete hash keyOf key).Has x) : a.Has x := by
  have hset : (a.setList (a.getBucket hash key)
      ((a.list (a.getBucket hash key)).eraseP fun it => keyOf it = key)).Has x := h
  exact hset.of_setList.elim (fun hx => ⟨_, List.mem_of_mem_eraseP hx⟩) id

/-- **An item is found under its key once it is inserted.** -/
theorem find_insert_self (hash : κ → UInt32) (keyOf : α → κ) (a : Assoc α) (power : ℕ) (ok : Bool)
    (it : α) :
    (a.insert hash keyOf power ok it).find hash keyOf (keyOf it) = some it := by
  rw [find, list_insert, list_push, if_pos rfl]
  simp

/-- Inserting an item does not change what is found under other keys. -/
theorem find_insert_of_ne {k : κ} (hne : k ≠ keyOf it) :
    (a.insert hash keyOf power ok it).find hash keyOf k = a.find hash keyOf k := by
  rw [find, find, list_insert, list_push]
  split_ifs
  · exact List.find?_cons_of_neg (by simpa using hne.symm)
  · rfl

/-- Deleting a key does not change what is found under another. -/
theorem find_delete_of_ne {k : κ} (hne : k ≠ key) :
    (a.delete hash keyOf key).find hash keyOf k = a.find hash keyOf k := by
  have hbucket : (a.delete hash keyOf key).getBucket hash k = a.getBucket hash k :=
    getBucket_congr (by simp [delete]) (by simp [delete]) (by simp [delete]) _
  have herase : ∀ l : List α, (l.eraseP fun it => keyOf it = key).find? (fun it => keyOf it = k) =
      l.find? fun it => keyOf it = k := by
    intro l
    induction l with
    | nil => rfl
    | cons y l ih =>
      by_cases hy : keyOf y = key
      · rw [List.eraseP_cons_of_pos (by simpa using hy), List.find?_cons_of_neg]
        simpa [hy] using hne.symm
      · rw [List.eraseP_cons_of_neg (by simpa using hy), List.find?_cons, List.find?_cons, ih]
  rw [find, find, hbucket]
  change ((a.setList _ _).list _).find? _ = _
  rw [list_setList]
  split_ifs with hb
  · rw [herase, hb]
  · rfl

end Assoc

end Twemcache
