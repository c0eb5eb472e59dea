import Twemcache.Assoc.Chain
import Twemcache.Store.Alloc
import Twemcache.Store.View

/-!
# Failing calls

An allocation that fails changes nothing, and a reference that is taken and given back leaves no
trace.  So a call of `item_annex` or `item_delta` that fails leaves the store as it was, up to a
dead item that its lookup has found.

## Main results

* `acquire_remove` : a reference that is taken and given back.
* `Guarded.itemAnnex_failed`, `Guarded.itemDelta_failed` : the two calls.
* `view_itemDelete_of_ne` : what `item_delete` does to the visible map.
-/

namespace Twemcache

namespace Store

variable {cfg : Config} {ch : Choice} {sc : Scope} {s t : Store} {p it : ItemPtr} {key : Key}
  {held : List ItemPtr} {id dataflags exptime nbyte : ℕ}

/-! ### References -/

theorem count_back {r : ℕ} (h : r + 1 < 2 ^ 16) : ((r + 1) % 2 ^ 16 + 2 ^ 16 - 1) % 2 ^ 16 = r := by
  omega

theorem overflow_back {r : ℕ} (h : r + 1 < 2 ^ 16) (overflow : Bool) :
    (overflow || decide (r + 1 = 2 ^ 16)) = overflow := by
  rw [decide_eq_false (Nat.ne_of_lt h), Bool.or_false]

/-- **A reference that is taken and given back leaves no trace**, unless a count wraps. -/
theorem acquire_remove (hl : (s.items p).flags.linked = true)
    (hr : (s.items p).refcount + 1 < 2 ^ 16) (hslab : (s.slabs p.slab).refcount + 1 < 2 ^ 16) :
    (s.itemAcquireRefcount p).itemRemove p = s := by
  have hrelease : (s.itemAcquireRefcount p).itemReleaseRefcount p = s := by
    simp only [itemAcquireRefcount, itemReleaseRefcount, slabAcquireRefcount, slabReleaseRefcount,
      setItem, setSlab, Function.update_self, count_back hr, count_back hslab, Function.update_idem,
      Function.update_eq_self]
    have hover := overflow_back hslab s.overflow
    exact congrArg (fun overflow => { s with overflow := overflow }) hover
  have hne : ((s.itemAcquireRefcount p).items p).refcount ≠ 0 := by
    simp only [itemAcquireRefcount_items, Function.update_self]
    omega
  generalize s.itemAcquireRefcount p = u at hrelease hne ⊢
  unfold itemRemove
  rw [if_pos hne, hrelease]
  exact if_neg fun h => h.2 hl

/-! ### Calls that fail -/

/-- What a lookup does for a call that fails: nothing is left of it, or a dead item of the key is
unlinked and, if nothing refers to it, freed. -/
def Unchanged (cfg : Config) (s t : Store) (key : Key) : Prop :=
  t = s ∨ ∃ p, s.Linked cfg p ∧ (s.items p).key = key ∧ s.dead p = true ∧ t = s.itemUnlink cfg p

theorem itemUnlink_refcount (p q : ItemPtr) :
    ((s.itemUnlink cfg p).items q).refcount = (s.items q).refcount := by
  by_cases hq : q = p
  · subst hq
    simp only [itemUnlink]
    split_ifs <;> simp
  · rw [itemUnlink_items_of_ne hq]

/-- An unchanged store counts the same references. -/
theorem Unchanged.refcount (h : Unchanged cfg s t key) (q : ItemPtr) :
    (t.items q).refcount = (s.items q).refcount := by
  rcases h with rfl | ⟨p, -, -, -, rfl⟩
  · rfl
  · exact itemUnlink_refcount p q

/-- The counts of an item that is found do not wrap. -/
theorem Inv.counts_lt (h : Inv cfg s held) (hp : s.Linked cfg p)
    (hov : (s.itemAcquireRefcount p).overflow = false) :
    (s.items p).refcount + 1 < 2 ^ 16 ∧ (s.slabs p.slab).refcount + 1 < 2 ^ 16 := by
  have hfits := h.fits_cons hp.1 (.inl hov) p.slab
  rw [List.countP_cons_of_pos (by simp)] at hfits
  rw [h.slab_ref hp.1.1, h.ref p hp.1]
  have hle := Counts.count_le held p
  omega

/-- A lookup that finds an item which is then given back. -/
theorem Guarded.get_remove (h : Guarded cfg sc s held) (heq : s.itemGet cfg key = (some p, t))
    (hov : (t.itemRemove p).overflow = false) : t.itemRemove p = s := by
  obtain ⟨-, -, -, -, rfl, hl, -⟩ := h.get_some heq
  have hov' : (s.itemAcquireRefcount p).overflow = false :=
    overflow_of_env (itemRemove_env p) hov
  obtain ⟨hr, hslab⟩ := h.toInv.counts_lt hl hov'
  exact acquire_remove hl.2 hr hslab

theorem Guarded.get_unchanged (h : Guarded cfg sc s held) (heq : s.itemGet cfg key = (none, t)) :
    Unchanged cfg s t key := by
  rcases h.wf.itemGet_cases key with ⟨-, heq'⟩ | ⟨p, hp, hkey, ⟨hdead, heq'⟩ | ⟨-, heq'⟩⟩
  · exact .inl (Prod.mk.inj (heq.symm.trans heq')).2
  · exact .inr ⟨p, hp, hkey, hdead, (Prod.mk.inj (heq.symm.trans heq')).2⟩
  · cases (Prod.mk.inj (heq.symm.trans heq')).1

/-- **A call of `item_annex` that fails** leaves the store as it was. -/
theorem Guarded.itemAnnex_failed (h : Guarded cfg sc s held) {prepend : Bool} {r : AnnexResult}
    (heq : s.itemAnnex cfg ch prepend it = (r, t)) (hr : ∀ n, r ≠ .ok n)
    (hov : t.overflow = false) :
    Unchanged cfg s t (s.keyOf it) := by
  unfold itemAnnex at heq
  generalize hget : s.itemGet cfg (s.keyOf it) = x at heq
  obtain ⟨_ | oit, u⟩ := x
  · rw [← (Prod.mk.inj heq).2]
    exact h.get_unchanged hget
  · dsimp only at heq
    split_ifs at heq with hid hplace
    · obtain ⟨-, rfl⟩ := Prod.mk.inj heq
      exact .inl (h.get_remove hget hov)
    · exact absurd (Prod.mk.inj heq).1.symm (hr _)
    · generalize halloc : u.itemAlloc cfg ch _ _ _ _ _ = x at heq
      obtain ⟨_ | nit, v⟩ := x
      · obtain ⟨-, rfl⟩ := Prod.mk.inj heq
        obtain rfl := itemAlloc_none halloc
        exact .inl (h.get_remove hget hov)
      · exact absurd (Prod.mk.inj heq).1.symm (hr _)

/-- **A call of `item_delta` that fails** leaves the store as it was. -/
theorem Guarded.itemDelta_failed (h : Guarded cfg sc s held) {incr : Bool} {delta : ℕ}
    {r : DeltaResult} (heq : s.itemDelta cfg ch key incr delta = (r, t)) (hr : ∀ n, r ≠ .ok n)
    (hov : t.overflow = false) :
    Unchanged cfg s t key := by
  unfold itemDelta at heq
  generalize hget : s.itemGet cfg key = x at heq
  obtain ⟨_ | q, u⟩ := x
  · rw [← (Prod.mk.inj heq).2]
    exact h.get_unchanged hget
  · dsimp only at heq
    split at heq
    · obtain ⟨-, rfl⟩ := Prod.mk.inj heq
      exact .inl (h.get_remove hget hov)
    · split_ifs at heq with hlen
      · generalize halloc : u.itemAlloc cfg ch _ _ _ _ _ = x at heq
        obtain ⟨_ | nit, v⟩ := x
        · obtain ⟨-, rfl⟩ := Prod.mk.inj heq
          obtain rfl := itemAlloc_none halloc
          exact .inl (h.get_remove hget hov)
        · exact absurd (Prod.mk.inj heq).1.symm (hr _)
      · exact absurd (Prod.mk.inj heq).1.symm (hr _)

/-! ### Deleting a key -/

/-- Lookups that find the same item, with the same in it, show the same. -/
theorem view_eq_of_find {k : Key} (hfind : t.assocFind cfg k = s.assocFind cfg k)
    (hnow : t.now = s.now) (hlive : t.oldestLive = s.oldestLive)
    (hcontent : ∀ q, (t.items q).content = (s.items q).content)
    (htime : ∀ q, (t.items q).atime = (s.items q).atime) : t.view cfg k = s.view cfg k := by
  have hdead : ∀ q, t.expired q = s.expired q ∧ t.flushed q = s.flushed q := by
    intro q
    have hexp : (t.items q).exptime = (s.items q).exptime := congrArg Content.exptime (hcontent q)
    simp only [expired, flushed, hexp, hnow, hlive, htime, and_self]
  simp only [view, itemGet, hfind]
  cases s.assocFind cfg k with
  | none => rfl
  | some q =>
    simp only [(hdead q).1, (hdead q).2]
    split_ifs
    · rfl
    · rfl
    · exact congrArg some (Item.entry_congr (hcontent q))

theorem keyOf_itemUnlink (p : ItemPtr) : (s.itemUnlink cfg p).keyOf = s.keyOf := by
  funext q
  change ((s.itemUnlink cfg p).items q).content.key = (s.items q).content.key
  rw [itemUnlink_content]

theorem assocFind_itemUnlink {k : Key} (hne : k ≠ s.keyOf p) :
    (s.itemUnlink cfg p).assocFind cfg k = s.assocFind cfg k := by
  rw [assocFind, keyOf_itemUnlink]
  have hassoc : (s.itemUnlink cfg p).assoc = s.assoc ∨
      (s.itemUnlink cfg p).assoc = s.assoc.delete cfg.hash s.keyOf (s.keyOf p) := by
    have hreuse : (s.itemReuse cfg p).assoc = s.assoc.delete cfg.hash s.keyOf (s.keyOf p) := by
      have hkey :
          (s.setItem p fun it => { it with flags := { it.flags with linked := false } }).keyOf =
          s.keyOf := by
        funext q
        by_cases hq : q = p <;> simp [keyOf, setItem, hq]
      change Assoc.delete _ _ _ _ = _
      rw [hkey]
      rfl
    have hput : ∀ u : Store, (u.slabPutItem p).assoc = u.assoc := fun _ => rfl
    simp only [itemUnlink]
    split_ifs
    · exact .inr ((hput _).trans hreuse)
    · exact .inr hreuse
    · exact .inl rfl
  rcases hassoc with h | h
  · rw [h]
    rfl
  · rw [h]
    exact Assoc.find_delete_of_ne hne

theorem assocFind_itemRemove (p : ItemPtr) (k : Key) :
    (s.itemRemove p).assocFind cfg k = s.assocFind cfg k := by
  have hkey : (s.itemRemove p).keyOf = s.keyOf := by
    funext q
    change ((s.itemRemove p).items q).content.key = (s.items q).content.key
    rw [itemRemove_content]
  have hassoc : (s.itemRemove p).assoc = s.assoc := by
    have hput : ∀ u : Store, (u.slabPutItem p).assoc = u.assoc := fun _ => rfl
    have hrelease : (s.itemReleaseRefcount p).assoc = s.assoc := rfl
    simp only [itemRemove]
    split_ifs <;> simp only [hput, hrelease]
  rw [assocFind, hkey, hassoc]
  rfl

theorem view_itemUnlink_of_ne {k : Key} (hne : k ≠ s.keyOf p) :
    (s.itemUnlink cfg p).view cfg k = s.view cfg k :=
  view_eq_of_find (assocFind_itemUnlink hne) (congrArg Env.now (itemUnlink_env p))
    (congrArg Env.oldestLive (itemUnlink_env p)) (itemUnlink_content p) (itemUnlink_atime p)

theorem view_itemRemove (p : ItemPtr) (k : Key) : (s.itemRemove p).view cfg k = s.view cfg k :=
  view_eq_of_find (assocFind_itemRemove p k) (congrArg Env.now (itemRemove_env p))
    (congrArg Env.oldestLive (itemRemove_env p)) (itemRemove_content p) (itemRemove_atime p)

theorem view_itemAcquireRefcount (p : ItemPtr) (k : Key) :
    (s.itemAcquireRefcount p).view cfg k = s.view cfg k := by
  have hitem : ∀ q, ((s.itemAcquireRefcount p).items q).content = (s.items q).content ∧
      ((s.itemAcquireRefcount p).items q).atime = (s.items q).atime := by
    intro q
    by_cases hq : q = p <;> simp [hq, Item.content]
  have hkey : (s.itemAcquireRefcount p).keyOf = s.keyOf := by
    funext q
    exact congrArg Content.key (hitem q).1
  have hassoc : (s.itemAcquireRefcount p).assoc = s.assoc := rfl
  refine view_eq_of_find ?_ rfl rfl (fun q => (hitem q).1) fun q => (hitem q).2
  rw [assocFind, assocFind, hkey, hassoc]

/-- **Deleting a key is not visible at other keys**, in any store. -/
theorem view_itemDelete_of_ne {k : Key} (hne : k ≠ key) :
    (s.itemDelete cfg key).2.view cfg k = s.view cfg k := by
  have hkey : ∀ p, s.assocFind cfg key = some p → s.keyOf p = key := by
    intro p hp
    simpa using List.find?_some hp
  unfold itemDelete itemGet
  cases hfind : s.assocFind cfg key with
  | none => rfl
  | some p =>
    have hp : k ≠ s.keyOf p := by rwa [hkey p hfind]
    dsimp only
    split_ifs
    · exact view_itemUnlink_of_ne hp
    · exact view_itemUnlink_of_ne hp
    · dsimp only
      have hacq : (s.itemAcquireRefcount p).keyOf p = s.keyOf p := by simp [keyOf]
      rw [view_itemRemove, view_itemUnlink_of_ne (by rwa [hacq]), view_itemAcquireRefcount]

end Store

end Twemcache
