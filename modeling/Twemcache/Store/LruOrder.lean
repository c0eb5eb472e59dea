import Twemcache.Store.Gauge
import Twemcache.Store.Use

/-!
# The order of the lru queues

Items are linked and repositioned at the end of the lru queue of their class, with the current time,
so that the queues are in the order of access times.  Every primitive keeps that, as long as items
are linked once.  The item that `item_get_from_lruq` finds is the first one that nobody uses, unless
it is expired.

## Main definitions

* `LruOrdered` : the lru queues are in the order of access times.
-/

namespace Twemcache

namespace Store

variable {cfg : Config} {ch : Choice} {sc : Scope} {s s' : Store} {p q : ItemPtr}
  {held held' : List ItemPtr} {id : ℕ}

/-- The lru queues are in the order of access times, which have come. -/
structure LruOrdered (s : Store) : Prop where
  /-- The queues are sorted. -/
  sorted : ∀ id, (s.lruq id).Pairwise fun p q => (s.items p).atime ≤ (s.items q).atime
  /-- Times have come. -/
  past : ∀ id, ∀ p ∈ s.lruq id, (s.items p).atime ≤ s.now

/-- Queues that lose items stay in order. -/
theorem LruOrdered.of_sublist (h : s.LruOrdered) (hnow : s.now ≤ s'.now)
    (hsub : ∀ id, (s'.lruq id).Sublist (s.lruq id))
    (htime : ∀ id, ∀ p ∈ s'.lruq id, (s'.items p).atime = (s.items p).atime) : s'.LruOrdered where
  sorted id := by
    refine ((h.sorted id).sublist (hsub id)).imp_of_mem fun hp hq hle => ?_
    rw [htime id _ hp, htime id _ hq]
    exact hle
  past id p hp := by
    rw [htime id p hp]
    exact (h.past id p ((hsub id).subset hp)).trans hnow

/-- A queue stays in order when an item goes to its end with the current time. -/
theorem LruOrdered.of_append (h : s.LruOrdered) (hnow : s'.now = s.now) {l : List ItemPtr}
    (hlru : s'.lruq = Function.update s.lruq id (l ++ [p])) (hsub : l.Sublist (s.lruq id))
    (hnot : p ∉ l) (hout : ∀ id', id' ≠ id → p ∉ s.lruq id')
    (hother : ∀ q, q ≠ p → (s'.items q).atime = (s.items q).atime)
    (hself : (s'.items p).atime = s.now) : s'.LruOrdered := by
  have hold : ∀ q ∈ l, (s'.items q).atime = (s.items q).atime := fun q hq =>
    hother q fun hqp => hnot (hqp ▸ hq)
  constructor
  · intro id'
    rw [hlru]
    by_cases hid : id' = id
    · subst hid
      rw [Function.update_self, List.pairwise_append]
      refine ⟨((h.sorted id').sublist hsub).imp_of_mem fun hx hy hle => ?_,
        List.pairwise_singleton _ _, ?_⟩
      · rw [hold _ hx, hold _ hy]
        exact hle
      · intro x hx y hy
        obtain rfl := List.mem_singleton.1 hy
        rw [hold x hx, hself]
        exact h.past id' x (hsub.subset hx)
    · rw [Function.update_of_ne hid]
      have hne : ∀ x ∈ s.lruq id', x ≠ p := fun x hx hxp => hout id' hid (hxp ▸ hx)
      refine (h.sorted id').imp_of_mem fun hx hy hle => ?_
      rw [hother _ (hne _ hx), hother _ (hne _ hy)]
      exact hle
  · intro id' x hx
    rw [hlru] at hx
    rw [hnow]
    by_cases hxp : x = p
    · rw [hxp, hself]
    · rw [hother x hxp]
      by_cases hid : id' = id
      · subst hid
        rw [Function.update_self] at hx
        rcases List.mem_append.1 hx with hx | hx
        · exact h.past id' x (hsub.subset hx)
        · exact absurd (List.mem_singleton.1 hx) hxp
      · rw [Function.update_of_ne hid] at hx
        exact h.past id' x hx

theorem itemRemove_lruq (p : ItemPtr) : (s.itemRemove p).lruq = s.lruq := by
  have hput : ∀ u : Store, (u.slabPutItem p).lruq = u.lruq := fun _ => rfl
  have hrelease : (s.itemReleaseRefcount p).lruq = s.lruq := rfl
  simp only [itemRemove]
  split_ifs <;> simp only [hput, hrelease]

theorem itemUnlink_lruq (p : ItemPtr) (id : ℕ) :
    ((s.itemUnlink cfg p).lruq id).Sublist (s.lruq id) := by
  have hput : ∀ u : Store, (u.slabPutItem p).lruq = u.lruq := fun _ => rfl
  have hreuse : ((s.itemReuse cfg p).lruq id).Sublist (s.lruq id) := by
    change (Function.update s.lruq _ _ id).Sublist _
    rw [Function.update_apply]
    split_ifs with hid
    · subst hid
      exact List.erase_sublist
    · exact List.Sublist.refl _
  simp only [itemUnlink]
  split_ifs
  · rw [hput]
    exact hreuse
  · exact hreuse
  · exact List.Sublist.refl _

/-- **Every primitive keeps the lru queues in order.** -/
theorem Prim.lruOrdered (hs : Prim cfg sc (s, held) (s', held')) (h : Guarded cfg sc s held)
    (hl : s.LruOrdered) :
    s'.LruOrdered := by
  have hlinked : ∀ {id p}, p ∈ s.lruq id → (s.items p).flags.linked = true := fun hp =>
    (h.wf.mem_lruq_iff.1 hp).2.2
  cases hs with
  | @acquire _ _ p hp =>
    exact hl.of_sublist le_rfl (fun _ => List.Sublist.refl _) fun _ q _ =>
      (idles_itemAcquireRefcount p).atime q
  | @remove _ _ p hp hpriv hbase =>
    refine hl.of_sublist (idles_itemRemove p).env.1.ge (fun id => ?_) fun _ q _ =>
      (idles_itemRemove p).atime q
    rw [itemRemove_lruq]
  | @unlink _ _ p hp =>
    have hidle : Idles s (s.itemUnlink cfg p) := idles_itemUnlink p
    exact hl.of_sublist hidle.env.1.ge (itemUnlink_lruq p) fun _ q _ => hidle.atime q
  | @link _ _ ch p hp hpriv hlink hunlinked hkey =>
    -- an item that is not linked is in no queue
    have hout : ∀ id, p ∉ s.lruq id := fun id hmem => by
      rw [hlinked hmem] at hunlinked
      cases hunlinked
    refine hl.of_append (congrArg Env.now (itemLink_env p)) ?_ (List.Sublist.refl _)
      (hout (s.items p).id)
      (fun id' _ => hout id') (fun q hq => by simp [hq]) (by simp [linkItem])
    rw [itemLink_eq, slabLruqTouch_lruq]
    rfl
  | @touch _ t _ p hp hsc ht =>
    subst ht
    rcases itemTouch_eq (s := s) cfg p with heq | ⟨hlink, -, heq⟩
    · rw [heq]
      exact hl
    · have hmem : p ∈ s.lruq (s.items p).id := h.wf.mem_lruq_iff.2 ⟨h.active p hp, rfl, hlink⟩
      have hnodup : (s.lruq (s.items p).id).Nodup := (Shape.Wf.lru h.wf _).1
      rw [heq]
      refine hl.of_append (congrArg Env.now (slabLruqTouch_env _ _)) ?_ List.erase_sublist
        hnodup.not_mem_erase
        (fun id' hid hmem' => hid (h.wf.mem_lruq_iff.1 hmem').2.1.symm)
          (fun q hq => by simp [touchBare, hq])
        (by simp [touchBare])
      rw [slabLruqTouch_lruq]
      rfl
  | @alloc _ t _ id p hh hchunk key dataflags exptime nbyte hid =>
    obtain ⟨ch, hchunk⟩ := hchunk
    have hdone : Idles t (t.itemAllocDone cfg p key dataflags exptime nbyte) :=
      idles_itemAllocDone ..
    have hidle := (itemAllocChunk_found hchunk).idles.trans hdone
    exact hl.of_sublist hidle.env.1.ge hh.lruq fun _ q _ => hidle.atime q
  | @write _ _ p f hp hnew hunlinked hf =>
    refine hl.of_sublist le_rfl (fun _ => List.Sublist.refl _) fun id q hq => ?_
    have hqp : q ≠ p := fun hqp => by
      rw [← hqp, hlinked hq] at hunlinked
      cases hunlinked
    simp [setItem, hqp]
  | @annex _ _ prepend p bytes hp hheld hsc hid hralign hsize =>
    rw [itemAnnexInPlace_eq]
    refine hl.of_sublist le_rfl (fun _ => List.Sublist.refl _) fun id q hq => ?_
    by_cases hqp : q = p <;> simp [setItem, hqp, annexItem, Item.write]
  | @delta _ _ p buf hp hheld hsc hlen hsize =>
    rw [itemDeltaInPlace_eq]
    refine hl.of_sublist le_rfl (fun _ => List.Sublist.refl _) fun id q hq => ?_
    by_cases hqp : q = p <;> simp [setItem, hqp, deltaItem, Item.write]
  | moveBucket => exact hl.of_sublist le_rfl (fun _ => List.Sublist.refl _) fun _ _ _ => rfl

/-- **Paths keep the lru queues in order.** -/
theorem Path.lruOrdered (hs : Path cfg sc (s, held) (s', held')) (h : Guarded cfg sc s held)
    (hl : s.LruOrdered) :
    s'.LruOrdered :=
  (hs.induction (I := fun s _ => s.LruOrdered) h hl fun _ _ _ _ hg hI hprim _ =>
    hprim.lruOrdered hg hI).2

/-- Touching a linked item moves it, unless it was used within the last minute. -/
theorem itemTouch_near (hnow : s.now < 2 ^ 32) (hl : (s.items p).flags.linked = true) :
    s.now ≤ ((s.itemTouch cfg p).items p).atime + itemUpdateInterval := by
  by_cases hold : (s.items p).atime ≥ s.ago itemUpdateInterval
  · rw [itemTouch, if_pos hold]
    simp only [ago, itemUpdateInterval] at hold ⊢
    omega
  · have hself : ((s.itemTouch cfg p).items p).atime = s.now := by
      rw [itemTouch_of_old hl hold]
      simp [touchBare]
    omega

/-! ### The victim -/

/-- The loop of `item_get_from_lruq` returns an expired item, the one that it has found already, or
the first one that nobody uses. -/
theorem itemLruqLoop_cases {uit : Option ItemPtr} {tries : ℕ} {l : List ItemPtr}
    (h : s.itemLruqLoop uit tries l = some p) (hexp : s.itemExpired p = false) :
    uit = some p ∨ uit = none ∧ ∃ l₁ l₂, l = l₁ ++ p :: l₂ ∧
        ∀ q ∈ l₁, (s.items q).refcount ≠ 0 := by
  induction l generalizing uit tries with
  | nil =>
    cases tries <;> exact .inl h
  | cons x l ih =>
    cases tries with
    | zero => exact .inl h
    | succ tries =>
      simp only [itemLruqLoop] at h
      split_ifs at h with href hdead huit
      · rcases ih h with hfound | ⟨hnone, l₁, l₂, rfl, hbefore⟩
        · exact .inl hfound
        · exact .inr ⟨hnone, x :: l₁, l₂, rfl, List.forall_mem_cons.2 ⟨href, hbefore⟩⟩
      · obtain rfl := Option.some.inj h
        rw [hexp] at hdead
        cases hdead
      · rcases ih h with hfound | ⟨hnone, -⟩
        · obtain rfl := Option.some.inj hfound
          exact .inr ⟨huit, [], l, rfl, fun _ hq => absurd hq List.not_mem_nil⟩
        · cases hnone
      · rcases ih h with hfound | ⟨hnone, -⟩
        · exact .inl hfound
        · exact absurd hnone huit

/-- **The item that the lru queue gives up was used no later than any other one that nobody uses.**
-/
theorem LruOrdered.victim_le (hl : s.LruOrdered) (hp : s.itemGetFromLruq cfg id = some p)
    (hexp : s.itemExpired p = false) (hq : q ∈ s.lruq id) (href : (s.items q).refcount = 0) :
    (s.items p).atime ≤ (s.items q).atime := by
  unfold itemGetFromLruq at hp
  split_ifs at hp
  rcases itemLruqLoop_cases hp hexp with hnone | ⟨-, l₁, l₂, heq, hbefore⟩
  · cases hnone
  · have hsorted := hl.sorted id
    rw [heq] at hq hsorted
    rcases List.mem_append.1 hq with hq | hq
    · exact absurd href (hbefore q hq)
    · rcases List.mem_cons.1 hq with rfl | hq
      · exact le_rfl
      · exact List.rel_of_pairwise_cons (List.pairwise_append.1 hsorted).2.1 hq

end Store

end Twemcache
