import Twemcache.Store.Shape
import Twemcache.Store.Items

/-!
# Well-formed stores

A store is well formed if its shape is.  Every function of the slab and item modules is a
composition of changes of shape; this module says of which, and what else the function changes:
the items, and the scalar variables (`Store.env`).

## Main results

* `Store.Wf.slabEvictOne` : tearing a slab down keeps the store well formed, whatever mix of
  chunks it holds.
* `Store.Wf.slabGetItem` : what is known of a chunk that the slab module hands out.
-/

namespace Twemcache

/-- The scalar variables of a store. -/
@[ext]
structure Env where
  /-- `now`. -/
  now : ℕ
  /-- `settings.evict_opt`. -/
  evictOpt : ℕ
  /-- `settings.oldest_live`. -/
  oldestLive : ℕ
  /-- The number of cas ids issued. -/
  casIssued : ℕ
  /-- Some slab has had too many references. -/
  overflow : Bool
  /-- The number of items allocated so far. -/
  nalloc : ℕ

namespace Store

/-- The scalar variables. -/
def env (s : Store) : Env := ⟨s.now, s.evictOpt, s.oldestLive, s.casIssued, s.overflow, s.nalloc⟩

variable (cfg : Config) (ch : Choice) (s : Store)

/-- The store is well formed. -/
def Wf : Prop := s.shape.Wf cfg

/-- `p` is a chunk of a slab in use. -/
def Active (p : ItemPtr) : Prop := s.shape.Active cfg p

/-- `p` was not handed out yet. -/
def InTail (p : ItemPtr) : Prop := s.shape.InTail p

/-- `p` is linked. -/
def Linked (p : ItemPtr) : Prop := s.Active cfg p ∧ (s.items p).flags.linked = true

variable {cfg ch s}

@[simp] theorem shape_id (p : ItemPtr) : s.shape.id p = (s.items p).id := rfl

@[simp] theorem shape_ref (p : ItemPtr) : s.shape.ref p = (s.items p).refcount := rfl

@[simp] theorem shape_linked (p : ItemPtr) : s.shape.linked p = (s.items p).flags.linked := rfl

@[simp] theorem shape_slabbed (p : ItemPtr) : s.shape.slabbed p = (s.items p).flags.slabbed := rfl

@[simp] theorem shape_key (p : ItemPtr) : s.shape.key p = (s.items p).key := rfl

/-! ### Changes of shape -/

theorem shape_setItem (p : ItemPtr) (f : Item → Item) :
    (s.setItem p f).shape =
      { s.shape with
        id := Function.update s.shape.id p (f (s.items p)).id
        ref := Function.update s.shape.ref p (f (s.items p)).refcount
        linked := Function.update s.shape.linked p (f (s.items p)).flags.linked
        slabbed := Function.update s.shape.slabbed p (f (s.items p)).flags.slabbed
        key := Function.update s.shape.key p (f (s.items p)).key } := by
  ext : 1 <;> try rfl
  all_goals
    funext q
    simp only [shape, setItem, Function.update_apply]
    split_ifs <;> rfl

/-- A write that changes neither who an item is nor where it is. -/
structure Inert (f : Item → Item) : Prop where
  /-- The class is the same. -/
  id : ∀ it, (f it).id = it.id
  /-- The count is the same. -/
  refcount : ∀ it, (f it).refcount = it.refcount
  /-- `ITEM_LINKED` is the same. -/
  linked : ∀ it, (f it).flags.linked = it.flags.linked
  /-- `ITEM_SLABBED` is the same. -/
  slabbed : ∀ it, (f it).flags.slabbed = it.flags.slabbed
  /-- The key is the same. -/
  key : ∀ it, (f it).key = it.key
  /-- It is the same item. -/
  gen : ∀ it, (f it).gen = it.gen
  /-- `ITEM_CAS` is the same. -/
  cas : ∀ it, (f it).flags.cas = it.flags.cas

/-- Such a write that does not change the length of the value either. -/
structure Sized (f : Item → Item) : Prop extends Inert f where
  /-- The value has the same length. -/
  nbyte : ∀ it, (f it).nbyte = it.nbyte

/-- Such a write that does not change where the value is either. -/
structure Rigid (f : Item → Item) : Prop extends Sized f where
  /-- The value is aligned as it was. -/
  ralign : ∀ it, (f it).flags.ralign = it.flags.ralign

theorem shape_setItem_of_inert {p : ItemPtr} {f : Item → Item} (h : Inert f) :
    (s.setItem p f).shape = s.shape := by
  rw [shape_setItem, h.id, h.refcount, h.linked, h.slabbed, h.key]
  ext : 1 <;> first | rfl | exact Function.update_eq_self p _

theorem shape_acquire (p : ItemPtr) : (s.itemAcquireRefcount p).shape = s.shape.acquire p := by
  ext : 1 <;> try rfl
  all_goals
    funext q
    simp only [shape, itemAcquireRefcount, slabAcquireRefcount, setItem, setSlab, Shape.acquire,
      Function.update_apply]
    split_ifs <;> simp_all

theorem shape_release (p : ItemPtr) : (s.itemReleaseRefcount p).shape = s.shape.release p := by
  ext : 1 <;> try rfl
  all_goals
    funext q
    simp only [shape, itemReleaseRefcount, slabReleaseRefcount, setItem, setSlab, Shape.release,
      Function.update_apply]
    split_ifs with hq <;> first | rfl | rw [hq]

theorem keyOf_setItem {p : ItemPtr} {f : Item → Item} (h : (f (s.items p)).key = (s.items p).key) :
    (s.setItem p f).keyOf = s.keyOf := by
  funext q
  by_cases hq : q = p
  · simp [keyOf, setItem, hq, h]
  · simp [keyOf, setItem, hq]

theorem shape_itemReuse (p : ItemPtr) : (s.itemReuse cfg p).shape = s.shape.unlink cfg p := by
  have hkey := keyOf_setItem (s := s) (p := p)
    (f := fun it => { it with flags := { it.flags with linked := false } }) rfl
  ext : 1
  case assoc =>
    change s.assoc.delete cfg.hash (Store.keyOf _) (s.keyOf p) = _
    rw [hkey]
    rfl
  case lruq =>
    simp [shape, itemReuse, itemUnlinkQ, assocDelete, setItem, setLruq, setLinks, setGauges,
      Shape.unlink]
  all_goals first
    | rfl
    | funext q
      simp only [shape, itemReuse, itemUnlinkQ, assocDelete, setItem, setLruq, setLinks, setGauges,
        Shape.unlink, Function.update_apply]
      split_ifs <;> simp_all

theorem shape_slabPutItem (p : ItemPtr) : (s.slabPutItem p).shape = s.shape.put p := by
  ext : 1
  all_goals first
    | rfl
    | funext q
      simp only [shape, slabPutItem, setItem, setClass, setLinks, setGauges, Shape.put,
        Function.update_apply]
      split_ifs <;> simp_all

theorem shape_slabTakeItem (id : ℕ) (p : ItemPtr) :
    (s.slabTakeItem id p).shape = s.shape.take id p := by
  ext : 1
  all_goals first
    | rfl
    | funext q
      simp only [shape, slabTakeItem, setItem, setClass, setLinks, setGauges, Shape.take,
        Function.update_apply]
      split_ifs <;> simp_all

theorem shape_slabLruqTouch (sl : ℕ) (allocated : Bool) :
    (s.slabLruqTouch sl allocated).shape = s.shape ∨
      (s.slabLruqTouch sl allocated).shape = s.shape.moveSlab sl := by
  simp only [slabLruqTouch]
  split_ifs
  · exact .inl rfl
  · exact .inl rfl
  · refine .inr ?_
    ext : 1
    all_goals first
      | rfl
      | funext q
        simp only [shape, setSlab, Shape.moveSlab, Function.update_apply]
        split_ifs <;> simp_all

theorem shape_handOut {id : ℕ} {q : ItemPtr} (hq : (s.slabclass id).freeItem = some q) :
    (s.slabGetItemFromCurrent id).1 = some q ∧
      (s.slabGetItemFromCurrent id).2.shape = s.shape.handOut id q := by
  rw [slabGetItemFromCurrent, hq]
  exact ⟨rfl, rfl⟩

theorem shape_slabForgetCurrent (id sl : ℕ) :
    (s.slabForgetCurrent id sl).shape = s.shape ∧
        (∀ q, (s.slabclass id).freeItem = some q → q.slab ≠ sl) ∨
      (s.slabForgetCurrent id sl).shape = s.shape.forget id := by
  simp only [slabForgetCurrent]
  split
  · rename_i q hq
    split_ifs with hsl
    · exact .inr rfl
    · refine .inl ⟨rfl, fun q' hq' => ?_⟩
      rw [hq] at hq'
      rwa [← Option.some.inj hq']
  · rename_i hq
    exact .inl ⟨rfl, fun q' hq' => by simp [hq] at hq'⟩

theorem shape_slabAddOne (sl id : ℕ) :
    (s.slabAddOne cfg sl id).shape = s.shape.addSlab cfg sl id := by
  ext : 1
  all_goals first
    | rfl
    | funext q
      simp only [shape, slabAddOne, setSlab, setClass, setGauges, Item.hdrInit, Shape.addSlab,
        Function.update_apply]
      split_ifs <;> simp_all

/-! ### Slab eviction -/

/-- Chunks have left their queues; nothing else has changed but their flags. -/
structure Trims (s s' : Store) : Prop where
  /-- The scalar variables are the same. -/
  env : s'.env = s.env
  /-- The slab headers are the same. -/
  slabs : s'.slabs = s.slabs
  /-- The slab table is the same. -/
  slabTable : s'.slabTable = s.slabTable
  /-- The slab queue is the same. -/
  slabLruq : s'.slabLruq = s.slabLruq
  /-- The current slabs are the same. -/
  freeItem : ∀ id, (s'.slabclass id).freeItem = (s.slabclass id).freeItem
  /-- Lru queues only lose items. -/
  lruq : ∀ id, (s'.lruq id).Sublist (s.lruq id)

namespace Trims

theorem refl (s : Store) : Trims s s :=
  ⟨rfl, rfl, rfl, rfl, fun _ => rfl, fun _ => List.Sublist.refl _⟩

theorem trans {s s' s'' : Store} (h : Trims s s') (h' : Trims s' s'') : Trims s s'' :=
  ⟨h'.env.trans h.env, h'.slabs.trans h.slabs, h'.slabTable.trans h.slabTable,
    h'.slabLruq.trans h.slabLruq, fun id => (h'.freeItem id).trans (h.freeItem id),
    fun id => (h'.lruq id).trans (h.lruq id)⟩

variable {s' : Store}

theorem active (h : Trims s s') (p : ItemPtr) : s'.Active cfg p ↔ s.Active cfg p := by
  simp only [Active, Shape.Active, shape, h.slabs, h.slabLruq]

theorem inTail (h : Trims s s') (p : ItemPtr) : s'.InTail p ↔ s.InTail p := by
  simp only [InTail, Shape.InTail, shape, h.freeItem]

end Trims

theorem trims_setItem (p : ItemPtr) (f : Item → Item) : Trims s (s.setItem p f) :=
  ⟨rfl, rfl, rfl, rfl, fun _ => rfl, fun _ => List.Sublist.refl _⟩

theorem trims_setClass (id : ℕ) {f : SlabClass → SlabClass}
    (hf : ∀ c, (f c).freeItem = c.freeItem) : Trims s (s.setClass id f) := by
  refine ⟨rfl, rfl, rfl, rfl, fun id' => ?_, fun _ => List.Sublist.refl _⟩
  by_cases hid : id' = id <;> simp [setClass, hid, hf]

theorem trims_setLruq (id : ℕ) {f : List ItemPtr → List ItemPtr} (hf : ∀ l, (f l).Sublist l) :
    Trims s (s.setLruq id f) := by
  refine ⟨rfl, rfl, rfl, rfl, fun _ => rfl, fun id' => ?_⟩
  by_cases hid : id' = id <;> simp [setLruq, hid, hf]

theorem trims_setGauges (id : ℕ) (f : Gauges → Gauges) : Trims s (s.setGauges id f) :=
  ⟨rfl, rfl, rfl, rfl, fun _ => rfl, fun _ => List.Sublist.refl _⟩

theorem trims_setLinks (f : Tailq ItemQueue ItemPtr → Tailq ItemQueue ItemPtr) :
    Trims s (s.setLinks f) :=
  ⟨rfl, rfl, rfl, rfl, fun _ => rfl, fun _ => List.Sublist.refl _⟩

theorem trims_assocDelete (key : Key) : Trims s (s.assocDelete cfg key) :=
  ⟨rfl, rfl, rfl, rfl, fun _ => rfl, fun _ => List.Sublist.refl _⟩

theorem trims_itemReuse (p : ItemPtr) : Trims s (s.itemReuse cfg p) := by
  unfold itemReuse itemUnlinkQ
  refine Trims.trans ?_ (trims_setGauges _ _)
  refine Trims.trans ?_ (trims_setLinks _)
  refine Trims.trans ?_ (trims_setLruq _ fun _ => List.erase_sublist)
  exact (trims_setItem p _).trans (trims_assocDelete _)

@[simp] theorem itemReuse_items (p : ItemPtr) : (s.itemReuse cfg p).items =
    Function.update s.items p
      { s.items p with flags := { (s.items p).flags with linked := false } } := rfl

theorem trims_slabTakeItem (id : ℕ) (p : ItemPtr) : Trims s (s.slabTakeItem id p) := by
  unfold slabTakeItem
  refine Trims.trans ?_ (trims_setGauges _ _)
  refine Trims.trans ?_ (trims_setLinks _)
  exact (trims_setItem p _).trans (trims_setClass id fun _ => rfl)

@[simp] theorem slabTakeItem_items (id : ℕ) (p : ItemPtr) : (s.slabTakeItem id p).items =
    Function.update s.items p
      { s.items p with flags := { (s.items p).flags with slabbed := false } } := rfl

theorem Wf.itemReuse (h : s.Wf cfg) {p : ItemPtr} (hp : s.Linked cfg p) :
    (s.itemReuse cfg p).Wf cfg := by
  rw [Wf, shape_itemReuse]
  exact h.unlink hp.1 hp.2

theorem Wf.slabTakeItem (h : s.Wf cfg) {p : ItemPtr} (hp : s.Active cfg p)
    (hs : (s.items p).flags.slabbed = true) : (s.slabTakeItem (s.items p).id p).Wf cfg := by
  rw [Wf, shape_slabTakeItem]
  exact Shape.Wf.take h hp hs

theorem Wf.slabbed_of_linked (h : s.Wf cfg) {p : ItemPtr} (hp : s.Linked cfg p) :
    (s.items p).flags.slabbed = false := by
  by_contra hs
  have hs' : s.shape.slabbed p = true := by simpa [shape] using hs
  have hl : (s.items p).flags.linked = false := (Shape.Wf.slabbed h p hp.1 hs').1
  rw [hp.2] at hl
  cases hl

/-- One turn of the loop of `slab_evict_one`. -/
theorem Wf.slabEvictItem (h : s.Wf cfg) {p : ItemPtr} (hp : s.Active cfg p) :
    (s.slabEvictItem cfg (s.items p).id p).Wf cfg ∧
      Trims s (s.slabEvictItem cfg (s.items p).id p) ∧
      (s.slabEvictItem cfg (s.items p).id p).items = Function.update s.items p
        { s.items p with flags := { (s.items p).flags with linked := false, slabbed := false }
            } := by
  simp only [Store.slabEvictItem]
  split_ifs with hl hs
  · refine ⟨h.itemReuse ⟨hp, hl⟩, trims_itemReuse p, ?_⟩
    simp [h.slabbed_of_linked ⟨hp, hl⟩]
  · refine ⟨h.slabTakeItem hp hs, trims_slabTakeItem _ p, ?_⟩
    have hl : (s.items p).flags.linked = false := by simpa using hl
    simp [hl]
  · refine ⟨h, Trims.refl s, ?_⟩
    have hsame : { (s.items p).flags with linked := false, slabbed := false } =
        (s.items p).flags := by
      cases hf : (s.items p).flags
      simp_all
    rw [hsame, Function.update_eq_self]

/-- The loop of `slab_evict_one`, over the chunks in `l`. -/
theorem Wf.slabEvictLoop (h : s.Wf cfg) {sl : ℕ} (hsl : sl ∈ s.slabLruq) (l : List ℕ)
    (hl : ∀ i ∈ l, i < cfg.nitem (s.slabs sl).id) :
    (l.foldl (fun t i => t.slabEvictItem cfg (s.slabs sl).id ⟨sl, i⟩) s).Wf cfg ∧
      Trims s (l.foldl (fun t i => t.slabEvictItem cfg (s.slabs sl).id ⟨sl, i⟩) s) ∧
      (∀ q, q.slab ≠ sl →
        (l.foldl (fun t i => t.slabEvictItem cfg (s.slabs sl).id ⟨sl, i⟩) s).items q =
          s.items q) ∧
      (∀ q, q.slab = sl → (q.idx ∈ l ∨
          (s.items q).flags.linked = false ∧ (s.items q).flags.slabbed = false) →
        ((l.foldl (fun t i => t.slabEvictItem cfg (s.slabs sl).id ⟨sl, i⟩) s).items
            q).flags.linked = false ∧
          ((l.foldl (fun t i => t.slabEvictItem cfg (s.slabs sl).id ⟨sl, i⟩) s).items
            q).flags.slabbed = false) := by
  induction l generalizing s with
  | nil => exact ⟨h, Trims.refl s, fun _ _ => rfl, fun q _ hq => by simpa using hq⟩
  | cons i l ih =>
    have hp : s.Active cfg ⟨sl, i⟩ := ⟨hsl, hl i List.mem_cons_self⟩
    have hid : (s.slabs sl).id = (s.items ⟨sl, i⟩).id := (h.item_id _ hp).symm
    rw [List.foldl_cons]
    obtain ⟨hw, htr, hit⟩ := h.slabEvictItem hp
    rw [← hid] at hw htr hit
    have hslab : (s.slabEvictItem cfg (s.slabs sl).id ⟨sl, i⟩).slabs = s.slabs := htr.slabs
    obtain ⟨hw', htr', hother, hthis⟩ := ih hw (htr.slabLruq ▸ hsl)
      (by rw [hslab]; exact fun j hj => hl j (List.mem_cons_of_mem i hj))
    rw [hslab] at hw' htr' hother hthis
    refine ⟨hw', htr.trans htr', fun q hq => ?_, fun q hq hidle => ?_⟩
    · rw [hother q hq, hit, Function.update_of_ne]
      rintro rfl
      exact hq rfl
    · refine hthis q hq ?_
      by_cases hqi : q = ⟨sl, i⟩
      · simp [hit, hqi]
      · rw [hit, Function.update_of_ne hqi]
        refine hidle.imp (fun hmem => ?_) id
        refine (List.mem_cons.1 hmem).resolve_left fun heq => hqi ?_
        rw [← hq, ← heq]

/-- What `slab_evict_one` does besides. -/
structure Evicts (cfg : Config) (sl : ℕ) (s s' : Store) : Prop where
  /-- The store stays well formed. -/
  wf : s'.Wf cfg
  /-- The scalar variables are the same. -/
  env : s'.env = s.env
  /-- The slab headers are the same. -/
  slabs : s'.slabs = s.slabs
  /-- The slab table is the same. -/
  slabTable : s'.slabTable = s.slabTable
  /-- The slab is gone. -/
  slabLruq : s'.slabLruq = s.slabLruq.erase sl
  /-- The chunks of the other slabs are the same. -/
  items : ∀ q, q.slab ≠ sl → s'.items q = s.items q
  /-- The slab is not current any more. -/
  freeItem : ∀ id q, (s'.slabclass id).freeItem = some q ↔
    (s.slabclass id).freeItem = some q ∧ q.slab ≠ sl
  /-- Lru queues only lose items. -/
  lruq : ∀ id, (s'.lruq id).Sublist (s.lruq id)

theorem slabForgetCurrent_freeItem (h : s.Wf cfg) (sl id : ℕ) (q : ItemPtr) :
    ((s.slabForgetCurrent (s.slabs sl).id sl).slabclass id).freeItem = some q ↔
      (s.slabclass id).freeItem = some q ∧ q.slab ≠ sl := by
  have hcur : ∀ id q, (s.slabclass id).freeItem = some q → q.slab = sl →
      id = (s.slabs sl).id := fun id q hq hsl => by
    obtain ⟨ha, hid, -⟩ := h.cur id q hq
    rw [← hid, h.item_id q ha, hsl]
    rfl
  simp only [slabForgetCurrent]
  split
  · rename_i q' hq'
    split_ifs with hsl
    · by_cases hid : id = (s.slabs sl).id
      · subst hid
        simp only [setClass, Function.update_self, hq', Option.some.injEq, reduceCtorEq, false_iff]
        rintro ⟨rfl, hne⟩
        exact hne hsl
      · simp only [setClass, Function.update_of_ne hid]
        exact ⟨fun hq => ⟨hq, fun hqs => hid (hcur id q hq hqs)⟩, And.left⟩
    · refine ⟨fun hq => ⟨hq, fun hqs => ?_⟩, And.left⟩
      rw [hcur id q hq hqs, hq'] at hq
      exact hsl (Option.some.inj hq ▸ hqs)
  · rename_i hnone
    refine ⟨fun hq => ⟨hq, fun hqs => ?_⟩, And.left⟩
    rw [hcur id q hq hqs, hnone] at hq
    cases hq

theorem slabForgetCurrent_same (id sl : ℕ) :
    (s.slabForgetCurrent id sl).env = s.env ∧ (s.slabForgetCurrent id sl).slabs = s.slabs ∧
      (s.slabForgetCurrent id sl).slabTable = s.slabTable ∧
      (s.slabForgetCurrent id sl).slabLruq = s.slabLruq ∧
      (s.slabForgetCurrent id sl).items = s.items ∧
      (s.slabForgetCurrent id sl).lruq = s.lruq := by
  simp only [slabForgetCurrent]
  split
  · split_ifs <;> exact ⟨rfl, rfl, rfl, rfl, rfl, rfl⟩
  · exact ⟨rfl, rfl, rfl, rfl, rfl, rfl⟩

theorem Wf.slabForgetCurrent (h : s.Wf cfg) (id sl : ℕ) :
    (s.slabForgetCurrent id sl).Wf cfg := by
  rcases shape_slabForgetCurrent (s := s) id sl with ⟨heq, -⟩ | heq
  · rw [Wf, heq]
    exact h
  · rw [Wf, heq]
    exact h.forget id

/-- **Slab eviction.**  Whatever its chunks are, a slab can be torn down. -/
theorem Wf.slabEvictOne (h : s.Wf cfg) {sl : ℕ} (hsl : sl ∈ s.slabLruq) :
    Evicts cfg sl s (s.slabEvictOne cfg sl) := by
  obtain ⟨e1, e2, e3, e4, e5, e6⟩ := slabForgetCurrent_same (s := s) (s.slabs sl).id sl
  have hfree := slabForgetCurrent_freeItem h sl
  have hw := h.slabForgetCurrent (s.slabs sl).id sl
  set t := s.slabForgetCurrent (s.slabs sl).id sl with ht
  have hsame : s.slabEvictOne cfg sl =
      Store.setGauges { (List.range (cfg.nitem (t.slabs sl).id)).foldl
          (fun u i => u.slabEvictItem cfg (t.slabs sl).id ⟨sl, i⟩) t with
        slabLruq := ((List.range (cfg.nitem (t.slabs sl).id)).foldl
          (fun u i => u.slabEvictItem cfg (t.slabs sl).id ⟨sl, i⟩) t).slabLruq.erase sl }
        (t.slabs sl).id fun g => { g with slabCurr := g.slabCurr - 1 } := by
    rw [e2]
    rfl
  obtain ⟨hw', htr, hother, hthis⟩ := hw.slabEvictLoop (e4 ▸ hsl)
    (List.range (cfg.nitem (t.slabs sl).id)) fun i hi => List.mem_range.1 hi
  rw [hsame]
  set u := (List.range (cfg.nitem (t.slabs sl).id)).foldl
    (fun u i => u.slabEvictItem cfg (t.slabs sl).id ⟨sl, i⟩) t
  refine ⟨?_, htr.env.trans e1, htr.slabs.trans e2, htr.slabTable.trans e3, ?_, ?_, ?_, ?_⟩
  · refine Shape.Wf.dropSlab (show u.shape.Wf cfg from hw') fun q hq hqs => ?_
    have hact := (htr.active q).1 hq
    obtain ⟨h1, h2⟩ := hthis q hqs (.inl (List.mem_range.2 (hqs ▸ hact.2)))
    refine ⟨h1, h2, fun hin => ?_⟩
    obtain ⟨id, q', hq', hslab, -⟩ := (htr.inTail q).1 hin
    exact ((hfree id q').1 hq').2 (hslab.trans hqs)
  · change u.slabLruq.erase sl = _
    rw [htr.slabLruq, e4]
  · exact fun q hq => (hother q hq).trans (congrFun e5 q)
  · intro id q
    change (u.slabclass id).freeItem = some q ↔ _
    rw [htr.freeItem, hfree]
  · exact fun id => e6 ▸ htr.lruq id

/-! ### Getting a slab -/

/-- Every allocated slab is in use. -/
def Full (s : Store) : Prop := ∀ sl ∈ s.slabTable, sl ∈ s.slabLruq

/-- The slab `sl` was taken out of use, or is new. -/
structure Obtains (cfg : Config) (sl : ℕ) (s s' : Store) : Prop where
  /-- The store stays well formed. -/
  wf : s'.Wf cfg
  /-- The scalar variables are the same. -/
  env : s'.env = s.env
  /-- The other slab headers are the same. -/
  slabs : ∀ x, x ≠ sl → s'.slabs x = s.slabs x
  /-- The slab is allocated. -/
  mem : sl ∈ s'.slabTable
  /-- No other slab was allocated. -/
  slabTable : ∀ x ∈ s'.slabTable, x = sl ∨ x ∈ s.slabTable
  /-- The other slabs stay in use. -/
  slabLruq : ∀ x, x ∈ s'.slabLruq ↔ x ∈ s.slabLruq ∧ x ≠ sl
  /-- A slab in use is only taken if its count is zero. -/
  idle : sl ∈ s.slabLruq → (s.slabs sl).refcount = 0
  /-- The chunks of the other slabs are the same. -/
  items : ∀ q, q.slab ≠ sl → s'.items q = s.items q
  /-- The slab is not current. -/
  freeItem : ∀ id q, (s'.slabclass id).freeItem = some q ↔
    (s.slabclass id).freeItem = some q ∧ q.slab ≠ sl
  /-- Lru queues only lose items. -/
  lruq : ∀ id, (s'.lruq id).Sublist (s.lruq id)

theorem Wf.lt_of_mem_slabLruq (h : s.Wf cfg) {sl : ℕ} (hsl : sl ∈ s.slabLruq) :
    sl < s.slabTable.length := by
  have hmem : sl ∈ s.slabTable := Shape.Wf.slab_mem h sl hsl
  have htab : s.slabTable = List.range s.slabTable.length := Shape.Wf.table_eq h
  rw [htab] at hmem
  exact List.mem_range.1 hmem

theorem Wf.slabGetNew (h : s.Wf cfg) (ch : Choice) :
    match s.slabGetNew cfg ch with
    | (some sl, s') => Obtains cfg sl s s'
    | (none, s') => s' = s := by
  simp only [Store.slabGetNew]
  split_ifs with hmax hok
  · rfl
  · have hnew : ∀ x ∈ s.slabLruq, x ≠ s.slabTable.length := fun x hx =>
      (h.lt_of_mem_slabLruq hx).ne
    have hcur : ∀ id q, (s.slabclass id).freeItem = some q → q.slab ≠ s.slabTable.length :=
      fun id q hq => hnew _ (h.cur id q hq).1.1
    refine ⟨?_, rfl, ?_, ?_, ?_, ?_, ?_, fun _ _ => rfl, ?_, fun _ => List.Sublist.refl _⟩
    · unfold Wf
      convert Shape.Wf.newSlab h using 2
      ext : 1
      all_goals first
        | rfl
        | funext x
          simp only [shape, setSlab, Shape.newSlab, Function.update_apply]
          split_ifs <;> simp_all
    · exact fun x hx => Function.update_of_ne hx _ _
    · exact List.mem_append_right _ (List.mem_singleton_self _)
    · exact fun x hx => (List.mem_append.1 hx).symm.imp_left List.mem_singleton.1
    · exact fun x => ⟨fun hx => ⟨hx, hnew x hx⟩, And.left⟩
    · exact fun hx => absurd rfl (hnew _ hx)
    · exact fun id q => ⟨fun hq => ⟨hq, hcur id q hq⟩, And.left⟩
  · rfl

theorem Wf.obtains_slabEvictOne (h : s.Wf cfg) {sl : ℕ} (hsl : sl ∈ s.slabLruq)
    (href : (s.slabs sl).refcount = 0) : Obtains cfg sl s (s.slabEvictOne cfg sl) := by
  have hev := h.slabEvictOne hsl
  refine ⟨hev.wf, hev.env, fun x _ => congrFun hev.slabs x, ?_, ?_, ?_, fun _ => href, hev.items,
    hev.freeItem, hev.lruq⟩
  · rw [hev.slabTable]
    exact Shape.Wf.slab_mem h sl hsl
  · exact fun x hx => .inr (hev.slabTable ▸ hx)
  · intro x
    have hnodup : s.slabLruq.Nodup := Shape.Wf.slab_nodup h
    rw [hev.slabLruq, hnodup.mem_erase_iff, and_comm]

theorem slabRandLoop_idle {rand : ℕ → ℕ} {tries k sl tries' : ℕ}
    (hpick : s.slabRandLoop rand tries k = (some sl, tries')) (htries : tries' ≠ 0) :
    sl ∈ s.slabTable ∧ (s.slabs sl).refcount = 0 := by
  induction tries generalizing k with
  | zero => simp [slabRandLoop] at hpick
  | succ n ih =>
    simp only [slabRandLoop] at hpick
    split at hpick
    · simp at hpick
    · rename_i x hx
      split_ifs at hpick with hc
      · exact ih hpick
      · simp only [Prod.mk.injEq, Option.some.injEq] at hpick
        obtain ⟨rfl, rfl⟩ := hpick
        refine ⟨List.mem_of_getElem? hx, ?_⟩
        simpa [Nat.pos_of_ne_zero htries] using hc

theorem slabEvictRandPick_idle {sl : ℕ} (hpick : s.slabEvictRandPick ch = some sl) :
    sl ∈ s.slabTable ∧ (s.slabs sl).refcount = 0 := by
  simp only [slabEvictRandPick] at hpick
  split at hpick
  · rename_i x tries hloop
    split_ifs at hpick with htries
    obtain rfl := Option.some.inj hpick
    exact slabRandLoop_idle hloop htries
  · cases hpick

theorem slabEvictLruPick_idle {sl : ℕ} (hpick : s.slabEvictLruPick = some sl) :
    sl ∈ s.slabLruq ∧ (s.slabs sl).refcount = 0 :=
  ⟨List.mem_of_mem_take (List.mem_of_find?_eq_some hpick), by
    simpa using List.find?_some hpick⟩

theorem Wf.slabObtain (h : s.Wf cfg) (ch : Choice) (hfull : s.Full) :
    match s.slabObtain cfg ch with
    | (some sl, s') => Obtains cfg sl s s'
    | (none, s') => s' = s := by
  have hnew := h.slabGetNew ch
  simp only [Store.slabObtain]
  generalize s.slabGetNew cfg ch = r at hnew ⊢
  obtain ⟨_ | sl, s'⟩ := r
  case some => exact hnew
  case none =>
    obtain rfl : s' = s := hnew
    dsimp only
    cases hlru : (if s'.evictOpt &&& (evictCs ||| evictAs) ≠ 0 then s'.slabEvictLruPick
      else none) with
    | some sl =>
      split_ifs at hlru
      obtain ⟨hsl, href⟩ := slabEvictLruPick_idle hlru
      exact h.obtains_slabEvictOne hsl href
    | none =>
      cases hrand : (if s'.evictOpt &&& evictRs ≠ 0 then s'.slabEvictRandPick ch else none) with
      | some sl =>
        split_ifs at hrand
        obtain ⟨hsl, href⟩ := slabEvictRandPick_idle hrand
        exact h.obtains_slabEvictOne (hfull sl hsl) href
      | none => rfl

/-- The slab `sl` is now the current slab of class `id`, all of it still to be handed out. -/
structure GetsSlab (cfg : Config) (sl id : ℕ) (s s' : Store) : Prop where
  /-- The store stays well formed. -/
  wf : s'.Wf cfg
  /-- Every slab is in use. -/
  full : s'.Full
  /-- The scalar variables are the same. -/
  env : s'.env = s.env
  /-- A slab in use is only taken if its count is zero. -/
  idle : sl ∈ s.slabLruq → (s.slabs sl).refcount = 0
  /-- The other slab headers are the same. -/
  slabs : ∀ x, x ≠ sl → s'.slabs x = s.slabs x
  /-- The chunks of the other slabs are the same. -/
  items : ∀ q, q.slab ≠ sl → s'.items q = s.items q
  /-- The chunks of the other slabs stay in use. -/
  active : ∀ q, q.slab ≠ sl → (s'.Active cfg q ↔ s.Active cfg q)
  /-- The chunks of the other slabs stay in their tails. -/
  tail : ∀ q, q.slab ≠ sl → (s'.InTail q ↔ s.InTail q)
  /-- The chunks of the slab are still to be handed out. -/
  tail_new : ∀ q, q.slab = sl → s'.InTail q
  /-- The first chunk comes next. -/
  freeItem : (s'.slabclass id).freeItem = some ⟨sl, 0⟩
  /-- Lru queues only lose items. -/
  lruq : ∀ id, (s'.lruq id).Sublist (s.lruq id)

/-- A slab that was obtained becomes the current slab of class `id`. -/
theorem Obtains.getsSlab {sl id : ℕ} {s' : Store} (hob : Obtains cfg sl s s') (hfull : s.Full)
    (hid : cfg.ValidId id) (hnone : (s.slabclass id).freeItem = none) :
    GetsSlab cfg sl id s (s'.slabAddOne cfg sl id) := by
  have hout : sl ∉ s'.slabLruq := fun hmem => ((hob.slabLruq sl).1 hmem).2 rfl
  refine ⟨?_, ?_, hob.env, hob.idle, fun x hx => ?_, ?_, ?_, ?_, ?_, ?_, hob.lruq⟩
  · rw [Wf, shape_slabAddOne]
    exact hob.wf.addSlab hid hout hob.mem
  · intro x hx
    change x ∈ s'.slabLruq ++ [sl]
    by_cases hxs : x = sl
    · simp [hxs]
    · have hmem := hfull x ((hob.slabTable x hx).resolve_left hxs)
      exact List.mem_append_left _ ((hob.slabLruq x).2 ⟨hmem, hxs⟩)
  · rw [← hob.slabs x hx]
    exact Function.update_of_ne hx _ _
  · intro q hq
    rw [← hob.items q hq]
    exact if_neg fun hn => hq hn.1
  · intro q hq
    rw [Active, shape_slabAddOne, Shape.Wf.addSlab_active hout]
    simp only [Active, Shape.Active, shape, hob.slabLruq, hob.slabs _ hq, hq, false_and, or_false,
      ne_eq, not_false_eq_true, and_true]
  · intro q hq
    simp only [InTail, Shape.InTail, shape, slabAddOne, setClass, setGauges, Function.update_apply]
    constructor
    · rintro ⟨id', q', hq', hslab, hle⟩
      split_ifs at hq' with hid'
      · exact absurd (by rw [← hslab, ← Option.some.inj hq']) hq
      · exact ⟨id', q', ((hob.freeItem id' q').1 hq').1, hslab, hle⟩
    · rintro ⟨id', q', hq', hslab, hle⟩
      have hid' : id' ≠ id := fun heq => by rw [heq, hnone] at hq'; cases hq'
      refine ⟨id', q', ?_, hslab, hle⟩
      rw [if_neg hid']
      exact (hob.freeItem id' q').2 ⟨hq', hslab ▸ hq⟩
  · intro q hq
    exact ⟨id, ⟨sl, 0⟩, by simp [shape, slabAddOne, setClass, setGauges], hq.symm, Nat.zero_le _⟩
  · simp [slabAddOne, setClass, setGauges]

theorem Wf.slabGet (h : s.Wf cfg) (ch : Choice) (hfull : s.Full) {id : ℕ} (hid : cfg.ValidId id)
    (hnone : (s.slabclass id).freeItem = none) :
    match s.slabGet cfg ch id with
    | (true, s') => ∃ sl, GetsSlab cfg sl id s s'
    | (false, s') => s' = s := by
  have hob := h.slabObtain ch hfull
  simp only [Store.slabGet]
  generalize s.slabObtain cfg ch = r at hob ⊢
  obtain ⟨_ | sl, s'⟩ := r
  case none => exact hob
  case some => exact ⟨sl, hob.getsSlab hfull hid hnone⟩

/-! ### Getting a chunk -/

/-- The chunk `p` of class `id` was found for a new item: it is in none of the four places. -/
structure Hands (cfg : Config) (id : ℕ) (s : Store) (p : ItemPtr) (s' : Store) : Prop where
  /-- The store stays well formed. -/
  wf : s'.Wf cfg
  /-- Every slab is in use. -/
  full : s'.Full
  /-- The scalar variables are the same. -/
  env : s'.env = s.env
  /-- The chunk is in use. -/
  active : s'.Active cfg p
  /-- The chunk has the class asked for. -/
  id : (s'.items p).id = id
  /-- The chunk is not linked. -/
  linked : (s'.items p).flags.linked = false
  /-- The chunk is not free. -/
  slabbed : (s'.items p).flags.slabbed = false
  /-- Nobody uses the chunk. -/
  ref : (s'.items p).refcount = 0
  /-- The chunk has been handed out. -/
  tail : ¬ s'.InTail p
  /-- Nobody used the chunk before, by the counts. -/
  idle : s.Active cfg p → (s.slabs p.slab).refcount ≠ 0 → (s.items p).refcount = 0
  /-- Other chunks of slabs that are used stay as they are. -/
  keep : ∀ q, q ≠ p → s.Active cfg q → (s.slabs q.slab).refcount ≠ 0 →
    s'.Active cfg q ∧ s'.items q = s.items q ∧ (s'.InTail q ↔ s.InTail q) ∧
      (s'.slabs q.slab).epoch = (s.slabs q.slab).epoch
  /-- Other chunks are as they were, or new. -/
  old : ∀ q, q ≠ p → s'.Active cfg q →
    s.Active cfg q ∧ s'.items q = s.items q ∧ (s'.InTail q ↔ s.InTail q) ∨ s'.InTail q
  /-- Lru queues only lose items. -/
  lruq : ∀ id, (s'.lruq id).Sublist (s.lruq id)

theorem Hands.of_trims {id : ℕ} {p : ItemPtr} {s' : Store} (hfull : s.Full) (hwf : s'.Wf cfg)
    (htr : Trims s s') (hitems : ∀ q, q ≠ p → s'.items q = s.items q) (hp : s.Active cfg p)
    (htail : ¬ s.InTail p) (hid : (s'.items p).id = id)
    (hlinked : (s'.items p).flags.linked = false) (hslabbed : (s'.items p).flags.slabbed = false)
    (href : (s'.items p).refcount = 0) (hidle : (s.items p).refcount = 0) :
    Hands cfg id s p s' where
  wf := hwf
  full := fun sl hsl => htr.slabLruq ▸ hfull sl (htr.slabTable ▸ hsl)
  env := htr.env
  active := (htr.active p).2 hp
  id := hid
  linked := hlinked
  slabbed := hslabbed
  ref := href
  tail := fun ht => htail ((htr.inTail p).1 ht)
  idle := fun _ _ => hidle
  keep := fun q hq ha _ => ⟨(htr.active q).2 ha, hitems q hq, htr.inTail q, by rw [htr.slabs]⟩
  old := fun q hq ha => .inl ⟨(htr.active q).1 ha, hitems q hq, htr.inTail q⟩
  lruq := htr.lruq

theorem Wf.hands_freeq (h : s.Wf cfg) (hfull : s.Full) {id : ℕ} {p : ItemPtr}
    (hp : s.slabGetItemFromFreeq cfg id = some p) :
    Hands cfg id s p (s.slabTakeItem id p) := by
  have hmem : p ∈ s.shape.freeq id := by
    simp only [slabGetItemFromFreeq] at hp
    split_ifs at hp
    exact List.mem_of_mem_head? hp
  obtain ⟨ha, rfl, hs⟩ := (Shape.Wf.free h).mem_iff.1 hmem
  obtain ⟨hl, href⟩ := Shape.Wf.slabbed h p ha hs
  refine Hands.of_trims hfull (h.slabTakeItem ha hs) (trims_slabTakeItem _ p) (fun q hq => ?_) ha
    (Shape.Wf.not_inTail_of_slabbed h ha hs) ?_ ?_ ?_ ?_ href
  · rw [slabTakeItem_items, Function.update_of_ne hq]
  · simp [shape]
  · simpa using hl
  · simp
  · simpa using href

theorem Wf.slabGetItemFromCurrent (h : s.Wf cfg) {id : ℕ} {p : ItemPtr}
    (hp : (s.slabclass id).freeItem = some p) :
    (s.slabGetItemFromCurrent id).1 = some p ∧ (s.slabGetItemFromCurrent id).2.Wf cfg ∧
      (s.slabGetItemFromCurrent id).2.items = s.items ∧
      (s.slabGetItemFromCurrent id).2.env = s.env ∧
      (s.slabGetItemFromCurrent id).2.slabTable = s.slabTable ∧
      (s.slabGetItemFromCurrent id).2.slabLruq = s.slabLruq ∧
      (s.slabGetItemFromCurrent id).2.lruq = s.lruq ∧
      (s.slabGetItemFromCurrent id).2.slabs = s.slabs ∧
      (∀ q, (s.slabGetItemFromCurrent id).2.Active cfg q ↔ s.Active cfg q) ∧
      ∀ q, s.Active cfg q →
        ((s.slabGetItemFromCurrent id).2.InTail q ↔ s.InTail q ∧ q ≠ p) := by
  obtain ⟨hfst, hsh⟩ := shape_handOut hp
  refine ⟨hfst, ?_, ?_, ?_, ?_, ?_, ?_, ?_, fun q => ?_, fun q hq => ?_⟩
  · rw [Wf, hsh]
    exact Shape.Wf.handOut h hp
  iterate 6
    · rw [Store.slabGetItemFromCurrent, hp]
      rfl
  · rw [Active, hsh]
    exact Iff.rfl
  · rw [InTail, hsh]
    exact Shape.Wf.handOut_inTail_iff h hp hq

/-- What a class's next chunk is, before and after it is handed out. -/
theorem Wf.hands_current (h : s.Wf cfg) (hfull : s.Full) {id : ℕ} {p : ItemPtr}
    (hp : (s.slabclass id).freeItem = some p) :
    Hands cfg id s p (s.slabGetItemFromCurrent id).2 := by
  obtain ⟨-, hwf, hitems, henv, htab, hlru, hq, hslabs, hact, htail⟩ := h.slabGetItemFromCurrent hp
  obtain ⟨ha, hid, -⟩ := Shape.Wf.cur h id p hp
  obtain ⟨hl, hs, href⟩ := Shape.Wf.tail h p ⟨id, p, hp, rfl, le_rfl⟩ ha
  exact
    { wf := hwf
      full := fun sl hsl => hlru ▸ hfull sl (htab ▸ hsl)
      env := henv
      active := (hact p).2 ha
      id := hitems ▸ hid
      linked := hitems ▸ hl
      slabbed := hitems ▸ hs
      ref := hitems ▸ href
      tail := fun ht => ((htail p ha).1 ht).2 rfl
      idle := fun _ _ => href
      keep := fun q hne hq _ => ⟨(hact q).2 hq, congrFun hitems q, by
        rw [htail q hq]
        exact and_iff_left hne, by rw [hslabs]⟩
      old := fun q hne hq => .inl ⟨(hact q).1 hq, congrFun hitems q, by
        rw [htail q ((hact q).1 hq)]
        exact and_iff_left hne⟩
      lruq := fun id => hq ▸ List.Sublist.refl _ }

theorem GetsSlab.hands {sl id : ℕ} {s' : Store} (hg : GetsSlab cfg sl id s s') :
    (s'.slabGetItemFromCurrent id).1 = some ⟨sl, 0⟩ ∧
      Hands cfg id s ⟨sl, 0⟩ (s'.slabGetItemFromCurrent id).2 := by
  obtain ⟨hfst, -, hitems, henv, -, -, hq, hslabs, hact, htail⟩ :=
    hg.wf.slabGetItemFromCurrent hg.freeItem
  have hh := hg.wf.hands_current hg.full hg.freeItem
  refine ⟨hfst, { hh with
    env := hh.env.trans hg.env, idle := ?_, keep := ?_, old := ?_, lruq := ?_ }⟩
  · exact fun ha href => absurd (hg.idle ha.1) href
  · intro q hne ha href
    have hsl : q.slab ≠ sl := fun heq => href (heq ▸ hg.idle (heq ▸ ha.1))
    have ha' := (hg.active q hsl).2 ha
    refine ⟨(hact q).2 ha', (congrFun hitems q).trans (hg.items q hsl), ?_, ?_⟩
    · rw [htail q ha', hg.tail q hsl]
      exact and_iff_left hne
    · rw [hslabs, hg.slabs _ hsl]
  · intro q hne ha
    have ha' := (hact q).1 ha
    rw [htail q ha']
    by_cases hsl : q.slab = sl
    · exact .inr ⟨hg.tail_new q hsl, hne⟩
    · refine .inl ⟨(hg.active q hsl).1 ha', (congrFun hitems q).trans (hg.items q hsl), ?_⟩
      rw [hg.tail q hsl]
      exact and_iff_left hne
  · exact fun id => hq ▸ hg.lruq id

/-- **Getting a chunk.**  A chunk handed out by the slab module was in no one's hands; without
one the store is unchanged. -/
theorem Wf.slabGetItem (h : s.Wf cfg) (ch : Choice) (hfull : s.Full) {id : ℕ}
    (hid : cfg.ValidId id) :
    match s.slabGetItem cfg ch id with
    | (some p, s') => Hands cfg id s p s'
    | (none, s') => s' = s := by
  simp only [Store.slabGetItem]
  cases hfq : s.slabGetItemFromFreeq cfg id with
  | some p => exact h.hands_freeq hfull hfq
  | none =>
    cases hcur : (s.slabclass id).freeItem with
    | some p =>
      have hfst := (h.slabGetItemFromCurrent hcur).1
      have hh := h.hands_current hfull hcur
      simp only [reduceCtorEq, if_false]
      generalize s.slabGetItemFromCurrent id = r at hfst hh
      obtain ⟨_, s'⟩ := r
      obtain rfl : _ = some p := hfst
      exact hh
    | none =>
      have hget := h.slabGet ch hfull hid hcur
      simp only [if_true]
      generalize s.slabGet cfg ch id = r at hget
      obtain ⟨b, s'⟩ := r
      cases b with
      | false => exact hget
      | true =>
        obtain ⟨sl, hg⟩ := hget
        obtain ⟨hfst, hh⟩ := hg.hands
        simp only
        generalize s'.slabGetItemFromCurrent id = r at hfst hh
        obtain ⟨_, s''⟩ := r
        obtain rfl : _ = some _ := hfst
        exact hh

theorem itemLruqLoop_idle {uit : Option ItemPtr} {tries : ℕ} {l : List ItemPtr} {p : ItemPtr}
    (hp : s.itemLruqLoop uit tries l = some p) :
    uit = some p ∨ p ∈ l ∧ (s.items p).refcount = 0 := by
  induction l generalizing uit tries with
  | nil => cases tries <;> exact .inl hp
  | cons q ps ih =>
    cases tries with
    | zero => exact .inl hp
    | succ n =>
      simp only [itemLruqLoop] at hp
      split_ifs at hp with href hexp hu
      · exact (ih hp).imp_right fun hq => ⟨List.mem_cons_of_mem q hq.1, hq.2⟩
      · obtain rfl := Option.some.inj hp
        exact .inr ⟨List.mem_cons_self, by simpa using href⟩
      · refine .inr ((ih hp).elim (fun heq => ?_) fun hq => ⟨List.mem_cons_of_mem q hq.1, hq.2⟩)
        obtain rfl := Option.some.inj heq
        exact ⟨List.mem_cons_self, by simpa using href⟩
      · exact (ih hp).imp_right fun hq => ⟨List.mem_cons_of_mem q hq.1, hq.2⟩

theorem Wf.itemGetFromLruq (h : s.Wf cfg) {id : ℕ} {p : ItemPtr}
    (hp : s.itemGetFromLruq cfg id = some p) :
    s.Linked cfg p ∧ (s.items p).id = id ∧ (s.items p).refcount = 0 := by
  simp only [Store.itemGetFromLruq] at hp
  split_ifs at hp
  obtain hnone | ⟨hmem, href⟩ := itemLruqLoop_idle hp
  · cases hnone
  · obtain ⟨ha, hid, hl⟩ := (Shape.Wf.lru h).mem_iff.1 hmem
    exact ⟨⟨ha, hl⟩, hid, href⟩

theorem Wf.hands_itemReuse (h : s.Wf cfg) (hfull : s.Full) {p : ItemPtr} (hp : s.Linked cfg p)
    (href : (s.items p).refcount = 0) : Hands cfg (s.items p).id s p (s.itemReuse cfg p) := by
  refine Hands.of_trims hfull (h.itemReuse hp) (trims_itemReuse p) (fun q hq => ?_) hp.1
    (Shape.Wf.not_inTail_of_linked h hp.1 hp.2) ?_ ?_ ?_ ?_ href
  · rw [itemReuse_items, Function.update_of_ne hq]
  · simp
  · simp
  · simpa using h.slabbed_of_linked hp
  · simpa using href

/-- **Finding a chunk for a new item.** -/
theorem Wf.itemAllocChunk (h : s.Wf cfg) (ch : Choice) (hfull : s.Full) {id : ℕ}
    (hid : cfg.ValidId id) :
    match s.itemAllocChunk cfg ch id with
    | (some p, s') => Hands cfg id s p s'
    | (none, s') => s' = s := by
  simp only [Store.itemAllocChunk]
  cases hexp : (s.itemGetFromLruq cfg id).filter s.itemExpired with
  | some p =>
    obtain ⟨hp, rfl, href⟩ := h.itemGetFromLruq (Option.filter_eq_some_iff.1 hexp).1
    exact h.hands_itemReuse hfull hp href
  | none =>
    have hget := h.slabGetItem ch hfull hid
    simp only
    generalize s.slabGetItem cfg ch id = r at hget
    obtain ⟨_ | p, s'⟩ := r
    · -- no slab was evicted, so the lru candidate is still there
      obtain rfl : s' = s := hget
      cases huit : (if s'.evictOpt &&& evictLru ≠ 0 then s'.itemGetFromLruq cfg id else none) with
      | none => rfl
      | some p =>
        split_ifs at huit
        obtain ⟨hp, rfl, href⟩ := h.itemGetFromLruq huit
        exact h.hands_itemReuse hfull hp href
    · exact hget

end Store

end Twemcache
