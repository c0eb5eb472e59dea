import Twemcache.Store.Wf

/-!
# References

`Inv cfg s held` relates a store to the list `held` of the references that are outstanding, one
entry for each: those that connections keep in `c->item` and in their `ilist`, and, in the
middle of a step, those of the function that is running.  The functions of the item module
that take, give back or check references are the primitives of this module, and each keeps the
invariant for the references it leaves outstanding.

The invariant includes that the references to a slab fit into its 16-bit count (`Fits`); a
primitive that takes a reference keeps it only if there is room for one more.
-/

namespace Twemcache

namespace Store

variable {cfg : Config} {ch : Choice} {s s' s'' : Store} {p q : ItemPtr} {held : List ItemPtr}

/-! ### What the primitives leave alone -/

/-- The slabs, their classes and the current slabs are the same. -/
structure Keeps (s s' : Store) : Prop where
  /-- The slabs keep their classes. -/
  slabs : ∀ sl, (s'.slabs sl).id = (s.slabs sl).id
  /-- The slab table is the same. -/
  slabTable : s'.slabTable = s.slabTable
  /-- The same slabs are in use. -/
  slabLruq : ∀ sl, sl ∈ s'.slabLruq ↔ sl ∈ s.slabLruq
  /-- The current slabs are the same. -/
  freeItem : ∀ id, (s'.slabclass id).freeItem = (s.slabclass id).freeItem
  /-- No slab is initialized. -/
  epoch : ∀ sl, (s'.slabs sl).epoch = (s.slabs sl).epoch

namespace Keeps

theorem refl (s : Store) : Keeps s s :=
  ⟨fun _ => rfl, rfl, fun _ => Iff.rfl, fun _ => rfl, fun _ => rfl⟩

theorem trans (h : Keeps s s') (h' : Keeps s' s'') : Keeps s s'' :=
  ⟨fun sl => (h'.slabs sl).trans (h.slabs sl), h'.slabTable.trans h.slabTable,
    fun sl => (h'.slabLruq sl).trans (h.slabLruq sl),
    fun id => (h'.freeItem id).trans (h.freeItem id),
    fun sl => (h'.epoch sl).trans (h.epoch sl)⟩

theorem of_trims (h : Trims s s') : Keeps s s' :=
  ⟨fun sl => by rw [h.slabs], h.slabTable, fun sl => by rw [h.slabLruq], h.freeItem,
    fun sl => by rw [h.slabs]⟩

theorem active (h : Keeps s s') (p : ItemPtr) : s'.Active cfg p ↔ s.Active cfg p := by
  simp only [Active, Shape.Active, shape, h.slabs, h.slabLruq]

theorem inTail (h : Keeps s s') (p : ItemPtr) : s'.InTail p ↔ s.InTail p := by
  simp only [InTail, Shape.InTail, shape, h.freeItem]

theorem full (h : Keeps s s') (hfull : s.Full) : s'.Full := fun sl hsl =>
  (h.slabLruq sl).2 (hfull sl (h.slabTable ▸ hsl))

theorem linked (h : Keeps s s') (hp : (s'.items p).flags.linked = (s.items p).flags.linked) :
    s'.Linked cfg p ↔ s.Linked cfg p := by
  rw [Linked, Linked, h.active, hp]

end Keeps

theorem keeps_setItem (p : ItemPtr) (f : Item → Item) : Keeps s (s.setItem p f) :=
  ⟨fun _ => rfl, rfl, fun _ => Iff.rfl, fun _ => rfl, fun _ => rfl⟩

theorem keeps_setSlab (sl : ℕ) {f : Slab → Slab}
    (hf : ∀ b, (f b).id = b.id ∧ (f b).epoch = b.epoch) : Keeps s (s.setSlab sl f) := by
  refine ⟨fun x => ?_, rfl, fun _ => Iff.rfl, fun _ => rfl, fun x => ?_⟩
  · by_cases hx : x = sl <;> simp [setSlab, hx, hf]
  · by_cases hx : x = sl <;> simp [setSlab, hx, hf]

theorem keeps_itemAcquireRefcount (p : ItemPtr) : Keeps s (s.itemAcquireRefcount p) := by
  have h := keeps_setSlab (s := s.setItem p fun it =>
      { it with refcount := (it.refcount + 1) % 2 ^ 16 }) p.slab
    (f := fun b => { b with refcount := (b.refcount + 1) % 2 ^ 16 }) fun _ => ⟨rfl, rfl⟩
  exact (keeps_setItem p _).trans ⟨h.slabs, h.slabTable, h.slabLruq, h.freeItem, h.epoch⟩

theorem keeps_itemReleaseRefcount (p : ItemPtr) : Keeps s (s.itemReleaseRefcount p) :=
  (keeps_setItem p _).trans (keeps_setSlab p.slab
    (f := fun b => { b with refcount := (b.refcount + 2 ^ 16 - 1) % 2 ^ 16 }) fun _ => ⟨rfl, rfl⟩)

theorem trims_slabPutItem (p : ItemPtr) : Trims s (s.slabPutItem p) := by
  unfold slabPutItem
  refine Trims.trans ?_ (trims_setGauges _ _)
  refine Trims.trans ?_ (trims_setLinks _)
  exact (trims_setItem p _).trans (trims_setClass _ fun _ => rfl)

theorem keeps_slabPutItem (p : ItemPtr) : Keeps s (s.slabPutItem p) :=
  .of_trims (trims_slabPutItem p)

theorem keeps_slabLruqTouch {sl : ℕ} (hsl : sl ∈ s.slabLruq) (allocated : Bool) :
    Keeps s (s.slabLruqTouch sl allocated) := by
  simp only [slabLruqTouch]
  split_ifs
  · exact Keeps.refl s
  · exact Keeps.refl s
  · refine ⟨fun x => ?_, rfl, fun x => ?_, fun _ => rfl, fun x => ?_⟩
    · by_cases hx : x = sl <;> simp [setSlab, hx]
    · by_cases hx : x = sl
      · simp [hx, hsl]
      · simp [List.mem_erase_of_ne hx, hx]
    · by_cases hx : x = sl <;> simp [setSlab, hx]

@[simp] theorem slabLruqTouch_items (sl : ℕ) (allocated : Bool) :
    (s.slabLruqTouch sl allocated).items = s.items := by
  simp only [slabLruqTouch]
  split_ifs <;> rfl

@[simp] theorem slabLruqTouch_env (sl : ℕ) (allocated : Bool) :
    (s.slabLruqTouch sl allocated).env = s.env := by
  simp only [slabLruqTouch]
  split_ifs <;> rfl

@[simp] theorem slabLruqTouch_lruq (sl : ℕ) (allocated : Bool) :
    (s.slabLruqTouch sl allocated).lruq = s.lruq := by
  simp only [slabLruqTouch]
  split_ifs <;> rfl

@[simp] theorem itemAcquireRefcount_items (p : ItemPtr) : (s.itemAcquireRefcount p).items =
    Function.update s.items p
      { s.items p with refcount := ((s.items p).refcount + 1) % 2 ^ 16 } := rfl

@[simp] theorem itemReleaseRefcount_items (p : ItemPtr) : (s.itemReleaseRefcount p).items =
    Function.update s.items p
      { s.items p with refcount := ((s.items p).refcount + 2 ^ 16 - 1) % 2 ^ 16 } := rfl

/-- Giving a reference back changes the count only. -/
theorem itemReleaseRefcount_same (p q : ItemPtr) : (s.itemReleaseRefcount p).items q =
    { s.items q with refcount := ((s.itemReleaseRefcount p).items q).refcount } := by
  rw [itemReleaseRefcount_items]
  by_cases hq : q = p
  · rw [hq, Function.update_self]
  · rw [Function.update_of_ne hq]

@[simp] theorem slabPutItem_items (p : ItemPtr) : (s.slabPutItem p).items =
    Function.update s.items p
      { s.items p with flags := { (s.items p).flags with slabbed := true } } := rfl

@[simp] theorem itemReuse_env (p : ItemPtr) : (s.itemReuse cfg p).env = s.env :=
  (trims_itemReuse p).env

@[simp] theorem slabPutItem_env (p : ItemPtr) : (s.slabPutItem p).env = s.env :=
  (trims_slabPutItem p).env

@[simp] theorem itemReleaseRefcount_env (p : ItemPtr) : (s.itemReleaseRefcount p).env = s.env := rfl

/-! ### Linking, touching and allocating, as single changes -/

theorem itemNextCas_setItem (p : ItemPtr) (f : Item → Item) : (s.setItem p f).itemNextCas cfg =
    ((s.itemNextCas cfg).1,
      { s.setItem p f with casIssued := (s.itemNextCas cfg).2.casIssued }) := by
  simp only [itemNextCas, setItem]
  split_ifs <;> rfl

/-- An item as `_item_link` leaves it. -/
def linkItem (cfg : Config) (s : Store) (p : ItemPtr) : Item :=
  { ({ s.items p with
      flags := { (s.items p).flags with linked := true } }).setCas
        (s.itemNextCas cfg).1 with atime := s.now }

/-- `_item_link`, before it touches the slab. -/
def linkBare (cfg : Config) (ch : Choice) (s : Store) (p : ItemPtr) : Store :=
  { s with
    items := Function.update s.items p (s.linkItem cfg p)
    casIssued := (s.itemNextCas cfg).2.casIssued
    assoc := s.assoc.insert cfg.hash s.keyOf cfg.hashPower ch.tableOk p
    lruq := Function.update s.lruq (s.items p).id (s.lruq (s.items p).id ++ [p])
    gauges := Function.update s.gauges (s.items p).id
      { s.gauges (s.items p).id with
        itemCurr := (s.gauges (s.items p).id).itemCurr + 1
        dataCurr := (s.gauges (s.items p).id).dataCurr + itemSize cfg (s.items p)
        dataValueCurr := (s.gauges (s.items p).id).dataValueCurr + (s.items p).nbyte }
    links := s.links.insertTail (.lru (s.items p).id) p }

theorem itemLink_eq (p : ItemPtr) :
    s.itemLink cfg ch p = (s.linkBare cfg ch p).slabLruqTouch p.slab true := by
  have hkey : ∀ it : Item, it.key = (s.items p).key →
      (fun q => (Function.update s.items p it q).key) = s.keyOf := fun it hit => by
    funext q
    by_cases hq : q = p
    · simp [keyOf, hq, hit]
    · simp [keyOf, hq]
  simp only [itemLink, itemNextCas_setItem, itemLinkQ]
  refine congrArg (slabLruqTouch · p.slab true) ?_
  simp only [setItem, setLruq, setLinks, setGauges, assocInsert, linkBare, linkItem,
    Function.update_self, Function.update_idem, Item.setCas_id, Item.setCas_nbyte, itemSize_setCas]
  congr 2
  exact hkey _ (by simp)

theorem shape_linkBare (p : ItemPtr) :
    (s.linkBare cfg ch p).shape = s.shape.link cfg ch.tableOk p := by
  ext : 1
  all_goals first
    | rfl
    | funext q
      by_cases hq : q = p <;> simp [shape, linkBare, linkItem, Shape.link, hq]

@[simp] theorem itemLink_items (p : ItemPtr) :
    (s.itemLink cfg ch p).items = Function.update s.items p (s.linkItem cfg p) := by
  rw [itemLink_eq, slabLruqTouch_items]
  rfl

@[simp] theorem itemLink_env (p : ItemPtr) : (s.itemLink cfg ch p).env =
    { s.env with casIssued := (s.itemNextCas cfg).2.casIssued } := by
  rw [itemLink_eq, slabLruqTouch_env]
  rfl

/-- The repositioning of `item_touch`, before it touches the slab. -/
def touchBare (s : Store) (p : ItemPtr) : Store :=
  { s with
    items := Function.update s.items p { s.items p with atime := s.now }
    lruq := Function.update s.lruq (s.items p).id ((s.lruq (s.items p).id).erase p ++ [p])
    links := (s.links.remove (.lru (s.items p).id) p).insertTail (.lru (s.items p).id) p }

theorem itemTouch_eq (cfg : Config) (p : ItemPtr) : s.itemTouch cfg p = s ∨
    (s.items p).flags.linked = true ∧ ¬ (s.items p).atime ≥ s.ago itemUpdateInterval ∧
      s.itemTouch cfg p = (s.touchBare p).slabLruqTouch p.slab false := by
  simp only [itemTouch]
  split_ifs with hold hl
  · exact .inl rfl
  · refine .inr ⟨hl, hold, ?_⟩
    simp [itemUnlinkQ, itemLinkQ, setItem, setLruq, setLinks, setGauges, touchBare]
  · exact .inl rfl

theorem shape_touchBare (p : ItemPtr) : (s.touchBare p).shape = s.shape.requeue p := by
  ext : 1
  all_goals first
    | rfl
    | funext q
      by_cases hq : q = p <;> simp [shape, touchBare, Shape.requeue, hq]

/-- An item as `_item_alloc` leaves it. -/
def allocItem (cfg : Config) (it : Item) (key : Key) (dataflags exptime nbyte gen : ℕ) : Item :=
  ({ it with
    refcount := (it.refcount + 1) % 2 ^ 16
    flags := { cas := cfg.useCas }
    dataflags := dataflags
    nbyte := nbyte
    exptime := exptime
    key := key
    gen := gen }).setCas 0

@[simp] theorem itemAllocDone_items (p : ItemPtr) (key : Key) (dataflags exptime nbyte : ℕ) :
    (s.itemAllocDone cfg p key dataflags exptime nbyte).items =
      Function.update s.items p
          (allocItem cfg (s.items p) key dataflags exptime nbyte s.nalloc) := by
  simp [itemAllocDone, setItem, allocItem]

/-! ### The invariant -/

/-- The references to each slab fit into its count. -/
def Fits (held : List ItemPtr) : Prop := ∀ sl, held.countP (fun p => p.slab = sl) < 2 ^ 16

/-- There is room for `n` more references: the counts never wrapped, or there are few. -/
def Room (s : Store) (held : List ItemPtr) (n : ℕ) : Prop :=
  s.overflow = false ∨ held.length + n < 2 ^ 16

/-- The counts of a well-formed store are the numbers of references in `held`. -/
structure Counts (cfg : Config) (s : Store) (held : List ItemPtr) : Prop where
  /-- The store is well formed. -/
  wf : s.Wf cfg
  /-- Every slab is in use. -/
  full : s.Full
  /-- References are to chunks in use. -/
  active : ∀ p ∈ held, s.Active cfg p
  /-- Items count their references. -/
  ref : ∀ p, s.Active cfg p → (s.items p).refcount = held.count p
  /-- The references to a slab fit into its count. -/
  fits : Fits held

/-- The counts are right, and a chunk that is nowhere else is referenced. -/
structure Inv (cfg : Config) (s : Store) (held : List ItemPtr) : Prop
    extends Counts cfg s held where
  /-- A chunk is linked, free, waiting to be handed out, or referenced. -/
  place : ∀ p, s.Active cfg p → (s.items p).flags.linked = true ∨
    (s.items p).flags.slabbed = true ∨ s.InTail p ∨ p ∈ held

/-- References to the chunks of a slab, counted chunk by chunk. -/
theorem sum_count_eq (l : List ItemPtr) (sl n : ℕ) (hl : ∀ p ∈ l, p.slab = sl → p.idx < n) :
    ∑ i ∈ Finset.range n, l.count ⟨sl, i⟩ = l.countP fun p => p.slab = sl := by
  induction l with
  | nil => simp
  | cons p l ih =>
    have hrest := ih fun q hq => hl q (List.mem_cons_of_mem p hq)
    simp only [List.count_cons, List.countP_cons, Finset.sum_add_distrib, hrest]
    congr 1
    by_cases hsl : p.slab = sl
    · have hlt := hl p List.mem_cons_self hsl
      rw [Finset.sum_eq_single p.idx]
      · simp [← hsl]
      · intro i _ hne
        have : p ≠ ⟨sl, i⟩ := fun heq => hne (by rw [heq])
        simp [this]
      · simp [hlt]
    · refine (Finset.sum_eq_zero fun i _ => ?_).trans (by simp [hsl])
      have : p ≠ ⟨sl, i⟩ := fun heq => hsl (by rw [heq])
      simp [this]

namespace Counts

/-- A slab counts the references to its chunks. -/
theorem slab_ref (h : Counts cfg s held) {sl : ℕ} (hsl : sl ∈ s.slabLruq) :
    (s.slabs sl).refcount = held.countP fun p => p.slab = sl := by
  have hsum : s.shape.refs cfg sl = held.countP fun p => p.slab = sl := by
    rw [← sum_count_eq held sl (cfg.nitem (s.slabs sl).id) fun p hp hps => hps ▸ (h.active p hp).2]
    exact Finset.sum_congr rfl fun i hi => h.ref ⟨sl, i⟩ ⟨hsl, Finset.mem_range.1 hi⟩
  have := Shape.Wf.slab_ref h.wf sl hsl
  rw [hsum, Nat.mod_eq_of_lt (h.fits sl)] at this
  exact this

theorem ref_ne_zero (h : Counts cfg s held) (hp : p ∈ held) : (s.items p).refcount ≠ 0 := by
  rw [h.ref p (h.active p hp)]
  exact (List.count_pos_iff.2 hp).ne'

theorem slab_ref_ne_zero (h : Counts cfg s held) (hp : p ∈ held) :
    (s.slabs p.slab).refcount ≠ 0 := by
  rw [h.slab_ref (h.active p hp).1]
  exact (List.countP_pos_iff.2 ⟨p, hp, by simp⟩).ne'

theorem not_slabbed (h : Counts cfg s held) (hp : p ∈ held) :
    (s.items p).flags.slabbed = false := by
  by_contra hs
  have hs' : s.shape.slabbed p = true := by simpa using hs
  exact h.ref_ne_zero hp (Shape.Wf.slabbed h.wf p (h.active p hp) hs').2

theorem not_inTail (h : Counts cfg s held) (hp : p ∈ held) : ¬ s.InTail p :=
  Shape.Wf.not_inTail_of_ref h.wf (h.active p hp) (h.ref_ne_zero hp)

theorem ref_eq_zero (h : Counts cfg s held) (ha : s.Active cfg p) (hp : p ∉ held) :
    (s.items p).refcount = 0 := by
  rw [h.ref p ha, List.count_eq_zero.2 hp]

theorem of_keeps (h : Counts cfg s held) (hk : Keeps s s') (hwf : s'.Wf cfg)
    (href : ∀ q, (s'.items q).refcount = (s.items q).refcount) : Counts cfg s' held where
  wf := hwf
  full := hk.full h.full
  active := fun q hq => (hk.active q).2 (h.active q hq)
  ref := fun q hq => (href q).trans (h.ref q ((hk.active q).1 hq))
  fits := h.fits

theorem count_le (held : List ItemPtr) (p : ItemPtr) :
    held.count p ≤ held.countP fun q => q.slab = p.slab :=
  List.countP_mono_left fun q _ hq => by simpa using congrArg ItemPtr.slab (beq_iff_eq.1 hq)

/-- A reference is taken. -/
theorem acquire (h : Counts cfg s held) (hp : s.Active cfg p)
    (hs : (s.items p).flags.slabbed = false) (ht : ¬ s.InTail p) (hfit : Fits (p :: held)) :
    Counts cfg (s.itemAcquireRefcount p) (p :: held) := by
  have hk := keeps_itemAcquireRefcount (s := s) p
  have hbound := hfit p.slab
  rw [List.countP_cons_of_pos (by simp)] at hbound
  have hle := count_le held p
  refine ⟨?_, hk.full h.full, ?_, ?_, hfit⟩
  · rw [Wf, shape_acquire]
    exact Shape.Wf.acquire h.wf hp hs ht
  · intro q hq
    rw [hk.active]
    rcases List.mem_cons.1 hq with rfl | hq
    · exact hp
    · exact h.active q hq
  · intro q hq
    have href := h.ref q ((hk.active q).1 hq)
    by_cases hqp : q = p
    · subst hqp
      rw [itemAcquireRefcount_items, Function.update_self, List.count_cons_self]
      simp only [href]
      omega
    · rw [itemAcquireRefcount_items, Function.update_of_ne hqp, List.count_cons_of_ne (Ne.symm hqp)]
      exact href

/-- If the slab's count did not wrap, the new reference fits. -/
theorem fits_cons (h : Counts cfg s held) (hp : s.Active cfg p)
    (hroom : Room (s.itemAcquireRefcount p) held 1) : Fits (p :: held) := by
  intro sl
  have hfit := h.fits sl
  rw [List.countP_cons]
  rcases hroom with hov | hlen
  · have hor : (s.overflow || decide ((s.slabs p.slab).refcount + 1 = 2 ^ 16)) = false := hov
    have hne : (s.slabs p.slab).refcount + 1 ≠ 2 ^ 16 := by
      simpa using (Bool.or_eq_false_iff.1 hor).2
    rw [h.slab_ref hp.1] at hne
    by_cases hsl : p.slab = sl
    · subst hsl
      simp only [decide_true, if_true]
      omega
    · simpa [hsl] using hfit
  · have := List.countP_le_length (p := fun q : ItemPtr => decide (q.slab = sl)) (l := held)
    split_ifs <;> omega

/-- A reference is given back. -/
theorem release (h : Counts cfg s held) (hp : p ∈ held) :
    Counts cfg (s.itemReleaseRefcount p) (held.erase p) := by
  have hk := keeps_itemReleaseRefcount (s := s) p
  refine ⟨?_, hk.full h.full, ?_, ?_, ?_⟩
  · rw [Wf, shape_release]
    exact Shape.Wf.release h.wf (h.active p hp) (h.ref_ne_zero hp)
  · exact fun q hq => (hk.active q).2 (h.active q (List.mem_of_mem_erase hq))
  · intro q hq
    have href := h.ref q ((hk.active q).1 hq)
    by_cases hqp : q = p
    · subst hqp
      have hpos := List.count_pos_iff.2 hp
      have hbound := h.fits q.slab
      have hle := count_le held q
      rw [itemReleaseRefcount_items, Function.update_self, List.count_erase_self]
      simp only [href]
      omega
    · rw [itemReleaseRefcount_items, Function.update_of_ne hqp, List.count_erase_of_ne hqp]
      exact href
  · exact fun sl => List.erase_sublist.countP_le.trans_lt (h.fits sl)

/-- An unused chunk goes to its free queue. -/
theorem put (h : Counts cfg s held) (ha : s.Active cfg p)
    (hl : (s.items p).flags.linked = false) (hs : (s.items p).flags.slabbed = false)
    (ht : ¬ s.InTail p) (hp : p ∉ held) : Counts cfg (s.slabPutItem p) held := by
  refine h.of_keeps (keeps_slabPutItem p) ?_ fun q => ?_
  · rw [Wf, shape_slabPutItem]
    exact Shape.Wf.put h.wf ha hl hs (h.ref_eq_zero ha hp) ht
  · by_cases hqp : q = p <;> simp [hqp]

theorem itemReuse (h : Counts cfg s held) (hp : s.Linked cfg p) :
    Counts cfg (s.itemReuse cfg p) held := by
  refine h.of_keeps (Keeps.of_trims (trims_itemReuse p)) (h.wf.itemReuse hp) fun q => ?_
  by_cases hqp : q = p <;> simp [hqp]

end Counts

/-! ### The primitives -/

namespace Inv

theorem of_keeps (h : Inv cfg s held) (hk : Keeps s s') (hwf : s'.Wf cfg)
    (hitems : ∀ q, (s'.items q).refcount = (s.items q).refcount ∧
      (s'.items q).flags.linked = (s.items q).flags.linked ∧
      (s'.items q).flags.slabbed = (s.items q).flags.slabbed) : Inv cfg s' held where
  toCounts := h.toCounts.of_keeps hk hwf fun q => (hitems q).1
  place := fun q hq => by
    rw [(hitems q).2.1, (hitems q).2.2, hk.inTail]
    exact h.place q ((hk.active q).1 hq)

/-- `item_acquire_refcount`, of a linked item. -/
theorem acquire (h : Inv cfg s held) (hp : s.Linked cfg p) (hfit : Fits (p :: held)) :
    Inv cfg (s.itemAcquireRefcount p) (p :: held) where
  toCounts := h.toCounts.acquire hp.1 (h.wf.slabbed_of_linked hp)
    (Shape.Wf.not_inTail_of_linked h.wf hp.1 hp.2) hfit
  place := fun q hq => by
    have hk := keeps_itemAcquireRefcount (s := s) p
    rw [hk.inTail]
    by_cases hqp : q = p
    · exact .inr (.inr (.inr (hqp ▸ List.mem_cons_self)))
    · rw [itemAcquireRefcount_items, Function.update_of_ne hqp]
      exact (h.place q ((hk.active q).1 hq)).imp_right
        (.imp_right (.imp_right (List.mem_cons_of_mem p)))

/-- A chunk in none of the four places goes to its free queue. -/
theorem of_put (hc : Counts cfg s held) (ha : s.Active cfg p)
    (hl : (s.items p).flags.linked = false) (hs : (s.items p).flags.slabbed = false)
    (ht : ¬ s.InTail p) (hp : p ∉ held)
    (hplace : ∀ q, q ≠ p → s.Active cfg q → (s.items q).flags.linked = true ∨
      (s.items q).flags.slabbed = true ∨ s.InTail q ∨ q ∈ held) :
    Inv cfg (s.slabPutItem p) held where
  toCounts := hc.put ha hl hs ht hp
  place := fun q hq => by
    have hk := keeps_slabPutItem (s := s) p
    by_cases hqp : q = p
    · subst hqp
      simp
    · rw [slabPutItem_items, Function.update_of_ne hqp, hk.inTail]
      exact hplace q hqp ((hk.active q).1 hq)

/-- `item_remove`. -/
theorem remove (h : Inv cfg s held) (hp : p ∈ held) : Inv cfg (s.itemRemove p) (held.erase p) := by
  have hc := h.toCounts.release hp
  have hk := keeps_itemReleaseRefcount (s := s) p
  have ha := (hk.active p).2 (h.active p hp)
  have hplace : ∀ q, q ≠ p → (s.itemReleaseRefcount p).Active cfg q →
      ((s.itemReleaseRefcount p).items q).flags.linked = true ∨
      ((s.itemReleaseRefcount p).items q).flags.slabbed = true ∨
      (s.itemReleaseRefcount p).InTail q ∨ q ∈ held.erase p := fun q hqp hq => by
    rw [hk.inTail, itemReleaseRefcount_items, Function.update_of_ne hqp, List.mem_erase_of_ne hqp]
    exact h.place q ((hk.active q).1 hq)
  simp only [itemRemove, if_pos (h.ref_ne_zero hp)]
  split_ifs with hput
  · have hout : p ∉ held.erase p := fun hin => hc.ref_ne_zero hin hput.1
    have hs : ((s.itemReleaseRefcount p).items p).flags.slabbed = false := by
      rw [itemReleaseRefcount_same]
      exact h.not_slabbed hp
    have hl := Bool.not_eq_true _ ▸ hput.2
    have ht : ¬ (s.itemReleaseRefcount p).InTail p := fun ht =>
      h.not_inTail hp ((hk.inTail p).1 ht)
    exact of_put hc ha hl hs ht hout hplace
  · refine ⟨hc, fun q hq => ?_⟩
    by_cases hqp : q = p
    · subst hqp
      by_cases hin : q ∈ held.erase q
      · exact .inr (.inr (.inr hin))
      · have hz := hc.ref_eq_zero hq hin
        exact .inl (not_not.1 (not_and.1 hput hz))
    · exact hplace q hqp hq

/-- `_item_unlink`. -/
theorem unlink (h : Inv cfg s held) (hp : s.Linked cfg p) : Inv cfg (s.itemUnlink cfg p) held := by
  have hc := h.toCounts.itemReuse hp
  have hk : Keeps s (s.itemReuse cfg p) := .of_trims (trims_itemReuse p)
  have ha := (hk.active p).2 hp.1
  have hplace : ∀ q, q ≠ p → (s.itemReuse cfg p).Active cfg q →
      ((s.itemReuse cfg p).items q).flags.linked = true ∨
      ((s.itemReuse cfg p).items q).flags.slabbed = true ∨
      (s.itemReuse cfg p).InTail q ∨ q ∈ held := fun q hqp hq => by
    rw [hk.inTail, itemReuse_items, Function.update_of_ne hqp]
    exact h.place q ((hk.active q).1 hq)
  simp only [itemUnlink, if_pos hp.2]
  split_ifs with hput
  · have hout : p ∉ held := fun hin => hc.ref_ne_zero hin hput
    have hs : ((s.itemReuse cfg p).items p).flags.slabbed = false := by
      simpa using h.wf.slabbed_of_linked hp
    have ht : ¬ (s.itemReuse cfg p).InTail p := fun ht =>
      Shape.Wf.not_inTail_of_linked h.wf hp.1 hp.2 ((hk.inTail p).1 ht)
    exact of_put hc ha (by simp) hs ht hout hplace
  · refine ⟨hc, fun q hq => ?_⟩
    by_cases hqp : q = p
    · subst hqp
      by_cases hin : q ∈ held
      · exact .inr (.inr (.inr hin))
      · exact absurd (hc.ref_eq_zero hq hin) hput
    · exact hplace q hqp hq

/-- The slab queue is repositioned. -/
theorem slabLruqTouch (h : Inv cfg s held) {sl : ℕ} (hsl : sl ∈ s.slabLruq) (allocated : Bool) :
    Inv cfg (s.slabLruqTouch sl allocated) held := by
  refine h.of_keeps (keeps_slabLruqTouch hsl allocated) ?_ fun q => by simp
  rcases shape_slabLruqTouch (s := s) sl allocated with heq | heq
  · rw [Wf, heq]
    exact h.wf
  · rw [Wf, heq]
    exact Shape.Wf.moveSlab h.wf hsl

/-- `_item_link`, of an item that only its holders know. -/
theorem link (h : Inv cfg s held) (ch : Choice) (hp : p ∈ held)
    (hl : (s.items p).flags.linked = false)
    (hkey : ∀ q, s.Linked cfg q → (s.items q).key ≠ (s.items p).key) :
    Inv cfg (s.itemLink cfg ch p) held := by
  have hk : Keeps s (s.linkBare cfg ch p) :=
    ⟨fun _ => rfl, rfl, fun _ => Iff.rfl, fun _ => rfl, fun _ => rfl⟩
  have hitems : ∀ q, q ≠ p → (s.linkBare cfg ch p).items q = s.items q := fun q hq =>
    Function.update_of_ne hq _ _
  have hself : (s.linkBare cfg ch p).items p = s.linkItem cfg p := Function.update_self ..
  have hbare : Inv cfg (s.linkBare cfg ch p) held := by
    refine ⟨h.toCounts.of_keeps hk ?_ fun q => ?_, fun q hq => ?_⟩
    · rw [Wf, shape_linkBare]
      exact Shape.Wf.link h.wf (h.active p hp) hl (h.not_slabbed hp) (h.not_inTail hp)
        fun q ha hq => hkey q ⟨ha, hq⟩
    · by_cases hqp : q = p
      · rw [hqp, hself]
        simp [linkItem]
      · rw [hitems q hqp]
    · by_cases hqp : q = p
      · exact .inr (.inr (.inr (hqp ▸ hp)))
      · rw [hitems q hqp, hk.inTail]
        exact h.place q ((hk.active q).1 hq)
  rw [itemLink_eq]
  exact hbare.slabLruqTouch (h.active p hp).1 true

/-- `item_touch`, of an item in use. -/
theorem touch (h : Inv cfg s held) (ha : s.Active cfg p) : Inv cfg (s.itemTouch cfg p) held := by
  rcases itemTouch_eq (s := s) cfg p with heq | ⟨hl, -, heq⟩
  · rwa [heq]
  · have hbare : Inv cfg (s.touchBare p) held := by
      refine h.of_keeps ⟨fun _ => rfl, rfl, fun _ => Iff.rfl, fun _ => rfl, fun _ => rfl⟩
        ?_ fun q => ?_
      · rw [Wf, shape_touchBare]
        exact Shape.Wf.requeue h.wf ha hl
      · by_cases hqp : q = p <;> simp [touchBare, hqp]
    rw [heq]
    exact hbare.slabLruqTouch ha.1 false

/-- Writes to an item's other fields. -/
theorem setItem (h : Inv cfg s held) {f : Item → Item} (hf : Inert f) :
    Inv cfg (s.setItem p f) held := by
  refine h.of_keeps (keeps_setItem p f) ?_ fun q => ?_
  · rw [Wf, shape_setItem_of_inert hf]
    exact h.wf
  · by_cases hqp : q = p
    · subst hqp
      simp [Store.setItem, hf.refcount, hf.linked, hf.slabbed]
    · simp [Store.setItem, hqp]

/-- Changes of the scalar variables. -/
theorem of_env (h : Inv cfg s held) (hshape : s'.shape = s.shape) (hsl : s'.slabs = s.slabs) :
    Inv cfg s' held := by
  have hslabs : ∀ sl, (s'.slabs sl).id = (s.slabs sl).id := fun sl =>
    congrFun (congrArg Shape.slabId hshape) sl
  have hlru : s'.slabLruq = s.slabLruq := congrArg Shape.slabLruq hshape
  have hcls : s'.slabclass = s.slabclass := congrArg Shape.slabclass hshape
  refine h.of_keeps ⟨hslabs, congrArg Shape.slabTable hshape, fun sl => by rw [hlru], fun id => by
    rw [hcls], fun sl => by rw [hsl]⟩ ?_ fun q => ⟨?_, ?_, ?_⟩
  · rw [Wf, hshape]
    exact h.wf
  · exact congrFun (congrArg Shape.ref hshape) q
  · exact congrFun (congrArg Shape.linked hshape) q
  · exact congrFun (congrArg Shape.slabbed hshape) q

/-- One bucket move. -/
theorem assocMoveBucket (h : Inv cfg s held) : Inv cfg (s.assocMoveBucket cfg) held :=
  h.of_keeps ⟨fun _ => rfl, rfl, fun _ => Iff.rfl, fun _ => rfl, fun _ => rfl⟩
    (Shape.Wf.moveBucket h.wf)
    fun _ => ⟨rfl, rfl, rfl⟩

end Inv

/-! ### Allocation -/

/-- The chunk that is found was not referenced. -/
theorem Hands.not_held {id : ℕ} (hh : Hands cfg id s p s') (h : Counts cfg s held) :
    p ∉ held := fun hp =>
  h.ref_ne_zero hp (hh.idle (h.active p hp) (h.slab_ref_ne_zero hp))

/-- A referenced chunk is left alone. -/
theorem Hands.keep_held {id : ℕ} (hh : Hands cfg id s p s') (h : Counts cfg s held)
    (hq : q ∈ held) :
    q ≠ p ∧ s'.Active cfg q ∧ s'.items q = s.items q := by
  have hne : q ≠ p := fun heq => hh.not_held h (heq ▸ hq)
  obtain ⟨h1, h2, -⟩ := hh.keep q hne (h.active q hq) (h.slab_ref_ne_zero hq)
  exact ⟨hne, h1, h2⟩

theorem Hands.counts {id : ℕ} (hh : Hands cfg id s p s') (h : Counts cfg s held) :
    Counts cfg s' held where
  wf := hh.wf
  full := hh.full
  active := fun q hq => (hh.keep_held h hq).2.1
  ref := fun q ha => by
    by_cases hqp : q = p
    · rw [hqp, hh.ref, List.count_eq_zero.2 (hh.not_held h)]
    · by_cases hq : q ∈ held
      · rw [(hh.keep_held h hq).2.2]
        exact h.ref q (h.active q hq)
      · rw [List.count_eq_zero.2 hq]
        rcases hh.old q hqp ha with ⟨ha', heq, -⟩ | ht
        · rw [heq]
          exact h.ref_eq_zero ha' hq
        · exact (Shape.Wf.tail hh.wf q ht ha).2.2
  fits := h.fits

theorem itemAlloc_cases (h : s.Wf cfg) (hfull : s.Full) {id : ℕ} (hid : cfg.ValidId id)
    (ch : Choice) (key : Key) (dataflags exptime nbyte : ℕ) :
    s.itemAlloc cfg ch id key dataflags exptime nbyte = (none, s) ∨
      ∃ p t, Hands cfg id s p t ∧ s.itemAlloc cfg ch id key dataflags exptime nbyte =
        (some p, t.itemAllocDone cfg p key dataflags exptime nbyte) := by
  have hchunk := h.itemAllocChunk ch hfull hid
  simp only [itemAlloc]
  generalize s.itemAllocChunk cfg ch id = r at hchunk
  obtain ⟨_ | p, t⟩ := r
  · obtain rfl : t = s := hchunk
    exact .inl rfl
  · exact .inr ⟨p, t, hchunk, rfl⟩

theorem keeps_itemAllocDone (cfg : Config) (p : ItemPtr) (key : Key) (dataflags exptime nbyte : ℕ) :
    Keeps s (s.itemAllocDone cfg p key dataflags exptime nbyte) := by
  have h := keeps_itemAcquireRefcount (s := s) p
  exact ⟨h.slabs, h.slabTable, h.slabLruq, h.freeItem, h.epoch⟩

theorem shape_itemAllocDone (hl : (s.items p).flags.linked = false)
    (hs : (s.items p).flags.slabbed = false) (key : Key) (dataflags exptime nbyte : ℕ) :
    (s.itemAllocDone cfg p key dataflags exptime nbyte).shape =
      (s.itemAcquireRefcount p).shape.setKey p key := by
  have heq : (s.itemAllocDone cfg p key dataflags exptime nbyte).shape =
      ((s.itemAcquireRefcount p).setItem p fun _ =>
        allocItem cfg (s.items p) key dataflags exptime nbyte s.nalloc).shape := by
    simp [shape, itemAllocDone, setItem, allocItem]
  rw [heq, shape_setItem]
  ext : 1
  all_goals first
    | rfl
    | funext q
      by_cases hq : q = p <;> simp [hq, Shape.setKey, allocItem, hl, hs]

/-- `item_alloc`: the item comes with one reference. -/
theorem Inv.itemAllocDone {id : ℕ} (h : Inv cfg s held) (hh : Hands cfg id s p s') (key : Key)
    (dataflags exptime nbyte : ℕ) (hfit : Fits (p :: held)) :
    Inv cfg (s'.itemAllocDone cfg p key dataflags exptime nbyte) (p :: held) := by
  have hc := (hh.counts h.toCounts).acquire hh.active hh.slabbed hh.tail hfit
  have hk := keeps_itemAllocDone (s := s') cfg p key dataflags exptime nbyte
  have hk' : Keeps (s'.itemAcquireRefcount p)
      (s'.itemAllocDone cfg p key dataflags exptime nbyte) :=
    ⟨fun _ => rfl, rfl, fun _ => Iff.rfl, fun _ => rfl, fun _ => rfl⟩
  refine ⟨hc.of_keeps hk' ?_ fun q => ?_, fun q hq => ?_⟩
  · have hnot : ¬ (s'.itemAcquireRefcount p).shape.assoc.Has p := fun hhas => by
      have hl := ((Shape.Wf.assoc_has hc.wf p).1 hhas).2
      simp [hh.linked] at hl
    rw [Wf, shape_itemAllocDone hh.linked hh.slabbed]
    exact Shape.Wf.setKey hc.wf hnot key
  · by_cases hqp : q = p <;> simp [hqp, allocItem]
  · by_cases hqp : q = p
    · exact .inr (.inr (.inr (hqp ▸ List.mem_cons_self)))
    · rw [itemAllocDone_items, Function.update_of_ne hqp, hk.inTail]
      have ha := (hk.active q).1 hq
      rcases hh.old q hqp ha with ⟨ha', heq, ht⟩ | ht
      · rw [heq, ht]
        exact (h.place q ha').imp_right (.imp_right (.imp_right (List.mem_cons_of_mem p)))
      · exact .inr (.inr (.inl ht))

end Store

end Twemcache
