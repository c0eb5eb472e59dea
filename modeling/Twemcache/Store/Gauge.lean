import Twemcache.Store.Path
import Twemcache.Store.Alloc
import Mathlib.Algebra.BigOperators.Group.List.Basic
import Mathlib.Algebra.Ring.Int.Defs

/-!
# The gauges

Every slab class has gauges: how many items are linked and how many are free, how many slabs it has,
and how many bytes its linked items take.  They are counted up and down at the queue operations and
never computed.  `tally` is what they should be, and `drift` how far they are off.

Each function of the item and slab modules keeps the drift, because it counts what it moves; only
the in-place branches of `item_annex` and `item_delta` change the size of a linked item behind the
gauges' back.
-/

namespace Twemcache

namespace Store

variable (cfg : Config) (s : Store)

/-- The sum of a quantity over the linked items of class `id`. -/
def load (f : Item → ℕ) (id : ℕ) : ℤ := ((s.lruq id).map fun p => (f (s.items p) : ℤ)).sum

/-- The number of slabs of class `id` on the slab lru queue. -/
def slabCount (id : ℕ) : ℕ := s.slabLruq.countP fun sl => (s.slabs sl).id = id

/-- What the gauges of class `id` should be. -/
def tally (id : ℕ) : Gauges where
  itemCurr := (s.lruq id).length
  itemFree := (s.slabclass id).freeItemq.length
  slabCurr := s.slabCount id
  dataCurr := s.load (itemSize cfg) id
  dataValueCurr := s.load Item.nbyte id

/-- How far the gauges of class `id` are off. -/
def drift (id : ℕ) : Gauges where
  itemCurr := (s.gauges id).itemCurr - (s.tally cfg id).itemCurr
  itemFree := (s.gauges id).itemFree - (s.tally cfg id).itemFree
  slabCurr := (s.gauges id).slabCurr - (s.tally cfg id).slabCurr
  dataCurr := (s.gauges id).dataCurr - (s.tally cfg id).dataCurr
  dataValueCurr := (s.gauges id).dataValueCurr - (s.tally cfg id).dataValueCurr

variable {cfg s} {s' : Store} {p q : ItemPtr} {id : ℕ} {ch : Choice} {held : List ItemPtr}
  {sc : Scope}

theorem load_congr {f : Item → ℕ} (hlru : (s'.lruq id).Perm (s.lruq id))
    (hf : ∀ p ∈ s.lruq id, f (s'.items p) = f (s.items p)) : s'.load f id = s.load f id := by
  rw [load, (hlru.map _).sum_eq, load]
  exact congrArg List.sum (List.map_congr_left fun p hp => by rw [hf p hp])

/-- The item counts the same. -/
def SameSize (cfg : Config) (it it' : Item) : Prop :=
  itemSize cfg it' = itemSize cfg it ∧ it'.nbyte = it.nbyte

/-- Stores with the same queues, up to their order, and the same gauges are off by the same. -/
theorem drift_congr (hg : s'.gauges = s.gauges) (hlru : ∀ id, (s'.lruq id).Perm (s.lruq id))
    (hsize : ∀ id, ∀ p ∈ s.lruq id, SameSize cfg (s.items p) (s'.items p))
    (hfree : ∀ id, (s'.slabclass id).freeItemq = (s.slabclass id).freeItemq)
    (hslab : s'.slabLruq.Perm s.slabLruq)
    (hid : ∀ sl ∈ s.slabLruq, (s'.slabs sl).id = (s.slabs sl).id) : s'.drift cfg = s.drift cfg := by
  funext id
  have hcount : s'.slabCount id = s.slabCount id := by
    rw [slabCount, slabCount, hslab.countP_eq]
    exact List.countP_congr fun sl hsl => by rw [hid sl hsl]
  have hdata : s'.load (itemSize cfg) id = s.load (itemSize cfg) id :=
    load_congr (hlru id) fun p hp => (hsize id p hp).1
  have hvalue : s'.load Item.nbyte id = s.load Item.nbyte id :=
    load_congr (hlru id) fun p hp => (hsize id p hp).2
  simp only [drift, tally, hg, (hlru id).length_eq, hfree, hcount, hdata, hvalue]

/-- Writes that keep the size of a linked item. -/
theorem drift_setItem {f : Item → Item}
    (h : (∃ id, p ∈ s.lruq id) → SameSize cfg (s.items p) (f (s.items p))) :
    (s.setItem p f).drift cfg = s.drift cfg := by
  refine drift_congr rfl (fun _ => .refl _) (fun id q hq => ?_) (fun _ => rfl) (.refl _)
    fun _ _ => rfl
  by_cases hqp : q = p
  · subst hqp
    simpa [setItem] using h ⟨id, hq⟩
  · simp [setItem, hqp, SameSize]

/-! ### Counting up and down -/

@[simp] theorem load_setGauges {f : Item → ℕ} (id' : ℕ) (g : Gauges → Gauges) :
    (s.setGauges id' g).load f id = s.load f id := rfl

@[simp] theorem load_setLinks {f : Item → ℕ}
    (k : Tailq ItemQueue ItemPtr → Tailq ItemQueue ItemPtr) :
    (s.setLinks k).load f id = s.load f id := rfl

@[simp] theorem load_setClass {f : Item → ℕ} (id' : ℕ) (g : SlabClass → SlabClass) :
    (s.setClass id' g).load f id = s.load f id := rfl

theorem load_setLruq {f : Item → ℕ} (id' : ℕ) (g : List ItemPtr → List ItemPtr) :
    (s.setLruq id' g).load f id =
      if id = id' then ((g (s.lruq id)).map fun p => (f (s.items p) : ℤ)).sum else s.load f id := by
  by_cases hid : id = id'
  · subst hid
    simp [load, setLruq]
  · simp [load, setLruq, hid]

@[simp] theorem slabCount_setGauges (id' : ℕ) (g : Gauges → Gauges) :
    (s.setGauges id' g).slabCount id = s.slabCount id := rfl

@[simp] theorem slabCount_setLinks (k : Tailq ItemQueue ItemPtr → Tailq ItemQueue ItemPtr) :
    (s.setLinks k).slabCount id = s.slabCount id := rfl

@[simp] theorem slabCount_setClass (id' : ℕ) (g : SlabClass → SlabClass) :
    (s.setClass id' g).slabCount id = s.slabCount id := rfl

@[simp] theorem slabCount_setLruq (id' : ℕ) (g : List ItemPtr → List ItemPtr) :
    (s.setLruq id' g).slabCount id = s.slabCount id := rfl

/-- Only one class is concerned. -/
theorem drift_of_class (id : ℕ) (hother : ∀ id', id' ≠ id → s'.gauges id' = s.gauges id' ∧
    s'.tally cfg id' = s.tally cfg id') (hthis : s'.drift cfg id = s.drift cfg id) :
    s'.drift cfg = s.drift cfg := by
  funext id'
  by_cases hid : id' = id
  · rw [hid, hthis]
  · obtain ⟨hg, ht⟩ := hother id' hid
    simp only [drift, hg, ht]

/-- A queue changes, and the gauges count the change. -/
theorem drift_setLruq_setGauges {g : List ItemPtr → List ItemPtr} {n a b : ℤ}
    {k : Tailq ItemQueue ItemPtr → Tailq ItemQueue ItemPtr}
    (hlen : ((g (s.lruq id)).length : ℤ) = (s.lruq id).length + n)
    (hdata : ((g (s.lruq id)).map fun q => (itemSize cfg (s.items q) : ℤ)).sum =
      s.load (itemSize cfg) id + a)
    (hvalue : ((g (s.lruq id)).map fun q => ((s.items q).nbyte : ℤ)).sum =
      s.load Item.nbyte id + b) :
    (((s.setLruq id g).setLinks k).setGauges id fun g =>
      { g with
        itemCurr := g.itemCurr + n
        dataCurr := g.dataCurr + a
        dataValueCurr := g.dataValueCurr + b }).drift cfg = s.drift cfg := by
  refine drift_of_class id (fun id' hid => ?_) ?_
  · refine ⟨by simp [setGauges, setLinks, setLruq, hid], ?_⟩
    simp only [tally, load_setGauges, load_setLinks, load_setLruq, slabCount_setGauges,
      slabCount_setLinks, slabCount_setLruq, if_neg hid]
    simp [setGauges, setLinks, setLruq, hid]
  · simp only [drift, tally, load_setGauges, load_setLinks, load_setLruq, slabCount_setGauges,
      slabCount_setLinks, slabCount_setLruq,
      if_pos, hdata, hvalue]
    simp only [setGauges, setLinks, setLruq, Function.update_self, hlen, Gauges.mk.injEq, true_and]
    omega

/-- The free queue changes, and the gauge counts the change. -/
theorem drift_setClass_setGauges {g : SlabClass → SlabClass} {n : ℤ}
    {k : Tailq ItemQueue ItemPtr → Tailq ItemQueue ItemPtr}
    (hlen : ((g (s.slabclass id)).freeItemq.length : ℤ) = (s.slabclass id).freeItemq.length + n) :
    (((s.setClass id g).setLinks k).setGauges id fun g =>
      { g with itemFree := g.itemFree + n }).drift cfg = s.drift cfg := by
  refine drift_of_class id (fun id' hid => ?_) ?_
  · refine ⟨by simp [setGauges, setLinks, setClass, hid], ?_⟩
    simp only [tally, load_setGauges, load_setLinks, load_setClass, slabCount_setGauges,
      slabCount_setLinks, slabCount_setClass]
    simp [setGauges, setLinks, setClass, hid]
  · simp only [drift, tally, load_setGauges, load_setLinks, load_setClass, slabCount_setGauges,
      slabCount_setLinks, slabCount_setClass]
    simp only [setGauges, setLinks, setClass, Function.update_self, hlen, Gauges.mk.injEq,
      true_and, and_true]
    omega

theorem drift_itemUnlinkQ (hp : p ∈ s.lruq (s.items p).id) :
    (s.itemUnlinkQ cfg p).drift cfg = s.drift cfg := by
  have hlen := List.length_erase_add_one hp
  have hdata := List.sum_map_erase (fun q => (itemSize cfg (s.items q) : ℤ)) hp
  have hvalue := List.sum_map_erase (fun q => ((s.items q).nbyte : ℤ)) hp
  refine drift_setLruq_setGauges (n := -1) (a := -itemSize cfg (s.items p))
    (b := -(s.items p).nbyte)
    ?_ ?_ ?_
  · omega
  · rw [load]
    omega
  · rw [load]
    omega

theorem drift_itemReuse (hp : p ∈ s.lruq (s.items p).id) :
    (s.itemReuse cfg p).drift cfg = s.drift cfg := by
  have hflag :
      (s.setItem p fun it => { it with flags := { it.flags with linked := false } }).drift cfg =
      s.drift cfg := drift_setItem fun _ => ⟨rfl, rfl⟩
  have hid :
      ((s.setItem p fun it => { it with flags := { it.flags with linked := false } }).items p).id =
      (s.items p).id := by simp [setItem]
  rw [← hflag, itemReuse]
  refine (drift_itemUnlinkQ (s := Store.assocDelete _ _ _) ?_).trans rfl
  rw [← hid] at hp
  exact hp

theorem drift_slabLruqTouch {sl : ℕ} (hsl : sl ∈ s.slabLruq) (allocated : Bool) :
    (s.slabLruqTouch sl allocated).drift cfg = s.drift cfg := by
  simp only [slabLruqTouch]
  split_ifs
  · rfl
  · rfl
  · refine drift_congr rfl (fun _ => .refl _) (fun _ _ _ => ⟨rfl, rfl⟩) (fun _ => rfl) ?_
      fun x _ => ?_
    · exact List.perm_append_comm.trans (List.perm_cons_erase hsl).symm
    · by_cases hx : x = sl <;> simp [setSlab, hx]

theorem sameSize_linkItem : SameSize cfg (s.items p) (s.linkItem cfg p) :=
  ⟨by simp [linkItem, itemSize], by simp [linkItem]⟩

theorem drift_linkBare : (s.linkBare cfg ch p).drift cfg = s.drift cfg := by
  have hitem : (s.setItem p fun _ => s.linkItem cfg p).drift cfg = s.drift cfg :=
    drift_setItem fun _ => sameSize_linkItem
  -- The hash table and the cas ids are no business of the gauges.
  have hrest : (s.linkBare cfg ch p).drift cfg =
      ((((s.setItem p fun _ => s.linkItem cfg p).setLruq (s.items p).id (· ++ [p])).setLinks
        (·.insertTail (.lru (s.items p).id) p)).setGauges (s.items p).id fun g =>
          { g with
            itemCurr := g.itemCurr + 1
            dataCurr := g.dataCurr + itemSize cfg (s.items p)
            dataValueCurr := g.dataValueCurr + (s.items p).nbyte }).drift cfg := rfl
  rw [hrest, ← hitem]
  refine drift_setLruq_setGauges ?_ ?_ ?_
  · simp
  · simp [load, setItem, sameSize_linkItem.1]
  · simp [load, setItem, sameSize_linkItem.2]

theorem drift_itemLink (hp : p.slab ∈ s.slabLruq) :
    (s.itemLink cfg ch p).drift cfg = s.drift cfg := by
  rw [itemLink_eq]
  exact (drift_slabLruqTouch (s := s.linkBare cfg ch p) hp true).trans drift_linkBare

theorem drift_slabPutItem : (s.slabPutItem p).drift cfg = s.drift cfg := by
  have hflag :
      (s.setItem p fun it => { it with flags := { it.flags with slabbed := true } }).drift cfg =
      s.drift cfg := drift_setItem fun _ => ⟨rfl, rfl⟩
  rw [← hflag, slabPutItem]
  exact drift_setClass_setGauges (n := 1) (by simp)

theorem drift_slabTakeItem (hp : p ∈ (s.slabclass id).freeItemq) :
    (s.slabTakeItem id p).drift cfg = s.drift cfg := by
  have hflag :
      (s.setItem p fun it => { it with flags := { it.flags with slabbed := false } }).drift cfg =
      s.drift cfg := drift_setItem fun _ => ⟨rfl, rfl⟩
  have hlen := List.length_erase_add_one hp
  rw [← hflag, slabTakeItem]
  refine drift_setClass_setGauges (n := -1) ?_
  show (((s.slabclass id).freeItemq.erase p).length : ℤ) = (s.slabclass id).freeItemq.length + -1
  omega

/-! ### Threading -/

/-- The lists of the item queues. -/
def queue (s : Store) : ItemQueue → List ItemPtr
  | .lru id => s.lruq id
  | .free id => (s.slabclass id).freeItemq

/-- The links thread the items of each queue in the order of its list. -/
def Threaded (s : Store) : Prop := s.links.Holds s.queue

theorem Wf.mem_lruq_iff (h : s.Wf cfg) :
    p ∈ s.lruq id ↔ s.Active cfg p ∧ (s.items p).id = id ∧ (s.items p).flags.linked = true :=
  (Shape.Wf.lru h).mem_iff

theorem Wf.mem_freeItemq_iff (h : s.Wf cfg) :
    p ∈ (s.slabclass id).freeItemq ↔
      s.Active cfg p ∧ (s.items p).id = id ∧ (s.items p).flags.slabbed = true :=
  (Shape.Wf.free h).mem_iff

/-- An item is in at most one queue. -/
theorem Wf.apart (h : s.Wf cfg) : Tailq.Apart s.queue where
  nodup := fun i => by
    cases i with
    | lru id => exact (Shape.Wf.lru h id).1
    | free id => exact (Shape.Wf.free h id).1
  eq := fun i j p hi hj => by
    have hexcl : ∀ {id id'}, p ∈ s.lruq id → p ∉ (s.slabclass id').freeItemq := fun hl hf => by
      obtain ⟨ha, -, hl⟩ := h.mem_lruq_iff.1 hl
      obtain ⟨-, -, hs⟩ := h.mem_freeItemq_iff.1 hf
      rw [h.slabbed_of_linked ⟨ha, hl⟩] at hs
      cases hs
    cases i with
    | lru id =>
      cases j with
      | lru id' => exact congrArg _ ((h.mem_lruq_iff.1 hi).2.1.symm.trans (h.mem_lruq_iff.1 hj).2.1)
      | free id' => exact absurd hj (hexcl hi)
    | free id =>
      cases j with
      | lru id' => exact absurd hi (hexcl hj)
      | free id' =>
        exact congrArg _ ((h.mem_freeItemq_iff.1 hi).2.1.symm.trans (h.mem_freeItemq_iff.1 hj).2.1)

/-- A chunk that is neither linked nor free is in no queue. -/
theorem Wf.not_mem_queue (h : s.Wf cfg) (hl : (s.items p).flags.linked = false)
    (hs : (s.items p).flags.slabbed = false) (i : ItemQueue) : p ∉ s.queue i := by
  intro hp
  cases i with
  | lru id => exact absurd ((h.mem_lruq_iff.1 hp).2.2.symm.trans hl) (by decide)
  | free id => exact absurd ((h.mem_freeItemq_iff.1 hp).2.2.symm.trans hs) (by decide)

theorem Threaded.congr (h : s.Threaded) (hlinks : s'.links = s.links) (hlru : s'.lruq = s.lruq)
    (hfree : ∀ id, (s'.slabclass id).freeItemq = (s.slabclass id).freeItemq) : s'.Threaded := by
  have hq : s'.queue = s.queue := by
    funext i
    cases i with
    | lru id => exact congrFun hlru id
    | free id => exact hfree id
  rw [Threaded, hlinks, hq]
  exact h

/-- An lru queue was relinked to the list `l`. -/
theorem threaded_lru {l : List ItemPtr} (h : s'.links.Holds (Function.update s.queue (.lru id) l))
    (hlru : s'.lruq = Function.update s.lruq id l)
    (hfree : ∀ id, (s'.slabclass id).freeItemq = (s.slabclass id).freeItemq) : s'.Threaded := by
  have hq : s'.queue = Function.update s.queue (.lru id) l := by
    funext i
    cases i with
    | lru id' => by_cases hid : id' = id <;> simp [queue, hlru, hid]
    | free id' => simp [queue, hfree]
  rw [Threaded, hq]
  exact h

/-- A free queue was relinked to the list `l`. -/
theorem threaded_free {l : List ItemPtr} (h : s'.links.Holds (Function.update s.queue (.free id) l))
    (hlru : s'.lruq = s.lruq) (hthis : (s'.slabclass id).freeItemq = l)
    (hother : ∀ id', id' ≠ id → s'.slabclass id' = s.slabclass id') : s'.Threaded := by
  have hq : s'.queue = Function.update s.queue (.free id) l := by
    funext i
    cases i with
    | lru id' => simp [queue, hlru]
    | free id' =>
      by_cases hid : id' = id
      · simp [queue, hid, hthis]
      · simp [queue, hid, hother id' hid]
  rw [Threaded, hq]
  exact h

/-! ### Audits -/

/-- The gauges are off by what they were off before, and the links still thread the queues. -/
structure Audit (cfg : Config) (s s' : Store) : Prop where
  /-- The change was counted. -/
  drift : s'.drift cfg = s.drift cfg
  /-- The links followed. -/
  threaded : s.Threaded → s'.Threaded

namespace Audit

theorem refl (s : Store) : Audit cfg s s := ⟨rfl, id⟩

theorem trans {s'' : Store} (h : Audit cfg s s') (h' : Audit cfg s' s'') : Audit cfg s s'' :=
  ⟨h'.drift.trans h.drift, fun ht => h'.threaded (h.threaded ht)⟩

end Audit

theorem threaded_itemUnlinkQ (ht : s.Threaded) (hq : Tailq.Apart s.queue)
    (hp : p ∈ s.lruq (s.items p).id) : (s.itemUnlinkQ cfg p).Threaded := by
  have hout := Tailq.Holds.remove (i := .lru (s.items p).id) ht hq hp
  exact threaded_lru (s := s) hout rfl fun _ => rfl

theorem audit_itemReuse (h : s.Wf cfg) (hp : p ∈ s.lruq (s.items p).id) :
    Audit cfg s (s.itemReuse cfg p) where
  drift := drift_itemReuse hp
  threaded := fun ht => by
    have hid :
        ((s.setItem p fun it => { it with flags := { it.flags with linked := false } }).items
        p).id =
        (s.items p).id := by simp [setItem]
    rw [← hid] at hp
    exact threaded_itemUnlinkQ (s := Store.assocDelete _ _ _) ht h.apart hp

theorem audit_slabPutItem (h : s.Wf cfg) (hl : (s.items p).flags.linked = false)
    (hs : (s.items p).flags.slabbed = false) : Audit cfg s (s.slabPutItem p) where
  drift := drift_slabPutItem
  threaded := fun ht => by
    have hin :=
      Tailq.Holds.insertHead (i := .free (s.items p).id) ht h.apart (h.not_mem_queue hl hs)
    refine threaded_free (s := s) hin rfl ?_ ?_
    · simp [slabPutItem, setGauges, setLinks, setClass, setItem, queue]
    · intro id' hid
      simp [slabPutItem, setGauges, setLinks, setClass, setItem, hid]

theorem audit_slabTakeItem (h : s.Wf cfg) (hp : p ∈ (s.slabclass id).freeItemq) :
    Audit cfg s (s.slabTakeItem id p) where
  drift := drift_slabTakeItem hp
  threaded := fun ht => by
    have hout := Tailq.Holds.remove (i := .free id) ht h.apart hp
    refine threaded_free (s := s) hout rfl ?_ ?_
    · simp [slabTakeItem, setGauges, setLinks, setClass, setItem, queue]
    · intro id' hid
      simp [slabTakeItem, setGauges, setLinks, setClass, setItem, hid]

theorem threaded_slabLruqTouch (ht : s.Threaded) (sl : ℕ) (allocated : Bool) :
    (s.slabLruqTouch sl allocated).Threaded := by
  simp only [slabLruqTouch]
  split_ifs
  · exact ht
  · exact ht
  · exact ht.congr rfl rfl fun _ => rfl

theorem audit_itemLink (h : s.Wf cfg) (hp : p.slab ∈ s.slabLruq)
    (hl : (s.items p).flags.linked = false) (hs : (s.items p).flags.slabbed = false) :
    Audit cfg s (s.itemLink cfg ch p) where
  drift := drift_itemLink hp
  threaded := fun ht => by
    have hin := Tailq.Holds.insertTail (i := .lru (s.items p).id) ht h.apart (h.not_mem_queue hl hs)
    have hbare : (s.linkBare cfg ch p).Threaded := threaded_lru (s := s) hin rfl fun _ => rfl
    rw [itemLink_eq]
    exact threaded_slabLruqTouch hbare _ _

theorem drift_touchBare (hp : p ∈ s.lruq (s.items p).id) :
    (s.touchBare p).drift cfg = s.drift cfg := by
  refine drift_congr rfl (fun id => ?_) (fun id q _ => ?_) (fun _ => rfl) (.refl _) fun _ _ => rfl
  · by_cases hid : id = (s.items p).id
    · subst hid
      simp only [touchBare, Function.update_self]
      exact List.perm_append_comm.trans (List.perm_cons_erase hp).symm
    · simp [touchBare, hid]
  · by_cases hqp : q = p <;> simp [touchBare, SameSize, itemSize, hqp]

theorem threaded_touchBare (h : s.Wf cfg) (ht : s.Threaded) (hp : p ∈ s.lruq (s.items p).id) :
    (s.touchBare p).Threaded := by
  have hout : (s.itemUnlinkQ cfg p).Threaded := threaded_itemUnlinkQ ht h.apart hp
  have hlru : (s.itemUnlinkQ cfg p).lruq (s.items p).id = (s.lruq (s.items p).id).erase p := by
    simp [itemUnlinkQ, setGauges, setLinks, setLruq]
  have hsub : ∀ i, ((s.itemUnlinkQ cfg p).queue i).Sublist (s.queue i) := fun i => by
    cases i with
    | lru id =>
      by_cases hid : id = (s.items p).id
      · subst hid
        simp only [queue, hlru]
        exact List.erase_sublist
      · simp [queue, itemUnlinkQ, setGauges, setLinks, setLruq, hid]
    | free id => exact List.Sublist.refl _
  have hapart : Tailq.Apart (s.itemUnlinkQ cfg p).queue :=
    ⟨fun i => (h.apart.nodup i).sublist (hsub i), fun i j q hi hj =>
      h.apart.eq i j q ((hsub i).subset hi) ((hsub j).subset hj)⟩
  -- the item was in this queue only
  have hnot : ∀ j, p ∉ (s.itemUnlinkQ cfg p).queue j := fun j hj => by
    obtain rfl := h.apart.eq j (.lru (s.items p).id) p ((hsub j).subset hj) hp
    simp only [queue, hlru] at hj
    exact (h.apart.nodup (.lru (s.items p).id)).not_mem_erase hj
  have hin := Tailq.Holds.insertTail (i := .lru (s.items p).id) hout hapart hnot
  refine threaded_lru (s := s.itemUnlinkQ cfg p) hin ?_ fun _ => rfl
  simp [touchBare, queue, itemUnlinkQ, setGauges, setLinks, setLruq]

theorem audit_itemTouch (h : s.Wf cfg) (hp : s.Active cfg p) : Audit cfg s (s.itemTouch cfg p) := by
  rcases itemTouch_eq (s := s) cfg p with heq | ⟨hl, -, heq⟩
  · rw [heq]
    exact .refl s
  · have hmem : p ∈ s.lruq (s.items p).id := h.mem_lruq_iff.2 ⟨hp, rfl, hl⟩
    rw [heq]
    exact ⟨(drift_slabLruqTouch (s := s.touchBare p) hp.1 false).trans (drift_touchBare hmem),
      fun ht => threaded_slabLruqTouch (threaded_touchBare h ht hmem) _ _⟩

/-! ### Slabs that change hands -/

theorem audit_slabEvictItem (h : s.Wf cfg) (hp : s.Active cfg p) :
    Audit cfg s (s.slabEvictItem cfg (s.items p).id p) := by
  simp only [slabEvictItem]
  split_ifs with hl hs
  · exact audit_itemReuse h (h.mem_lruq_iff.2 ⟨hp, rfl, hl⟩)
  · exact audit_slabTakeItem h (h.mem_freeItemq_iff.2 ⟨hp, rfl, hs⟩)
  · exact .refl s

theorem audit_slabEvictLoop (h : s.Wf cfg) {sl : ℕ} (hsl : sl ∈ s.slabLruq) (l : List ℕ)
    (hl : ∀ i ∈ l, i < cfg.nitem (s.slabs sl).id) :
    Audit cfg s (l.foldl (fun t i => t.slabEvictItem cfg (s.slabs sl).id ⟨sl, i⟩) s) := by
  induction l generalizing s with
  | nil => exact .refl s
  | cons i l ih =>
    have hp : s.Active cfg ⟨sl, i⟩ := ⟨hsl, hl i List.mem_cons_self⟩
    have hid : (s.slabs sl).id = (s.items ⟨sl, i⟩).id := (h.item_id _ hp).symm
    obtain ⟨hw, htr, -⟩ := h.slabEvictItem hp
    have hfirst := audit_slabEvictItem h hp
    rw [← hid] at hw htr hfirst
    have hslab := htr.slabs
    have hrest := ih hw (htr.slabLruq ▸ hsl)
      (by rw [hslab]; exact fun j hj => hl j (List.mem_cons_of_mem i hj))
    rw [hslab] at hrest
    rw [List.foldl_cons]
    exact hfirst.trans hrest

/-- Changes that no queue and no gauge is concerned with. -/
theorem audit_congr (hg : s'.gauges = s.gauges) (hlinks : s'.links = s.links)
    (hlru : s'.lruq = s.lruq) (hsize : ∀ id, ∀ p ∈ s.lruq id, SameSize cfg (s.items p) (s'.items p))
    (hfree : ∀ id, (s'.slabclass id).freeItemq = (s.slabclass id).freeItemq)
    (hslab : s'.slabLruq = s.slabLruq) (hid : ∀ sl, (s'.slabs sl).id = (s.slabs sl).id) :
    Audit cfg s s' where
  drift := drift_congr hg (fun _ => hlru ▸ .refl _) hsize hfree (hslab ▸ .refl _) fun sl _ => hid sl
  threaded := fun ht => ht.congr hlinks hlru hfree

theorem audit_slabForgetCurrent (cfg : Config) (s : Store) (id sl : ℕ) :
    Audit cfg s (s.slabForgetCurrent id sl) := by
  simp only [slabForgetCurrent]
  split
  · split_ifs
    · refine audit_congr rfl rfl rfl (fun _ _ _ => ⟨rfl, rfl⟩) (fun id' => ?_) rfl fun _ => rfl
      by_cases hid : id' = id <;> simp [setClass, hid]
    · exact .refl s
  · exact .refl s

/-- A slab leaves or enters its class, and the gauge counts it. -/
theorem drift_slabCurr {n : ℤ} (hg : s'.gauges = s.gauges) (hlru : s'.lruq = s.lruq)
    (hsize : ∀ id, ∀ p ∈ s.lruq id, SameSize cfg (s.items p) (s'.items p))
    (hfree : ∀ id, (s'.slabclass id).freeItemq = (s.slabclass id).freeItemq)
    (hcount : ∀ id', (s'.slabCount id' : ℤ) = s.slabCount id' + if id' = id then n else 0) :
    (s'.setGauges id fun g => { g with slabCurr := g.slabCurr + n }).drift cfg = s.drift cfg := by
  have hdata : ∀ id, s'.load (itemSize cfg) id = s.load (itemSize cfg) id := fun id =>
    load_congr (hlru ▸ .refl _) fun p hp => (hsize id p hp).1
  have hvalue : ∀ id, s'.load Item.nbyte id = s.load Item.nbyte id := fun id =>
    load_congr (hlru ▸ .refl _) fun p hp => (hsize id p hp).2
  funext id'
  simp only [drift, tally, load_setGauges, slabCount_setGauges, hcount, hdata, hvalue]
  by_cases hid : id' = id
  · subst hid
    simp only [setGauges, Function.update_self, hg, hlru, hfree, if_pos, Gauges.mk.injEq, true_and,
      and_true]
    omega
  · simp [setGauges, hg, hlru, hfree, hid]

theorem audit_dropSlab {sl : ℕ} (hsl : sl ∈ s.slabLruq) :
    Audit cfg s (setGauges { s with slabLruq := s.slabLruq.erase sl } (s.slabs sl).id fun g =>
      { g with slabCurr := g.slabCurr - 1 }) := by
  refine ⟨drift_slabCurr (n := -1) rfl rfl (fun _ _ _ => ⟨rfl, rfl⟩) (fun _ => rfl) fun id' => ?_,
    fun ht => ht.congr rfl rfl fun _ => rfl⟩
  have hperm := (List.perm_cons_erase hsl).countP_eq fun x => decide ((s.slabs x).id = id')
  rw [List.countP_cons] at hperm
  simp only [slabCount]
  by_cases hid : id' = (s.slabs sl).id
  · simp only [hid, decide_true, if_true] at hperm ⊢
    omega
  · simp only [hid, Ne.symm hid, decide_false, Bool.false_eq_true, if_false] at hperm ⊢
    omega

theorem audit_slabEvictOne (h : s.Wf cfg) {sl : ℕ} (hsl : sl ∈ s.slabLruq) :
    Audit cfg s (s.slabEvictOne cfg sl) := by
  obtain ⟨-, e2, -, e4, -, -⟩ := slabForgetCurrent_same (s := s) (s.slabs sl).id sl
  have hw := h.slabForgetCurrent (s.slabs sl).id sl
  have hforget := audit_slabForgetCurrent cfg s (s.slabs sl).id sl
  have hrange : ∀ i ∈ List.range (cfg.nitem (s.slabs sl).id), i < cfg.nitem (s.slabs sl).id :=
    fun i hi => List.mem_range.1 hi
  rw [← e4] at hsl
  have hid : (s.slabs sl).id = ((s.slabForgetCurrent (s.slabs sl).id sl).slabs sl).id := by rw [e2]
  refine hforget.trans ?_
  unfold slabEvictOne
  dsimp only
  generalize s.slabForgetCurrent (s.slabs sl).id sl = t at hw hsl hid ⊢
  generalize (s.slabs sl).id = cls at hid hrange ⊢
  subst hid
  have hloop := audit_slabEvictLoop hw hsl _ hrange
  obtain ⟨-, htr, -, -⟩ := hw.slabEvictLoop hsl _ hrange
  refine hloop.trans ?_
  generalize (List.range (cfg.nitem (t.slabs sl).id)).foldl
    (fun u i => u.slabEvictItem cfg (t.slabs sl).id ⟨sl, i⟩) t = u at htr ⊢
  rw [← htr.slabLruq] at hsl
  rw [← htr.slabs]
  exact audit_dropSlab hsl

theorem audit_slabGetNew (cfg : Config) (ch : Choice) (s : Store) :
    Audit cfg s (s.slabGetNew cfg ch).2 := by
  simp only [slabGetNew]
  split_ifs
  · exact .refl s
  · refine audit_congr rfl rfl rfl (fun _ _ _ => ⟨rfl, rfl⟩) (fun _ => rfl) rfl fun x => ?_
    by_cases hx : x = s.slabTable.length <;> simp [setSlab, hx]
  · exact .refl s

theorem audit_slabAddOne (h : s.Wf cfg) {sl : ℕ} (hsl : sl ∉ s.slabLruq) (id : ℕ) :
    Audit cfg s (s.slabAddOne cfg sl id) := by
  have hfree : ∀ id', ((s.slabAddOne cfg sl id).slabclass id').freeItemq =
      (s.slabclass id').freeItemq :=
    fun id' => by
      by_cases hid : id' = id <;> simp [slabAddOne, setGauges, setClass, setSlab, hid]
  refine ⟨drift_slabCurr (n := 1) rfl rfl (fun id' p hp => ?_) hfree fun id' => ?_,
    fun ht => ht.congr rfl rfl hfree⟩
  · -- linked items are in slabs in use
    have hne : ¬ (p.slab = sl ∧ p.idx < cfg.nitem id) := fun heq =>
      hsl (heq.1 ▸ (h.mem_lruq_iff.1 hp).1.1)
    simp [setClass, setSlab, SameSize, hne]
  · have hrest : s.slabLruq.countP (fun x => decide ((Function.update s.slabs sl
        { s.slabs sl with id := id, refcount := 0, epoch := (s.slabs sl).epoch + 1 } x).id = id')) =
        s.slabCount id' := by
      refine List.countP_congr fun x hx => ?_
      rw [Function.update_of_ne (by rintro rfl; exact hsl hx)]
    simp only [slabCount, setClass, setSlab, List.countP_append, List.countP_singleton,
      Function.update_self]
    refine (congrArg (fun n : ℕ => ((n + _ : ℕ) : ℤ)) hrest).trans ?_
    by_cases hid : id' = id
    · simp [hid, slabCount]
    · simp [hid, Ne.symm hid, slabCount]

theorem audit_slabGetItemFromCurrent (cfg : Config) (s : Store) (id : ℕ) :
    Audit cfg s (s.slabGetItemFromCurrent id).2 := by
  simp only [slabGetItemFromCurrent]
  split
  · exact .refl s
  · refine audit_congr rfl rfl rfl (fun _ _ _ => ⟨rfl, rfl⟩) (fun id' => ?_) rfl fun _ => rfl
    by_cases hid : id' = id <;> simp [setClass, hid]

/-! ### Allocation -/

/-- Wherever a chunk is found, its move is counted. -/
theorem Found.audit (hf : Found cfg ch id s p s') (h : s.Wf cfg) (hfull : s.Full) :
    Audit cfg s s' := by
  cases hf with
  | expired hp hexp =>
    obtain ⟨hl, -, -⟩ := h.itemGetFromLruq hp
    exact audit_itemReuse h (h.mem_lruq_iff.2 ⟨hl.1, rfl, hl.2⟩)
  | freeq hp =>
    have hmem : p ∈ (s.slabclass id).freeItemq := by
      simp only [slabGetItemFromFreeq] at hp
      split_ifs at hp
      exact List.mem_of_mem_head? hp
    exact audit_slabTakeItem h hmem
  | current hp ht =>
    rw [ht]
    exact audit_slabGetItemFromCurrent cfg s id
  | @fresh sl s₁ _ hex hget ht =>
    have hnew := h.slabGetNew ch
    have haudit := audit_slabGetNew cfg ch s
    rw [hget] at hnew haudit
    have hout : sl ∉ s₁.slabLruq := fun hmem => ((hnew.slabLruq sl).1 hmem).2 rfl
    have hlast := audit_slabGetItemFromCurrent cfg (s₁.slabAddOne cfg sl id) id
    rw [ht] at hlast
    exact (haudit.trans (audit_slabAddOne hnew.wf hout id)).trans hlast
  | @slab sl _ hex hno hpick ht =>
    obtain ⟨hsl, -⟩ := hpick.idle hfull
    have hev := h.slabEvictOne hsl
    have hnodup : s.slabLruq.Nodup := Shape.Wf.slab_nodup h
    have hout : sl ∉ (s.slabEvictOne cfg sl).slabLruq := by
      rw [hev.slabLruq]
      exact hnodup.not_mem_erase
    have hlast := audit_slabGetItemFromCurrent cfg ((s.slabEvictOne cfg sl).slabAddOne cfg sl id) id
    rw [ht] at hlast
    exact ((audit_slabEvictOne h hsl).trans (audit_slabAddOne hev.wf hout id)).trans hlast
  | lru hex hno hopt hp =>
    obtain ⟨hl, -, -⟩ := h.itemGetFromLruq hp
    exact audit_itemReuse h (h.mem_lruq_iff.2 ⟨hl.1, rfl, hl.2⟩)

/-- Writes to one item that keep its size if it is linked. -/
theorem audit_setItem {f : Item → Item}
    (h : (∃ id, p ∈ s.lruq id) → SameSize cfg (s.items p) (f (s.items p))) :
    Audit cfg s (s.setItem p f) :=
  ⟨drift_setItem h, fun ht => ht.congr rfl rfl fun _ => rfl⟩

/-! ### Primitives -/

theorem audit_itemAcquireRefcount : Audit cfg s (s.itemAcquireRefcount p) := by
  refine audit_congr rfl rfl rfl (fun _ q _ => ?_) (fun _ => rfl) rfl
    (keeps_itemAcquireRefcount (s := s) p).slabs
  by_cases hqp : q = p <;> simp [SameSize, itemSize, hqp]

theorem audit_itemReleaseRefcount : Audit cfg s (s.itemReleaseRefcount p) := by
  refine audit_congr rfl rfl rfl (fun _ q _ => ?_) (fun _ => rfl) rfl
    (keeps_itemReleaseRefcount (s := s) p).slabs
  by_cases hqp : q = p <;> simp [SameSize, itemSize, hqp]

theorem audit_nalloc (s : Store) (n : ℕ) : Audit cfg s { s with nalloc := n } :=
  audit_congr rfl rfl rfl (fun _ _ _ => ⟨rfl, rfl⟩) (fun _ => rfl) rfl fun _ => rfl

theorem audit_casIssued (s : Store) (n : ℕ) : Audit cfg s { s with casIssued := n } :=
  audit_congr rfl rfl rfl (fun _ _ _ => ⟨rfl, rfl⟩) (fun _ => rfl) rfl fun _ => rfl

theorem audit_itemAllocDone (h : s.Wf cfg) (hl : (s.items p).flags.linked = false) (key : Key)
    (dataflags exptime nbyte : ℕ) :
    Audit cfg s (s.itemAllocDone cfg p key dataflags exptime nbyte) := by
  have hout : ∀ id, p ∉ s.lruq id := fun id hmem => by
    have hlinked := (h.mem_lruq_iff.1 hmem).2.2
    rw [hl] at hlinked
    cases hlinked
  have hacquire : Audit cfg s (s.itemAcquireRefcount p) := audit_itemAcquireRefcount
  have hlru : (s.itemAcquireRefcount p).lruq = s.lruq := rfl
  unfold itemAllocDone
  generalize s.itemAcquireRefcount p = t at hacquire hlru ⊢
  refine hacquire.trans (.trans (audit_setItem fun ⟨id, hmem⟩ => ?_) (audit_nalloc _ _))
  rw [hlru] at hmem
  exact absurd hmem (hout id)

theorem audit_itemRemove (h : Inv cfg s held) (hp : p ∈ held) : Audit cfg s (s.itemRemove p) := by
  have hc := h.toCounts.release hp
  simp only [itemRemove, if_pos (h.ref_ne_zero hp)]
  split_ifs with hput
  · have hs : ((s.itemReleaseRefcount p).items p).flags.slabbed = false := by
      simpa using h.not_slabbed hp
    have hl : ((s.itemReleaseRefcount p).items p).flags.linked = false := by simpa using hput.2
    exact audit_itemReleaseRefcount.trans (audit_slabPutItem hc.wf hl hs)
  · exact audit_itemReleaseRefcount

theorem audit_itemUnlink (h : Inv cfg s held) (hp : s.Linked cfg p) :
    Audit cfg s (s.itemUnlink cfg p) := by
  have hreuse := audit_itemReuse h.wf (h.wf.mem_lruq_iff.2 ⟨hp.1, rfl, hp.2⟩)
  simp only [itemUnlink, if_pos hp.2]
  split_ifs
  · have hs : ((s.itemReuse cfg p).items p).flags.slabbed = false := by
      simpa using h.wf.slabbed_of_linked hp
    exact hreuse.trans (audit_slabPutItem (h.wf.itemReuse hp) (by simp) hs)
  · exact hreuse

/-- The primitives count what they do, as long as no value changes its length in place. -/
theorem Prim.audit {held' : List ItemPtr} (hs : Prim cfg sc (s, held) (s', held'))
    (h : Inv cfg s held) (hsame : ∀ m n, sc.resize m n → n = m) : Audit cfg s s' := by
  cases hs with
  | acquire hp => exact audit_itemAcquireRefcount
  | remove hp hpriv hbase => exact audit_itemRemove h hp
  | unlink hp => exact audit_itemUnlink h hp
  | link hp hpriv hlink hl hkey => exact audit_itemLink h.wf (h.active _ hp).1 hl (h.not_slabbed hp)
  | touch hp hsc ht =>
    rw [ht]
    exact audit_itemTouch h.wf (h.active _ hp)
  | alloc hh hchunk key dataflags exptime nbyte hid =>
    obtain ⟨ch, hchunk⟩ := hchunk
    have hfound := itemAllocChunk_found hchunk
    exact (hfound.audit h.wf h.full).trans
      (audit_itemAllocDone hh.wf hh.linked key dataflags exptime nbyte)
  | write hp hnew hl hf =>
    refine audit_setItem fun ⟨id, hmem⟩ => ?_
    have hlinked := (h.wf.mem_lruq_iff.1 hmem).2.2
    rw [hl] at hlinked
    cases hlinked
  | annex hp hheld hsc hid hralign hsize =>
    rw [itemAnnexInPlace_eq]
    refine .trans (audit_setItem fun _ => ?_) (audit_casIssued _ _)
    have hlen := hsame _ _ hsize
    exact ⟨by simp [annexItem, itemSize, Item.write, hlen], by simp [annexItem, hlen]⟩
  | delta hp hheld hsc hlen hsize =>
    rw [itemDeltaInPlace_eq]
    refine .trans (audit_setItem fun _ => ?_) (audit_casIssued _ _)
    have hlen := hsame _ _ hsize
    exact ⟨by simp [deltaItem, itemSize, Item.write, hlen], by simp [deltaItem, hlen]⟩
  | moveBucket =>
    exact audit_congr rfl rfl rfl (fun _ _ _ => ⟨rfl, rfl⟩) (fun _ => rfl) rfl fun _ => rfl

/-- The numbers of items and slabs are counted, and the links still thread the queues. -/
structure CountAudit (cfg : Config) (s s' : Store) : Prop where
  /-- Linked items are counted. -/
  itemCurr : ∀ id, (s'.drift cfg id).itemCurr = (s.drift cfg id).itemCurr
  /-- Free items are counted. -/
  itemFree : ∀ id, (s'.drift cfg id).itemFree = (s.drift cfg id).itemFree
  /-- Slabs are counted. -/
  slabCurr : ∀ id, (s'.drift cfg id).slabCurr = (s.drift cfg id).slabCurr
  /-- The links followed. -/
  threaded : s.Threaded → s'.Threaded

theorem Audit.counts (h : Audit cfg s s') : CountAudit cfg s s' :=
  ⟨fun _ => by rw [h.drift], fun _ => by rw [h.drift], fun _ => by rw [h.drift], h.threaded⟩

/-- Writes to one item concern no queue. -/
theorem countAudit_setItem (f : Item → Item) (n : ℕ) :
    CountAudit cfg s { s.setItem p f with casIssued := n } :=
  ⟨fun _ => rfl, fun _ => rfl, fun _ => rfl, fun ht => ht.congr rfl rfl fun _ => rfl⟩

theorem Prim.countAudit {held' : List ItemPtr} (hs : Prim cfg sc (s, held) (s', held'))
    (h : Inv cfg s held) : CountAudit cfg s s' := by
  -- lengths matter to the two writes to linked items only
  have hrest : ∀ (hs : Prim cfg { sc with resize := fun m n => n = m } (s, held) (s', held')),
      CountAudit cfg s s' := fun hs => (hs.audit h fun _ _ hsize => hsize).counts
  cases hs with
  | annex hp hheld hsc hid hralign hsize =>
    rw [itemAnnexInPlace_eq]
    exact countAudit_setItem _ _
  | delta hp hheld hsc hlen hsize =>
    rw [itemDeltaInPlace_eq]
    exact countAudit_setItem _ _
  | acquire hp => exact hrest (.acquire hp)
  | remove hp hpriv hbase => exact hrest (.remove hp hpriv hbase)
  | unlink hp => exact hrest (.unlink hp)
  | link hp hpriv hlink hl hkey => exact hrest (.link hp hpriv hlink hl hkey)
  | touch hp hsc ht => exact hrest (.touch hp hsc ht)
  | alloc hh hchunk key dataflags exptime nbyte hid =>
    exact hrest (.alloc hh hchunk key dataflags exptime nbyte hid)
  | write hp hnew hl hf => exact hrest (.write hp hnew hl hf)
  | moveBucket => exact hrest .moveBucket

theorem CountAudit.trans {s'' : Store} (h : CountAudit cfg s s') (h' : CountAudit cfg s' s'') :
    CountAudit cfg s s'' where
  itemCurr := fun id => (h'.itemCurr id).trans (h.itemCurr id)
  itemFree := fun id => (h'.itemFree id).trans (h.itemFree id)
  slabCurr := fun id => (h'.slabCurr id).trans (h.slabCurr id)
  threaded := fun ht => h'.threaded (h.threaded ht)

theorem Path.countAudit {held' : List ItemPtr} (hs : Path cfg sc (s, held) (s', held'))
    (h : Guarded cfg sc s held) : CountAudit cfg s s' :=
  (hs.induction (I := fun t _ => CountAudit cfg s t) h (Audit.refl s).counts
    fun _ _ _ _ hg hI hprim _ => hI.trans (hprim.countAudit hg.toInv)).2

theorem Path.audit {held' : List ItemPtr} (hs : Path cfg sc (s, held) (s', held'))
    (h : Guarded cfg sc s held) (hsame : ∀ m n, sc.resize m n → n = m) : Audit cfg s s' :=
  (hs.induction (I := fun t _ => Audit cfg s t) h (Audit.refl s)
    fun _ _ _ _ hg hI hprim _ => hI.trans (hprim.audit hg.toInv hsame)).2

end Store

end Twemcache
