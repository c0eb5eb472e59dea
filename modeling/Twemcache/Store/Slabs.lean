import Twemcache.Store.Basic

/-!
# The slab module

The functions of `mc_slabs.c`, and the small functions of `mc_items.c` that they call back,
each as a function of the store.  A function that takes `cache_lock` (or `slab_lock` inside
it) is one step; the bodies that the source calls with an underscore are the functions here.
Counters, logging and assertions are left out; the gauges of the slab classes and the links of the
item queues are kept, since they are meant to describe the queues.
-/

namespace Twemcache

/-- `SLAB_RAND_MAX_TRIES`. -/
def slabRandMaxTries : ℕ := 50

/-- `SLAB_LRU_MAX_TRIES`. -/
def slabLruMaxTries : ℕ := 50

/-- `SLAB_LRU_UPDATE_INTERVAL`. -/
def slabLruUpdateInterval : ℕ := 1

/-- `ITEM_UPDATE_INTERVAL`. -/
def itemUpdateInterval : ℕ := 60

/-- `ITEM_LRUQ_MAX_TRIES`. -/
def itemLruqMaxTries : ℕ := 50

namespace Store

variable (cfg : Config) (ch : Choice) (s : Store)

/-! ### Reference counts -/

/-- `slab_acquire_refcount`. -/
def slabAcquireRefcount (sl : ℕ) : Store :=
  { s.setSlab sl fun b => { b with refcount := (b.refcount + 1) % 2 ^ 16 } with
    overflow := s.overflow || decide ((s.slabs sl).refcount + 1 = 2 ^ 16) }

/-- `slab_release_refcount`. -/
def slabReleaseRefcount (sl : ℕ) : Store :=
  s.setSlab sl fun b => { b with refcount := (b.refcount + 2 ^ 16 - 1) % 2 ^ 16 }

/-- `item_acquire_refcount`. -/
def itemAcquireRefcount (p : ItemPtr) : Store :=
  (s.setItem p fun it => { it with refcount := (it.refcount + 1) % 2 ^ 16 }).slabAcquireRefcount
    p.slab

/-- `item_release_refcount`. -/
def itemReleaseRefcount (p : ItemPtr) : Store :=
  (s.setItem p fun it =>
    { it with refcount := (it.refcount + 2 ^ 16 - 1) % 2 ^ 16 }).slabReleaseRefcount p.slab

/-! ### The hash table -/

/-- `assoc_find`. -/
def assocFind (key : Key) : Option ItemPtr := s.assoc.find cfg.hash s.keyOf key

/-- `assoc_insert`. -/
def assocInsert (p : ItemPtr) : Store :=
  { s with assoc := s.assoc.insert cfg.hash s.keyOf cfg.hashPower ch.tableOk p }

/-- `assoc_delete`. -/
def assocDelete (key : Key) : Store := { s with assoc := s.assoc.delete cfg.hash s.keyOf key }

/-- One bucket move of the maintenance thread. -/
def assocMoveBucket : Store := { s with assoc := s.assoc.moveBucket cfg.hash s.keyOf }

/-! ### Queues -/

/-- `slab_lruq_touch`. -/
def slabLruqTouch (sl : ℕ) (allocated : Bool) : Store :=
  if ¬ (allocated ∧ s.evictOpt &&& evictCs ≠ 0) ∧ ¬ s.evictOpt &&& evictAs ≠ 0 then s
  else if (s.slabs sl).utime ≥ s.ago slabLruUpdateInterval then s
  else
    { s.setSlab sl fun b => { b with utime := s.now } with
      slabLruq := s.slabLruq.erase sl ++ [sl] }

/-- `item_link_q`. -/
def itemLinkQ (p : ItemPtr) (allocated : Bool) : Store :=
  ((((s.setItem p fun it => { it with atime := s.now }).setLruq (s.items p).id
    (· ++ [p])).setLinks (·.insertTail (.lru (s.items p).id) p)).setGauges (s.items p).id fun g =>
      { g with
        itemCurr := g.itemCurr + 1
        dataCurr := g.dataCurr + itemSize cfg (s.items p)
        dataValueCurr := g.dataValueCurr + (s.items p).nbyte }).slabLruqTouch p.slab allocated

/-- `item_unlink_q`. -/
def itemUnlinkQ (p : ItemPtr) : Store :=
  ((s.setLruq (s.items p).id (·.erase p)).setLinks (·.remove (.lru (s.items p).id) p)).setGauges
    (s.items p).id fun g =>
    { g with
      itemCurr := g.itemCurr - 1
      dataCurr := g.dataCurr - itemSize cfg (s.items p)
      dataValueCurr := g.dataValueCurr - (s.items p).nbyte }

/-- `item_reuse`. -/
def itemReuse (p : ItemPtr) : Store :=
  ((s.setItem p fun it => { it with flags := { it.flags with linked := false } }).assocDelete cfg
    (s.keyOf p)).itemUnlinkQ cfg p

/-- `slab_put_item`: the item goes to the head of the free queue. -/
def slabPutItem (p : ItemPtr) : Store :=
  (((s.setItem p fun it => { it with flags := { it.flags with slabbed := true } }).setClass
    (s.items p).id fun c =>
      { c with nfreeItemq := c.nfreeItemq + 1, freeItemq := p :: c.freeItemq }).setLinks
    (·.insertHead (.free (s.items p).id) p)).setGauges
    (s.items p).id fun g => { g with itemFree := g.itemFree + 1 }

/-- Take a slabbed item off the free queue of class `id`. -/
def slabTakeItem (id : ℕ) (p : ItemPtr) : Store :=
  (((s.setItem p fun it => { it with flags := { it.flags with slabbed := false } }).setClass id
    fun c => { c with nfreeItemq := c.nfreeItemq - 1, freeItemq := c.freeItemq.erase p }).setLinks
    (·.remove (.free id) p)).setGauges
    id fun g => { g with itemFree := g.itemFree - 1 }

/-! ### Slab eviction -/

/-- The current slab of class `id` is not `sl` any more. -/
def slabForgetCurrent (id sl : ℕ) : Store :=
  match (s.slabclass id).freeItem with
  | some q =>
    if q.slab = sl then s.setClass id fun c => { c with nfreeItem := 0, freeItem := none } else s
  | none => s

/-- The loop body of `slab_evict_one`. -/
def slabEvictItem (id : ℕ) (p : ItemPtr) : Store :=
  if (s.items p).flags.linked then s.itemReuse cfg p
  else if (s.items p).flags.slabbed then s.slabTakeItem id p
  else s

/-- `slab_evict_one`. -/
def slabEvictOne (sl : ℕ) : Store :=
  let id := (s.slabs sl).id
  let s' := (List.range (cfg.nitem id)).foldl (fun s i => s.slabEvictItem cfg id ⟨sl, i⟩)
    (s.slabForgetCurrent id sl)
  { s' with slabLruq := s'.slabLruq.erase sl }.setGauges id fun g =>
    { g with slabCurr := g.slabCurr - 1 }

/-- `slab_table_rand`.  Without any slab the source divides by zero; the model returns
nothing. -/
def slabTableRand (r : ℕ) : Option ℕ := s.slabTable[r % s.slabTable.length]?

/-- The loop of `slab_evict_rand`: the last slab drawn and the tries left; `k` values of `rand`
have been used. -/
def slabRandLoop (rand : ℕ → ℕ) : ℕ → ℕ → Option ℕ × ℕ
  | 0, _ => (none, 0)
  | tries + 1, k =>
    match s.slabTableRand (rand k) with
    | none => (none, tries)
    | some sl =>
      if tries > 0 ∧ (s.slabs sl).refcount ≠ 0 then slabRandLoop rand tries (k + 1)
      else (some sl, tries)

/-- `slab_evict_rand`: the slab to evict. -/
def slabEvictRandPick : Option ℕ :=
  match s.slabRandLoop ch.rand slabRandMaxTries 0 with
  | (some sl, tries) => if tries = 0 then none else some sl
  | (none, _) => none

/-- `slab_evict_lru`: the slab to evict, the first unreferenced one of the oldest 50. -/
def slabEvictLruPick : Option ℕ :=
  (s.slabLruq.take slabLruMaxTries).find? fun sl => (s.slabs sl).refcount = 0

/-- `slab_get_new`. -/
def slabGetNew : Option ℕ × Store :=
  if s.slabTable.length ≥ cfg.maxNslab then (none, s)
  else if ch.slabOk then
    let sl := s.slabTable.length
    (some sl, { s.setSlab sl fun b => { b with utime := ch.utime } with
      slabTable := s.slabTable ++ [sl] })
  else (none, s)

/-- `slab_add_one`. -/
def slabAddOne (sl id : ℕ) : Store :=
  (({ s.setSlab sl fun b => { b with id := id, refcount := 0, epoch := b.epoch + 1 } with
      slabLruq := s.slabLruq ++ [sl]
      items := fun p =>
        if p.slab = sl ∧ p.idx < cfg.nitem id then (s.items p).hdrInit id else s.items p }).setClass
    id fun c => { c with nfreeItem := cfg.nitem id, freeItem := some ⟨sl, 0⟩ }).setGauges
    id fun g => { g with slabCurr := g.slabCurr + 1 }

/-- The slab that `slab_get` obtains: a new one, else one that it evicts. -/
def slabObtain : Option ℕ × Store :=
  match s.slabGetNew cfg ch with
  | (some sl, s') => (some sl, s')
  | (none, s') =>
    match (if s'.evictOpt &&& (evictCs ||| evictAs) ≠ 0 then s'.slabEvictLruPick else none) with
    | some sl => (some sl, s'.slabEvictOne cfg sl)
    | none =>
      match (if s'.evictOpt &&& evictRs ≠ 0 then s'.slabEvictRandPick ch else none) with
      | some sl => (some sl, s'.slabEvictOne cfg sl)
      | none => (none, s')

/-- `slab_get`. -/
def slabGet (id : ℕ) : Bool × Store :=
  match s.slabObtain cfg ch with
  | (some sl, s') => (true, s'.slabAddOne cfg sl id)
  | (none, s') => (false, s')

/-- `slab_get_item_from_freeq`. -/
def slabGetItemFromFreeq (id : ℕ) : Option ItemPtr :=
  if ¬ cfg.useFreeq then none
  else if (s.slabclass id).nfreeItemq = 0 then none
  else (s.slabclass id).freeItemq.head?

/-- The end of `_slab_get_item`: the next item of the current slab. -/
def slabGetItemFromCurrent (id : ℕ) : Option ItemPtr × Store :=
  match (s.slabclass id).freeItem with
  | none => (none, s)
  | some p =>
    (some p, s.setClass id fun c =>
      { c with
        nfreeItem := c.nfreeItem - 1
        freeItem := if c.nfreeItem - 1 ≠ 0 then some ⟨p.slab, p.idx + 1⟩ else none })

/-- `slab_get_item`. -/
def slabGetItem (id : ℕ) : Option ItemPtr × Store :=
  match s.slabGetItemFromFreeq cfg id with
  | some p => (some p, s.slabTakeItem id p)
  | none =>
    if (s.slabclass id).freeItem = none then
      match s.slabGet cfg ch id with
      | (true, s') => s'.slabGetItemFromCurrent id
      | (false, s') => (none, s')
    else s.slabGetItemFromCurrent id

end Store

end Twemcache
