import Twemcache.Assoc.Basic
import Twemcache.Tailq.Basic
import Mathlib.Algebra.Group.Int.Defs
import Mathlib.Data.Int.Notation

/-!
# The data model of the store

The item, slab and hash modules (`mc_items.c`, `mc_slabs.c`, `mc_assoc.c`) share one heap.  Its
memory is cut into slabs, each slab into chunks of its class's size, and every chunk starts
with an item header.  A `Store` is all of this state at a moment at which `cache_lock` is
free; what a thread does while it holds the lock is a function from stores to stores.

## Main definitions

* `Config` : what start-up fixes (the slab profile, the heap size, the hash function).
* `ItemPtr` : a `struct item *`.
* `Item`, `Slab`, `SlabClass` : the structures of the same names.
* `Store` : the static variables of the three modules and the mutable settings.
* `Choice` : what the environment decides within one locked step.

Reference counts are 16 bits wide and times 32; the lengths, the sizes and the counts of
chunks, which the heap size bounds, are `ℕ`.
-/

namespace Twemcache

/-- The bytes of a key. -/
abbrev Key := List UInt8

/-- `SLABCLASS_MIN_ID`. -/
def slabclassMinId : ℕ := 1

/-- `SLABCLASS_MAX_ID`. -/
def slabclassMaxId : ℕ := 254

/-- `SLABCLASS_INVALID_ID`. -/
def slabclassInvalidId : ℕ := 255

/-- `EVICT_LRU`: per-slab lru eviction. -/
def evictLru : ℕ := 0x01

/-- `EVICT_RS`: random slab eviction. -/
def evictRs : ℕ := 0x02

/-- `EVICT_AS`: least recently accessed slab eviction. -/
def evictAs : ℕ := 0x04

/-- `EVICT_CS`: least recently created slab eviction. -/
def evictCs : ℕ := 0x08

/-- `CRLF_LEN`. -/
def crlfLen : ℕ := 2

/-- `CRLF`. -/
def crlf : List UInt8 := [13, 10]

/-- `KEY_MAX_LEN`. -/
def keyMaxLen : ℕ := 250

/-- What is fixed when the server starts. -/
structure Config where
  /-- `settings.use_cas`. -/
  useCas : Bool
  /-- `settings.use_freeq`. -/
  useFreeq : Bool
  /-- `settings.use_lruq`. -/
  useLruq : Bool
  /-- `settings.hash_power`, `0` for autotune. -/
  hashPower : ℕ
  /-- `hash`, at the initial value 0. -/
  hash : Key → UInt32
  /-- `process_started`. -/
  processStarted : ℤ
  /-- `ITEM_HDR_SIZE`. -/
  itemHdrSize : ℕ
  /-- `slab_size()`: the bytes of a slab that chunks are carved from. -/
  slabSize : ℕ
  /-- `slabclass_max_id`. -/
  maxId : ℕ
  /-- `settings.profile`: `slabclass[id].size`. -/
  profile : ℕ → ℕ
  /-- `heapinfo.max_nslab`. -/
  maxNslab : ℕ
  /-- There are at most 254 classes. -/
  maxId_le : maxId ≤ slabclassMaxId
  /-- Chunks are not empty. -/
  profile_pos : ∀ id, slabclassMinId ≤ id → id ≤ maxId → 0 < profile id
  /-- Chunks fit into a slab. -/
  profile_le : ∀ id, slabclassMinId ≤ id → id ≤ maxId → profile id ≤ slabSize

/-- `slabclass[id].nitem`: the number of chunks in a slab of class `id`. -/
def Config.nitem (cfg : Config) (id : ℕ) : ℕ := cfg.slabSize / cfg.profile id

/-- `id` is a configured class. -/
def Config.ValidId (cfg : Config) (id : ℕ) : Prop := slabclassMinId ≤ id ∧ id ≤ cfg.maxId

theorem Config.nitem_pos (cfg : Config) {id : ℕ} (h : cfg.ValidId id) : 0 < cfg.nitem id :=
  Nat.div_pos (cfg.profile_le id h.1 h.2) (cfg.profile_pos id h.1 h.2)

/-- A `struct item *`: the chunk number `idx` of a slab.  It stands for the address
`slab->data + idx * size`, where `size` is the chunk size of the slab's class. -/
structure ItemPtr where
  /-- The slab (`item_2_slab`). -/
  slab : ℕ
  /-- The position in the slab. -/
  idx : ℕ
  deriving DecidableEq, Repr

/-- `it->flags`, bit by bit. -/
structure Flags where
  /-- `ITEM_LINKED`. -/
  linked : Bool := false
  /-- `ITEM_CAS`. -/
  cas : Bool := false
  /-- `ITEM_SLABBED`. -/
  slabbed : Bool := false
  /-- `ITEM_RALIGN`. -/
  ralign : Bool := false
  deriving DecidableEq, Repr

/-- `struct item`, with the bytes of its chunk.  The key and the cas id, which the source keeps
in the chunk too, are fields of their own; `mem` is indexed from the start of the chunk. -/
structure Item where
  /-- Last access time. -/
  atime : ℕ
  /-- Expiry time, `0` for never. -/
  exptime : ℕ
  /-- Length of the value. -/
  nbyte : ℕ
  /-- Flags opaque to the server. -/
  dataflags : ℕ
  /-- Number of concurrent users, 16 bits. -/
  refcount : ℕ
  /-- Item flags. -/
  flags : Flags
  /-- Slab class id. -/
  id : ℕ
  /-- The key; `nkey` is its length. -/
  key : Key
  /-- The 8-byte cas field (present if `flags.cas`). -/
  casField : ℕ
  /-- The bytes of the chunk. -/
  mem : ℕ → UInt8
  /-- Ghost: the number of items allocated before this one was. -/
  gen : ℕ

/-- What an item holds, as opposed to where it is and who uses it. -/
@[ext]
structure Content where
  /-- Expiry time. -/
  exptime : ℕ
  /-- Length of the value. -/
  nbyte : ℕ
  /-- Flags opaque to the server. -/
  dataflags : ℕ
  /-- `ITEM_CAS`. -/
  cas : Bool
  /-- `ITEM_RALIGN`. -/
  ralign : Bool
  /-- Slab class id. -/
  id : ℕ
  /-- The key. -/
  key : Key
  /-- The cas field. -/
  casField : ℕ
  /-- The bytes of the chunk. -/
  mem : ℕ → UInt8
  /-- The number of items allocated before. -/
  gen : ℕ

/-- What the item holds. -/
def Item.content (it : Item) : Content :=
  ⟨it.exptime, it.nbyte, it.dataflags, it.flags.cas, it.flags.ralign, it.id, it.key, it.casField,
    it.mem, it.gen⟩

/-- `struct slab`. -/
structure Slab where
  /-- Slab class id. -/
  id : ℕ
  /-- Number of concurrent users, 16 bits. -/
  refcount : ℕ
  /-- Last update time. -/
  utime : ℕ
  /-- Ghost: how often the slab was initialized. -/
  epoch : ℕ

/-- The mutable part of `struct slabclass`. -/
structure SlabClass where
  /-- Number of items on the free queue. -/
  nfreeItemq : ℕ
  /-- The free queue. -/
  freeItemq : List ItemPtr
  /-- Number of free items in the current slab. -/
  nfreeItem : ℕ
  /-- The next free item in the current slab. -/
  freeItem : Option ItemPtr

/-- The queues that items are linked into by `i_tqe`. -/
inductive ItemQueue where
  /-- `item_lruq[id]`. -/
  | lru (id : ℕ)
  /-- `slabclass[id].free_itemq`. -/
  | free (id : ℕ)
  deriving DecidableEq, Repr, Inhabited

/-- The gauges of a slab class, summed over all threads. -/
@[ext]
structure Gauges where
  /-- `item_curr`. -/
  itemCurr : ℤ
  /-- `item_free`. -/
  itemFree : ℤ
  /-- `slab_curr`. -/
  slabCurr : ℤ
  /-- `data_curr`. -/
  dataCurr : ℤ
  /-- `data_value_curr`. -/
  dataValueCurr : ℤ
  deriving DecidableEq, Repr

/-- The state that `cache_lock` and `slab_lock` protect, the clock and the settings that
commands change. -/
structure Store where
  /-- `now`. -/
  now : ℕ
  /-- `settings.evict_opt`. -/
  evictOpt : ℕ
  /-- `settings.oldest_live`. -/
  oldestLive : ℕ
  /-- The number of cas ids issued; `cas_id` is this modulo `2^64`. -/
  casIssued : ℕ
  /-- The hash table. -/
  assoc : Assoc ItemPtr
  /-- `item_lruq`, head first. -/
  lruq : ℕ → List ItemPtr
  /-- `slabclass`. -/
  slabclass : ℕ → SlabClass
  /-- `heapinfo.slab_table`; slabs are numbered in the order of their allocation. -/
  slabTable : List ℕ
  /-- `heapinfo.slab_lruq`, head first. -/
  slabLruq : List ℕ
  /-- The slab headers. -/
  slabs : ℕ → Slab
  /-- The chunks. -/
  items : ItemPtr → Item
  /-- The gauges of the slab classes. -/
  gauges : ℕ → Gauges
  /-- The heads of the item queues and the `i_tqe` of the items.  The functions that read a queue
  read the lists above. -/
  links : Tailq ItemQueue ItemPtr
  /-- Ghost: some slab has had more references than its 16-bit count can hold. -/
  overflow : Bool
  /-- Ghost: the number of items allocated so far. -/
  nalloc : ℕ

/-- What the environment decides in one locked step. -/
structure Choice where
  /-- `malloc` of a slab succeeds. -/
  slabOk : Bool := true
  /-- What a freshly allocated slab holds where its header's `utime` is. -/
  utime : ℕ := 0
  /-- `malloc` of an expansion table succeeds. -/
  tableOk : Bool := true
  /-- The values `rand` returns. -/
  rand : ℕ → ℕ := fun _ => 0

namespace Store

/-- The store after `slab_init`, `assoc_init` and `item_init`.  The memory that slabs will be
carved from has arbitrary contents. -/
def init (cfg : Config) (now evictOpt : ℕ) (slabs : ℕ → Slab) (items : ItemPtr → Item) : Store where
  now := now
  evictOpt := evictOpt
  oldestLive := 0
  casIssued := 0
  assoc := .init cfg.hashPower
  lruq := fun _ => []
  slabclass := fun _ => ⟨0, [], 0, none⟩
  slabTable := []
  slabLruq := []
  slabs := slabs
  items := items
  gauges := fun _ => ⟨0, 0, 0, 0, 0⟩
  links := .init
  overflow := false
  nalloc := 0

variable (s : Store)

/-- Change one item. -/
def setItem (p : ItemPtr) (f : Item → Item) : Store :=
  { s with items := Function.update s.items p (f (s.items p)) }

/-- Change one slab header. -/
def setSlab (sl : ℕ) (f : Slab → Slab) : Store :=
  { s with slabs := Function.update s.slabs sl (f (s.slabs sl)) }

/-- Change one slab class. -/
def setClass (id : ℕ) (f : SlabClass → SlabClass) : Store :=
  { s with slabclass := Function.update s.slabclass id (f (s.slabclass id)) }

/-- Change one lru queue. -/
def setLruq (id : ℕ) (f : List ItemPtr → List ItemPtr) : Store :=
  { s with lruq := Function.update s.lruq id (f (s.lruq id)) }

/-- Change the gauges of one class. -/
def setGauges (id : ℕ) (f : Gauges → Gauges) : Store :=
  { s with gauges := Function.update s.gauges id (f (s.gauges id)) }

/-- Change the links of the item queues. -/
def setLinks (f : Tailq ItemQueue ItemPtr → Tailq ItemQueue ItemPtr) : Store :=
  { s with links := f s.links }

/-- The key in an item. -/
def keyOf (p : ItemPtr) : Key := (s.items p).key

/-- `time_now() - n`, a 32-bit difference. -/
@[irreducible]
def ago (n : ℕ) : ℕ := (s.now + 2 ^ 32 - n) % 2 ^ 32

/-- `time_reltime`. -/
def timeReltime (cfg : Config) (exptime : ℤ) : ℕ :=
  if exptime = 0 then 0
  else if exptime > 60 * 60 * 24 * 30 then
    if exptime ≤ cfg.processStarted then 1
    else ((exptime - cfg.processStarted) % 2 ^ 32).toNat
  else ((exptime + s.now) % 2 ^ 32).toNat

end Store

/-! ### Layout of a chunk -/

namespace Item

/-- `item_get_cas`. -/
def getCas (it : Item) : ℕ := if it.flags.cas then it.casField else 0

/-- `item_set_cas`. -/
def setCas (it : Item) (cas : ℕ) : Item := if it.flags.cas then { it with casField := cas } else it

/-- `item_data`, as an offset into the chunk. -/
def data (cfg : Config) (it : Item) : ℕ :=
  if it.flags.ralign then cfg.profile it.id - it.nbyte
  else cfg.itemHdrSize + (if it.flags.cas then 8 else 0) + it.key.length + 1

/-- `n` bytes of the chunk from offset `off`. -/
def read (it : Item) (off n : ℕ) : List UInt8 := (List.range n).map fun i => it.mem (off + i)

/-- `memcpy` into the chunk at offset `off`. -/
def write (it : Item) (off : ℕ) (bytes : List UInt8) : Item :=
  { it with mem := fun i =>
      if off ≤ i ∧ i < off + bytes.length then bytes.getD (i - off) 0 else it.mem i }

/-- The value. -/
def value (cfg : Config) (it : Item) : List UInt8 := it.read (it.data cfg) it.nbyte

/-- What `asc_complete_nread` checks: the value is followed by `CRLF`. -/
def endsInCrlf (cfg : Config) (it : Item) : Bool :=
  it.read (it.data cfg + it.nbyte) crlfLen = crlf

/-- `item_hdr_init`; the offset is the pointer's `idx`. -/
def hdrInit (it : Item) (id : ℕ) : Item := { it with id := id, refcount := 0, flags := {} }

end Item

@[simp] theorem Item.setCas_id (it : Item) (cas : ℕ) : (it.setCas cas).id = it.id := by
  simp only [Item.setCas]
  split_ifs <;> rfl

@[simp] theorem Item.setCas_key (it : Item) (cas : ℕ) : (it.setCas cas).key = it.key := by
  simp only [Item.setCas]
  split_ifs <;> rfl

@[simp] theorem Item.setCas_refcount (it : Item) (cas : ℕ) :
    (it.setCas cas).refcount = it.refcount := by
  simp only [Item.setCas]
  split_ifs <;> rfl

@[simp] theorem Item.setCas_flags (it : Item) (cas : ℕ) : (it.setCas cas).flags = it.flags := by
  simp only [Item.setCas]
  split_ifs <;> rfl

@[simp] theorem Item.setCas_gen (it : Item) (cas : ℕ) : (it.setCas cas).gen = it.gen := by
  simp only [Item.setCas]
  split_ifs <;> rfl

@[simp] theorem Item.setCas_atime (it : Item) (cas : ℕ) : (it.setCas cas).atime = it.atime := by
  simp only [Item.setCas]
  split_ifs <;> rfl

@[simp] theorem Item.setCas_exptime (it : Item) (cas : ℕ) :
    (it.setCas cas).exptime = it.exptime := by
  simp only [Item.setCas]
  split_ifs <;> rfl

@[simp] theorem Item.setCas_nbyte (it : Item) (cas : ℕ) : (it.setCas cas).nbyte = it.nbyte := by
  simp only [Item.setCas]
  split_ifs <;> rfl

@[simp] theorem Item.setCas_dataflags (it : Item) (cas : ℕ) :
    (it.setCas cas).dataflags = it.dataflags := by
  simp only [Item.setCas]
  split_ifs <;> rfl

@[simp] theorem Item.setCas_mem (it : Item) (cas : ℕ) : (it.setCas cas).mem = it.mem := by
  simp only [Item.setCas]
  split_ifs <;> rfl

theorem Item.setCas_casField {it : Item} (h : it.flags.cas = true) (cas : ℕ) :
    (it.setCas cas).casField = cas := by
  simp [Item.setCas, h]

/-- `item_ntotal`. -/
def itemNtotal (cfg : Config) (nkey nbyte : ℕ) (useCas : Bool) : ℕ :=
  (if useCas then 8 else 0) + cfg.itemHdrSize + nkey + 1 + nbyte + crlfLen

/-- `item_size`. -/
def itemSize (cfg : Config) (it : Item) : ℕ := itemNtotal cfg it.key.length it.nbyte it.flags.cas

@[simp] theorem itemSize_setCas (cfg : Config) (it : Item) (cas : ℕ) :
    itemSize cfg (it.setCas cas) = itemSize cfg it := by
  simp [itemSize]

/-- The binary search of `slab_id`; each turn narrows `imin..imax`, so `fuel` turns are enough
for `fuel` classes. -/
def slabIdLoop (cfg : Config) (size : ℕ) : ℕ → ℕ → ℕ → ℕ
  | 0, _, _ => slabclassInvalidId
  | fuel + 1, imin, imax =>
    if imax ≥ imin then
      let id := (imin + imax) / 2
      if size > cfg.profile id then slabIdLoop cfg size fuel ((id + 1) % 2 ^ 8) imax
      else if id > slabclassMinId ∧ size ≤ cfg.profile (id - 1) then
        slabIdLoop cfg size fuel imin (id - 1)
      else id
    else slabclassInvalidId

/-- `slab_id`. -/
def slabId (cfg : Config) (size : ℕ) : ℕ :=
  slabIdLoop cfg size (slabclassMaxId + 1) slabclassMinId cfg.maxId

/-- `item_slabid`. -/
def itemSlabid (cfg : Config) (nkey nbyte : ℕ) :
    ℕ := slabId cfg (itemNtotal cfg nkey nbyte cfg.useCas)

/-- Items with this key and a number for value fit into some class, so that what `item_delta`
asserts is true of all numbers. -/
def Config.DeltaFits (cfg : Config) (key : Key) : Prop :=
  ∀ nbyte ≤ 20, itemSlabid cfg key.length nbyte ≠ slabclassInvalidId

instance (cfg : Config) (key : Key) : Decidable (cfg.DeltaFits key) :=
  inferInstanceAs (Decidable (∀ nbyte ≤ 20, _))

end Twemcache
