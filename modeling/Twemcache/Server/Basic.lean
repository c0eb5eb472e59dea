import Twemcache.Machine.Basic
import Twemcache.Store.Items

/-!
# The server, one locked step at a time

Connections call the functions of the item module; each call takes `cache_lock`, so a run of the
server is an interleaving of calls.  What connects the calls of one connection is the references
it keeps: the item it has allocated for a storage command, in `c->item`, and the items of a reply
that is still being sent, in its `ilist`.

Where in the block the next bytes go (`c->ritem`), and that the block is complete when a storage
function runs (`c->rlbytes`), is left open here: bytes may go to any place of the block, and the
block only has to end in CRLF.  Connections keep both fields in `Conn`, and their runs are runs of
this machine.

## Main definitions

* `Ref` : a reference, with the connection and the place it is kept at.
* `Server` : the store and the outstanding references.
* `Label` : the calls, the two writes of `flush_all`, the maintenance thread and the clock.
* `server` : the machine.
-/

namespace Twemcache

/-- Where a connection keeps a reference. -/
inductive Slot where
  /-- `c->item`, before or after the item was stored. -/
  | item (stored : Bool)
  /-- An entry of `c->ilist`. -/
  | ilist
  deriving DecidableEq, Repr

/-- A reference to an item. -/
structure Ref where
  /-- The connection. -/
  conn : ℕ
  /-- Where it keeps the reference. -/
  slot : Slot
  /-- The item. -/
  ptr : ItemPtr
  deriving DecidableEq, Repr

/-- The state of the server. -/
structure Server where
  /-- The item, slab and hash modules. -/
  store : Store
  /-- The references that connections keep. -/
  refs : List Ref

/-- A locked step. -/
inductive Label where
  /-- `item_alloc`, for a storage command. -/
  | alloc (c : ℕ) (key : Key) (dataflags exptime nbyte : ℕ) (ch : Choice)
  /-- Bytes of the data block are read into the item, at some place of the block. -/
  | fill (c : ℕ) (off : ℕ) (bytes : List UInt8)
  /-- `item_set_cas` with the id that the client sent. -/
  | reqCas (c : ℕ) (cas : ℕ)
  /-- `item_set`. -/
  | set (c : ℕ) (ch : Choice)
  /-- `item_cas`. -/
  | cas (c : ℕ) (ch : Choice)
  /-- `item_add`. -/
  | add (c : ℕ) (ch : Choice)
  /-- `item_replace`. -/
  | replace (c : ℕ) (ch : Choice)
  /-- `item_annex`. -/
  | annex (c : ℕ) (prepend : Bool) (ch : Choice)
  /-- `item_remove` of `c->item`. -/
  | removeItem (c : ℕ)
  /-- `item_get`, for a reply. -/
  | get (c : ℕ) (key : Key)
  /-- `item_touch`. -/
  | touch (c : ℕ) (p : ItemPtr)
  /-- `item_remove` of an entry of `ilist`. -/
  | remove (c : ℕ) (p : ItemPtr)
  /-- `item_delete`. -/
  | delete (key : Key)
  /-- `item_delta`. -/
  | delta (key : Key) (incr : Bool) (delta : ℕ) (ch : Choice)
  /-- `flush_all` sets `oldest_live`. -/
  | flushSet (exptime : Option ℤ)
  /-- `item_flush_expired`. -/
  | flushExpired
  /-- The maintenance thread moves a bucket. -/
  | moveBucket
  /-- The clock. -/
  | tick (now : ℕ)
  /-- `config evict`. -/
  | evict (opt : ℕ)

/-- What a step returns. -/
inductive Answer where
  | done
  | item (p : Option ItemPtr)
  | cas (r : CasResult)
  | add (r : AddResult)
  | replace (r : ReplaceResult)
  | annex (r : AnnexResult)
  | delete (r : DeleteResult)
  | delta (r : DeltaResult)
  deriving DecidableEq, Repr

/-- What `asc_process_flushall` writes to `oldest_live`, given the argument if there is one. -/
def Store.flushallTime (cfg : Config) (s : Store) : Option ℤ → ℕ
  | none => s.ago 1
  | some exptime =>
    if exptime > 0 then (s.timeReltime cfg exptime + 2 ^ 32 - 1) % 2 ^ 32 else s.ago 1

namespace Server

/-- The state after start-up. -/
def init (cfg : Config) (now evictOpt : ℕ) (slabs : ℕ → Slab) (items : ItemPtr → Item) :
    Server where
  store := .init cfg now evictOpt slabs items
  refs := []

variable (cfg : Config) (s : Server)

/-- The outstanding references, one entry for each. -/
def held : List ItemPtr := s.refs.map Ref.ptr

/-- The connection has something in `c->item`. -/
def hasItem (c : ℕ) : Bool := s.refs.any fun r => r.conn = c ∧ r.slot ≠ .ilist

/-- The item that the connection has allocated and not stored yet. -/
def unstored (c : ℕ) : Option ItemPtr :=
  (s.refs.find? fun r => r.conn = c ∧ r.slot = .item false).map Ref.ptr

/-- The connection's item has been stored, or has failed to be. -/
def markStored (c : ℕ) (refs : List Ref) : List Ref :=
  refs.map fun r => if r.conn = c ∧ r.slot = .item false then { r with slot := .item true } else r

/-- A storage function runs on the connection's item, if the check of `asc_complete_nread` finds
CRLF behind the value. -/
def storeItem (c : ℕ) (f : ItemPtr → Answer × Store) : Option (Answer × Server) :=
  ((s.unstored c).filter fun p => (s.store.items p).endsInCrlf cfg).map fun p =>
    ((f p).1, ⟨(f p).2, markStored c s.refs⟩)

/-- The connection writes to its item. -/
def writeItem (c : ℕ) (f : Item → Item) : Option (Answer × Server) :=
  (s.unstored c).map fun p => (.done, ⟨s.store.setItem p f, s.refs⟩)

/-- A function that neither takes nor gives back references of connections. -/
def call (r : Answer × Store) : Option (Answer × Server) := some (r.1, ⟨r.2, s.refs⟩)

/-- The connection keeps the reference that a function returned. -/
def keep (c : ℕ) (slot : Slot) (r : Option ItemPtr × Store) : Answer × Server :=
  (.item r.1, ⟨r.2, (r.1.map fun p => ⟨c, slot, p⟩).toList ++ s.refs⟩)

/-- The connection gives back a reference. -/
def giveBack (r : Ref) : Answer × Server := (.done, ⟨s.store.itemRemove r.ptr, s.refs.erase r⟩)

/-- One locked step. -/
def step : Label → Option (Answer × Server)
  | .alloc c key dataflags exptime nbyte ch =>
    let id := itemSlabid cfg key.length nbyte
    if s.hasItem c ∨ id = slabclassInvalidId ∨ key.length > keyMaxLen then none
    else some (s.keep c (.item false) (s.store.itemAlloc cfg ch id key dataflags exptime nbyte))
  | .fill c off bytes =>
    -- `c->ritem` points into the value, which stays where it is while no count wraps
    if ∀ p ∈ s.unstored c, off + bytes.length ≤ (s.store.items p).nbyte + crlfLen then
      s.writeItem c fun it => it.write (it.data cfg + off) bytes
    else none
  | .reqCas c cas => s.writeItem c (·.setCas cas)
  | .set c ch => s.storeItem cfg c fun p => (.done, s.store.itemSet cfg ch p)
  | .cas c ch => s.storeItem cfg c fun p =>
    (.cas (s.store.itemCas cfg ch p).1, (s.store.itemCas cfg ch p).2)
  | .add c ch => s.storeItem cfg c fun p =>
    (.add (s.store.itemAdd cfg ch p).1, (s.store.itemAdd cfg ch p).2)
  | .replace c ch => s.storeItem cfg c fun p =>
    (.replace (s.store.itemReplace cfg ch p).1, (s.store.itemReplace cfg ch p).2)
  | .annex c prepend ch => s.storeItem cfg c fun p =>
    (.annex (s.store.itemAnnex cfg ch prepend p).1, (s.store.itemAnnex cfg ch prepend p).2)
  | .removeItem c => (s.refs.find? fun r => r.conn = c ∧ r.slot ≠ .ilist).map s.giveBack
  | .get c key => some (s.keep c .ilist (s.store.itemGet cfg key))
  | .touch c p =>
    if ⟨c, .ilist, p⟩ ∈ s.refs then s.call (.done, s.store.itemTouch cfg p) else none
  | .remove c p => if ⟨c, .ilist, p⟩ ∈ s.refs then some (s.giveBack ⟨c, .ilist, p⟩) else none
  | .delete key => s.call (.delete (s.store.itemDelete cfg key).1, (s.store.itemDelete cfg key).2)
  | .delta key incr delta ch =>
    -- what follows in the code if no class has room for the number is undefined
    if s.store.deltaClass cfg key incr delta ≠ some slabclassInvalidId then
      s.call (.delta (s.store.itemDelta cfg ch key incr delta).1,
        (s.store.itemDelta cfg ch key incr delta).2)
    else none
  | .flushSet exptime =>
    s.call (.done, { s.store with oldestLive := s.store.flushallTime cfg exptime })
  | .flushExpired => s.call (.done, s.store.itemFlushExpired cfg)
  | .moveBucket => s.call (.done, s.store.assocMoveBucket cfg)
  | .tick now =>
    if s.store.now ≤ now ∧ now < 2 ^ 32 then s.call (.done, { s.store with now := now }) else none
  | .evict opt => s.call (.done, { s.store with evictOpt := opt })

end Server

/-- The server as a machine. -/
def server (cfg : Config) : Machine Server Label Answer := ⟨fun s l => s.step cfg l⟩

namespace Server

variable {cfg : Config} {s s' : Server} {a : Answer} {c : ℕ} {p : ItemPtr}

/-- A storage function runs on the item that the connection has not stored. -/
theorem storeItem_cases {f : ItemPtr → Answer × Store} (hs : s.storeItem cfg c f = some (a, s')) :
    ∃ p, s.unstored c = some p ∧ ((f p).1, (⟨(f p).2, markStored c s.refs⟩ : Server)) =
        (a, s') := by
  obtain ⟨p, hp, heq⟩ := Option.map_eq_some_iff.1 hs
  exact ⟨p, (Option.filter_eq_some_iff.1 hp).1, heq⟩

/-- A storage function runs on a block that ends in `CRLF`. -/
theorem storeItem_of_unstored (hp : s.unstored c = some p)
    (hend : (s.store.items p).endsInCrlf cfg = true) (f : ItemPtr → Answer × Store) :
    s.storeItem cfg c f = some ((f p).1, ⟨(f p).2, markStored c s.refs⟩) := by
  rw [storeItem, hp, Option.filter_some, if_pos hend, Option.map_some]

end Server

/-! ### A small server -/

theorem Config.one_maxId : 1 ≤ slabclassMaxId := by decide

theorem Config.profile_pos_128 (id : ℕ) (_ : slabclassMinId ≤ id) (_ : id ≤ 1) : 0 < 128 := by
  decide

/-- A heap of one slab with two chunks of 128 bytes. -/
def Config.tiny : Config where
  useCas := true
  useFreeq := true
  useLruq := true
  hashPower := 0
  hash := fun key => key.length.toUInt32
  processStarted := 1000
  itemHdrSize := 49
  slabSize := 256
  maxId := 1
  profile := fun _ => 128
  maxNslab := 1
  maxId_le := Config.one_maxId
  profile_pos := Config.profile_pos_128
  profile_le := fun _ _ _ => by decide

/-- The small server after start-up, at time 2. -/
def Server.tiny (evictOpt : ℕ) : Server :=
  .init .tiny 2 evictOpt (fun _ => ⟨0, 0, 0, 0⟩) fun _ =>
    ⟨0, 0, 0, 0, 0, {}, 0, [], 0, fun _ => 0, 0⟩

end Twemcache
