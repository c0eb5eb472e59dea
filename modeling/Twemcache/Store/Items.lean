import Twemcache.Store.Slabs

/-!
# The item module

The functions of `mc_items.c` that run under `cache_lock`.  A storage command reaches
`item_set`, `item_add`, `item_replace`, `item_cas` or `item_annex` with the item it allocated
earlier in `c->item`, which is the argument `it` here.
-/

namespace Twemcache

/-- `item_cas_result_t`. -/
inductive CasResult where
  | ok
  | exists
  | notFound
  deriving DecidableEq, Repr

/-- `item_add_result_t`. -/
inductive AddResult where
  | ok
  | exists
  deriving DecidableEq, Repr

/-- `item_replace_result_t`. -/
inductive ReplaceResult where
  | ok
  | notFound
  deriving DecidableEq, Repr

/-- `item_annex_result_t`; with `ok` comes the new length of the value. -/
inductive AnnexResult where
  | ok (nbyte : ℕ)
  | notFound
  | oversized
  | eom
  deriving DecidableEq, Repr

/-- `item_delete_result_t`. -/
inductive DeleteResult where
  | ok
  | notFound
  deriving DecidableEq, Repr

/-- `item_delta_result_t`; with `ok` comes the new value. -/
inductive DeltaResult where
  | ok (value : ℕ)
  | notFound
  | nonNumeric
  | eom
  deriving DecidableEq, Repr

/-- `isspace`, in the C locale. -/
def isSpace (b : UInt8) : Bool := b == 32 || (9 ≤ b && b ≤ 13)

/-- The digit loop of `mc_strtoull_len`: the number read and the bytes left, `none` if the
number is considered out of range. -/
def strtoullDigits (out : ℕ) : List UInt8 → Option (ℕ × List UInt8)
  | [] => some (out, [])
  | b :: bs =>
    if 48 ≤ b ∧ b ≤ 57 then
      if out ≥ (2 ^ 64 - 1) / 10 then none
      else strtoullDigits (out * 10 + b.toNat - 48) bs
    else some (out, b :: bs)

/-- `mc_strtoull_len`. -/
def mcStrtoullLen (str : List UInt8) : Option ℕ :=
  match strtoullDigits 0 (str.dropWhile isSpace) with
  | none => none
  | some (out, rest) => if rest.dropWhile isSpace = [] then some out else none

/-- `snprintf("%"PRIu64)`. -/
def decimal (n : ℕ) : List UInt8 := (Nat.toDigits 10 n).map fun c => c.toNat.toUInt8

namespace Store

variable (cfg : Config) (ch : Choice) (s : Store)

/-- `item_next_cas`. -/
def itemNextCas : ℕ × Store :=
  if cfg.useCas then ((s.casIssued + 1) % 2 ^ 64, { s with casIssued := s.casIssued + 1 })
  else (0, s)

/-- `item_expired`. -/
def itemExpired (p : ItemPtr) : Bool :=
  decide (0 < (s.items p).exptime ∧ (s.items p).exptime < s.now)

/-- The loop of `item_get_from_lruq`: `uit` is the first unexpired item met. -/
def itemLruqLoop (uit : Option ItemPtr) : ℕ → List ItemPtr → Option ItemPtr
  | 0, _ => uit
  | _, [] => uit
  | tries + 1, p :: ps =>
    if (s.items p).refcount ≠ 0 then itemLruqLoop uit tries ps
    else if s.itemExpired p then some p
    else itemLruqLoop (if uit = none then some p else uit) tries ps

/-- `item_get_from_lruq`. -/
def itemGetFromLruq (id : ℕ) : Option ItemPtr :=
  if ¬ cfg.useLruq then none else s.itemLruqLoop none itemLruqMaxTries (s.lruq id)

/-- The part of `_item_alloc` before `alloc_done`: find a chunk of class `id`. -/
def itemAllocChunk (id : ℕ) : Option ItemPtr × Store :=
  match (s.itemGetFromLruq cfg id).filter s.itemExpired with
  | some p => (some p, s.itemReuse cfg p)
  | none =>
    let uit := if s.evictOpt &&& evictLru ≠ 0 then s.itemGetFromLruq cfg id else none
    match s.slabGetItem cfg ch id with
    | (some p, s') => (some p, s')
    | (none, s') =>
      match uit with
      | some p => (some p, s'.itemReuse cfg p)
      | none => (none, s')

/-- The part of `_item_alloc` from `alloc_done` on. -/
def itemAllocDone (p : ItemPtr) (key : Key) (dataflags exptime nbyte : ℕ) : Store :=
  { (s.itemAcquireRefcount p).setItem p fun it =>
      ({ it with
        flags := { cas := cfg.useCas }
        dataflags := dataflags
        nbyte := nbyte
        exptime := exptime
        key := key
        gen := s.nalloc }).setCas 0 with
    nalloc := s.nalloc + 1 }

/-- `item_alloc`. -/
def itemAlloc (id : ℕ) (key : Key) (dataflags exptime nbyte : ℕ) : Option ItemPtr × Store :=
  match s.itemAllocChunk cfg ch id with
  | (some p, s') => (some p, s'.itemAllocDone cfg p key dataflags exptime nbyte)
  | (none, s') => (none, s')

/-- `_item_link`. -/
def itemLink (p : ItemPtr) : Store :=
  let s := s.setItem p fun it => { it with flags := { it.flags with linked := true } }
  let (cas, s) := s.itemNextCas cfg
  let s := s.setItem p (·.setCas cas)
  (s.assocInsert cfg ch p).itemLinkQ cfg p true

/-- `_item_unlink`. -/
def itemUnlink (p : ItemPtr) : Store :=
  if (s.items p).flags.linked then
    let s := s.itemReuse cfg p
    if (s.items p).refcount = 0 then s.slabPutItem p else s
  else s

/-- `item_remove`. -/
def itemRemove (p : ItemPtr) : Store :=
  let s := if (s.items p).refcount ≠ 0 then s.itemReleaseRefcount p else s
  if (s.items p).refcount = 0 ∧ ¬ (s.items p).flags.linked then s.slabPutItem p else s

/-- `item_touch`. -/
def itemTouch (p : ItemPtr) : Store :=
  if (s.items p).atime ≥ s.ago itemUpdateInterval then s
  else if (s.items p).flags.linked then (s.itemUnlinkQ cfg p).itemLinkQ cfg p false
  else s

/-- `_item_relink`. -/
def itemRelink (it nit : ItemPtr) : Store := (s.itemUnlink cfg it).itemLink cfg ch nit

/-- The first check of `_item_get`: the item has expired. -/
def expired (p : ItemPtr) : Bool :=
  decide ((s.items p).exptime ≠ 0 ∧ (s.items p).exptime ≤ s.now)

/-- The second check of `_item_get`: the item was flushed. -/
def flushed (p : ItemPtr) : Bool :=
  decide (s.oldestLive ≠ 0 ∧ s.oldestLive ≤ s.now ∧ (s.items p).atime ≤ s.oldestLive)

/-- `item_get`, with hotkey sampling off. -/
def itemGet (key : Key) : Option ItemPtr × Store :=
  match s.assocFind cfg key with
  | none => (none, s)
  | some p =>
    if s.expired p then (none, s.itemUnlink cfg p)
    else if s.flushed p then (none, s.itemUnlink cfg p)
    else (some p, s.itemAcquireRefcount p)

/-- The loop of `item_flush_expired` over one queue, most recent item first. -/
def flushQueue (s : Store) : List ItemPtr → Store
  | [] => s
  | p :: ps =>
    if (s.items p).atime < s.oldestLive then s else flushQueue (s.itemUnlink cfg p) ps

/-- `item_flush_expired`. -/
def itemFlushExpired : Store :=
  if s.oldestLive = 0 then s
  else (List.range' slabclassMinId slabclassMaxId).foldl
    (fun s id => s.flushQueue cfg (s.lruq id).reverse) s

/-- `item_set`. -/
def itemSet (it : ItemPtr) : Store :=
  match s.itemGet cfg (s.keyOf it) with
  | (none, s) => s.itemLink cfg ch it
  | (some oit, s) => (s.itemRelink cfg ch oit it).itemRemove oit

/-- `item_cas`. -/
def itemCas (it : ItemPtr) : CasResult × Store :=
  match s.itemGet cfg (s.keyOf it) with
  | (none, s) => (.notFound, s)
  | (some oit, s) =>
    if (s.items it).getCas ≠ (s.items oit).getCas then (.exists, s.itemRemove oit)
    else (.ok, (s.itemRelink cfg ch oit it).itemRemove oit)

/-- `item_add`. -/
def itemAdd (it : ItemPtr) : AddResult × Store :=
  match s.itemGet cfg (s.keyOf it) with
  | (some oit, s) => (.exists, s.itemRemove oit)
  | (none, s) => (.ok, s.itemLink cfg ch it)

/-- `item_replace`. -/
def itemReplace (it : ItemPtr) : ReplaceResult × Store :=
  match s.itemGet cfg (s.keyOf it) with
  | (none, s) => (.notFound, s)
  | (some oit, s) => (.ok, (s.itemRelink cfg ch oit it).itemRemove oit)

/-- The in-place branches of `item_annex`: put the bytes next to the value of `oit`. -/
def itemAnnexInPlace (prepend : Bool) (oit : ItemPtr) (bytes : List UInt8) : Store :=
  let s := s.setItem oit fun o =>
    { o.write (if prepend then o.data cfg - bytes.length else o.data cfg + o.nbyte) bytes with
      nbyte := o.nbyte + bytes.length }
  let (cas, s) := s.itemNextCas cfg
  s.setItem oit (·.setCas cas)

/-- The other branches of `item_annex`: fill the new item with the combined value. -/
def itemAnnexFill (prepend : Bool) (nit : ItemPtr) (old bytes : List UInt8) : Store :=
  if prepend then
    s.setItem nit fun n =>
      let n := { n with flags := { n.flags with ralign := true } }
      (n.write (n.data cfg) bytes).write (n.data cfg + bytes.length) old
  else
    s.setItem nit fun n =>
      (n.write (n.data cfg) old).write (n.data cfg + old.length) bytes

/-- `item_annex`; `prepend` tells prepend and prependrl from append and appendrl. -/
def itemAnnex (prepend : Bool) (it : ItemPtr) : AnnexResult × Store :=
  match s.itemGet cfg (s.keyOf it) with
  | (none, s) => (.notFound, s)
  | (some oit, s) =>
    let o := s.items oit
    let total := o.nbyte + (s.items it).nbyte
    let bytes := (s.items it).value cfg
    let id := itemSlabid cfg o.key.length total
    if id = slabclassInvalidId then (.oversized, s.itemRemove oit)
    else if id = o.id ∧ o.flags.ralign = prepend then
      (.ok total, (s.itemAnnexInPlace cfg prepend oit bytes).itemRemove oit)
    else
      match s.itemAlloc cfg ch id (s.keyOf it) o.dataflags o.exptime total with
      | (none, s) => (.eom, s.itemRemove oit)
      | (some nit, s) =>
        let s := s.itemAnnexFill cfg prepend nit ((s.items oit).value cfg) ((s.items it).value cfg)
        (.ok total, ((s.itemRelink cfg ch oit nit).itemRemove oit).itemRemove nit)

/-- The new value of `item_delta`. -/
def deltaValue (value : ℕ) (incr : Bool) (delta : ℕ) : ℕ :=
  if incr then (value + delta) % 2 ^ 64 else if delta > value then 0 else value - delta

/-- The in-place branch of `item_delta`. -/
def itemDeltaInPlace (p : ItemPtr) (buf : List UInt8) : Store :=
  let (cas, s) := s.itemNextCas cfg
  s.setItem p fun it =>
    { ((it.setCas cas).write ((it.setCas cas).data cfg) buf) with nbyte := buf.length }

/-- `item_delta`. -/
def itemDelta (key : Key) (incr : Bool) (delta : ℕ) : DeltaResult × Store :=
  match s.itemGet cfg key with
  | (none, s) => (.notFound, s)
  | (some p, s) =>
    match mcStrtoullLen ((s.items p).value cfg) with
    | none => (.nonNumeric, s.itemRemove p)
    | some v =>
      let value := deltaValue v incr delta
      let buf := decimal value
      if buf.length > (s.items p).nbyte then
        let id := itemSlabid cfg (s.items p).key.length buf.length
        match s.itemAlloc cfg ch id (s.keyOf p) (s.items p).dataflags (s.items p).exptime
            buf.length with
        | (none, s) => (.eom, s.itemRemove p)
        | (some np, s) =>
          let s := s.setItem np fun n => n.write (n.data cfg) buf
          (.ok value, ((s.itemRelink cfg ch p np).itemRemove p).itemRemove np)
      else (.ok value, (s.itemDeltaInPlace cfg p buf).itemRemove p)

/-- The class id that `_item_delta` passes to `_item_alloc`, if it calls it. -/
def deltaClass (key : Key) (incr : Bool) (delta : ℕ) : Option ℕ :=
  match s.itemGet cfg key with
  | (none, _) => none
  | (some p, s) =>
    match mcStrtoullLen ((s.items p).value cfg) with
    | none => none
    | some v =>
      let buf := decimal (deltaValue v incr delta)
      if buf.length > (s.items p).nbyte then
        some (itemSlabid cfg (s.items p).key.length buf.length)
      else none

/-- `item_delete`. -/
def itemDelete (key : Key) : DeleteResult × Store :=
  match s.itemGet cfg key with
  | (some p, s) => (.ok, (s.itemUnlink cfg p).itemRemove p)
  | (none, s) => (.notFound, s)

end Store

end Twemcache
