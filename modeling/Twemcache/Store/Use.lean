import Twemcache.Store.Change
import Twemcache.Store.Deed

/-!
# Uses of items

A call of the item module links at most one item.  `Runs` is a sequence of primitives with the item
that it links, and every function is one, in any store.

## Main definitions

* `annexNew`, `deltaNew` : the items that `item_annex` and `item_delta` link.
* `Runs` : a sequence of primitives that links an item, or none.
* `Dated` : hashed items have times that have come.
-/

namespace Twemcache

/-- The item that `item_cas` has linked. -/
def CasResult.stored (it : ItemPtr) : CasResult → Option ItemPtr
  | .ok => some it
  | _ => none

/-- The item that `item_add` has linked. -/
def AddResult.stored (it : ItemPtr) : AddResult → Option ItemPtr
  | .ok => some it
  | .exists => none

/-- The item that `item_replace` has linked. -/
def ReplaceResult.stored (it : ItemPtr) : ReplaceResult → Option ItemPtr
  | .ok => some it
  | .notFound => none

namespace Store

variable (cfg : Config) (ch : Choice)

/-- The item that `item_annex` links in the place of the one it finds, if it does. -/
def annexNew (s : Store) (prepend : Bool) (it : ItemPtr) : Option ItemPtr :=
  match s.itemGet cfg (s.keyOf it) with
  | (none, _) => none
  | (some oit, s) =>
    let o := s.items oit
    let total := o.nbyte + (s.items it).nbyte
    let id := itemSlabid cfg o.key.length total
    if id = slabclassInvalidId ∨ id = o.id ∧ o.flags.ralign = prepend then none
    else (s.itemAlloc cfg ch id (s.keyOf it) o.dataflags o.exptime total).1

/-- The item that `item_delta` links in the place of the one it finds, if it does. -/
def deltaNew (s : Store) (key : Key) (incr : Bool) (delta : ℕ) : Option ItemPtr :=
  match s.itemGet cfg key with
  | (none, _) => none
  | (some p, s) =>
    match mcStrtoullLen ((s.items p).value cfg) with
    | none => none
    | some v =>
      let n := (decimal (deltaValue v incr delta)).length
      if n > (s.items p).nbyte then
        (s.itemAlloc cfg ch (itemSlabid cfg (s.items p).key.length n) (s.keyOf p)
          (s.items p).dataflags
          (s.items p).exptime n).1
      else none

/-- A sequence of primitives that links `o`. -/
def Runs (s : Store) (o : Option ItemPtr) (s' : Store) : Prop :=
  match o with
  | none => Deeds cfg ch s s'
  | some p =>
    ∃ u ch', Deeds cfg ch s u ∧ p.slab ∈ u.slabLruq ∧ Deeds cfg ch (u.itemLink cfg ch' p) s'

variable {cfg ch} {s s' t : Store} {p q it oit : ItemPtr} {o : Option ItemPtr} {key : Key}

theorem Deeds.single (h : Deed cfg ch s s') : Deeds cfg ch s s' := Relation.ReflTransGen.single h

theorem Deeds.refl (s : Store) : Deeds cfg ch s s := Relation.ReflTransGen.refl

theorem Deeds.trans (h : Deeds cfg ch s s') (h' : Deeds cfg ch s' t) : Deeds cfg ch s t :=
  Relation.ReflTransGen.trans h h'

theorem Runs.deeds (h : Runs cfg ch s o s') : Deeds cfg ch s s' := by
  cases o with
  | none => exact h
  | some p =>
    obtain ⟨u, ch', h1, hp, h2⟩ := h
    exact (h1.trans (.single (.link hp))).trans h2

theorem Runs.before (h : Deeds cfg ch s s') (hr : Runs cfg ch s' o t) : Runs cfg ch s o t := by
  cases o with
  | none => exact h.trans hr
  | some p =>
    obtain ⟨u, ch', h1, hp, h2⟩ := hr
    exact ⟨u, ch', h.trans h1, hp, h2⟩

theorem Runs.after (hr : Runs cfg ch s o s') (h : Deeds cfg ch s' t) : Runs cfg ch s o t := by
  cases o with
  | none => exact Deeds.trans hr h
  | some p =>
    obtain ⟨u, ch', h1, hp, h2⟩ := hr
    exact ⟨u, ch', h1, hp, h2.trans h⟩

/-! ### The functions -/

section Functions

variable (ha : s.Anchored) (hnow : s.now < 2 ^ 32)

include ha

theorem deeds_itemGet (cfg : Config) (ch : Choice) (key : Key) :
    Deeds cfg ch s (s.itemGet cfg key).2 ∧
    ∀ p, (s.itemGet cfg key).1 = some p → p.slab ∈ s.slabLruq := by
  unfold itemGet
  cases hfind : s.assocFind cfg key with
  | none => exact ⟨.refl s, nofun⟩
  | some p =>
    have hp := ha.found hfind
    dsimp only
    split_ifs
    · exact ⟨.single (.unlink hp), nofun⟩
    · exact ⟨.single (.unlink hp), nofun⟩
    · exact ⟨.single (.acquire p), fun q hq => Option.some.inj hq ▸ hp⟩

/-- An item is allocated. -/
theorem deeds_itemAlloc (cfg : Config) (ch : Choice) (id : ℕ) (key : Key)
    (dataflags exptime nbyte : ℕ) :
    Deeds cfg ch s (s.itemAlloc cfg ch id key dataflags exptime nbyte).2 ∧
      ∀ p, (s.itemAlloc cfg ch id key dataflags exptime nbyte).1 = some p →
        p.slab ∈ (s.itemAlloc cfg ch id key dataflags exptime nbyte).2.slabLruq := by
  cases halloc : s.itemAlloc cfg ch id key dataflags exptime nbyte with
  | mk r t =>
    cases r with
    | none =>
      rw [itemAlloc_none halloc]
      exact ⟨.refl s, nofun⟩
    | some p =>
      unfold itemAlloc at halloc
      generalize hchunk : s.itemAllocChunk cfg ch id = c at halloc
      obtain ⟨_ | q, u⟩ := c
      · cases halloc
      · obtain ⟨hqp, rfl⟩ := Prod.mk.inj halloc
        obtain rfl := Option.some.inj hqp
        have hf := itemAllocChunk_found hchunk
        obtain ⟨-, -, hq⟩ := hf.shuffles ha
        refine ⟨.single (.alloc hf key dataflags exptime nbyte), fun p hp => ?_⟩
        obtain rfl := Option.some.inj hp
        rw [(steady_itemAllocDone q key dataflags exptime nbyte).slabLruq]
        exact hq

include hnow

/-- A slab in use remains one. -/
theorem Deeds.known {sl : ℕ} (h : Deeds cfg ch s s') (hsl : sl ∈ s.slabLruq) : sl ∈ s'.slabLruq :=
  (h.shuffles ha hnow).1.known sl hsl

/-- `_item_relink` and the release of the old item. -/
theorem runs_relink (cfg : Config) (ch ch' : Choice) (hoit : oit.slab ∈ s.slabLruq)
    (hit : it.slab ∈ s.slabLruq) :
    Runs cfg ch s (some it) ((s.itemRelink cfg ch' oit it).itemRemove oit) := by
  have h1 : Deeds cfg ch s (s.itemUnlink cfg oit) := .single (.unlink hoit)
  have hit1 := h1.known ha hnow hit
  have h2 : Deeds cfg ch s ((s.itemUnlink cfg oit).itemLink cfg ch' it) :=
    h1.trans (.single (.link hit1))
  exact ⟨_, ch', h1, hit1, .single (.remove (h2.known ha hnow hoit))⟩

theorem runs_itemSet (cfg : Config) (ch : Choice) (hit : it.slab ∈ s.slabLruq) :
    Runs cfg ch s (some it) (s.itemSet cfg ch it) := by
  obtain ⟨hget, hoit⟩ := deeds_itemGet ha cfg ch (s.keyOf it)
  unfold itemSet
  generalize s.itemGet cfg (s.keyOf it) = r at hget hoit
  obtain ⟨_ | oit, u⟩ := r
  · exact ⟨u, ch, hget, hget.known ha hnow hit, .refl _⟩
  · obtain ⟨hs, hau⟩ := hget.shuffles ha hnow
    exact .before hget
      (runs_relink hau (hs.now ▸ hnow) cfg ch ch (hs.known _ (hoit oit rfl)) (hs.known _ hit))

theorem runs_itemCas (hit : it.slab ∈ s.slabLruq) :
    Runs cfg ch s ((s.itemCas cfg ch it).1.stored it) (s.itemCas cfg ch it).2 := by
  obtain ⟨hget, hoit⟩ := deeds_itemGet ha cfg ch (s.keyOf it)
  unfold itemCas
  generalize s.itemGet cfg (s.keyOf it) = r at hget hoit
  obtain ⟨_ | oit, u⟩ := r
  · exact hget
  · obtain ⟨hs, hau⟩ := hget.shuffles ha hnow
    have hu := hs.known _ (hoit oit rfl)
    dsimp only
    by_cases hcas : (u.items it).getCas = (u.items oit).getCas
    · rw [if_neg (not_not.2 hcas)]
      exact .before hget (runs_relink hau (hs.now ▸ hnow) cfg ch ch hu (hs.known _ hit))
    · rw [if_pos hcas]
      exact hget.trans (.single (.remove hu))

theorem runs_itemAdd (hit : it.slab ∈ s.slabLruq) :
    Runs cfg ch s ((s.itemAdd cfg ch it).1.stored it) (s.itemAdd cfg ch it).2 := by
  obtain ⟨hget, hoit⟩ := deeds_itemGet ha cfg ch (s.keyOf it)
  unfold itemAdd
  generalize s.itemGet cfg (s.keyOf it) = r at hget hoit
  obtain ⟨_ | oit, u⟩ := r
  · exact ⟨u, ch, hget, hget.known ha hnow hit, .refl _⟩
  · exact hget.trans (.single (.remove (hget.known ha hnow (hoit oit rfl))))

theorem runs_itemReplace (hit : it.slab ∈ s.slabLruq) :
    Runs cfg ch s ((s.itemReplace cfg ch it).1.stored it) (s.itemReplace cfg ch it).2 := by
  obtain ⟨hget, hoit⟩ := deeds_itemGet ha cfg ch (s.keyOf it)
  unfold itemReplace
  generalize s.itemGet cfg (s.keyOf it) = r at hget hoit
  obtain ⟨_ | oit, u⟩ := r
  · exact hget
  · obtain ⟨hs, hau⟩ := hget.shuffles ha hnow
    exact .before hget
      (runs_relink hau (hs.now ▸ hnow) cfg ch ch (hs.known _ (hoit oit rfl)) (hs.known _ hit))

theorem deeds_itemDelete (key : Key) : Deeds cfg ch s (s.itemDelete cfg key).2 := by
  obtain ⟨hget, hoit⟩ := deeds_itemGet ha cfg ch key
  unfold itemDelete
  generalize s.itemGet cfg key = r at hget hoit
  obtain ⟨_ | p, u⟩ := r
  · exact hget
  · have hp := hget.known ha hnow (hoit p rfl)
    have h1 : Deeds cfg ch s (u.itemUnlink cfg p) := hget.trans (.single (.unlink hp))
    exact h1.trans (.single (.remove (h1.known ha hnow (hoit p rfl))))

/-- An item is allocated to take the place of `oit`: filled, relinked, and both references given
back. -/
theorem runs_replaceItem {id : ℕ} {key : Key} {dataflags exptime nbyte : ℕ} {np : ItemPtr}
    {f : Item → Item} (hf : ∀ it, (f it).atime = it.atime) (hoit : oit.slab ∈ s.slabLruq)
    (halloc : s.itemAlloc cfg ch id key dataflags exptime nbyte = (some np, t)) :
    Runs cfg ch s (some np)
        ((((t.setItem np f).itemRelink cfg ch oit np).itemRemove oit).itemRemove np) := by
  obtain ⟨h1, hnp⟩ := deeds_itemAlloc ha cfg ch id key dataflags exptime nbyte
  rw [halloc] at h1 hnp
  have h2 : Deeds cfg ch s (t.setItem np f) := h1.trans (.single (.write hf))
  obtain ⟨hs, ha2⟩ := h2.shuffles ha hnow
  have hnp2 : np.slab ∈ (t.setItem np f).slabLruq := hnp np rfl
  have h3 := runs_relink ha2 (hs.now ▸ hnow) cfg ch ch (hs.known _ hoit) hnp2
  have hnp3 := h3.deeds.known ha2 (hs.now ▸ hnow) hnp2
  exact (Runs.before h2 h3).after (.single (.remove hnp3))

theorem runs_itemAnnex (prepend : Bool) (it : ItemPtr) :
    Runs cfg ch s (s.annexNew cfg ch prepend it) (s.itemAnnex cfg ch prepend it).2 := by
  obtain ⟨hget, hoit⟩ := deeds_itemGet ha cfg ch (s.keyOf it)
  unfold itemAnnex annexNew
  generalize s.itemGet cfg (s.keyOf it) = r at hget hoit
  obtain ⟨_ | oit, u⟩ := r
  · exact hget
  · obtain ⟨hs, hau⟩ := hget.shuffles ha hnow
    have hu := hs.known _ (hoit oit rfl)
    dsimp only at hget hau hu ⊢
    generalize itemSlabid cfg (u.items oit).key.length
      ((u.items oit).nbyte + (u.items it).nbyte) = id
    by_cases hid : id = slabclassInvalidId
    · rw [if_pos (.inl hid), if_pos hid]
      exact hget.trans (.single (.remove hu))
    by_cases hplace : id = (u.items oit).id ∧ (u.items oit).flags.ralign = prepend
    · rw [if_pos (.inr hplace), if_neg hid, if_pos hplace]
      have hwrite :
          Deed cfg ch u (u.itemAnnexInPlace cfg prepend oit ((u.items it).value cfg)) := by
        rw [itemAnnexInPlace_eq]
        exact .write fun x => by simp [annexItem, Item.write]
      refine (hget.trans (.single hwrite)).trans (.single (.remove ?_))
      rw [itemAnnexInPlace_eq]
      exact hu
    · rw [if_neg (not_or.2 ⟨hid, hplace⟩), if_neg hid, if_neg hplace]
      generalize halloc : u.itemAlloc cfg ch _ _ _ _ _ = r
      obtain ⟨_ | np, t⟩ := r
      · obtain rfl := itemAlloc_none halloc
        exact hget.trans (.single (.remove hu))
      · dsimp only
        rw [itemAnnexFill_eq]
        refine .before hget (runs_replaceItem hau (hs.now ▸ hnow) (fun x => ?_) hu halloc)
        cases prepend <;> simp [annexFillItem, Item.write]

theorem runs_itemDelta (cfg : Config) (ch : Choice) (key : Key) (incr : Bool) (delta : ℕ) :
    Runs cfg ch s (s.deltaNew cfg ch key incr delta) (s.itemDelta cfg ch key incr delta).2 := by
  obtain ⟨hget, hoit⟩ := deeds_itemGet ha cfg ch key
  unfold itemDelta deltaNew
  generalize s.itemGet cfg key = r at hget hoit
  obtain ⟨_ | p, u⟩ := r
  · exact hget
  · obtain ⟨hs, hau⟩ := hget.shuffles ha hnow
    have hu := hs.known _ (hoit p rfl)
    dsimp only at hget hau hu ⊢
    cases mcStrtoullLen ((u.items p).value cfg) with
    | none => exact hget.trans (.single (.remove hu))
    | some v =>
      dsimp only
      split_ifs with hlong
      · generalize halloc : u.itemAlloc cfg ch _ _ _ _ _ = r
        obtain ⟨_ | np, t⟩ := r
        · obtain rfl := itemAlloc_none halloc
          exact hget.trans (.single (.remove hu))
        · exact .before hget (runs_replaceItem hau (hs.now ▸ hnow) (fun x => rfl) hu halloc)
      · have hwrite :
            Deed cfg ch u (u.itemDeltaInPlace cfg p (decimal (deltaValue v incr delta))) := by
          rw [itemDeltaInPlace_eq]
          exact .write fun x => by simp [deltaItem, Item.write]
        refine (hget.trans (.single hwrite)).trans (.single (.remove ?_))
        rw [itemDeltaInPlace_eq]
        exact hu

theorem deeds_flushQueue (l : List ItemPtr) (hl : ∀ p ∈ l, p.slab ∈ s.slabLruq) :
    Deeds cfg ch s (s.flushQueue cfg l) := by
  induction l generalizing s with
  | nil => exact .refl s
  | cons p l ih =>
    unfold flushQueue
    split_ifs
    · exact .refl s
    · have h1 : Deeds cfg ch s (s.itemUnlink cfg p) := .single (.unlink (hl p List.mem_cons_self))
      obtain ⟨hs, ha1⟩ := h1.shuffles ha hnow
      exact h1.trans
        (ih ha1 (hs.now ▸ hnow) fun q hq => hs.known _ (hl q (List.mem_cons_of_mem p hq)))

theorem deeds_itemFlushExpired : Deeds cfg ch s (s.itemFlushExpired cfg) := by
  have hfold : ∀ (ids : List ℕ) (u : Store), Deeds cfg ch s u →
      Deeds cfg ch s (ids.foldl (fun s id => s.flushQueue cfg (s.lruq id).reverse) u) := by
    intro ids
    induction ids with
    | nil => exact fun _ hu => hu
    | cons id ids ih =>
      intro u hu
      obtain ⟨hs, hau⟩ := hu.shuffles ha hnow
      refine ih _ (hu.trans (deeds_flushQueue hau (hs.now ▸ hnow) _ fun p hp => ?_))
      exact hau.slab p (.inr (.inl ⟨id, List.mem_reverse.1 hp⟩))
  unfold itemFlushExpired
  split_ifs
  · exact .refl s
  · exact hfold _ s (.refl s)

end Functions

/-! ### Access times -/

/-- Access times have not changed, or to the current time, and an item that was hashed has that. -/
structure Ages (s s' : Store) : Prop where
  /-- The clock and the settings are the same. -/
  env : s'.now = s.now ∧ s'.evictOpt = s.evictOpt ∧ s'.oldestLive = s.oldestLive
  /-- Only the current time is written. -/
  atime : ∀ p, (s'.items p).atime = (s.items p).atime ∨ (s'.items p).atime = s.now
  /-- Items are hashed with the current time. -/
  hash : ∀ p, s'.assoc.Has p → s.assoc.Has p ∨ (s'.items p).atime = s.now

/-- The items in the hash table were used at times that have come. -/
def Dated (s : Store) : Prop := ∀ p, s.assoc.Has p → (s.items p).atime ≤ s.now

theorem Ages.dated (h : Ages s s') (hd : s.Dated) : s'.Dated := fun p hp => by
  rw [h.env.1]
  rcases h.hash p hp with hp | hp
  · rcases h.atime p with heq | heq
    · exact heq.le.trans (hd p hp)
    · exact heq.le
  · exact hp.le

theorem env_eq (h : s'.env = s.env) :
    s'.now = s.now ∧ s'.evictOpt = s.evictOpt ∧ s'.oldestLive = s.oldestLive :=
  ⟨congrArg Env.now h, congrArg Env.evictOpt h, congrArg Env.oldestLive h⟩

/-- No time is written, and nothing is hashed. -/
structure Idles (s s' : Store) : Prop where
  /-- The clock and the settings are the same. -/
  env : s'.now = s.now ∧ s'.evictOpt = s.evictOpt ∧ s'.oldestLive = s.oldestLive
  /-- Access times are the same. -/
  atime : ∀ p, (s'.items p).atime = (s.items p).atime
  /-- No item is hashed. -/
  hash : ∀ p, s'.assoc.Has p → s.assoc.Has p

theorem Idles.refl (s : Store) : Idles s s := ⟨⟨rfl, rfl, rfl⟩, fun _ => rfl, fun _ => id⟩

theorem Idles.trans (h : Idles s s') (h' : Idles s' t) : Idles s t :=
  ⟨⟨h'.env.1.trans h.env.1, h'.env.2.1.trans h.env.2.1, h'.env.2.2.trans h.env.2.2⟩,
    fun p => (h'.atime p).trans (h.atime p), fun p hp => h.hash p (h'.hash p hp)⟩

theorem Idles.ages (h : Idles s s') : Ages s s' :=
  ⟨h.env, fun p => .inl (h.atime p), fun p hp => .inl (h.hash p hp)⟩

/-- A change of one item that keeps its time. -/
theorem idles_setItem {f : Item → Item}
    (henv : s'.now = s.now ∧ s'.evictOpt = s.evictOpt ∧ s'.oldestLive = s.oldestLive)
    (hassoc : ∀ q, s'.assoc.Has q → s.assoc.Has q)
    (hitems : s'.items = Function.update s.items p (f (s.items p)))
    (hf : (f (s.items p)).atime = (s.items p).atime) :
    Idles s s' := by
  refine ⟨henv, fun q => ?_, hassoc⟩
  rw [hitems, Function.update_apply]
  split_ifs with hq
  · rw [hq]
    exact hf
  · rfl

theorem idles_itemReuse (p : ItemPtr) : Idles s (s.itemReuse cfg p) :=
  idles_setItem (f := fun it => { it with flags := { it.flags with linked := false } })
    (env_eq (itemReuse_env p)) (fun _ => Assoc.Has.of_delete) (itemReuse_items p) rfl

theorem idles_slabTakeItem (id : ℕ) (p : ItemPtr) : Idles s (s.slabTakeItem id p) :=
  idles_setItem (f := fun it => { it with flags := { it.flags with slabbed := false } })
    (env_eq (trims_slabTakeItem id p).env) (fun _ hq => hq) (slabTakeItem_items id p) rfl

theorem idles_slabPutItem (p : ItemPtr) : Idles s (s.slabPutItem p) :=
  idles_setItem (f := fun it => { it with flags := { it.flags with slabbed := true } })
    (env_eq (slabPutItem_env p)) (fun _ => id) (slabPutItem_items p) rfl

theorem idles_itemUnlink (p : ItemPtr) : Idles s (s.itemUnlink cfg p) := by
  unfold itemUnlink
  dsimp only
  split_ifs
  · exact (idles_itemReuse p).trans (idles_slabPutItem p)
  · exact idles_itemReuse p
  · exact .refl s

theorem idles_itemRemove (p : ItemPtr) : Idles s (s.itemRemove p) := by
  refine ⟨env_eq (itemRemove_env p), fun q => itemRemove_atime p q, fun q hq => ?_⟩
  have hput : ∀ u : Store, (u.slabPutItem p).assoc = u.assoc := fun _ => rfl
  have hrelease : (s.itemReleaseRefcount p).assoc = s.assoc := rfl
  simp only [itemRemove] at hq
  split_ifs at hq <;> simpa only [hput, hrelease] using hq

theorem idles_slabEvictOne (sl : ℕ) : Idles s (s.slabEvictOne cfg sl) := by
  have hfold : ∀ (id : ℕ) (l : List ℕ) (u : Store),
      Idles u (l.foldl (fun s i => s.slabEvictItem cfg id ⟨sl, i⟩) u) := by
    intro id l
    induction l with
    | nil => exact fun u => .refl u
    | cons i l ih =>
      refine fun u => Idles.trans ?_ (ih _)
      dsimp only [slabEvictItem]
      split_ifs
      · exact idles_itemReuse _
      · exact idles_slabTakeItem id _
      · exact .refl u
  have hforget : Idles s (s.slabForgetCurrent (s.slabs sl).id sl) := by
    unfold slabForgetCurrent
    split
    · split_ifs
      · exact ⟨⟨rfl, rfl, rfl⟩, fun _ => rfl, fun _ => id⟩
      · exact .refl s
    · exact .refl s
  have hend := hforget.trans (hfold (s.slabs sl).id (List.range (cfg.nitem (s.slabs sl).id)) _)
  exact ⟨hend.env, hend.atime, hend.hash⟩

/-- Handing out a chunk writes no time. -/
theorem Found.idles {id : ℕ} (hf : Found cfg ch id s p t) : Idles s t := by
  have hadd : ∀ {u : Store} {sl : ℕ}, Idles s u →
      (u.slabAddOne cfg sl id).slabGetItemFromCurrent id = (some p, t) → Idles s t := by
    intro u sl hu ht
    have hcur : ((u.slabAddOne cfg sl id).slabclass id).freeItem = some ⟨sl, 0⟩ := by
      simp [slabAddOne, setClass, setGauges]
    have hst : t = ((u.slabAddOne cfg sl id).slabGetItemFromCurrent id).2 := by rw [ht]
    unfold slabGetItemFromCurrent at hst
    rw [hcur] at hst
    refine hu.trans
      ⟨by rw [hst]; exact ⟨rfl, rfl, rfl⟩, fun q => ?_, fun q hq => by rw [hst] at hq; exact hq⟩
    have hitem : t.items q = if q.slab = sl ∧
        q.idx < cfg.nitem id then (u.items q).hdrInit id else u.items q := by
      rw [hst]
      rfl
    rw [hitem]
    split_ifs <;> rfl
  cases hf with
  | expired hp hexp => exact idles_itemReuse p
  | freeq hp => exact idles_slabTakeItem id p
  | current hp ht =>
    rw [ht]
    unfold slabGetItemFromCurrent
    rw [hp]
    exact ⟨⟨rfl, rfl, rfl⟩, fun _ => rfl, fun _ hq => hq⟩
  | fresh hex hget ht =>
    refine hadd ?_ ht
    unfold slabGetNew at hget
    split_ifs at hget
    all_goals obtain ⟨-, rfl⟩ := Prod.mk.inj hget
    · exact .refl s
    · exact ⟨⟨rfl, rfl, rfl⟩, fun _ => rfl, fun _ hq => hq⟩
    · exact .refl s
  | slab hex hno hpick ht => exact hadd (idles_slabEvictOne _) ht
  | lru hex hno hopt hp => exact idles_itemReuse p

theorem idles_itemAcquireRefcount (p : ItemPtr) : Idles s (s.itemAcquireRefcount p) := by
  refine ⟨⟨rfl, rfl, rfl⟩, fun q => ?_, fun _ => id⟩
  by_cases hq : q = p <;> simp [hq]

theorem idles_itemAllocDone (p : ItemPtr) (key : Key) (dataflags exptime nbyte : ℕ) :
    Idles s (s.itemAllocDone cfg p key dataflags exptime nbyte) := by
  have hacq := idles_itemAcquireRefcount (s := s) p
  unfold itemAllocDone
  generalize s.itemAcquireRefcount p = u at hacq ⊢
  refine hacq.trans ⟨⟨rfl, rfl, rfl⟩, fun q => ?_, fun _ => id⟩
  by_cases hq : q = p <;> simp [hq, setItem]

theorem slabLruqTouch_assoc (sl : ℕ) (allocated : Bool) :
    (s.slabLruqTouch sl allocated).assoc = s.assoc := by
  unfold slabLruqTouch
  split_ifs <;> rfl

/-- **What a primitive does to access times, in any store.** -/
theorem Deed.ages (hd : Deed cfg ch s s') : Ages s s' := by
  cases hd with
  | acquire p => exact (idles_itemAcquireRefcount p).ages
  | remove hp => exact (idles_itemRemove _).ages
  | unlink hp => exact (idles_itemUnlink _).ages
  | @link ch' p hp =>
    have hself : ((s.itemLink cfg ch' p).items p).atime = s.now := by simp [linkItem]
    refine ⟨⟨congrArg Env.now (itemLink_env p), congrArg Env.evictOpt (itemLink_env p),
      congrArg Env.oldestLive (itemLink_env p)⟩, fun q => ?_, fun q hq => ?_⟩
    · by_cases hq : q = p
      · exact .inr (hq ▸ hself)
      · exact .inl (by simp [hq])
    · rw [itemLink_eq, slabLruqTouch_assoc] at hq
      exact (Assoc.Has.of_insert hq).symm.imp_right fun heq => by rw [heq, hself]
  | @touch p hp =>
    rcases itemTouch_eq (s := s) cfg p with heq | ⟨-, -, heq⟩
    · rw [heq]
      exact (Idles.refl s).ages
    · rw [heq]
      refine ⟨env_eq (slabLruqTouch_env _ _), fun q => ?_, fun q hq => .inl ?_⟩
      · by_cases hq : q = p
        · exact .inr (by simp [hq, touchBare])
        · exact .inl (by simp [hq, touchBare])
      · rwa [slabLruqTouch_assoc] at hq
  | @alloc t id p hf key dataflags exptime nbyte =>
    exact (hf.idles.trans (idles_itemAllocDone p key dataflags exptime nbyte)).ages
  | @write p f n hf =>
    have hidle : Idles s { s.setItem p f with casIssued := n } :=
      idles_setItem (f := f) ⟨rfl, rfl, rfl⟩ (fun _ hq => hq) rfl (hf _)
    exact hidle.ages
  | moveBucket => exact Idles.ages ⟨⟨rfl, rfl, rfl⟩, fun _ => rfl, fun _ => Assoc.Has.of_moveBucket⟩

theorem Deeds.env (hd : Deeds cfg ch s s') :
    s'.now = s.now ∧ s'.evictOpt = s.evictOpt ∧ s'.oldestLive = s.oldestLive := by
  induction hd with
  | refl => exact ⟨rfl, rfl, rfl⟩
  | tail _ hd ih =>
    obtain ⟨h1, h2, h3⟩ := hd.ages.env
    exact ⟨h1.trans ih.1, h2.trans ih.2.1, h3.trans ih.2.2⟩

theorem Deeds.dated (hd : Deeds cfg ch s s') (h : s.Dated) : s'.Dated := by
  induction hd with
  | refl => exact h
  | tail _ hd ih => exact hd.ages.dated ih

/-- A sequence of primitives that links an item counts as a use of its slab. -/
theorem Runs.fresh (h : Runs cfg ch s (some p) s') (ha : s.Anchored) (hnow : s.now < 2 ^ 32)
    (hopt : s.Ranks true) :
    p.slab ∈ s'.slabLruq ∧ s.now ≤ (s'.slabs p.slab).utime + 1 := by
  obtain ⟨u, ch', h1, hp, h2⟩ := h
  obtain ⟨hs1, ha1⟩ := h1.shuffles ha hnow
  have hnow1 : u.now < 2 ^ 32 := hs1.now ▸ hnow
  obtain ⟨hs2, ha2, hfresh⟩ := shuffles_itemLink cfg ch ch' ha1 hnow1 hp
  have hmid := hfresh (by rwa [Ranks, h1.env.2.1])
  have hknown := hs2.known _ hp
  obtain ⟨hs3, -⟩ := h2.shuffles ha2 (hs2.now ▸ hnow1)
  refine ⟨hs3.known _ hknown, ?_⟩
  rw [← hs1.now]
  rw [← hs2.now] at hmid ⊢
  exact hs3.fresh _ hknown hmid

end Store

end Twemcache
