import Twemcache.Store.Fail
import Twemcache.Store.Serve
import Twemcache.Store.Use

/-!
# Values that are rewritten

`item_annex` and `item_delta` change the value of a key, in place or in a new item that takes the
place of the old one.  What a lookup finds under the key afterwards does not depend on anything else
in the store: it is the item that was changed, or the one that was linked last.

## Main results

* `finds_changed` : an item is changed in place.
* `finds_replaced`, `finds_grown` : an item takes the place of another.
-/

namespace Twemcache

theorem Item.read_write_self {it : Item} {off : ℕ} {bytes : List UInt8} :
    (it.write off bytes).read off bytes.length = bytes := by
  refine List.ext_getElem (by simp) fun i hi _ => ?_
  have hlt : i < bytes.length := by simpa using hi
  simp [read, write, hlt]

namespace Store

variable {cfg : Config} {ch : Choice} {s t : Store} {p np : ItemPtr} {key : Key}
  {e : Entry (List UInt8)}

/-- An item with this expiry time that is linked now is seen by lookups. -/
structure Fresh (s : Store) (exptime : ℕ) : Prop where
  /-- It has not expired. -/
  unexpired : exptime = 0 ∨ s.now < exptime
  /-- No flush of this second is in force. -/
  unflushed : s.oldestLive = 0 ∨ s.oldestLive ≠ s.now

/-- A lookup finds an item that holds what `it` does, up to the cas id. -/
def Finds (cfg : Config) (s : Store) (key : Key) (it : Item) : Prop :=
  ∃ p, s.assocFind cfg key = some p ∧ s.dead p = false ∧
    (s.items p).content = { it.content with casField := (s.items p).casField }

/-- What `_item_get` does when it finds an item. -/
theorem itemGet_of_find (hfind : s.assocFind cfg key = some p) (hd : s.dead p = false) :
    s.itemGet cfg key = (some p, s.itemAcquireRefcount p) := by
  obtain ⟨hexp, hfl⟩ := Bool.or_eq_false_iff.1 hd
  simp [itemGet, hfind, hexp, hfl]

theorem view_of_find (hfind : s.assocFind cfg key = some p) (hd : s.dead p = false) :
    s.view cfg key = some ((s.items p).entry cfg) := by
  rw [view, itemGet_of_find hfind hd, Option.map_some]

/-- What is visible under a key was found there. -/
theorem find_of_view (h : s.view cfg key = some e) : ∃ p, s.assocFind cfg key = some p ∧
    s.dead p = false ∧ s.itemGet cfg key = (some p, s.itemAcquireRefcount p) ∧
        (s.items p).entry cfg = e := by
  obtain ⟨p, hget, hentry⟩ := Option.map_eq_some_iff.1 h
  have hcases : s.assocFind cfg key = some p ∧ s.dead p = false := by
    unfold itemGet at hget
    split at hget
    · cases hget
    · rename_i q hq
      split_ifs at hget with h1 h2
      · obtain rfl := Option.some.inj hget
        exact ⟨hq, by simp [dead, h1, h2]⟩
  exact ⟨p, hcases.1, hcases.2, itemGet_of_find hcases.1 hcases.2, hentry⟩

theorem keyOf_of_find (hfind : s.assocFind cfg key = some p) : s.keyOf p = key := by
  simpa using List.find?_some hfind

/-- If a key is visible, so is an item with its expiry time that is linked now. -/
theorem Dated.fresh (h : s.Dated) (hfind : s.assocFind cfg key = some p) (hd : s.dead p = false) :
    s.Fresh (s.items p).exptime := by
  obtain ⟨hexp, hfl⟩ := Bool.or_eq_false_iff.1 hd
  have htime : (s.items p).atime ≤ s.now := h p (Assoc.Has.of_find hfind)
  simp only [expired, flushed, decide_eq_false_iff_not] at hexp hfl
  exact ⟨by omega, by omega⟩

/-- What a lookup finds is visible. -/
theorem Finds.view {it : Item} (h : s.Finds cfg key it) :
    ∃ cas, s.view cfg key = some { it.entry cfg with cas := cas } := by
  obtain ⟨p, hfind, hd, hsame⟩ := h
  refine ⟨(s.items p).getCas, ?_⟩
  rw [view_of_find hfind hd]
  simp only [Item.content, Content.mk.injEq] at hsame
  obtain ⟨h1, h2, h3, h4, h5, h6, h7, -, h9, -⟩ := hsame
  simp only [Item.entry, Item.value, Item.read, Item.data, h1, h2, h3, h4, h5, h6, h7, h9]

/-- **An item that is changed in place is what is found under its key.** -/
theorem finds_changed {it : Item} (hfind : s.assocFind cfg key = some p) (hd : s.dead p = false)
    (hitems : t.items = Function.update s.items p it) (hassoc : t.assoc = s.assoc)
    (hnow : t.now = s.now) (hlive : t.oldestLive = s.oldestLive) (hkey : it.key = (s.items p).key)
    (hexp : it.exptime = (s.items p).exptime) (htime : it.atime = (s.items p).atime) :
    t.assocFind cfg key = some p ∧ t.dead p = false ∧ t.items p = it := by
  have hself : t.items p = it := by rw [hitems, Function.update_self]
  have hkeyOf : t.keyOf = s.keyOf := by
    funext q
    by_cases hq : q = p <;> simp [keyOf, hitems, hq, hkey]
  refine ⟨?_, ?_, hself⟩
  · rw [assocFind, hassoc, hkeyOf]
    exact hfind
  · rw [← hd]
    exact dead_congr hnow hlive (by rw [hself, hexp]) (.inl (by rw [hself, htime]))

/-- Giving a reference back leaves what is found alone. -/
theorem Finds.itemRemove {it : Item} (h : s.Finds cfg key it) (q : ItemPtr) :
    (s.itemRemove q).Finds cfg key it := by
  obtain ⟨p, hfind, hd, hsame⟩ := h
  have hcontent : ((s.itemRemove q).items p).content = (s.items p).content := itemRemove_content q p
  refine ⟨p, (assocFind_itemRemove q key).trans hfind, ?_, ?_⟩
  · rw [← hd]
    exact dead_congr (congrArg Env.now (itemRemove_env q))
      (congrArg Env.oldestLive (itemRemove_env q))
      (congrArg Content.exptime hcontent) (.inl (itemRemove_atime q p))
  · have hcas : ((s.itemRemove q).items p).casField = (s.items p).casField :=
      congrArg Content.casField hcontent
    rw [hcontent, hcas, hsame]

/-- An item that was just linked is the one that is found. -/
theorem assocFind_itemLink (p : ItemPtr) :
    (s.itemLink cfg ch p).assocFind cfg (s.keyOf p) = some p := by
  have hkey : (s.itemLink cfg ch p).keyOf = s.keyOf := by
    funext q
    by_cases hq : q = p <;> simp [keyOf, hq, linkItem]
  have hassoc : (s.itemLink cfg ch p).assoc = s.assoc.insert cfg.hash s.keyOf cfg.hashPower
      ch.tableOk p := by
    rw [itemLink_eq, slabLruqTouch_assoc]
    rfl
  rw [assocFind, hkey, hassoc]
  exact Assoc.find_insert_self ..

/-- An item that is linked is found. -/
theorem finds_itemLink (hfresh : s.Fresh (s.items p).exptime) :
    (s.itemLink cfg ch p).Finds cfg (s.keyOf p) (s.items p) := by
  have hself : (s.itemLink cfg ch p).items p = s.linkItem cfg p := by simp
  refine ⟨p, assocFind_itemLink p, ?_, ?_⟩
  · have hnow : (s.itemLink cfg ch p).now = s.now := congrArg Env.now (itemLink_env p)
    have hlive : (s.itemLink cfg ch p).oldestLive = s.oldestLive :=
      congrArg Env.oldestLive (itemLink_env p)
    have hexp : (s.linkItem cfg p).exptime = (s.items p).exptime := by simp [linkItem]
    have htime : (s.linkItem cfg p).atime = s.now := by simp [linkItem]
    obtain ⟨h1, h2⟩ := hfresh
    simp only [dead, expired, flushed, hself, hnow, hlive, hexp, htime, Bool.or_eq_false_iff,
      decide_eq_false_iff_not]
    exact ⟨by omega, by omega⟩
  · rw [hself]
    simp [Item.content, linkItem]

theorem Finds.congr {it it' : Item} (h : s.Finds cfg key it) (hsame : it'.content = it.content) :
    s.Finds cfg key it' := by
  obtain ⟨p, hfind, hd, heq⟩ := h
  exact ⟨p, hfind, hd, hsame ▸ heq⟩

/-- **An item that takes the place of another is what is found under its key.** -/
theorem finds_replaced (cfg : Config) (ch : Choice) (p : ItemPtr)
    (hfresh : s.Fresh (s.items np).exptime) :
    (((s.itemRelink cfg ch p np).itemRemove p).itemRemove np).Finds cfg (s.keyOf np)
        (s.items np) := by
  have henv : (s.itemUnlink cfg p).env = s.env := itemUnlink_env p
  have hcontent : ((s.itemUnlink cfg p).items np).content = (s.items np).content :=
    itemUnlink_content p np
  have hfresh' : (s.itemUnlink cfg p).Fresh ((s.itemUnlink cfg p).items np).exptime := by
    have hnow : (s.itemUnlink cfg p).now = s.now := congrArg Env.now henv
    have hlive : (s.itemUnlink cfg p).oldestLive = s.oldestLive := congrArg Env.oldestLive henv
    have hexp : ((s.itemUnlink cfg p).items np).exptime = (s.items np).exptime :=
      congrArg Content.exptime hcontent
    constructor
    · rw [hexp, hnow]
      exact hfresh.unexpired
    · rw [hlive, hnow]
      exact hfresh.unflushed
  have hlink : ((s.itemUnlink cfg p).itemLink cfg ch np).Finds cfg ((s.itemUnlink cfg p).keyOf np)
      ((s.itemUnlink cfg p).items np) := finds_itemLink hfresh'
  rw [keyOf_itemUnlink] at hlink
  exact ((hlink.congr hcontent.symm).itemRemove p).itemRemove np

/-- What an allocation returns. -/
theorem itemAlloc_some {id dataflags exptime nbyte : ℕ}
    (halloc : s.itemAlloc cfg ch id key dataflags exptime nbyte = (some np, t)) :
    t.now = s.now ∧ t.oldestLive = s.oldestLive ∧
      ∃ it gen, t.items np = allocItem cfg it key dataflags exptime nbyte gen := by
  unfold itemAlloc at halloc
  generalize hchunk : s.itemAllocChunk cfg ch id = c at halloc
  obtain ⟨_ | q, u⟩ := c
  · cases halloc
  · obtain ⟨hq, rfl⟩ := Prod.mk.inj halloc
    obtain rfl := Option.some.inj hq
    have hdone : Idles u (u.itemAllocDone cfg q key dataflags exptime nbyte) :=
      idles_itemAllocDone q key dataflags exptime nbyte
    have henv := ((itemAllocChunk_found hchunk).idles.trans hdone).env
    exact ⟨henv.1, henv.2.2, u.items q, u.nalloc, by simp⟩

/-- **A new item with the key and the expiry time of a visible one, filled and put in its place, is
what is found.** -/
theorem finds_grown {id dataflags nbyte : ℕ} {f : Item → Item} (hdated : s.Dated)
    (hfind : s.assocFind cfg key = some p) (hd : s.dead p = false)
    (halloc : s.itemAlloc cfg ch id key dataflags (s.items p).exptime nbyte = (some np, t))
    (hkey : (f (t.items np)).key = (t.items np).key)
    (hexp : (f (t.items np)).exptime = (t.items np).exptime) :
    ((((t.setItem np f).itemRelink cfg ch p np).itemRemove p).itemRemove np).Finds cfg key
        (f (t.items np)) := by
  obtain ⟨hnow, hlive, it, gen, hnp⟩ := itemAlloc_some halloc
  have hself : (t.setItem np f).items np = f (t.items np) := by simp [setItem]
  have hnpkey : (t.setItem np f).keyOf np = key := by
    rw [keyOf, hself, hkey, hnp]
    simp [allocItem]
  have hfresh : (t.setItem np f).Fresh ((t.setItem np f).items np).exptime := by
    have hnpexp : (t.items np).exptime = (s.items p).exptime := by
      rw [hnp]
      simp [allocItem]
    have henv : (t.setItem np f).now = s.now ∧ (t.setItem np f).oldestLive = s.oldestLive :=
      ⟨hnow, hlive⟩
    obtain ⟨h1, h2⟩ := hdated.fresh hfind hd
    rw [hself, hexp, hnpexp]
    exact ⟨by rw [henv.1]; exact h1, by rw [henv.1, henv.2]; exact h2⟩
  have hfinds := finds_replaced cfg ch p hfresh
  rw [hnpkey, hself] at hfinds
  exact hfinds

/-- What `item_annex` does when it puts the combined value into a new item. -/
theorem itemAnnex_of_alloc {prepend : Bool} {it oit : ItemPtr} {id : ℕ} {u : Store}
    (hget : s.itemGet cfg (s.keyOf it) = (some oit, u))
    (hid : itemSlabid cfg (u.items oit).key.length ((u.items oit).nbyte + (u.items it).nbyte) = id)
    (hvalid : id ≠ slabclassInvalidId)
    (hplace : ¬ (id = (u.items oit).id ∧ (u.items oit).flags.ralign = prepend))
    (halloc : u.itemAlloc cfg ch id (u.keyOf it) (u.items oit).dataflags (u.items oit).exptime
      ((u.items oit).nbyte + (u.items it).nbyte) = (some np, t)) :
    s.itemAnnex cfg ch prepend it = (.ok ((u.items oit).nbyte + (u.items it).nbyte),
      ((((t.itemAnnexFill cfg prepend np ((t.items oit).value cfg)
        ((t.items it).value cfg)).itemRelink cfg ch oit
        np).itemRemove oit).itemRemove np)) := by
  unfold itemAnnex
  rw [hget]
  dsimp only
  rw [hid, if_neg hvalid, if_neg hplace, halloc]

/-! ### References -/

theorem keyOf_itemAcquireRefcount (p : ItemPtr) : (s.itemAcquireRefcount p).keyOf = s.keyOf := by
  funext q
  by_cases hq : q = p <;> simp [keyOf, hq]

theorem assocFind_itemAcquireRefcount (p : ItemPtr) (key : Key) :
    (s.itemAcquireRefcount p).assocFind cfg key = s.assocFind cfg key := by
  rw [assocFind, keyOf_itemAcquireRefcount]
  rfl

theorem dead_itemAcquireRefcount (p q : ItemPtr) : (s.itemAcquireRefcount p).dead q = s.dead q := by
  have hsame : ((s.itemAcquireRefcount p).items q).exptime = (s.items q).exptime ∧
      ((s.itemAcquireRefcount p).items q).atime = (s.items q).atime := by
    by_cases hq : q = p <;> simp [hq]
  exact dead_congr rfl rfl hsame.1 (.inl hsame.2)

theorem content_itemAcquireRefcount (p q : ItemPtr) :
    ((s.itemAcquireRefcount p).items q).content = (s.items q).content := by
  by_cases hq : q = p <;> simp [hq, Item.content]

end Store

end Twemcache
