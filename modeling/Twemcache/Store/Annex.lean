import Twemcache.Store.Evict
import Twemcache.Store.Rewrite

/-!
# Appending and prepending

`item_annex` puts the value of an item next to the one that is found under its key: in place if the
class has room for both and the alignment leaves it on the right side, and in a new item otherwise.
Both ways give the combined value.  Nothing else changes at other keys than what the allocation of
the new item evicts.

## Main results

* `value_annexItem`, `value_annexFillItem` : the value, in place and in a new item.
* `Guarded.view_itemAnnex` : what `item_annex` does to the visible map.
-/

namespace Twemcache

/-- The value after `item_annex`: what is added goes to the front or to the end. -/
def annexed (prepend : Bool) (old bytes : List UInt8) :
    List UInt8 := if prepend then bytes ++ old else old ++ bytes

namespace Item

variable {cfg : Config} {it : Item} {off n : ℕ} {bytes old : List UInt8} {prepend : Bool}

/-- What is written one after the other is read as one. -/
theorem read_write_write {a b : List UInt8} :
    ((it.write off a).write (off + a.length) b).read off (a.length + b.length) = a ++ b := by
  rw [read_add, read_write_of_disjoint (.inl le_rfl), read_write_self, read_write_self]

end Item

namespace Store

variable {cfg : Config} {ch : Choice} {sc : Scope} {s t u : Store} {p np it oit : ItemPtr}
  {key k : Key} {held : List ItemPtr} {prepend : Bool} {bytes old : List UInt8}

/-! ### The value -/

/-- **Bytes that are put next to a value in place are its beginning or end.** -/
theorem value_annexItem {o : Item} (hralign : o.flags.ralign = prepend)
    (hfit : o.nbyte + bytes.length ≤ cfg.profile o.id) :
    (s.annexItem cfg prepend bytes o).value cfg = annexed prepend (o.value cfg) bytes := by
  have hvalue : (s.annexItem cfg prepend bytes o).value cfg = (o.write (if prepend then
      o.data cfg - bytes.length else o.data cfg + o.nbyte) bytes).read
      (if o.flags.ralign then cfg.profile o.id - (o.nbyte + bytes.length) else o.data cfg)
      (o.nbyte + bytes.length) := by
    simp only [annexItem, Item.value, Item.read, Item.data, Item.write, Item.setCas_flags,
      Item.setCas_id, Item.setCas_key, Item.setCas_nbyte, Item.setCas_mem]
    split_ifs <;> rfl
  rw [hvalue, hralign]
  cases prepend with
  | true =>
    -- the bytes end where the value starts
    have hdata : o.data cfg = cfg.profile o.id - o.nbyte := by rw [Item.data, if_pos hralign]
    have hstart : cfg.profile o.id - (o.nbyte + bytes.length) = o.data cfg - bytes.length := by
      omega
    have hback : o.data cfg - bytes.length + bytes.length = o.data cfg := by omega
    rw [if_pos rfl, if_pos rfl, hstart, Nat.add_comm, Item.read_add, Item.read_write_self, hback,
      Item.read_write_of_disjoint (.inr hback.le)]
    rfl
  | false =>
    rw [if_neg Bool.false_ne_true, if_neg Bool.false_ne_true, Item.read_add, Item.read_write_self,
      Item.read_write_of_disjoint (.inl le_rfl)]
    rfl

/-- **Two values that fill a new item are its value.** -/
theorem value_annexFillItem {n : Item} (hlen : n.nbyte = old.length + bytes.length) :
    (annexFillItem cfg prepend old bytes n).value cfg = annexed prepend old bytes := by
  have hfilled : ∀ (m : Item) {a b : List UInt8}, m.nbyte = a.length + b.length →
      ((m.write (m.data cfg) a).write (m.data cfg + a.length) b).read (m.data cfg) m.nbyte = a ++
          b := by
    intro m a b hm
    rw [hm]
    exact Item.read_write_write
  cases prepend with
  | true =>
    exact hfilled { n with flags := { n.flags with ralign := true } } (hlen.trans (Nat.add_comm ..))
  | false => exact hfilled n hlen

/-! ### Other keys -/

/-- Lookups that find the same item show the same, if the items with the key hold the same. -/
theorem view_eq_of_key (hfind : t.assocFind cfg k = s.assocFind cfg k) (hnow : t.now = s.now)
    (hlive : t.oldestLive = s.oldestLive) (hitems : ∀ q, s.keyOf q = k → t.items q = s.items q) :
    t.view cfg k = s.view cfg k := by
  simp only [view, itemGet, hfind]
  cases hq : s.assocFind cfg k with
  | none => rfl
  | some q =>
    have hitem := hitems q (keyOf_of_find hq)
    have hdead : t.expired q = s.expired q ∧ t.flushed q = s.flushed q := by
      simp only [expired, flushed, hitem, hnow, hlive, and_self]
    simp only [hdead.1, hdead.2]
    split_ifs
    · rfl
    · rfl
    · simp [hitem]

/-- An item that changes and keeps its key is not visible at other keys. -/
theorem view_changed_of_ne {n : Item} (hitems : t.items = Function.update s.items p n)
    (hassoc : t.assoc = s.assoc) (hnow : t.now = s.now) (hlive : t.oldestLive = s.oldestLive)
    (hkey : n.key = (s.items p).key) (hne : k ≠ s.keyOf p) : t.view cfg k = s.view cfg k := by
  have hkeyOf : t.keyOf = s.keyOf := by
    funext q
    by_cases hq : q = p <;> simp [keyOf, hitems, hq, hkey]
  refine view_eq_of_key (by rw [assocFind, assocFind, hassoc, hkeyOf]) hnow hlive fun q hq => ?_
  rw [hitems, Function.update_of_ne]
  rintro rfl
  exact hne hq.symm

/-- Linking an item is not visible at other keys. -/
theorem view_itemLink_of_ne (hne : k ≠ s.keyOf p) :
    (s.itemLink cfg ch p).view cfg k = s.view cfg k := by
  have hkey : (s.itemLink cfg ch p).keyOf = s.keyOf := by
    funext q
    by_cases hq : q = p <;> simp [keyOf, hq, linkItem]
  have hassoc : (s.itemLink cfg ch p).assoc = s.assoc.insert cfg.hash s.keyOf cfg.hashPower
      ch.tableOk p := by
    rw [itemLink_eq, slabLruqTouch_assoc]
    rfl
  refine view_eq_of_key ?_ (congrArg Env.now (itemLink_env p))
    (congrArg Env.oldestLive (itemLink_env p))
    fun q hq => ?_
  · rw [assocFind, assocFind, hkey, hassoc]
    exact Assoc.find_insert_of_ne hne
  · have hqp : q ≠ p := by
      rintro rfl
      exact hne hq.symm
    simp [hqp]

/-- Putting an item in the place of another one with its key is not visible at other keys. -/
theorem view_replaced_of_ne (ch : Choice) (hkey : s.keyOf np = s.keyOf p) (hne : k ≠ s.keyOf p) :
    (((s.itemRelink cfg ch p np).itemRemove p).itemRemove np).view cfg k = s.view cfg k := by
  rw [view_itemRemove, view_itemRemove, itemRelink, view_itemLink_of_ne, view_itemUnlink_of_ne hne]
  rw [keyOf_itemUnlink, hkey]
  exact hne

/-! ### The call -/

/-- The store before and after the `_item_alloc` of `item_annex`, if it calls it. -/
def annexAllocs (cfg : Config) (ch : Choice) (s : Store) (prepend : Bool) (it : ItemPtr) :
    Option (Store × Store) :=
  match s.itemGet cfg (s.keyOf it) with
  | (none, _) => none
  | (some oit, s) =>
    let o := s.items oit
    let total := o.nbyte + (s.items it).nbyte
    let id := itemSlabid cfg o.key.length total
    if id = slabclassInvalidId ∨ (id = o.id ∧ o.flags.ralign = prepend) then none
    else some (s, (s.itemAlloc cfg ch id (s.keyOf it) o.dataflags o.exptime total).2)

theorem visible_eq_none_iff : s.visible cfg k = none ↔ s.view cfg k = none := by
  rw [view, Option.map_eq_none_iff]
  rfl

/-- The key of a visible entry is bound to the two values, and nothing else is changed but what an
allocation unbinds. -/
structure Annexes (cfg : Config) (s s' : Store) (key : Key) (value : List UInt8)
    (e : Entry (List UInt8)) (alloc : Option (Store × Store)) : Prop where
  /-- The key has the value, and the flags and the expiry time it had. -/
  bound : ∃ cas, s'.view cfg key = some ⟨value, e.flags, e.exptime, cas⟩
  /-- Other keys are as they were, unless the allocation has unbound them. -/
  other : ∀ k ≠ key, s'.view cfg k = s.view cfg k ∨
    s'.view cfg k = none ∧ ∃ u ∈ alloc, Lost cfg u.1 u.2 k

/-- In place. -/
theorem annexes_inPlace (hfind : s.assocFind cfg key = some p) (hd : s.dead p = false)
    (hralign : (s.items p).flags.ralign = prepend)
    (hfit : (s.items p).nbyte + bytes.length ≤ cfg.profile (s.items p).id)
    (alloc : Option (Store × Store)) :
    Annexes cfg s ((s.itemAnnexInPlace cfg prepend p bytes).itemRemove p) key
      (annexed prepend ((s.items p).value cfg) bytes) ((s.items p).entry cfg) alloc where
  bound := by
    have hchanged : (s.itemAnnexInPlace cfg prepend p bytes).assocFind cfg key = some p ∧
        (s.itemAnnexInPlace cfg prepend p bytes).dead p = false ∧
        (s.itemAnnexInPlace cfg prepend p bytes).items p = s.annexItem cfg prepend bytes
            (s.items p) := by
      rw [itemAnnexInPlace_eq]
      exact finds_changed hfind hd rfl rfl rfl rfl (by simp [annexItem, Item.write])
        (by simp [annexItem, Item.write]) (by simp [annexItem, Item.write])
    have hfinds : (s.itemAnnexInPlace cfg prepend p bytes).Finds cfg key
        (s.annexItem cfg prepend bytes (s.items p)) :=
          ⟨p, hchanged.1, hchanged.2.1, by rw [hchanged.2.2]; rfl⟩
    obtain ⟨cas, hview⟩ := (hfinds.itemRemove p).view
    have hfields : (s.annexItem cfg prepend bytes (s.items p)).dataflags = (s.items p).dataflags ∧
        (s.annexItem cfg prepend bytes (s.items p)).exptime = (s.items p).exptime := by
      simp [annexItem, Item.write]
    rw [Item.entry, value_annexItem hralign hfit, hfields.1, hfields.2] at hview
    exact ⟨cas, hview⟩
  other k hne := by
    left
    rw [← keyOf_of_find hfind] at hne
    rw [view_itemRemove, itemAnnexInPlace_eq]
    exact view_changed_of_ne rfl rfl rfl rfl (by simp [annexItem, Item.write]) hne

/-- In a new item. -/
theorem Guarded.annexes_fill (h : Guarded cfg sc s held) (hdated : s.Dated) {id : ℕ}
    (hid : cfg.ValidId id) (hfind : s.assocFind cfg key = some p) (hd : s.dead p = false)
    (hp : p ∈ held) (hit : it ∈ held)
    (halloc : s.itemAlloc cfg ch id key (s.items p).dataflags (s.items p).exptime
      ((s.items p).nbyte + (s.items it).nbyte) = (some np, t)) :
    Annexes cfg s
      ((((t.itemAnnexFill cfg prepend np ((t.items p).value cfg)
      ((t.items it).value cfg)).itemRelink cfg
      ch p np).itemRemove p).itemRemove np) key
      (annexed prepend ((s.items p).value cfg) ((s.items it).value cfg)) ((s.items p).entry cfg)
      (some (s, t)) := by
  obtain ⟨u, hh, -, rfl⟩ := alloc_some h.wf h.full hid halloc
  -- the two items are referenced: the allocation leaves them alone
  have hkeep : ∀ q ∈ held, (u.itemAllocDone cfg np key (s.items p).dataflags (s.items p).exptime
      ((s.items p).nbyte + (s.items it).nbyte)).items q = s.items q := by
    intro q hq
    obtain ⟨hne, -, hitem⟩ := hh.keep_held h.toCounts hq
    rw [itemAllocDone_items, Function.update_of_ne hne, hitem]
  have hnew : ∃ n gen, (u.itemAllocDone cfg np key (s.items p).dataflags (s.items p).exptime
      ((s.items p).nbyte + (s.items it).nbyte)).items np = allocItem cfg n key (s.items p).dataflags
        (s.items p).exptime ((s.items p).nbyte + (s.items it).nbyte) gen :=
          (itemAlloc_some halloc).2.2
  have hforget := hh.view_forgets h.wf
    (hh.wf_itemAllocDone key (s.items p).dataflags (s.items p).exptime
      ((s.items p).nbyte + (s.items it).nbyte))
  rw [hkeep p hp, hkeep it hit, itemAnnexFill_eq]
  generalize u.itemAllocDone cfg np key (s.items p).dataflags (s.items p).exptime
    ((s.items p).nbyte + (s.items it).nbyte) = t at halloc hkeep hnew hforget ⊢
  obtain ⟨n, gen, hnew⟩ := hnew
  have hsized :
      Sized (annexFillItem cfg prepend ((s.items p).value cfg) ((s.items it).value cfg)) :=
    sized_annexFillItem ..
  have hkey : (t.items np).key = key := by
    rw [hnew]
    simp [allocItem]
  refine ⟨?_, fun k hne => ?_⟩
  · have hsame :
        (annexFillItem cfg prepend ((s.items p).value cfg) ((s.items it).value cfg)
        (t.items np)).exptime =
        (s.items p).exptime ∧
          (annexFillItem cfg prepend ((s.items p).value cfg) ((s.items it).value cfg)
        (t.items np)).dataflags = (s.items p).dataflags := by
      rw [hnew]
      cases prepend <;> simp [annexFillItem, Item.write, allocItem]
    have hexp : (t.items np).exptime = (s.items p).exptime := by
      rw [hnew]
      simp [allocItem]
    have hlen : (t.items np).nbyte = ((s.items p).value cfg).length +
        ((s.items it).value cfg).length := by
      rw [hnew]
      simp [allocItem, Item.value]
    obtain ⟨cas, hview⟩ :=
      (finds_grown hdated hfind hd halloc (hsized.key _) (hsame.1.trans hexp.symm)).view
    rw [Item.entry, value_annexFillItem hlen, hsame.1, hsame.2] at hview
    exact ⟨cas, hview⟩
  · have hpkey : (t.items p).key = key := by
      rw [hkeep p hp]
      exact keyOf_of_find hfind
    have hnp : np ≠ p := (hh.keep_held h.toCounts hp).1.symm
    have hkeys :
        (t.setItem np
        (annexFillItem cfg prepend ((s.items p).value cfg) ((s.items it).value cfg))).keyOf np =
        key ∧ (t.setItem np
          (annexFillItem cfg prepend ((s.items p).value cfg) ((s.items it).value cfg))).keyOf p =
          key := by
      simp only [keyOf, setItem, Function.update_self, Function.update_of_ne hnp.symm,
        hsized.key, hkey, hpkey, and_self]
    have hset :
        (t.setItem np
        (annexFillItem cfg prepend ((s.items p).value cfg) ((s.items it).value cfg))).view cfg k =
        t.view cfg k :=
          view_changed_of_ne rfl rfl rfl rfl (hsized.key (t.items np)) (by rwa [keyOf, hkey])
    rw [view_replaced_of_ne ch (hkeys.1.trans hkeys.2.symm) (hkeys.2.symm ▸ hne), hset]
    by_cases hsame : t.view cfg k = s.view cfg k
    · exact .inl hsame
    · have hnone := (hforget k).resolve_left hsame
      refine .inr ⟨hnone, _, rfl, ?_, visible_eq_none_iff.2 hnone⟩
      rw [Ne, visible_eq_none_iff]
      exact fun hs => hsame (hnone.trans hs.symm)

/-- A reference leaves what an item holds alone. -/
theorem acquired_fields (cfg : Config) (s : Store) (p q : ItemPtr) :
    ((s.itemAcquireRefcount p).items q).nbyte = (s.items q).nbyte ∧
    ((s.itemAcquireRefcount p).items q).key = (s.items q).key ∧
    ((s.itemAcquireRefcount p).items q).value cfg = (s.items q).value cfg ∧
    ((s.itemAcquireRefcount p).items q).entry cfg = (s.items q).entry cfg := by
  have hsame : ((s.itemAcquireRefcount p).items q).content = (s.items q).content :=
    content_itemAcquireRefcount p q
  exact ⟨congrArg Content.nbyte hsame, congrArg Content.key hsame,
    congrArg Entry.value (Item.entry_congr hsame), Item.entry_congr hsame⟩

/-- **`item_annex` finds no room if and only if no class has room** for the key with the combined
value. -/
theorem itemAnnex_oversized_iff {e : Entry (List UInt8)}
    (hview : s.view cfg (s.keyOf it) = some e) :
    (s.itemAnnex cfg ch prepend it).1 = .oversized ↔ itemSlabid cfg (s.keyOf it).length
      (e.value.length + ((s.items it).value cfg).length) = slabclassInvalidId := by
  obtain ⟨p, hfind, hd, hget, rfl⟩ := find_of_view hview
  have hkey : (s.items p).key = s.keyOf it := keyOf_of_find hfind
  obtain ⟨hnbyte, hkeys, -, -⟩ := acquired_fields cfg s p p
  have hlen : ((s.items p).entry cfg).value.length = (s.items p).nbyte ∧
      ((s.items it).value cfg).length = (s.items it).nbyte :=
        ⟨by simp [Item.entry, Item.value], by simp [Item.value]⟩
  have hnbyte' := (acquired_fields cfg s p it).1
  unfold itemAnnex
  rw [hget]
  dsimp only
  rw [hnbyte, hkeys, hkey, hnbyte', hlen.1, hlen.2]
  split_ifs with hid hplace
  · exact iff_of_true rfl hid
  · exact iff_of_false (by simp) hid
  · refine iff_of_false ?_ hid
    split <;> simp

/-- **What `item_annex` does when it answers that it has put the values together.** -/
theorem Guarded.annexes (h : Guarded cfg sc s held) (hdated : s.Dated) (hit : it ∈ held)
    (hroom : Room (s.itemAnnex cfg ch prepend it).2 held 2) {e : Entry (List UInt8)}
    (hview : s.view cfg (s.keyOf it) = some e) {n : ℕ}
    (hok : (s.itemAnnex cfg ch prepend it).1 = .ok n) :
    n = (annexed prepend e.value ((s.items it).value cfg)).length ∧
      Annexes cfg s (s.itemAnnex cfg ch prepend it).2 (s.keyOf it)
        (annexed prepend e.value ((s.items it).value cfg)) e
        (s.annexAllocs cfg ch prepend it) := by
  obtain ⟨p, hfind, hd, hget, rfl⟩ := find_of_view hview
  obtain ⟨hp, hlo, hkey, hsame, ht, hls, -, hwf, hfull⟩ := h.get_some hget
  obtain ⟨hnbyte, hkeys, hvalue, hentry⟩ := acquired_fields cfg s p p
  obtain ⟨hnbyte', -, hvalue', -⟩ := acquired_fields cfg s p it
  have hfind' : (s.itemAcquireRefcount p).assocFind cfg (s.keyOf it) = some p :=
    (assocFind_itemAcquireRefcount p _).trans hfind
  have hd' : (s.itemAcquireRefcount p).dead p = false := (dead_itemAcquireRefcount p p).trans hd
  have hdated' : (s.itemAcquireRefcount p).Dated := (idles_itemAcquireRefcount p).ages.dated hdated
  have hitkey : (s.itemAcquireRefcount p).keyOf it = s.keyOf it :=
    congrFun (keyOf_itemAcquireRefcount p) it
  have hlen : (annexed prepend ((s.items p).value cfg) ((s.items it).value cfg)).length =
      (s.items p).nbyte + (s.items it).nbyte := by
    cases prepend <;> simp [annexed, Item.value, Nat.add_comm]
  have hview' : ∀ k, (s.itemAcquireRefcount p).view cfg k = s.view cfg k :=
    view_itemAcquireRefcount p
  -- the reference that `item_get` has taken is not seen by the clients
  have hback : ∀ {t : Store} {alloc : Option (Store × Store)},
      Annexes cfg (s.itemAcquireRefcount p) t (s.keyOf it)
      (annexed prepend (((s.itemAcquireRefcount p).items p).value cfg)
        (((s.itemAcquireRefcount p).items it).value cfg))
          (((s.itemAcquireRefcount p).items p).entry cfg) alloc →
      Annexes cfg s t (s.keyOf it)
        (annexed prepend ((s.items p).value cfg) ((s.items it).value cfg))
        ((s.items p).entry cfg) alloc := by
    intro t alloc hann
    rw [hvalue, hvalue', hentry] at hann
    exact ⟨hann.bound, fun k hne => hview' k ▸ hann.other k hne⟩
  change n = (annexed prepend ((s.items p).value cfg) _).length ∧ Annexes cfg s _ _
    (annexed prepend ((s.items p).value cfg) _) _ _
  rw [hlen]
  simp only [itemAnnex, annexAllocs, hget] at hok hroom ⊢
  rw [← hnbyte, ← hnbyte']
  by_cases hid : itemSlabid cfg ((s.itemAcquireRefcount p).items p).key.length
      (((s.itemAcquireRefcount p).items p).nbyte + ((s.itemAcquireRefcount p).items it).nbyte) =
        slabclassInvalidId
  · rw [if_pos hid] at hok
    cases hok
  rw [if_neg hid] at hok hroom ⊢
  by_cases hplace : itemSlabid cfg ((s.itemAcquireRefcount p).items p).key.length
      (((s.itemAcquireRefcount p).items p).nbyte + ((s.itemAcquireRefcount p).items it).nbyte) =
        ((s.itemAcquireRefcount p).items p).id ∧
          ((s.itemAcquireRefcount p).items p).flags.ralign = prepend
  · -- in place
    rw [if_pos hplace] at hok ⊢
    obtain rfl := AnnexResult.ok.inj hok
    have hdata : (((s.itemAcquireRefcount p).items it).value cfg).length =
        ((s.itemAcquireRefcount p).items it).nbyte := by simp [Item.value]
    refine ⟨rfl, hback (annexes_inPlace hfind' hd' hplace.2 (hwf.annex_fits hlo.1 ?_) _)⟩
    rw [hdata]
    exact hplace.1
  rw [if_neg hplace] at hok hroom ⊢
  rw [if_neg (by tauto)]
  -- in a new item
  generalize hal : (s.itemAcquireRefcount p).itemAlloc cfg ch _ _ _ _ _ = r at hok hroom ⊢
  obtain ⟨_ | np, t⟩ := r
  · cases hok
  · obtain rfl := AnnexResult.ok.inj hok
    have hvalid := itemSlabid_valid hid
    obtain ⟨u, hh, hchunk, hu⟩ := alloc_some hwf hfull hvalid hal
    dsimp only at hroom ⊢
    rw [itemAnnexFill_eq, hu] at hroom
    have hg : Guarded cfg sc (s.itemAcquireRefcount p) (p :: held) :=
      (hp (hroom.of_overflow (fun hov =>
      overflow_alloc hh (overflow_replaceItem hov)) (by omega))).guarded h
    rw [hitkey] at hal
    exact ⟨rfl,
      hback (hg.annexes_fill hdated' hvalid hfind' hd' List.mem_cons_self
      (List.mem_cons_of_mem _ hit) hal)⟩

end Store

end Twemcache
