import Twemcache.Store.Change
import Twemcache.Cache.Basic

/-!
# The visible map of a store

`view` sends each key to what `_item_get` would return for it.  The lemmas here say what the
primitives and the functions of the item module do to it, in the terms of the abstract cache, as
long as no flush is in force (`oldest_live` is zero).
-/

namespace Twemcache

/-- What an item binds its key to. -/
def Item.entry (cfg : Config) (it : Item) : Entry (List UInt8) :=
  ⟨it.value cfg, it.dataflags, it.exptime, it.getCas⟩

theorem Item.entry_congr {cfg : Config} {it it' : Item} (h : it'.content = it.content) :
    it'.entry cfg = it.entry cfg := by
  simp only [Item.content, Content.mk.injEq] at h
  obtain ⟨h1, h2, h3, h4, h5, h6, h7, h8, h9, -⟩ := h
  simp only [Item.entry, Item.value, Item.read, Item.data, Item.getCas, h1, h2, h3, h4, h5, h6, h7,
    h8, h9]

/-- The answer that a result of `item_cas` stands for. -/
def CasResult.reply : CasResult → Cache.Reply (List UInt8)
  | .ok => .stored
  | .exists => .exists
  | .notFound => .notFound

/-- The answer that a result of `item_add` stands for. -/
def AddResult.reply : AddResult → Cache.Reply (List UInt8)
  | .ok => .stored
  | .exists => .exists

/-- The answer that a result of `item_replace` stands for. -/
def ReplaceResult.reply : ReplaceResult → Cache.Reply (List UInt8)
  | .ok => .stored
  | .notFound => .notFound

/-- The answer that a result of `item_delete` stands for. -/
def DeleteResult.reply : DeleteResult → Cache.Reply (List UInt8)
  | .ok => .deleted
  | .notFound => .notFound

namespace Store

variable (cfg : Config)

/-- The visible map. -/
def view (s : Store) : Cache Key (List UInt8) := fun key =>
  (s.itemGet cfg key).1.map fun p => (s.items p).entry cfg

/-- `p` is what `_item_get` finds under `key`. -/
structure Shows (s : Store) (key : Key) (p : ItemPtr) : Prop where
  /-- The item is linked. -/
  linked : s.Linked cfg p
  /-- It has the key. -/
  key : (s.items p).key = key
  /-- It has neither expired nor been flushed. -/
  live : s.dead p = false

variable {cfg} {sc : Scope} {ch : Choice} {s s' t : Store}
  {p q it oit : ItemPtr} {held : List ItemPtr} {key : Key} {e : Entry (List UInt8)}
  {dataflags exptime nbyte : ℕ}

theorem Wf.itemGet_eq_some_iff (h : s.Wf cfg) :
    (s.itemGet cfg key).1 = some p ↔ s.Shows cfg key p := by
  constructor
  · intro hget
    rcases h.itemGet_cases key with ⟨-, heq⟩ | ⟨q, hq, hkey, ⟨-, heq⟩ | ⟨hlive, heq⟩⟩
    · simp [heq] at hget
    · simp [heq] at hget
    · rw [heq] at hget
      obtain rfl := Option.some.inj hget
      exact ⟨hq, hkey, hlive⟩
  · rintro ⟨hl, hkey, hlive⟩
    rcases h.itemGet_cases key with ⟨hno, -⟩ | ⟨q, hq, hkey', ⟨hdead, -⟩ | ⟨-, heq⟩⟩
    · exact absurd hkey (hno p hl)
    · rw [← h.eq_of_key hl hq (hkey.trans hkey'.symm), hlive] at hdead
      cases hdead
    · rw [heq, h.eq_of_key hl hq (hkey.trans hkey'.symm)]

theorem Wf.view_eq_some_iff (h : s.Wf cfg) :
    s.view cfg key = some e ↔ ∃ p, s.Shows cfg key p ∧ (s.items p).entry cfg = e := by
  simp only [view, Option.map_eq_some_iff, h.itemGet_eq_some_iff]

theorem Wf.view_eq_none_iff (h : s.Wf cfg) :
    s.view cfg key = none ↔ ∀ p, ¬ s.Shows cfg key p := by
  rw [view, Option.map_eq_none_iff, Option.eq_none_iff_forall_ne_some]
  exact forall_congr' fun p => not_congr h.itemGet_eq_some_iff

/-- The same items are shown, and they hold the same. -/
theorem view_congr (h : s.Wf cfg) (h' : s'.Wf cfg)
    (hshow : ∀ p, s'.Shows cfg key p ↔ s.Shows cfg key p)
    (hitem : ∀ p, s.Shows cfg key p → (s'.items p).content = (s.items p).content) :
    s'.view cfg key = s.view cfg key := by
  refine Option.ext fun e => ?_
  rw [h'.view_eq_some_iff, h.view_eq_some_iff]
  refine exists_congr fun p => ?_
  rw [hshow]
  exact and_congr_right fun hp => by rw [Item.entry_congr (hitem p hp)]

theorem dead_congr (hnow : s'.now = s.now) (hlive : s'.oldestLive = s.oldestLive)
    (hexp : (s'.items p).exptime = (s.items p).exptime)
    (htime : (s'.items p).atime = (s.items p).atime ∨ s.oldestLive = 0) :
    s'.dead p = s.dead p := by
  rcases htime with htime | hzero
  · simp only [dead, expired, flushed, hnow, hlive, hexp, htime]
  · simp [dead, expired, flushed, hnow, hlive, hexp, hzero]

/-- Without a flush only expired items are dead. -/
theorem dead_eq_of_unflushed (cfg : Config) (h0 : s.oldestLive = 0) (p : ItemPtr) :
    s.dead p = decide (((s.items p).entry cfg).Expired s.now) := by
  have hfl : s.flushed p = false := by simp [flushed, h0]
  rw [dead, hfl, Bool.or_false]
  rfl

/-! ### The primitives -/

/-- A change that links and unlinks nothing and leaves what linked items hold alone is not
visible. -/
theorem view_quiet (h : s.Wf cfg) (h' : s'.Wf cfg) (hnow : s'.now = s.now)
    (hlive : s'.oldestLive = s.oldestLive) (hlinked : ∀ q, s'.Linked cfg q ↔ s.Linked cfg q)
    (hcontent : ∀ q, s.Linked cfg q → (s'.items q).content = (s.items q).content)
    (htime : ∀ q, s.Linked cfg q → (s'.items q).atime = (s.items q).atime ∨ s.oldestLive = 0) :
    s'.view cfg = s.view cfg := by
  funext key
  refine view_congr h h' (fun p => ?_) fun p hp => hcontent p hp.linked
  by_cases hl : s.Linked cfg p
  · have hcont := hcontent p hl
    have hdead := dead_congr hnow hlive (congrArg Content.exptime hcont) (htime p hl)
    have hkey : (s'.items p).key = (s.items p).key := congrArg Content.key hcont
    exact ⟨fun hp => ⟨hl, hkey ▸ hp.key, hdead ▸ hp.live⟩,
      fun hp => ⟨(hlinked p).2 hl, hkey.symm ▸ hp.key, hdead.symm ▸ hp.live⟩⟩
  · exact ⟨fun hp => absurd ((hlinked p).1 hp.linked) hl, fun hp => absurd hp.linked hl⟩

theorem view_acquire (h : s.Wf cfg) (h' : (s.itemAcquireRefcount p).Wf cfg) :
    (s.itemAcquireRefcount p).view cfg = s.view cfg := by
  refine view_quiet h h' rfl rfl (fun q => (keeps_itemAcquireRefcount p).linked ?_) (fun q _ => ?_)
    fun q _ => .inl ?_
  · by_cases hqp : q = p <;> simp [hqp]
  · by_cases hqp : q = p <;> simp [hqp, Item.content]
  · by_cases hqp : q = p <;> simp [hqp]

theorem view_remove (h : s.Wf cfg) (h' : (s.itemRemove p).Wf cfg) :
    (s.itemRemove p).view cfg = s.view cfg :=
  view_quiet h h' (congrArg Env.now (itemRemove_env p)) (congrArg Env.oldestLive (itemRemove_env p))
    (fun _ => (keeps_itemRemove p).linked (itemRemove_linked p)) (fun q _ => itemRemove_content p q)
    fun q _ => .inl (itemRemove_atime p q)

/-- Without a flush, touching an item is not visible. -/
theorem view_touch (h : s.Wf cfg) (h' : (s.itemTouch cfg p).Wf cfg) (hp : p.slab ∈ s.slabLruq)
    (h0 : s.oldestLive = 0) : (s.itemTouch cfg p).view cfg = s.view cfg := by
  rcases itemTouch_eq (s := s) cfg p with heq | ⟨-, -, heq⟩
  · rw [heq]
  · have hk : Keeps s (s.touchBare p) :=
      ⟨fun _ => rfl, rfl, fun _ => Iff.rfl, fun _ => rfl, fun _ => rfl⟩
    have henv := slabLruqTouch_env (s := s.touchBare p) p.slab false
    rw [heq] at h' ⊢
    refine view_quiet h h' (congrArg Env.now henv) (congrArg Env.oldestLive henv) (fun q =>
      (hk.trans (keeps_slabLruqTouch ((hk.slabLruq _).2 hp) false)).linked ?_) (fun q _ => ?_)
      fun _ _ => .inr h0
    · by_cases hqp : q = p <;> simp [hqp, touchBare]
    · by_cases hqp : q = p <;> simp [hqp, touchBare, Item.content]

/-- Unlinking an item unbinds its key. -/
theorem view_unlink (h : s.Wf cfg) (h' : (s.itemUnlink cfg p).Wf cfg) (hp : s.Linked cfg p) :
    (s.itemUnlink cfg p).view cfg = Function.update (s.view cfg) (s.items p).key none := by
  have hshow : ∀ key q, (s.itemUnlink cfg p).Shows cfg key q ↔ s.Shows cfg key q ∧ q ≠ p := by
    intro key q
    have hkey : ((s.itemUnlink cfg p).items q).key = (s.items q).key :=
      congrArg Content.key (itemUnlink_content p q)
    have hdead : (s.itemUnlink cfg p).dead q = s.dead q :=
      dead_congr (congrArg Env.now (itemUnlink_env p)) (congrArg Env.oldestLive (itemUnlink_env p))
        (congrArg Content.exptime (itemUnlink_content p q)) (.inl (itemUnlink_atime p q))
    constructor
    · rintro ⟨h1, h2, h3⟩
      exact ⟨⟨(linked_itemUnlink.1 h1).1, hkey ▸ h2, hdead ▸ h3⟩, (linked_itemUnlink.1 h1).2⟩
    · rintro ⟨⟨h1, h2, h3⟩, hne⟩
      exact ⟨linked_itemUnlink.2 ⟨h1, hne⟩, hkey.symm ▸ h2, hdead.symm ▸ h3⟩
  funext key
  by_cases hk : key = (s.items p).key
  · subst hk
    rw [Function.update_self, h'.view_eq_none_iff]
    intro q hq
    obtain ⟨hq, hne⟩ := (hshow _ q).1 hq
    exact hne (h.eq_of_key hq.linked hp hq.key)
  · rw [Function.update_of_ne hk]
    refine view_congr h h' (fun q => ?_) fun q _ => itemUnlink_content p q
    rw [hshow]
    exact and_iff_left_of_imp fun hq hqp => hk (hqp ▸ hq.key.symm)

theorem entry_linkItem (hflag : (s.items p).flags.cas = true) :
    (s.linkItem cfg p).entry cfg =
      { (s.items p).entry cfg with cas := (s.itemNextCas cfg).1 } := by
  have hcas : (s.linkItem cfg p).casField = (s.itemNextCas cfg).1 := casField_linkItem hflag
  have hfl : (s.linkItem cfg p).flags.cas = true := (flags_cas_linkItem p).trans hflag
  simp only [Item.entry, Item.getCas, hcas, hfl, if_true]
  simp [linkItem, Item.value, Item.read, Item.data]

/-- Linking an item binds its key. -/
theorem view_link (h : s.Wf cfg) (h' : (s.itemLink cfg ch p).Wf cfg) (hp : s.Active cfg p)
    (hkey : ∀ q, s.Linked cfg q → (s.items q).key ≠ (s.items p).key)
    (hflag : (s.items p).flags.cas = true) (h0 : s.oldestLive = 0) :
    (s.itemLink cfg ch p).view cfg = (s.view cfg).bind s.now (s.itemNextCas cfg).1 (s.items p).key
      ((s.items p).entry cfg) := by
  have henv : (s.itemLink cfg ch p).env = _ := itemLink_env p
  have h0' : (s.itemLink cfg ch p).oldestLive = 0 := (congrArg Env.oldestLive henv).trans h0
  have hnow : (s.itemLink cfg ch p).now = s.now := congrArg Env.now henv
  have hself : (s.itemLink cfg ch p).items p = s.linkItem cfg p := by simp
  funext key
  by_cases hk : key = (s.items p).key
  · subst hk
    have hdead := dead_eq_of_unflushed cfg h0' p
    rw [hself, entry_linkItem hflag, hnow] at hdead
    have hlp : (s.itemLink cfg ch p).Linked cfg p := (linked_itemLink hp).2 (.inr rfl)
    have hkp : ((s.itemLink cfg ch p).items p).key = (s.items p).key := by
      rw [hself]
      simp [linkItem]
    rw [Cache.bind, Function.update_self]
    split_ifs with hexp
    · -- the item may have expired before it is linked
      rw [h'.view_eq_none_iff]
      rintro q ⟨hlq, hkq, hlive⟩
      obtain rfl := h'.eq_of_key hlq hlp (hkq.trans hkp.symm)
      rw [hdead, decide_eq_false_iff_not] at hlive
      exact hlive hexp
    · rw [h'.view_eq_some_iff]
      refine ⟨p, ⟨hlp, hkp, ?_⟩, ?_⟩
      · rw [hdead, decide_eq_false_iff_not]
        exact hexp
      · rw [hself, entry_linkItem hflag]
  · -- no other key is bound to the item, before or after
    rw [Cache.bind, Function.update_of_ne hk]
    have hother : ∀ q, q ≠ p → (s.itemLink cfg ch p).items q = s.items q := fun q hq => by
      simp [hq]
    refine view_congr h h' (fun q => ?_) fun q hq => ?_
    · by_cases hqp : q = p
      · subst hqp
        constructor
        · rintro ⟨-, hkq, -⟩
          rw [hself] at hkq
          exact absurd (hkq.symm.trans (by simp [linkItem])) hk
        · rintro ⟨-, hkq, -⟩
          exact absurd hkq.symm hk
      · have hl : (s.itemLink cfg ch p).Linked cfg q ↔ s.Linked cfg q := by
          rw [linked_itemLink hp, or_iff_left hqp]
        have hdead : (s.itemLink cfg ch p).dead q = s.dead q :=
          dead_congr hnow (congrArg Env.oldestLive henv) (by rw [hother q hqp])
            (.inl (by rw [hother q hqp]))
        constructor
        · rintro ⟨h1, h2, h3⟩
          exact ⟨hl.1 h1, by rwa [hother q hqp] at h2, hdead ▸ h3⟩
        · rintro ⟨h1, h2, h3⟩
          exact ⟨hl.2 h1, by rwa [hother q hqp], hdead.symm ▸ h3⟩
    · have hqp : q ≠ p := fun hqp => hk (hqp ▸ hq.key.symm)
      rw [hother q hqp]

/-- Making room only unbinds keys. -/
theorem Hands.view_forgets {id : ℕ} (hh : Hands cfg id s p t) (h : s.Wf cfg)
    (h' : (t.itemAllocDone cfg p key dataflags exptime nbyte).Wf cfg) :
    (s.view cfg).Forgets ((t.itemAllocDone cfg p key dataflags exptime nbyte).view cfg) := by
  have hk := keeps_itemAllocDone (s := t) cfg p key dataflags exptime nbyte
  have hlater := (Later.of_env hh.env).trans
    (later_itemAllocDone cfg p key dataflags exptime nbyte)
  intro k
  cases hview : (t.itemAllocDone cfg p key dataflags exptime nbyte).view cfg k with
  | none => exact .inr rfl
  | some e =>
    refine .inl (Eq.symm ?_)
    obtain ⟨q, ⟨hlq, hkq, hlive⟩, hentry⟩ := h'.view_eq_some_iff.1 hview
    have hne : q ≠ p := by
      rintro rfl
      simpa [allocItem] using hlq.2
    have hitem : (t.itemAllocDone cfg p key dataflags exptime nbyte).items q = t.items q := by
      simp [hne]
    obtain ⟨hl, heq⟩ := hh.linked_of ((hk.linked (by rw [hitem])).1 hlq)
    rw [hitem, heq] at hkq hentry
    refine h.view_eq_some_iff.2 ⟨q, ⟨hl, hkq, ?_⟩, hentry⟩
    rw [← hlive]
    exact (dead_congr hlater.now hlater.oldestLive (by rw [hitem, heq])
      (.inl (by rw [hitem, heq]))).symm

/-! ### The functions -/

theorem itemNextCas_congr (h : s'.casIssued = s.casIssued) :
    (s'.itemNextCas cfg).1 = (s.itemNextCas cfg).1 := by
  simp only [itemNextCas, h]
  split_ifs <;> rfl

/-- A lookup that fails is not visible. -/
theorem Guarded.view_get_none (h : Guarded cfg sc s held)
    (heq : s.itemGet cfg key = (none, t)) : t.view cfg = s.view cfg ∧ s.view cfg key = none := by
  have hnone : s.view cfg key = none := by rw [view, heq, Option.map_none]
  refine ⟨?_, hnone⟩
  rcases h.wf.itemGet_cases key with ⟨-, heq'⟩ | ⟨p, hp, hkey, ⟨-, heq'⟩ | ⟨-, heq'⟩⟩
  · rw [(Prod.mk.inj (heq.symm.trans heq')).2]
  · rw [(Prod.mk.inj (heq.symm.trans heq')).2, view_unlink h.wf (h.toInv.unlink hp).wf hp, hkey,
      ← hnone, Function.update_eq_self]
  · cases (Prod.mk.inj (heq.symm.trans heq')).1

/-- A lookup that succeeds is not visible. -/
theorem Guarded.view_get_some (h : Guarded cfg sc s held)
    (heq : s.itemGet cfg key = (some p, t)) :
    t.view cfg = s.view cfg ∧ s.view cfg key = some ((s.items p).entry cfg) := by
  obtain ⟨-, -, -, -, rfl, -, -, hwf, -⟩ := h.get_some heq
  exact ⟨view_acquire h.wf hwf, by rw [view, heq, Option.map_some]⟩

/-- A lookup that succeeds and the release of what was found are not visible. -/
theorem Guarded.view_get_remove (h : Guarded cfg sc s held)
    (heq : s.itemGet cfg key = (some p, t)) (hroom : Room (t.itemRemove p) held 1) :
    (t.itemRemove p).view cfg = s.view cfg := by
  have hwf := (h.get_some heq).2.2.2.2.2.2.2.1
  have hwf' : (t.itemRemove p).Wf cfg := ((h.path_get_remove heq hroom).guarded h).wf
  rw [view_remove hwf hwf', (h.view_get_some heq).1]

/-- A lookup that fails and a link bind the key. -/
theorem Guarded.view_get_link (h : Guarded cfg sc s held) (hit : it ∈ held) (hip : ¬ sc.priv it)
    (hlink : sc.link it) (hl : (s.items it).flags.linked = false)
    (hflag : (s.items it).flags.cas = true) (h0 : s.oldestLive = 0)
    (heq : s.itemGet cfg (s.keyOf it) = (none, t)) :
    (t.itemLink cfg ch it).view cfg = (s.view cfg).bind s.now (s.itemNextCas cfg).1 (s.keyOf it)
      ((s.items it).entry cfg) := by
  obtain ⟨hp, hno, hsame, henv⟩ := h.get_none heq
  have hg : Guarded cfg sc t held := hp.guarded h
  have hwf' : (t.itemLink cfg ch it).Wf cfg :=
    ((h.path_get_link ch hit hip hlink hl heq).guarded h).wf
  have hlink := view_link hg.wf hwf' (hg.active it hit)
    (by rw [hsame it hl]; exact hno) (by rw [hsame it hl]; exact hflag)
    ((congrArg Env.oldestLive henv).trans h0)
  rw [hlink, hsame it hl, itemNextCas_congr (congrArg Env.casIssued henv), (h.view_get_none heq).1,
    show t.now = s.now from congrArg Env.now henv]
  rfl

/-- A relink and the release of the old item bind the key. -/
theorem Inv.view_relink (h : Inv cfg s held) (ch : Choice) {nit : ItemPtr} (ho : oit ∈ held)
    (hlo : s.Linked cfg oit) (hn : nit ∈ held) (hln : (s.items nit).flags.linked = false)
    (hkey : (s.items nit).key = (s.items oit).key) (hflag : (s.items nit).flags.cas = true)
    (h0 : s.oldestLive = 0) :
    ((s.itemRelink cfg ch oit nit).itemRemove oit).view cfg = (s.view cfg).bind s.now
      (s.itemNextCas cfg).1 (s.items nit).key ((s.items nit).entry cfg) := by
  have hne : nit ≠ oit := fun heq => by simp [heq, hlo.2] at hln
  have hnit : (s.itemUnlink cfg oit).items nit = s.items nit := itemUnlink_items_of_ne hne
  have henv : (s.itemUnlink cfg oit).env = s.env := itemUnlink_env oit
  have h1 := h.unlink hlo
  have hkeys : ∀ q, (s.itemUnlink cfg oit).Linked cfg q →
      ((s.itemUnlink cfg oit).items q).key ≠ ((s.itemUnlink cfg oit).items nit).key := by
    intro q hq heq
    obtain ⟨hlq, hqo⟩ := linked_itemUnlink.1 hq
    rw [hnit, itemUnlink_items_of_ne hqo, hkey] at heq
    exact hqo (h.wf.eq_of_key hlq hlo heq)
  have h2 := h1.link ch hn (by rw [hnit, hln]) hkeys
  have hlink := view_link h1.wf h2.wf (h1.active nit hn) hkeys (by rw [hnit, hflag])
    ((congrArg Env.oldestLive henv).trans h0)
  rw [itemRelink, view_remove h2.wf (h2.remove ho).wf, hlink, view_unlink h.wf h1.wf hlo, hnit,
    itemNextCas_congr (congrArg Env.casIssued henv), show (s.itemUnlink cfg oit).now =
      s.now from congrArg Env.now henv,
    ← hkey, Cache.bind, Function.update_idem]
  rfl

/-- A lookup that succeeds and a relink bind the key. -/
theorem Guarded.view_get_relink (h : Guarded cfg sc s held) (hit : it ∈ held)
    (hl : (s.items it).flags.linked = false) (hflag : (s.items it).flags.cas = true)
    (h0 : s.oldestLive = 0) (heq : s.itemGet cfg (s.keyOf it) = (some oit, t))
    (hroom : Room ((t.itemRelink cfg ch oit it).itemRemove oit) held 1) :
    ((t.itemRelink cfg ch oit it).itemRemove oit).view cfg = (s.view cfg).bind s.now
      (s.itemNextCas cfg).1 (s.keyOf it) ((s.items it).entry cfg) := by
  obtain ⟨hp, hlo, hkey, hsame, ht, -⟩ := h.get_some heq
  have hg : Guarded cfg sc t (oit :: held) :=
    (hp (hroom.of_overflow Guarded.overflow_itemRelink le_rfl)).guarded h
  have hit' := hsame it hl
  have hre := hg.toInv.view_relink ch List.mem_cons_self hlo (List.mem_cons_of_mem oit hit)
    (by rw [hit', hl]) (by rw [hit', hkey]; rfl) (by rw [hit', hflag]) (by rw [ht]; exact h0)
  have hcas : t.casIssued = s.casIssued := by rw [ht]; rfl
  have hnow : t.now = s.now := by rw [ht]; rfl
  rw [hre, hit', (h.view_get_some heq).1, itemNextCas_congr hcas, hnow]
  rfl

section Functions

variable (h : Guarded cfg sc s held)

include h

theorem Guarded.view_itemGet (key : Key) :
    (s.itemGet cfg key).2.view cfg = s.view cfg ∧
      (s.itemGet cfg key).1.map (fun p => ((s.itemGet cfg key).2.items p).entry cfg) =
        s.view cfg key := by
  cases heq : s.itemGet cfg key with
  | mk r t =>
    cases r with
    | none =>
      obtain ⟨h1, h2⟩ := h.view_get_none heq
      exact ⟨h1, h2.symm⟩
    | some p =>
      obtain ⟨h1, h2⟩ := h.view_get_some heq
      refine ⟨h1, h2.symm ▸ ?_⟩
      rw [(h.get_some heq).2.2.2.2.1, Option.map_some]
      exact congrArg some (Item.entry_congr (by simp [Item.content]))

theorem Guarded.view_itemDelete (hroom : Room (s.itemDelete cfg key).2 held 1) (now cas : ℕ) :
    (s.view cfg).apply now cas (.delete key) =
      ((s.itemDelete cfg key).1.reply, (s.itemDelete cfg key).2.view cfg) := by
  have hwf' := ((h.path_itemDelete hroom).guarded h).wf
  cases heq : s.itemGet cfg key with
  | mk r t =>
    simp only [itemDelete, heq] at hroom hwf' ⊢
    cases r with
    | none =>
      obtain ⟨h1, h2⟩ := h.view_get_none heq
      simp only [Cache.apply, h1, h2, DeleteResult.reply]
    | some p =>
      obtain ⟨hp, hl, hkey, -⟩ := h.get_some heq
      obtain ⟨h1, h2⟩ := h.view_get_some heq
      have hg : Guarded cfg sc t (p :: held) := (hp (hroom.of_overflow (fun hov =>
        overflow_of_env (itemUnlink_env p) (overflow_of_env (itemRemove_env p) hov))
        le_rfl)).guarded h
      have hu := hg.toInv.unlink hl
      simp only [Cache.apply, h2, DeleteResult.reply]
      rw [view_remove hu.wf hwf', view_unlink hg.wf hu.wf hl, hkey, h1]

variable (hit : it ∈ held) (hl : (s.items it).flags.linked = false)
  (hflag : (s.items it).flags.cas = true) (h0 : s.oldestLive = 0)

include hit hl hflag h0

theorem Guarded.view_itemReplace (hroom : Room (s.itemReplace cfg ch it).2 held 1) :
    (s.view cfg).apply s.now (s.itemNextCas cfg).1
        (.replace (s.keyOf it) ((s.items it).entry cfg)) =
      ((s.itemReplace cfg ch it).1.reply, (s.itemReplace cfg ch it).2.view cfg) := by
  cases heq : s.itemGet cfg (s.keyOf it) with
  | mk r t =>
    simp only [itemReplace, heq] at hroom ⊢
    cases r with
    | none =>
      obtain ⟨h1, h2⟩ := h.view_get_none heq
      simp only [Cache.apply, h1, h2, ReplaceResult.reply]
    | some oit =>
      simp only [Cache.apply, (h.view_get_some heq).2, ReplaceResult.reply,
        h.view_get_relink hit hl hflag h0 heq hroom]

theorem Guarded.view_itemCas (hroom : Room (s.itemCas cfg ch it).2 held 1) :
    (s.view cfg).apply s.now (s.itemNextCas cfg).1 (.cas (s.keyOf it) ((s.items it).entry cfg)) =
      ((s.itemCas cfg ch it).1.reply, (s.itemCas cfg ch it).2.view cfg) := by
  cases heq : s.itemGet cfg (s.keyOf it) with
  | mk r t =>
    simp only [itemCas, heq] at hroom ⊢
    cases r with
    | none =>
      obtain ⟨h1, h2⟩ := h.view_get_none heq
      simp only [Cache.apply, h1, h2, CasResult.reply]
    | some oit =>
      obtain ⟨-, -, -, hsame, ht, -⟩ := h.get_some heq
      have hold : (t.items oit).getCas = (s.items oit).getCas := by
        rw [ht]
        simp [Item.getCas]
      simp only [hsame it hl, hold] at hroom ⊢
      simp only [Cache.apply, (h.view_get_some heq).2]
      by_cases hcas : (s.items it).getCas = (s.items oit).getCas
      · have hsamecas : ((s.items oit).entry cfg).cas = ((s.items it).entry cfg).cas := hcas.symm
        rw [if_neg (not_not.2 hcas)] at hroom ⊢
        rw [if_pos hsamecas, h.view_get_relink hit hl hflag h0 heq hroom]
        rfl
      · have hother : ((s.items oit).entry cfg).cas ≠ ((s.items it).entry cfg).cas := Ne.symm hcas
        rw [if_pos hcas] at hroom ⊢
        rw [if_neg hother, h.view_get_remove heq hroom]
        rfl

variable (hip : ¬ sc.priv it) (hlink : sc.link it)

include hip hlink

theorem Guarded.view_itemSet (hroom : Room (s.itemSet cfg ch it) held 1) :
    (s.itemSet cfg ch it).view cfg = (s.view cfg).bind s.now (s.itemNextCas cfg).1 (s.keyOf it)
      ((s.items it).entry cfg) := by
  cases heq : s.itemGet cfg (s.keyOf it) with
  | mk r t =>
    simp only [itemSet, heq] at hroom ⊢
    cases r with
    | none => exact h.view_get_link hit hip hlink hl hflag h0 heq
    | some oit => exact h.view_get_relink hit hl hflag h0 heq hroom

theorem Guarded.view_itemAdd (hroom : Room (s.itemAdd cfg ch it).2 held 1) :
    (s.view cfg).apply s.now (s.itemNextCas cfg).1 (.add (s.keyOf it) ((s.items it).entry cfg)) =
      ((s.itemAdd cfg ch it).1.reply, (s.itemAdd cfg ch it).2.view cfg) := by
  cases heq : s.itemGet cfg (s.keyOf it) with
  | mk r t =>
    simp only [itemAdd, heq] at hroom ⊢
    cases r with
    | none =>
      simp only [Cache.apply, (h.view_get_none heq).2, AddResult.reply,
        h.view_get_link hit hip hlink hl hflag h0 heq]
    | some oit =>
      simp only [Cache.apply, (h.view_get_some heq).2, AddResult.reply, h.view_get_remove heq hroom]

end Functions

end Store

end Twemcache
