import Twemcache.Store.Alloc
import Twemcache.Store.View

/-!
# What `item_alloc` makes invisible

Of the six sources of `item_alloc` two cost visible keys: a slab that a slab strategy evicts, and an
item that the lru queue gives up.  An item is reused as expired only if `_item_get` would not return
it either.
-/

namespace Twemcache

namespace Store

variable (cfg : Config)

/-- What `_item_get` finds under a key. -/
def visible (s : Store) (key : Key) : Option ItemPtr := (s.itemGet cfg key).1

/-- The key was visible and is not any more. -/
def Lost (s s' : Store) (key : Key) : Prop := s.visible cfg key ≠ none ∧ s'.visible cfg key = none

/-- There was pressure: the class has no chunk left to hand out, its free queue is empty or not
used, and no slab can be allocated. -/
structure Pressed (ch : Choice) (id : ℕ) (s : Store) : Prop where
  /-- The class has no current slab. -/
  current : (s.slabclass id).freeItem = none
  /-- The class has no free item, or free items are not reused. -/
  freeq : cfg.useFreeq = false ∨ (s.slabclass id).freeItemq = []
  /-- The heap is full, or the allocation fails. -/
  slab : cfg.maxNslab ≤ s.slabTable.length ∨ ch.slabOk = false

/-- The lost keys are those of one idle slab, by a slab strategy. -/
def ShedsSlab (s s' : Store) : Prop :=
  s.evictOpt &&& (evictRs ||| evictAs ||| evictCs) ≠ 0 ∧ ∃ sl ∈ s.slabTable,
    (s.slabs sl).refcount = 0 ∧
      ∀ key, Lost cfg s s' key ↔ ∃ p, s.visible cfg key = some p ∧ p.slab = sl

/-- The lost key is that of one unreferenced item of class `id`, by lru eviction. -/
def ShedsItem (held : List ItemPtr) (id : ℕ) (s s' : Store) : Prop :=
  s.evictOpt &&& evictLru ≠ 0 ∧ ∃ p, (s.items p).id = id ∧ p ∉ held ∧
    ∀ key, Lost cfg s s' key ↔ s.visible cfg key = some p

/-- Keys are lost under pressure only, and as configured. -/
structure Sheds (ch : Choice) (held : List ItemPtr) (id : ℕ) (s s' : Store) : Prop where
  /-- There was pressure. -/
  pressed : (∃ key, Lost cfg s s' key) → Pressed cfg ch id s
  /-- The settings say what is lost. -/
  configured : (∃ key, Lost cfg s s' key) → ShedsSlab cfg s s' ∨ ShedsItem cfg held id s s'
  /-- Without eviction nothing is. -/
  never : s.evictOpt = 0 → ∀ key, ¬ Lost cfg s s' key

variable {cfg} {ch : Choice} {id : ℕ} {s s' t : Store} {p q : ItemPtr} {held : List ItemPtr}
  {key : Key}

/-! ### Items that are dropped -/

/-- The items of `D` are not linked any more; the other linked items are as they were. -/
structure Drops (cfg : Config) (D : ItemPtr → Prop) (s s' : Store) : Prop where
  /-- What stays linked. -/
  linked : ∀ q, s'.Linked cfg q ↔ s.Linked cfg q ∧ ¬ D q
  /-- Linked items are as they were. -/
  items : ∀ q, s'.Linked cfg q → s'.items q = s.items q
  /-- The clock stands still. -/
  now : s'.now = s.now
  /-- No flush was issued. -/
  oldestLive : s'.oldestLive = s.oldestLive

theorem Drops.shows {D : ItemPtr → Prop} (h : Drops cfg D s s') :
    s'.Shows cfg key q ↔ s.Shows cfg key q ∧ ¬ D q := by
  have hdead : ∀ q, s'.Linked cfg q → s'.dead q = s.dead q := fun q hq =>
    dead_congr h.now h.oldestLive (by rw [h.items q hq]) (.inl (by rw [h.items q hq]))
  constructor
  · rintro ⟨hl, hkey, hlive⟩
    refine ⟨⟨((h.linked q).1 hl).1, ?_, ?_⟩, ((h.linked q).1 hl).2⟩
    · rw [← h.items q hl]
      exact hkey
    · rw [← hdead q hl]
      exact hlive
  · rintro ⟨⟨hl, hkey, hlive⟩, hD⟩
    have hl' := (h.linked q).2 ⟨hl, hD⟩
    refine ⟨hl', ?_, ?_⟩
    · rw [h.items q hl']
      exact hkey
    · rw [hdead q hl']
      exact hlive

/-- The keys that are lost are those of the visible items that were dropped. -/
theorem Drops.lost_iff {D : ItemPtr → Prop} (h : Drops cfg D s s') (hwf : s.Wf cfg)
    (hwf' : s'.Wf cfg) :
    Lost cfg s s' key ↔ ∃ p, s.visible cfg key = some p ∧ D p := by
  simp only [Lost, visible]
  constructor
  · rintro ⟨hsome, hnone⟩
    obtain ⟨p, hp⟩ := Option.ne_none_iff_exists'.1 hsome
    refine ⟨p, hp, ?_⟩
    by_contra hD
    have hshow := h.shows.2 ⟨hwf.itemGet_eq_some_iff.1 hp, hD⟩
    rw [hwf'.itemGet_eq_some_iff.2 hshow] at hnone
    cases hnone
  · rintro ⟨p, hp, hD⟩
    refine ⟨by rw [hp]; exact Option.some_ne_none p,
      Option.eq_none_iff_forall_ne_some.2 fun q hq => ?_⟩
    obtain ⟨hshow, hnot⟩ := h.shows.1 (hwf'.itemGet_eq_some_iff.1 hq)
    have hshow' := hwf.itemGet_eq_some_iff.1 hp
    rw [hwf.eq_of_key hshow.linked hshow'.linked (hshow.key.trans hshow'.key.symm)] at hnot
    exact hnot hD

theorem Drops.trans_same {D : ItemPtr → Prop} (h : Drops cfg D s s')
    (hlinked : ∀ q, t.Linked cfg q ↔ s'.Linked cfg q)
    (hitems : ∀ q, t.Linked cfg q → t.items q = s'.items q) (hnow : t.now = s'.now)
    (hlive : t.oldestLive = s'.oldestLive) : Drops cfg D s t where
  linked := fun q => (hlinked q).trans (h.linked q)
  items := fun q hq => (hitems q hq).trans (h.items q ((hlinked q).1 hq))
  now := hnow.trans h.now
  oldestLive := hlive.trans h.oldestLive

theorem drops_itemReuse (hp : s.Linked cfg p) : Drops cfg (· = p) s (s.itemReuse cfg p) where
  linked := fun q => by
    have hk : Keeps s (s.itemReuse cfg p) := .of_trims (trims_itemReuse p)
    by_cases hqp : q = p
    · subst hqp
      simp [Linked]
    · rw [hk.linked (by simp [hqp])]
      simp [hqp]
  items := fun q hq => by
    have hqp : q ≠ p := fun heq => by
      have hl := hq.2
      rw [heq] at hl
      simp at hl
    simp [hqp]
  now := congrArg Env.now (show (s.itemReuse cfg p).env = s.env from itemReuse_env p)
  oldestLive := congrArg Env.oldestLive (show (s.itemReuse cfg p).env = s.env from itemReuse_env p)

/-- A chunk that was not linked is handed out. -/
theorem drops_nothing (hk : Keeps s s') (hitems : ∀ q, q ≠ p → s'.items q = s.items q)
    (hl : (s.items p).flags.linked = false) (hl' : (s'.items p).flags.linked = false)
    (hnow : s'.now = s.now) (hlive : s'.oldestLive = s.oldestLive) :
    Drops cfg (fun _ => False) s s' where
  linked := fun q => by
    have hsame : (s'.items q).flags.linked = (s.items q).flags.linked := by
      by_cases hqp : q = p
      · rw [hqp, hl, hl']
      · rw [hitems q hqp]
    rw [hk.linked hsame]
    simp
  items := fun q hq => hitems q fun heq => by
    have hl := hq.2
    rw [heq, hl'] at hl
    cases hl
  now := hnow
  oldestLive := hlive

/-- A slab changes hands: its items are dropped. -/
theorem GetsSlab.drops {sl : ℕ} (hg : GetsSlab cfg sl id s s') :
    Drops cfg (fun q => q.slab = sl) s (s'.slabGetItemFromCurrent id).2 := by
  obtain ⟨-, -, hitems, henv, -, -, -, -, hact, -⟩ := hg.wf.slabGetItemFromCurrent hg.freeItem
  have hlinked : ∀ q, s'.Linked cfg q ↔ s.Linked cfg q ∧ ¬ q.slab = sl := fun q => by
    by_cases hq : q.slab = sl
    · refine ⟨fun hl => ?_, fun hl => absurd hq hl.2⟩
      have hidle := (Shape.Wf.tail hg.wf q (hg.tail_new q hq) hl.1).1
      exact absurd (hl.2.symm.trans hidle) (by decide)
    · rw [Linked, Linked, hg.active q hq, hg.items q hq]
      exact (and_iff_left hq).symm
  refine Drops.trans_same ⟨hlinked, fun q hq => hg.items q ((hlinked q).1 hq).2,
    congrArg Env.now hg.env, congrArg Env.oldestLive hg.env⟩ (fun q => ?_)
      (fun q _ => congrFun hitems q)
    (congrArg Env.now henv) (congrArg Env.oldestLive henv)
  rw [Linked, Linked, hact, hitems]

/-- The slab strategies are the three that evict slabs. -/
theorem Picks.strategy {sl : ℕ} (h : s.Picks ch sl) :
    s.evictOpt &&& (evictRs ||| evictAs ||| evictCs) ≠ 0 := by
  have hbit : ∀ {m : ℕ}, m &&& (evictRs ||| evictAs ||| evictCs) = m → s.evictOpt &&& m ≠ 0 →
      s.evictOpt &&& (evictRs ||| evictAs ||| evictCs) ≠ 0 := fun {m} hm hne hzero => by
    have hand : s.evictOpt &&& m = (s.evictOpt &&& (evictRs ||| evictAs ||| evictCs)) &&& m := by
      rw [Nat.and_assoc, Nat.and_comm (evictRs ||| evictAs ||| evictCs) m, hm]
    rw [hand, hzero, Nat.zero_and] at hne
    exact hne rfl
  obtain ⟨hopt, -⟩ | ⟨hopt, -⟩ := h
  · exact hbit (by decide) hopt
  · exact hbit (by decide) hopt

theorem Exhausted.pressed (hex : s.Exhausted cfg id) (hno : s.NoSlab cfg ch) (h : s.Wf cfg) :
    Pressed cfg ch id s := by
  obtain ⟨hfq, hcur⟩ := hex
  refine ⟨hcur, ?_, ?_⟩
  · have hlen : (s.slabclass id).nfreeItemq = (s.slabclass id).freeItemq.length :=
      Shape.Wf.free_len h id
    cases huse : cfg.useFreeq with
    | false => exact .inl rfl
    | true =>
      right
      by_cases hzero : (s.slabclass id).nfreeItemq = 0
      · exact List.length_eq_zero_iff.1 (hlen ▸ hzero)
      · simpa [slabGetItemFromFreeq, huse, hzero] using hfq
  · simp only [NoSlab, slabGetNew] at hno
    split_ifs at hno with hmax hok
    · exact .inl hmax
    · exact .inr (by simpa using hok)

theorem slabGetNew_some {sl : ℕ} (h : s.slabGetNew cfg ch = (some sl, t)) :
    sl = s.slabTable.length := by
  simp only [slabGetNew] at h
  split_ifs at h <;> simp_all

/-- What is dropped when a chunk is found: nothing that can be seen, a slab, or an item. -/
theorem Found.drops (hf : Found cfg ch id s p t) (h : s.Wf cfg) (hfull : s.Full)
    (hid : cfg.ValidId id) :
    (∃ D, Drops cfg D s t ∧ ∀ q, s.Linked cfg q → D q → s.dead q = true) ∨
    Pressed cfg ch id s ∧
      ((∃ sl, s.Picks ch sl ∧ Drops cfg (fun q => q.slab = sl) s t) ∨
        s.evictOpt &&& evictLru ≠ 0 ∧ (s.items p).id = id ∧ Drops cfg (· = p) s t) := by
  cases hf with
  | expired hp hexp =>
    refine .inl ⟨_, drops_itemReuse (h.itemGetFromLruq hp).1, ?_⟩
    rintro q - rfl
    -- `item_expired` is the stricter of the two tests
    simp only [itemExpired, decide_eq_true_eq] at hexp
    simp only [dead, Store.expired, Bool.or_eq_true, decide_eq_true_eq]
    exact .inl ⟨by omega, by omega⟩
  | freeq hp =>
    obtain hh := h.hands_freeq hfull hp
    have hmem : p ∈ s.shape.freeq id := by
      simp only [slabGetItemFromFreeq] at hp
      split_ifs at hp
      exact List.mem_of_mem_head? hp
    obtain ⟨ha, -, hs⟩ := (Shape.Wf.free h).mem_iff.1 hmem
    refine .inl ⟨_, drops_nothing (.of_trims (trims_slabTakeItem id p)) (fun q hq => by simp [hq])
      (Shape.Wf.slabbed h p ha hs).1 hh.linked rfl rfl, fun _ _ hD => hD.elim⟩
  | current hp ht =>
    subst ht
    have hh := h.hands_current hfull hp
    obtain ⟨-, -, hitems, henv, -, -, -, -, hact, -⟩ := h.slabGetItemFromCurrent hp
    refine .inl ⟨fun _ => False, ⟨fun q => ?_, fun q _ => congrFun hitems q, congrArg Env.now henv,
      congrArg Env.oldestLive henv⟩, fun _ _ hD => hD.elim⟩
    rw [Linked, Linked, hact, hitems]
    simp
  | @fresh sl s₁ _ hex hget ht =>
    have hnew := h.slabGetNew ch
    rw [hget] at hnew
    have hdrops := (hnew.getsSlab hfull hid hex.2).drops
    rw [ht] at hdrops
    refine .inl ⟨_, hdrops, fun q hq hqs => ?_⟩
    -- no item was in the new slab
    have hmem : q.slab ∈ s.slabLruq := hq.1.1
    rw [hqs, slabGetNew_some hget] at hmem
    exact absurd (h.lt_of_mem_slabLruq hmem) (lt_irrefl _)
  | @slab sl _ hex hno hpick ht =>
    obtain ⟨hsl, href⟩ := hpick.idle hfull
    have hdrops := ((h.obtains_slabEvictOne hsl href).getsSlab hfull hid hex.2).drops
    rw [ht] at hdrops
    exact .inr ⟨hex.pressed hno h, .inl ⟨sl, hpick, hdrops⟩⟩
  | lru hex hno hopt hp =>
    obtain ⟨hl, hid, -⟩ := h.itemGetFromLruq hp
    exact .inr ⟨hex.pressed hno h, .inr ⟨hopt, hid, drops_itemReuse hl⟩⟩

theorem Hands.wf_itemAllocDone (hh : Hands cfg id s p t) (key : Key) (dataflags exptime nbyte : ℕ) :
    (t.itemAllocDone cfg p key dataflags exptime nbyte).Wf cfg := by
  have hwf : (t.itemAcquireRefcount p).Wf cfg := by
    rw [Wf, shape_acquire]
    exact Shape.Wf.acquire hh.wf hh.active hh.slabbed hh.tail
  have hnot : ¬ (t.itemAcquireRefcount p).shape.assoc.Has p := fun hhas => by
    have hl := ((Shape.Wf.assoc_has hwf p).1 hhas).2
    simp [hh.linked] at hl
  rw [Wf, shape_itemAllocDone hh.linked hh.slabbed]
  exact Shape.Wf.setKey hwf hnot key

/-- The new item is not linked yet. -/
theorem Drops.itemAllocDone {D : ItemPtr → Prop} (h : Drops cfg D s t)
    (hl : (t.items p).flags.linked = false) (key : Key) (dataflags exptime nbyte : ℕ) :
    Drops cfg D s (t.itemAllocDone cfg p key dataflags exptime nbyte) := by
  have hlater := later_itemAllocDone (s := t) cfg p key dataflags exptime nbyte
  have hnew : ((t.itemAllocDone cfg p key dataflags exptime nbyte).items p).flags.linked =
      false := by
    simp [allocItem]
  have hitems : ∀ q, q ≠ p →
      (t.itemAllocDone cfg p key dataflags exptime nbyte).items q = t.items q := fun q hq => by
    rw [itemAllocDone_items, Function.update_of_ne hq]
  have hnone : Drops cfg (fun _ => False) t (t.itemAllocDone cfg p key dataflags exptime nbyte) :=
    drops_nothing (keeps_itemAllocDone cfg p key dataflags exptime nbyte) hitems hl hnew
    hlater.now hlater.oldestLive
  exact h.trans_same (fun q => by simpa using hnone.linked q) hnone.items hlater.now
    hlater.oldestLive

theorem not_lost_self : ¬ Lost cfg s s key := fun h => h.1 h.2

/-- **`item_alloc` costs visible keys only under pressure, and only as configured.** -/
theorem Inv.sheds (h : Inv cfg s held) (hid : cfg.ValidId id) (ch : Choice) (key : Key)
    (dataflags exptime nbyte : ℕ) :
    Sheds cfg ch held id s (s.itemAlloc cfg ch id key dataflags exptime nbyte).2 := by
  have hchunk := h.wf.itemAllocChunk ch h.full hid
  simp only [itemAlloc]
  generalize hr : s.itemAllocChunk cfg ch id = r at hchunk
  obtain ⟨_ | p, t⟩ := r
  · obtain rfl : t = s := hchunk
    have hno : ¬ ∃ k, Lost cfg t t k := by
      rintro ⟨k, hlost⟩
      exact not_lost_self hlost
    exact ⟨fun hl => absurd hl hno, fun hl => absurd hl hno, fun _ _ => not_lost_self⟩
  · have hh : Hands cfg id s p t := hchunk
    have hwf' := hh.wf_itemAllocDone key dataflags exptime nbyte
    have hlost : ∀ {D : ItemPtr → Prop}, Drops cfg D s t → ∀ k,
        Lost cfg s (t.itemAllocDone cfg p key dataflags exptime nbyte) k ↔
          ∃ p, s.visible cfg k = some p ∧ D p := fun hD k =>
      (hD.itemAllocDone hh.linked key dataflags exptime nbyte).lost_iff h.wf hwf'
    have hfound := itemAllocChunk_found hr
    obtain ⟨D, hdrops, hdead⟩ | ⟨hpress, hcause⟩ := hfound.drops h.wf h.full hid
    · have hnone : ∀ k, ¬ Lost cfg s (t.itemAllocDone cfg p key dataflags exptime nbyte) k :=
        fun k hl => by
        obtain ⟨q, hq, hD⟩ := (hlost hdrops k).1 hl
        have hshow := h.wf.itemGet_eq_some_iff.1 hq
        exact absurd ((hdead q hshow.linked hD).symm.trans hshow.live) (by decide)
      have hno : ¬ ∃ k, Lost cfg s (t.itemAllocDone cfg p key dataflags exptime nbyte) k := by
        rintro ⟨k, hl⟩
        exact hnone k hl
      exact ⟨fun hl => absurd hl hno, fun hl => absurd hl hno, fun _ k => hnone k⟩
    · refine ⟨fun _ => hpress, fun _ => ?_, fun hzero => ?_⟩
      · obtain ⟨sl, hpick, hdrops⟩ | ⟨hopt, hcls, hdrops⟩ := hcause
        · obtain ⟨hsl, href⟩ := hpick.idle h.full
          exact .inl ⟨hpick.strategy, sl, Shape.Wf.slab_mem h.wf sl hsl, href, hlost hdrops⟩
        · refine .inr ⟨hopt, p, hcls, hh.not_held h.toCounts, fun k => (hlost hdrops k).trans ?_⟩
          constructor
          · rintro ⟨q, hq, rfl⟩
            exact hq
          · exact fun hq => ⟨p, hq, rfl⟩
      · -- without a strategy there is no cause
        obtain ⟨sl, hpick, -⟩ | ⟨hopt, -, -⟩ := hcause
        · exact absurd (by rw [hzero, Nat.zero_and]) hpick.strategy
        · exact absurd (by rw [hzero, Nat.zero_and]) hopt

end Store

end Twemcache
