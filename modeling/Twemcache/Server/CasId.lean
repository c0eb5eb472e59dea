import Twemcache.Server.Ownership
import Twemcache.Store.View

/-!
# Cas ids

With cas ids on, every link of an item and every change of a linked item's value gives it an id
that no item has had before.  So a `cas` command succeeds only if its key has been left alone
since the item got the id, and only one `cas` command with a given id ever succeeds
(`cas_exclusive`).

Like everything about items, this rests on the counts of slabs not wrapping: if a slab is
evicted under a connection that is about to fill its new item, the data block goes into an item
that has been stored since (`value_changed_under_id`).
-/

namespace Twemcache

namespace Server

variable (cfg : Config)

/-- `p` is linked with cas id `u`. -/
def Carries (s : Server) (p : ItemPtr) (u : ℕ) : Prop :=
  s.store.Linked cfg p ∧ (s.store.items p).casField = u

/-- A `cas` command with id `u` succeeds on `key`. -/
def CasOk (s : Server) (u : ℕ) (key : Key) (s' : Server) : Prop :=
  ∃ c ch it, s.step cfg (.cas c ch) = some (.cas .ok, s') ∧ s.unstored c = some it ∧
    (s.store.items it).getCas = u ∧ s.store.keyOf it = key

/-- The stamps of a state. -/
structure Known (s : Server) : Prop where
  /-- The invariant. -/
  inv : s.Inv cfg
  /-- Items have stamps. -/
  stamped : s.store.Stamped cfg s.held
  /-- Linked items have different ids. -/
  inj : s.store.CasInj cfg

variable {cfg} {s s' t w w' : Server} {l : Label} {a : Answer} {p q : ItemPtr} {u : ℕ} {key : Key}

/-- What is linked after a step was linked before it and holds the same, or has an id that the step
issued. -/
theorem Effect.sameOrNew (he : Effect cfg s l s') (h : s.Inv cfg) (hst : s.store.Stamped cfg s.held)
    (hcas : cfg.useCas = true) (hq : s'.store.Linked cfg q) :
    s.store.SameOrNew cfg s'.store q := by
  cases he with
  | path o base held' hg hp hperm hbase => exact hp.sameOrNew hg hst hcas hq
  | write c p f hf hmem heq =>
    subst heq
    have hlq : s.store.Linked cfg q :=
      (linked_of_shape cfg (Store.shape_setItem_of_inert hf.toInert) q).1 hq
    have hqp : q ≠ p := fun hqp => by
      have hl := hlq.2
      rw [hqp, (h.unstored _ hmem rfl).1] at hl
      cases hl
    exact .inl ⟨hlq, by simp [Store.setItem, hqp]⟩
  | env hshape hitems hslabs hlru hbooks hcas' hnalloc hrefs hnow hlive =>
    exact .inl ⟨(linked_of_shape cfg hshape q).1 hq, by rw [hitems]⟩

theorem Effect.casInj (he : Effect cfg s l s') (h : s.Inv cfg)
    (hst : s.store.Stamped cfg s.held) (hcas : cfg.useCas = true) (hI : s.store.CasInj cfg) :
    s'.store.CasInj cfg := by
  cases he with
  | path o base held' hg hp hperm hbase => exact hp.casInj hg hst hcas hI
  | write c p f hf hmem heq =>
    subst heq
    have hlinked := linked_of_shape cfg
      (Store.shape_setItem_of_inert (s := s.store) (p := p) hf.toInert)
    have hitem : ∀ q, s.store.Linked cfg q →
        (s.store.setItem p f).items q = s.store.items q := fun q hq => by
      have hqp : q ≠ p := fun hqp => by
        have hl := hq.2
        rw [hqp, (h.unstored _ hmem rfl).1] at hl
        cases hl
      simp [Store.setItem, hqp]
    intro hlt x y hx hy heq
    have hx' := (hlinked x).1 hx
    have hy' := (hlinked y).1 hy
    exact hI hlt x y hx' hy' (by rwa [hitem x hx', hitem y hy'] at heq)
  | env hshape hitems hslabs hlru hbooks hcas' hnalloc hrefs hnow hlive =>
    intro hlt x y hx hy heq
    rw [hitems] at heq
    exact hI (hcas' ▸ hlt) x y ((linked_of_shape cfg hshape x).1 hx)
      ((linked_of_shape cfg hshape y).1 hy) heq

theorem Known.step (h : s.Known cfg) (hcas : cfg.useCas = true) (hs : s.step cfg l = some (a, s'))
    (hov : NoWrap s l s') : s'.Known cfg := by
  obtain ⟨he, hi⟩ := h.inv.step hs hov
  exact ⟨hi, he.stamped h.inv h.stamped, he.casInj h.inv h.stamped hcas h.inj⟩

/-- What is linked after a run was linked before it and holds the same, or has an id that was
issued in the run. -/
theorem Known.run (h : t.Known cfg) (hcas : cfg.useCas = true)
    (hr : (server cfg).Reaches NoWrap t s) : s.Known cfg ∧
      t.store.casIssued ≤ s.store.casIssued ∧
      ∀ q, s.store.Linked cfg q → t.store.SameOrNew cfg s.store q := by
  refine hr.invariant (I := fun s => s.Known cfg ∧ t.store.casIssued ≤ s.store.casIssued ∧
    ∀ q, s.store.Linked cfg q → t.store.SameOrNew cfg s.store q)
    ⟨h, le_rfl, fun q hq => .inl ⟨hq, rfl⟩⟩ ?_
  rintro x l a x' ⟨hx, hle, hI⟩ hst hov
  have he := (hx.inv.step hst hov).1
  exact ⟨hx.step hcas hst hov, hle.trans he.casIssued, fun q hq =>
    (he.sameOrNew hx.inv hx.stamped hcas hq).trans (hI q) hle he.casIssued⟩

theorem Known.id_le (h : s.Known cfg) (hcas : cfg.useCas = true)
    (hlt : s.store.casIssued < 2 ^ 64) (hp : s.Carries cfg p u) : u ≤ s.store.casIssued := by
  obtain ⟨n, -, hle, hn⟩ := h.stamped.cas hcas p hp.1
  rw [← hp.2, hn]
  omega

/-- An id that was issued before is on the item that had it then, which holds the same. -/
theorem Known.origin (h : t.Known cfg) (hcas : cfg.useCas = true)
    (hr : (server cfg).Reaches NoWrap t s) (hlt : s.store.casIssued < 2 ^ 64)
    (hp : s.Carries cfg p u) (hu : u ≤ t.store.casIssued) :
    t.store.Linked cfg p ∧ (t.store.items p).content = (s.store.items p).content := by
  rcases (h.run hcas hr).2.2 p hp.1 with ⟨hl, hcont⟩ | ⟨n, hlo, hhi, hn⟩
  · exact ⟨hl, hcont.symm⟩
  · rw [hp.2] at hn
    omega

variable {now evictOpt : ℕ} {slabs : ℕ → Slab} {items : ItemPtr → Item}

theorem known_init : (init cfg now evictOpt slabs items).Known cfg :=
  ⟨inv_init, stamped_init, fun _ _ _ hp => absurd hp.1.1 List.not_mem_nil⟩

end Server

/-- The item that a successful `item_cas` replaces. -/
theorem Store.Guarded.itemCas_ok {cfg : Config} {sc : Scope} {held : List ItemPtr} {s : Store}
    {it : ItemPtr} (h : s.Guarded cfg sc held) (ch : Choice) (hit : it ∈ held)
    (hl : (s.items it).flags.linked = false) (hok : (s.itemCas cfg ch it).1 = .ok) :
    ∃ p, s.Linked cfg p ∧ (s.items p).key = s.keyOf it ∧
      (s.items p).getCas = (s.items it).getCas ∧ ¬ (s.itemCas cfg ch it).2.Linked cfg p := by
  cases heq : s.itemGet cfg (s.keyOf it) with
  | mk r t =>
    simp only [Store.itemCas, heq] at hok ⊢
    cases r with
    | none => cases hok
    | some oit =>
      obtain ⟨-, hlo, hkey, hsame, rfl, hls, -⟩ := h.get_some heq
      have hgetCas : ((s.itemAcquireRefcount oit).items oit).getCas = (s.items oit).getCas := by
        simp [Item.getCas]
      simp only [hsame it hl, hgetCas] at hok ⊢
      split_ifs at hok ⊢ with hne
      have hk := Store.keeps_itemAcquireRefcount (s := s) oit
      have hact : ((s.itemAcquireRefcount oit).itemUnlink cfg oit).Active cfg it :=
        ((hk.trans (Store.keeps_itemUnlink oit)).active it).2 (h.active it hit)
      refine ⟨oit, hls, by simpa using hkey, (not_not.1 hne).symm, fun hlinked => ?_⟩
      rw [(Store.keeps_itemRemove oit).linked (Store.itemRemove_linked oit), Store.itemRelink,
        Store.linked_itemLink hact, Store.linked_itemUnlink] at hlinked
      rcases hlinked with ⟨-, hne⟩ | hoit
      · exact hne rfl
      · rw [← hoit, hls.2] at hl
        cases hl

namespace Server

variable {cfg : Config} {s s' t w w' : Server} {l : Label} {a : Answer} {p q : ItemPtr} {u u' : ℕ}
  {key key' : Key} {now evictOpt : ℕ} {slabs : ℕ → Slab} {items : ItemPtr → Item}

theorem Known.casOk (h : s.Known cfg) (hcas : cfg.useCas = true) (hok : CasOk cfg s u key s') :
    ∃ p, s.Carries cfg p u ∧ (s.store.items p).key = key ∧ ¬ s'.store.Linked cfg p := by
  obtain ⟨c, ch, it, hs, hit, rfl, rfl⟩ := hok
  have hmem := unstored_eq_some hit
  have hheld : it ∈ s.held := List.mem_map_of_mem (f := Ref.ptr) hmem
  obtain ⟨p, hp, heq⟩ := storeItem_cases hs
  obtain rfl := Option.some.inj (hp.symm.trans hit)
  obtain ⟨ha, rfl⟩ := Prod.mk.inj heq
  obtain ⟨q, hl, hkey, hgetCas, hgone⟩ := (h.inv.guarded (.cas c ch) none).itemCas_ok ch hheld
    (h.inv.unstored _ hmem rfl).1 (Answer.cas.inj ha)
  have hflag := (h.stamped.flag q (.inl hl)).trans hcas
  refine ⟨q, ⟨hl, ?_⟩, hkey, hgone⟩
  rw [← hgetCas, Item.getCas, if_pos hflag]

/-- **Cas ids are never used again.**  As long as no slab has more than 65535 references and the
counter has not wrapped: what a step links or changes has an id that no item had before; a `cas`
command with id `u` succeeds only on the item that got the id, and since then that item has been
linked under the key and has held the same; and no later `cas` command with this id succeeds. -/
theorem cas_exclusive (hcas : cfg.useCas = true)
    (h : (server cfg).Reaches NoWrap (init cfg now evictOpt slabs items) s)
    (hs : s.step cfg l = some (a, s')) (hov : NoWrap s l s') (hlt : s'.store.casIssued < 2 ^ 64) :
    (∀ q, s'.store.Linked cfg q →
      s.store.Linked cfg q ∧ (s'.store.items q).content = (s.store.items q).content ∨
        ∀ t r u, (server cfg).Reaches NoWrap (init cfg now evictOpt slabs items) t →
          (server cfg).Reaches NoWrap t s → t.Carries cfg r u → (s'.store.items q).casField ≠ u) ∧
    ∀ u key, CasOk cfg s u key s' →
      (∃ p, s.Carries cfg p u ∧ (s.store.items p).key = key ∧
        ∀ t r, (server cfg).Reaches NoWrap (init cfg now evictOpt slabs items) t →
          t.Carries cfg r u → ∀ t', (server cfg).Reaches NoWrap t t' →
          (server cfg).Reaches NoWrap t' s → r = p ∧ t'.store.Linked cfg p ∧
            (t'.store.items p).content = (s.store.items p).content) ∧
      ∀ w w' u' key', (server cfg).Reaches NoWrap s' w → w.store.casIssued < 2 ^ 64 →
        CasOk cfg w u' key' w' → u' ≠ u := by
  have hknown := (known_init.run hcas h).1
  have he := (hknown.inv.step hs hov).1
  have hle := he.casIssued
  refine ⟨fun q hq => ?_, fun u key hok => ⟨?_, ?_⟩⟩
  · refine (he.sameOrNew hknown.inv hknown.stamped hcas hq).imp_right ?_
    rintro ⟨n, hlo, hhi, hn⟩ t r u ht hts hr rfl
    have htk := (known_init.run hcas ht).1
    have htle := (htk.run hcas hts).2.1
    have := htk.id_le hcas (by omega) hr
    omega
  · obtain ⟨p, hp, hkey, -⟩ := hknown.casOk hcas hok
    refine ⟨p, hp, hkey, fun t r ht hr t' htt' ht's => ?_⟩
    have htk := (known_init.run hcas ht).1
    have ht'k := htk.run hcas htt'
    have ht'le := (ht'k.1.run hcas ht's).2.1
    have hu := htk.id_le hcas (by omega) hr
    -- the item had the id in `t` already, and in every state since
    obtain ⟨hl, hcont⟩ := htk.origin hcas (htt'.trans ht's) (by omega) hp hu
    have hfield : (t.store.items p).casField = u := (congrArg Content.casField hcont).trans hp.2
    exact ⟨htk.inj (by omega) r p hr.1 hl (hr.2.trans hfield.symm),
      ht'k.1.origin hcas ht's (by omega) hp (hu.trans ht'k.2.1)⟩
  · rintro w w' u' key' hw hwlt hok' rfl
    obtain ⟨p, hp, -, hgone⟩ := hknown.casOk hcas hok
    have hk' := hknown.step hcas hs hov
    have hwk := hk'.run hcas hw
    obtain ⟨q, hq, -, -⟩ := hwk.1.casOk hcas hok'
    have hu := hknown.id_le hcas (by omega) hp
    -- the id would still be on the item that was replaced
    obtain ⟨hl', hcont'⟩ := hk'.origin hcas hw hwlt hq (hu.trans hle)
    have hq' : s'.Carries cfg q u' := ⟨hl', (congrArg Content.casField hcont').trans hq.2⟩
    have hsingle : (server cfg).Reaches NoWrap s s' :=
      Machine.Reaches.tail Relation.ReflTransGen.refl hs hov
    obtain ⟨hl, hcont⟩ := hknown.origin hcas hsingle hlt hq' hu
    have hfield : (s.store.items q).casField = u' := (congrArg Content.casField hcont).trans hq'.2
    obtain rfl := hknown.inj (by omega) p q hp.1 hl (hp.2.trans hfield.symm)
    exact hgone hl'

/-- `a` is stored with id 1, and a `cas` command with this id is under way. -/
def casPending : Server :=
  (server .tiny).exec (fun s l s' => decide (NoWrap s l s')) (.tiny evictLru)
    [.alloc 0 [97] 0 0 1 {}, .fill 0 0 [120, 13, 10], .set 0 {}, .removeItem 0,
      .alloc 1 [97] 0 0 1 {}, .reqCas 1 1, .fill 1 0 [121, 13, 10]]

theorem cas_exclusive_casPending : ∃ s' : Server,
    (server .tiny).Reaches NoWrap (.tiny evictLru) casPending ∧ CasOk .tiny casPending 1 [97] s' ∧
      ∀ w w' u' key', (server .tiny).Reaches NoWrap s' w → w.store.casIssued < 2 ^ 64 →
        CasOk .tiny w u' key' w' → u' ≠ 1 := by
  have hreach : (server .tiny).Reaches NoWrap (.tiny evictLru) casPending :=
    (Machine.reaches_exec (by decide +kernel)).mono fun _ _ _ => of_decide_eq_true
  have hs : ((casPending.step .tiny (.cas 1 {})).map fun x =>
      (x.1, x.2.store.overflow, decide (x.2.store.casIssued < 2 ^ 64))) =
        some (.cas .ok, false, true) := by decide +kernel
  obtain ⟨⟨a, s'⟩, hs, heq⟩ := Option.map_eq_some_iff.1 hs
  simp only [Prod.mk.injEq, decide_eq_true_eq] at heq
  obtain ⟨rfl, hov, hlt⟩ := heq
  have hok : CasOk .tiny casPending 1 [97] s' :=
    ⟨1, {}, ⟨0, 1⟩, hs, by decide +kernel, by decide +kernel, by decide +kernel⟩
  exact ⟨s', hreach, hok, ((cas_exclusive rfl hreach hs hov hlt).2 1 [97] hok).2⟩

/-! ### A value changes under its id -/

/-- The server without the references of replies. -/
def strip (s : Server) : Server := ⟨s.store, s.refs.filter fun r => r.slot ≠ .ilist⟩

@[simp] theorem strip_store : s.strip.store = s.store := rfl

theorem store_eq_of_strip {m : Server} (h : s.strip = m.strip) : s.store = m.store := by
  rw [← strip_store, h, strip_store]

theorem strip_replies (st : Store) (refs : List Ref) (c n : ℕ) (p : ItemPtr) :
    strip ⟨st, List.replicate n ⟨c, .ilist, p⟩ ++ refs⟩ = strip ⟨st, refs⟩ := by
  simp [strip]

/-- Steps of connections that look at their own items only. -/
def OnItem : Label → Prop
  | .alloc .. => True
  | .fill .. => True
  | .reqCas .. => True
  | .set .. => True
  | .cas .. => True
  | _ => False

theorem unstored_strip (c : ℕ) : s.strip.unstored c = s.unstored c := by
  simp only [unstored, strip, List.find?_filter]
  congr 2
  funext r
  cases hslot : r.slot <;> simp

theorem hasItem_strip (c : ℕ) : s.strip.hasItem c = s.hasItem c := by
  simp only [hasItem, strip, List.any_filter]
  congr 1
  funext r
  cases hslot : r.slot <;> simp

theorem filter_markStored (c : ℕ) (refs : List Ref) :
    (markStored c refs).filter (fun r => decide (r.slot ≠ .ilist)) =
      markStored c (refs.filter fun r => decide (r.slot ≠ .ilist)) := by
  rw [markStored, markStored, List.filter_map]
  congr 2
  funext r
  simp only [Function.comp]
  split_ifs with h <;> simp [h]

theorem storeItem_strip (c : ℕ) (f : ItemPtr → Answer × Store) :
    (s.strip.storeItem cfg c f).map (Prod.map id strip) = (s.storeItem cfg c f).map
        (Prod.map id strip) := by
  simp only [storeItem, unstored_strip, Option.map_map]
  congr 1
  funext p
  simp only [Function.comp, Prod.map, id, strip, filter_markStored, List.filter_filter,
    Bool.and_self]

theorem writeItem_strip (c : ℕ) (f : Item → Item) :
    (s.strip.writeItem c f).map (Prod.map id strip) = (s.writeItem c f).map
        (Prod.map id strip) := by
  simp only [writeItem, unstored_strip, Option.map_map]
  congr 1
  funext p
  simp [strip]

theorem step_strip (hl : OnItem l) :
    (s.strip.step cfg l).map (Prod.map id strip) = (s.step cfg l).map (Prod.map id strip) := by
  cases l with
  | alloc c key dataflags exptime nbyte ch =>
    simp only [step, hasItem_strip]
    split_ifs
    · rfl
    · simp [keep, strip]
  | fill c off bytes =>
    simp only [step, unstored_strip, strip_store]
    split_ifs
    · exact writeItem_strip c _
    · rfl
  | reqCas c cas => exact writeItem_strip c _
  | set c ch => exact storeItem_strip c _
  | cas c ch => exact storeItem_strip c _
  | _ => cases hl

/-- Replies that are pending do not matter to a step. -/
def Strips (cfg : Config) (l : Label) : Prop :=
  ∀ s : Server, (s.strip.step cfg l).map (Prod.map id strip) = (s.step cfg l).map
    (Prod.map id strip)

theorem strips_of_onItem {ls : List Label} (h : ∀ l ∈ ls, OnItem l) : ∀ l ∈ ls, Strips cfg l :=
  fun l hl _ => step_strip (h l hl)

theorem step_of_strip {m m' : Server} (hsm : s.strip = m.strip) (hl : Strips cfg l)
    (hm : m.step cfg l = some (a, m')) :
    ∃ s', s.step cfg l = some (a, s') ∧ s'.strip = m'.strip := by
  have heq : (s.step cfg l).map (Prod.map id strip) = some (a, m'.strip) := by
    rw [← hl, hsm, hl, hm]
    rfl
  obtain ⟨⟨a', s'⟩, hs, hpair⟩ := Option.map_eq_some_iff.1 heq
  obtain ⟨rfl, hstrip⟩ := Prod.mk.inj hpair
  exact ⟨s', hs, hstrip⟩

theorem run_of_strip {m : Server} (m' : Server) (hsm : s.strip = m.strip) (ls : List Label)
    (hls : ∀ l ∈ ls, Strips cfg l) (hm : (server cfg).run (fun _ _ _ => true) m ls = some m') :
    ∃ s', (server cfg).Reaches Machine.Unguarded s s' ∧ s'.strip = m'.strip := by
  induction ls generalizing s m with
  | nil =>
    obtain rfl := Option.some.inj hm
    exact ⟨s, Relation.ReflTransGen.refl, hsm⟩
  | cons l ls ih =>
    obtain ⟨⟨a, m₁⟩, hstep, hrun⟩ := Option.bind_eq_some_iff.1 hm
    obtain ⟨s₁, hs₁, hsm₁⟩ := step_of_strip hsm (hls l List.mem_cons_self) hstep
    obtain ⟨s', hr, hsm'⟩ := ih hsm₁ (fun l hl => hls l (List.mem_cons_of_mem _ hl)) hrun
    exact ⟨s', Relation.ReflTransGen.head ⟨l, a, hs₁, trivial⟩ hr, hsm'⟩

/-- A heap of one slab with three chunks of 128 bytes. -/
def three : Config :=
  { Config.tiny with slabSize := 384, profile_le := fun _ _ _ => (by decide : 128 ≤ 384) }

/-- The heap is full: `a` and `c` are stored, and connection 2 is about to store `b`. -/
def fullHeap : Server :=
  (server three).exec (fun _ _ _ => true) (.init three 2 evictAs (fun _ => ⟨0, 0, 0, 0⟩)
      fun _ => ⟨0, 0, 0, 0, 0, {}, 0, [], 0, fun _ => 0, 0⟩)
    [.tick 100, .alloc 0 [97] 0 0 1 {}, .fill 0 0 [120, 13, 10], .set 0 {}, .removeItem 0,
      .alloc 2 [98] 0 0 1 {},
      .alloc 0 [99] 0 0 1 {}, .fill 0 0 [120, 13, 10], .set 0 {}, .removeItem 0]

/-- The slab has been evicted, `e` stored with id 3 in the place of `b`, and connection 5 is about
to replace it. -/
def evicted : Server :=
  (server three).exec (fun _ _ _ => true)
    ⟨acquired fullHeap.store ⟨0, 0⟩ 65535, fullHeap.refs⟩
    [.alloc 3 [100] 0 0 1 {}, .alloc 4 [101] 0 0 1 {}, .fill 4 0 [122, 13, 10], .set 4 {},
      .alloc 5 [101] 0 0 1 {}, .reqCas 5 3, .fill 5 0 [66, 13, 10]]

/-- Connection 2 has received its data block. -/
def filledLate : Server :=
  (server three).exec (fun _ _ _ => true) evicted [.fill 2 0 [65, 13, 10]]

/-- A connection that names `a` 65535 times has the slab evicted under connection 2, whose data
block then changes the value of `e` but not its id; a `cas` command with the id succeeds. -/
theorem value_changed_under_id : ∃ t s s' : Server,
    (server three).Reaches Machine.Unguarded (.init three 2 evictAs (fun _ => ⟨0, 0, 0, 0⟩)
      fun _ => ⟨0, 0, 0, 0, 0, {}, 0, [], 0, fun _ => 0, 0⟩) t ∧
    (server three).Reaches Machine.Unguarded t s ∧
    t.store.view three [101] = some ⟨[122], 0, 0, 3⟩ ∧
    s.store.view three [101] = some ⟨[65], 0, 0, 3⟩ ∧ CasOk three s 3 [101] s' := by
  have hfull : (server three).Reaches Machine.Unguarded _ fullHeap :=
    (Machine.reaches_exec (by decide +kernel)).mono fun _ _ _ _ => trivial
  have hgets := reaches_gets three (s := fullHeap) [97] (p := ⟨0, 0⟩) 1
    (by decide +kernel) (by decide +kernel) (by decide +kernel) (by decide +kernel)
    (by decide +kernel) 65535
  have hstrip := strip_replies (acquired fullHeap.store ⟨0, 0⟩ 65535) fullHeap.refs 1 65535 ⟨0, 0⟩
  obtain ⟨t, ht, htstrip⟩ := run_of_strip evicted hstrip
    ([.alloc 3 [100] 0 0 1 {}, .alloc 4 [101] 0 0 1 {}, .fill 4 0 [122, 13, 10], .set 4 {},
      .alloc 5 [101] 0 0 1 {}, .reqCas 5 3, .fill 5 0 [66, 13, 10]])
        (strips_of_onItem (by simp [OnItem])) (Machine.run_eq_exec (by decide +kernel))
  obtain ⟨s, hs, hsstrip⟩ := run_of_strip filledLate htstrip
    [.fill 2 0 [65, 13, 10]] (strips_of_onItem (by simp [OnItem]))
      (Machine.run_eq_exec (by decide +kernel))
  have hcas : (filledLate.step three (.cas 5 {})).map Prod.fst = some (.cas .ok) := by
    decide +kernel
  obtain ⟨⟨a, m'⟩, hm', rfl⟩ := Option.map_eq_some_iff.1 hcas
  obtain ⟨s', hs', -⟩ := step_of_strip (l := .cas 5 {}) hsstrip (fun _ => step_strip trivial) hm'
  have htstore : t.store = evicted.store := store_eq_of_strip htstrip
  have hsstore : s.store = filledLate.store := store_eq_of_strip hsstrip
  refine ⟨t, s, s', (hfull.trans hgets).trans ht, hs, ?_, ?_, 5, {}, ⟨0, 2⟩, hs', ?_, ?_, ?_⟩
  · rw [htstore]
    decide +kernel
  · rw [hsstore]
    decide +kernel
  · rw [← unstored_strip, hsstrip, unstored_strip]
    decide +kernel
  · rw [hsstore]
    decide +kernel
  · rw [hsstore]
    decide +kernel

end Server

end Twemcache
