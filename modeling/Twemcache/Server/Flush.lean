import Twemcache.Server.LruOrder
import Twemcache.Server.Refine

/-!
# Flushing everything

`flush_all` writes `oldest_live` and then unlinks the recent end of each lru queue; older items stay
linked and are recognised as dead by their access times.  `item_touch` rewrites the access time: a
connection that has looked an item up before the flush, and touches it afterwards, brings it back.

## Main definitions

* `Served` : an item is not waiting to be stored.
* `Gone` : an item cannot be seen since a flush.
* `Calm` : a step does not touch an item that has been flushed.

## Main results

* `Store.Guarded.itemFlushExpired_lt` : what is linked after `item_flush_expired` is older than
  `oldest_live`.
* `Gone.step` : a calm step brings nothing back.
* `flush_holds` : without touches of flushed items, nothing that was linked before a flush is
  returned after it.
-/

namespace Twemcache

namespace Store

variable {cfg : Config} {sc : Scope} {s s' : Store} {p q : ItemPtr} {held held' : List ItemPtr}
  {g m a : ℕ} {P : ℕ → Prop}

/-! ### The eager part of a flush -/

/-- The loop over one queue goes on until an item is older than `oldest_live`. -/
theorem flushQueue_lt {l : List ItemPtr}
    (hsorted : l.Pairwise fun p q => (s.items q).atime ≤ (s.items p).atime)
    (hq : (s.flushQueue cfg l).Linked cfg q) :
    s.Linked cfg q ∧ (s.flushQueue cfg l).items q = s.items q ∧
        (q ∈ l → (s.items q).atime < s.oldestLive) := by
  induction l generalizing s with
  | nil => exact ⟨hq, rfl, fun hmem => absurd hmem List.not_mem_nil⟩
  | cons p ps ih =>
    rw [List.pairwise_cons] at hsorted
    unfold flushQueue at hq ⊢
    split_ifs at hq ⊢ with hold
    · refine ⟨hq, rfl, fun hmem => ?_⟩
      rcases List.mem_cons.1 hmem with rfl | hmem
      · exact hold
      · exact (hsorted.1 q hmem).trans_lt hold
    · have hlive : (s.itemUnlink cfg p).oldestLive = s.oldestLive :=
        congrArg Env.oldestLive (itemUnlink_env p)
      have hsorted' : ps.Pairwise fun x y =>
          ((s.itemUnlink cfg p).items y).atime ≤ ((s.itemUnlink cfg p).items x).atime := by
        simpa only [itemUnlink_atime] using hsorted.2
      obtain ⟨hlinked, hitem, hlt⟩ := ih hsorted' hq
      obtain ⟨hlq, hqp⟩ := linked_itemUnlink.1 hlinked
      rw [itemUnlink_items_of_ne hqp] at hitem hlt
      refine ⟨hlq, hitem, fun hmem => ?_⟩
      rw [← hlive]
      exact hlt ((List.mem_cons.1 hmem).resolve_left hqp)

/-- The loop over the classes. -/
theorem Guarded.flushQueues_lt (ids : List ℕ) (h : Guarded cfg sc s held) (hl : s.LruOrdered)
    (hq : (ids.foldl (fun s id => s.flushQueue cfg (s.lruq id).reverse) s).Linked cfg q) :
    s.Linked cfg q ∧ (ids.foldl (fun s id => s.flushQueue cfg (s.lruq id).reverse) s).items q =
      s.items q ∧ ((s.items q).id ∈ ids → (s.items q).atime < s.oldestLive) := by
  induction ids generalizing s with
  | nil => exact ⟨hq, rfl, fun hmem => absurd hmem List.not_mem_nil⟩
  | cons id ids ih =>
    have hpath : Path cfg sc (s, held) (s.flushQueue cfg (s.lruq id).reverse, held) := by
      simpa using h.path_flushQueues [id]
    have hlive := (hpath.later h).oldestLive
    obtain ⟨hlinked, hitem, hlt⟩ := ih (hpath.guarded h) (hpath.lruOrdered h hl) hq
    obtain ⟨hlq, hitem', hlt'⟩ := flushQueue_lt (List.pairwise_reverse.2 (hl.sorted id)) hlinked
    refine ⟨hlq, hitem.trans hitem', fun hmem => ?_⟩
    rcases List.mem_cons.1 hmem with heq | hmem
    · exact hlt' (List.mem_reverse.2 (h.wf.mem_lruq_iff.2 ⟨hlq.1, heq, hlq.2⟩))
    · rw [hitem', hlive] at hlt
      exact hlt hmem

/-- The loop over the classes meets the class of every chunk. -/
theorem mem_classes (h : s.Wf cfg) (hq : s.Active cfg q) :
    (s.items q).id ∈ List.range' slabclassMinId slabclassMaxId := by
  have hvalid : cfg.ValidId (s.items q).id := by
    have hid : (s.items q).id = (s.slabs q.slab).id := Shape.Wf.item_id h q hq
    rw [hid]
    exact Shape.Wf.slab_id h q.slab hq.1
  have hmax := cfg.maxId_le
  refine List.mem_range'_1.2 ⟨hvalid.1, ?_⟩
  have hle := hvalid.2
  simp only [slabclassMinId]
  omega

/-- **What is linked after `item_flush_expired` is older than `oldest_live`.** -/
theorem Guarded.itemFlushExpired_lt (h : Guarded cfg sc s held) (hl : s.LruOrdered)
    (h0 : s.oldestLive ≠ 0) (hq : (s.itemFlushExpired cfg).Linked cfg q) :
    s.Linked cfg q ∧ (s.itemFlushExpired cfg).items q = s.items q ∧
        (s.items q).atime < s.oldestLive := by
  unfold itemFlushExpired at hq ⊢
  rw [if_neg h0] at hq ⊢
  obtain ⟨hlq, hitem, hlt⟩ := h.flushQueues_lt _ hl hq
  exact ⟨hlq, hitem, hlt (mem_classes h.wf hlq.1)⟩

/-! ### What primitives do to a flushed item -/

/-- Seen as number `g`, the item is not waiting to be linked, and if it is linked its access time is
such that `P`. -/
structure Doomed (cfg : Config) (sc : Scope) (q : ItemPtr) (g : ℕ) (P : ℕ → Prop) (s : Store)
    (held : List ItemPtr) :
    Prop where
  /-- It is not linked by the step. -/
  stored : s.Linked cfg q ∨ q ∈ held → (s.items q).gen = g → ¬ sc.link q
  /-- Its access time. -/
  past : s.Linked cfg q → (s.items q).gen = g → P (s.items q).atime

theorem Prim.doomed (hs : Prim cfg sc (s, held) (s', held')) (h : Guarded cfg sc s held)
    (hg : g < sc.start) (htouch : ¬ sc.touch q) (hd : Doomed cfg sc q g P s held) :
    Doomed cfg sc q g P s' held' := by
  have hc := hs.change h
  constructor
  · intro hseen hgen
    -- what is seen now was seen before, as no new item has the number
    have hseen' : (s'.Linked cfg q ∨ q ∈ held) := by
      rcases hseen with hl | hmem
      · exact .inl hl
      · rcases hs.held_cases hmem with hmem | hl | ⟨it, key, dataflags, exptime, nbyte, hitem, -⟩
        · exact .inr hmem
        · exact .inl hl
        · -- a new item has a later number
          have hstart := h.start_le
          have hnew : (allocItem cfg it key dataflags exptime nbyte s.nalloc).gen = s.nalloc := by
            simp [allocItem]
          rw [hitem, hnew] at hgen
          omega
    have hre := hc.restamped hseen'
    exact hd.stored hre.seen (hre.gen.symm.trans hgen)
  · intro hl hgen
    -- only a touch or a link renews the time of access, and neither is of this item
    have hre := hc.restamped (.inl hl)
    have hgen' : (s.items q).gen = g := hre.gen.symm.trans hgen
    cases hc with
    | quiet hlinked hcontent htime hcas =>
      rw [htime q (.inl hl)]
      exact hd.past (hlinked q hl) hgen'
    | touch p hlp hheld hsc hold hitem honly hcas =>
      have hqp : q ≠ p := fun hqp => htouch (hqp ▸ hsc)
      rw [honly.items q hqp]
      exact hd.past ((honly.linked q hqp).1 hl) hgen'
    | link p hlp hheld hsc hitem honly hcas =>
      have hqp : q ≠ p := by
        rintro rfl
        rcases hsc with hsc | hsc
        · exact hd.stored (.inr hheld) hgen' hsc
        · omega
      rw [honly.items q hqp]
      exact hd.past ((honly.linked q hqp).1 hl) hgen'
    | write p f hlp hheld hnew hf hitem honly hcas =>
      have hqp : q ≠ p := by
        rintro rfl
        have hlf := hl.2
        rw [hitem, hf.linked, hlp] at hlf
        cases hlf
      rw [honly.items q hqp]
      exact hd.past ((honly.linked q hqp).1 hl) hgen'
    | annex p prepend bytes hlp hheld hsc hid hralign hitem honly hcas =>
      by_cases hqp : q = p
      · subst hqp
        have htime : (s'.items q).atime = (s.items q).atime := by
          simp [hitem, annexItem, Item.write]
        exact htime ▸ hd.past hlp hgen'
      · rw [honly.items q hqp]
        exact hd.past ((honly.linked q hqp).1 hl) hgen'
    | delta p buf hlp hheld hsc hlen hitem honly hcas =>
      by_cases hqp : q = p
      · subst hqp
        have htime : (s'.items q).atime = (s.items q).atime := by
          simp [hitem, deltaItem, Item.write]
        exact htime ▸ hd.past hlp hgen'
      · rw [honly.items q hqp]
        exact hd.past ((honly.linked q hqp).1 hl) hgen'

theorem Path.doomed (hs : Path cfg sc (s, held) (s', held')) (h : Guarded cfg sc s held)
    (hg : g < sc.start) (htouch : ¬ sc.touch q) (hd : Doomed cfg sc q g P s held) :
    Doomed cfg sc q g P s' held' :=
  (hs.induction (I := Doomed cfg sc q g P) h hd fun _ _ _ _ hguard hI hprim _ =>
    hprim.doomed hguard hg htouch hI).2

/-- An item that was last used at `a` is flushed, or will be by `m`. -/
def FlushedBy (s : Store) (m a : ℕ) : Prop :=
  s.oldestLive ≠ 0 ∧ (s.oldestLive ≤ s.now ∨ s.oldestLive ≤ m) ∧ a ≤ s.oldestLive

theorem FlushedBy.later (h : s.FlushedBy m a) (hlive : s'.oldestLive = s.oldestLive)
    (hnow : s.now ≤ s'.now) :
    s'.FlushedBy m a := by
  rw [FlushedBy, hlive]
  exact ⟨h.1, h.2.1.imp_left fun hle => hle.trans hnow, h.2.2⟩

theorem flushed_iff : s.flushed p = true ↔
    s.oldestLive ≠ 0 ∧ s.oldestLive ≤ s.now ∧ (s.items p).atime ≤ s.oldestLive := by
  rw [flushed, decide_eq_true_eq]

/-- Once its moment has come, such an item is flushed. -/
theorem FlushedBy.flushed (h : s.FlushedBy m (s.items p).atime) (hm : m ≤ s.now) :
    s.flushed p = true :=
  flushed_iff.2 ⟨h.1, h.2.1.elim id fun hle => hle.trans hm, h.2.2⟩

/-! ### Touching -/

theorem linked_itemTouch (hp : p.slab ∈ s.slabLruq) :
    (s.itemTouch cfg p).Linked cfg q ↔ s.Linked cfg q := by
  rcases itemTouch_eq (s := s) cfg p with heq | ⟨-, -, heq⟩
  · rw [heq]
  · have hk : Keeps s (s.touchBare p) :=
      ⟨fun _ => rfl, rfl, fun _ => Iff.rfl, fun _ => rfl, fun _ => rfl⟩
    rw [heq]
    refine (hk.trans (keeps_slabLruqTouch ((hk.slabLruq _).2 hp) false)).linked ?_
    by_cases hqp : q = p <;> simp [hqp, touchBare]

theorem itemTouch_gen (cfg : Config) (p q : ItemPtr) :
    ((s.itemTouch cfg p).items q).gen = (s.items q).gen := by
  rcases itemTouch_eq (s := s) cfg p with heq | ⟨-, -, heq⟩
  · rw [heq]
  · rw [heq, slabLruqTouch_items]
    by_cases hqp : q = p <;> simp [hqp, touchBare]

/-- An access time changes only if the item is linked and was not used within the last minute. -/
theorem itemTouch_atime (cfg : Config) (p q : ItemPtr) :
    ((s.itemTouch cfg p).items q).atime = (s.items q).atime ∨
      q = p ∧ (s.items p).flags.linked = true ∧ ¬ (s.items p).atime ≥ s.ago itemUpdateInterval ∧
        ((s.itemTouch cfg p).items q).atime = s.now := by
  rcases itemTouch_eq (s := s) cfg p with heq | ⟨hl, hold, heq⟩
  · exact .inl (by rw [heq])
  · rw [heq, slabLruqTouch_items]
    by_cases hqp : q = p
    · exact .inr ⟨hqp, hl, hold, by simp [hqp, touchBare]⟩
    · exact .inl (by simp [hqp, touchBare])

theorem itemTouch_env (cfg : Config) (p : ItemPtr) : (s.itemTouch cfg p).env = s.env := by
  rcases itemTouch_eq (s := s) cfg p with heq | ⟨-, -, heq⟩
  · rw [heq]
  · rw [heq]
    exact slabLruqTouch_env (s := s.touchBare p) p.slab false

/-- A linked item that has been flushed is not returned. -/
theorem Wf.itemGet_ne_of_flushed (h : s.Wf cfg) (key : Key)
    (hfl : s.Linked cfg p → s.flushed p = true) :
    (s.itemGet cfg key).1 ≠ some p := by
  rcases h.itemGet_cases key with ⟨-, heq⟩ | ⟨q, hq, -, ⟨-, heq⟩ | ⟨hdead, heq⟩⟩
  · simp [heq]
  · simp [heq]
  · rw [heq]
    intro hqp
    obtain rfl := Option.some.inj hqp
    simp [dead, hfl hq] at hdead

end Store

namespace Server

variable {cfg : Config} {s s' t : Server} {l : Label} {a : Answer} {c : ℕ} {q p : ItemPtr} {g m : ℕ}

/-! ### What runs maintain -/

/-- What is true in every state of a run. -/
structure Based (cfg : Config) (s : Server) : Prop where
  /-- The invariant. -/
  inv : s.Inv cfg
  /-- Items have numbers. -/
  stamped : s.store.Stamped cfg s.held
  /-- The lru queues are in order. -/
  ordered : s.store.LruOrdered
  /-- The state is sound. -/
  sound : s.Sound
  /-- The server was started two seconds ago. -/
  started : 2 ≤ s.store.now

/-- The clock does not go back. -/
theorem Effect.now_le (he : Effect cfg s l s') : s.store.now ≤ s'.store.now := by
  cases he with
  | path o base held' hg hp hperm hbase => exact (hp.later hg).now.ge
  | write c p f hf hmem heq => rw [heq]; exact le_rfl
  | env hshape hitems hslabs hlru hbooks hcas hnalloc hrefs hnow hlive => exact hnow

theorem Effect.nalloc_le (he : Effect cfg s l s') : s.store.nalloc ≤ s'.store.nalloc := by
  cases he with
  | path o base held' hg hp hperm hbase => exact (hp.later hg).nalloc
  | write c p f hf hmem heq => rw [heq]; exact le_rfl
  | env hshape hitems hslabs hlru hbooks hcas hnalloc hrefs hnow hlive => exact hnalloc.ge

theorem Based.step (h : Based cfg s) (hs : s.step cfg l = some (a, s')) (hno : NoWrap s l s') :
    Based cfg s' := by
  obtain ⟨heff, hinv⟩ := h.inv.step hs hno
  exact ⟨hinv, heff.stamped h.inv h.stamped, heff.lruOrdered h.inv h.ordered, (h.sound.step hs).2,
    h.started.trans heff.now_le⟩

/-- A connection has an item to store only if it had it before, or has just allocated it. -/
theorem gen_unstored_of_step (h : s.Inv cfg) (hs : s.step cfg l = some (a, s'))
    (hr : ⟨c, .item false, p⟩ ∈ s'.refs) :
    ⟨c, .item false, p⟩ ∈ s.refs ∨ (s'.store.items p).gen = s.store.nalloc := by
  rcases unstored_of_step hs hr rfl with hold | ⟨key, dataflags, exptime, nbyte, ch, hid,
    hsome, hstore⟩
  · exact .inl hold
  · right
    rw [hstore]
    rcases Store.itemAlloc_cases h.inv.wf h.inv.full (Store.itemSlabid_valid hid) ch key dataflags
        exptime nbyte with
      heq | ⟨x, u, hh, heq⟩
    · rw [heq] at hsome
      cases hsome
    · rw [heq] at hsome ⊢
      obtain rfl := Option.some.inj hsome
      have hnalloc : u.nalloc = s.store.nalloc := congrArg Env.nalloc hh.env
      simp [Store.allocItem, hnalloc]

/-- Number `g` of the chunk `q` has been handed out, and is not waiting to be stored. -/
structure Served (s : Server) (q : ItemPtr) (g : ℕ) : Prop where
  /-- The number has been handed out. -/
  gen_lt : g < s.store.nalloc
  /-- It is not waiting. -/
  stored : ∀ c, ⟨c, .item false, q⟩ ∈ s.refs → (s.store.items q).gen ≠ g

/-- A linked item is not waiting to be stored. -/
theorem Based.served (h : Based cfg s) (hq : s.store.Linked cfg q) :
    Served s q (s.store.items q).gen where
  gen_lt := h.stamped.gen q (.inl hq)
  stored c hc := by
    have hl := (h.inv.unstored _ hc rfl).1
    rw [hq.2] at hl
    cases hl

theorem Served.step (h : Served s q g) (hb : Based cfg s) (hs : s.step cfg l = some (a, s'))
    (hno : NoWrap s l s') :
    Served s' q g where
  gen_lt := h.gen_lt.trans_le (hb.inv.step hs hno).1.nalloc_le
  stored c hc := by
    have heff := (hb.inv.step hs hno).1
    rcases gen_unstored_of_step hb.inv hs hc with hold | hnew
    · have hheld : q ∈ s.held := List.mem_map_of_mem (f := Ref.ptr) hold
      have hheld' : q ∈ s'.held := List.mem_map_of_mem (f := Ref.ptr) hc
      rw [(heff.heldKept hb.stamped q hheld hheld').2.1]
      exact h.stored c hold
    · rw [hnew]
      exact h.gen_lt.ne'

/-! ### After a flush -/

/-- Number `g` of the chunk `q` has been flushed, for moment `m`: if it is linked it is flushed by
then. -/
structure Gone (cfg : Config) (s : Server) (q : ItemPtr) (g m : ℕ) : Prop where
  /-- It is not waiting to be stored. -/
  served : Served s q g
  /-- It is flushed by then. -/
  past : s.store.Linked cfg q → (s.store.items q).gen = g →
    s.store.FlushedBy m (s.store.items q).atime

/-- A step does not move an item that has been flushed. -/
def Calm (s : Server) : Label → Prop
  | .touch _ p => s.store.flushed p = true → (s.store.items p).flags.linked = true →
      (s.store.items p).atime ≥ s.store.ago itemUpdateInterval
  | _ => True

/-- Once its moment has come, the item is not returned. -/
theorem Gone.itemGet_ne (h : Gone cfg s q g m) (hb : Based cfg s) (hm : m ≤ s.store.now) (key : Key)
    (hget : (s.store.itemGet cfg key).1 = some q) : (s.store.items q).gen ≠ g := fun hgen =>
  hb.inv.inv.wf.itemGet_ne_of_flushed key (fun hl => (h.past hl hgen).flushed hm) hget

/-- A touch moves the item only while the flush is pending. -/
theorem Gone.past_touch (h : Gone cfg s q g m) (hb : Based cfg s)
    (hs : s.step cfg (.touch c p) = some (a, s')) (hcalm : s.Calm (.touch c p))
    (hl : s'.store.Linked cfg q) (hgen : (s'.store.items q).gen = g) :
    s.store.FlushedBy m (s'.store.items q).atime := by
  have hmem : ⟨c, .ilist, p⟩ ∈ s.refs ∧ s'.store = s.store.itemTouch cfg p := by
    simp only [Server.step] at hs
    split_ifs at hs with hmem
    exact ⟨hmem, (congrArg store (Prod.mk.inj (Option.some.inj hs)).2).symm⟩
  obtain ⟨hmem, hstore⟩ := hmem
  rw [hstore] at hl hgen ⊢
  have hactive := hb.inv.inv.active p (List.mem_map_of_mem (f := Ref.ptr) hmem)
  rw [Store.linked_itemTouch hactive.1] at hl
  rw [Store.itemTouch_gen] at hgen
  have hpast := h.past hl hgen
  rcases Store.itemTouch_atime (s := s.store) cfg p q with heq | ⟨rfl, hlinked, hold, heq⟩
  · rw [heq]
    exact hpast
  · -- the item moves: it has not been flushed, so that the flush is still pending
    rw [heq]
    have hpending : ¬ s.store.oldestLive ≤ s.store.now := fun hle =>
      hold (hcalm (Store.flushed_iff.2 ⟨hpast.1, hle, hpast.2.2⟩) hlinked)
    exact ⟨hpast.1, hpast.2.1, (Nat.lt_of_not_le hpending).le⟩

/-- **A step that is not a flush brings nothing back**, if it does not touch a flushed item. -/
theorem Gone.step (h : Gone cfg s q g m) (hb : Based cfg s) (hs : s.step cfg l = some (a, s'))
    (hno : NoWrap s l s') (hflush : isFlush l = false) (hcalm : s.Calm l) : Gone cfg s' q g m := by
  have heff := (hb.inv.step hs hno).1
  have hlive := heff.oldestLive hflush
  have hnow := heff.now_le
  refine ⟨h.served.step hb hs hno, fun hl hgen => Store.FlushedBy.later ?_ hlive hnow⟩
  by_cases htouch : ∃ c p, l = .touch c p
  · obtain ⟨c, p, rfl⟩ := htouch
    exact h.past_touch hb hs hcalm hl hgen
  · cases heff with
    | path o base held' hg hp hperm hbase =>
      have hnotouch : ¬ (s.scope cfg l o base).touch q := by
        intro htouched
        cases l with
        | touch c p => exact htouch ⟨c, p, rfl⟩
        | _ => cases htouched
      have hstart :
          Store.Doomed cfg (s.scope cfg l o base) q g (s.store.FlushedBy m) s.store s.held :=
        ⟨fun _ hgen ⟨c, hc⟩ => h.served.stored c hc hgen, h.past⟩
      exact (hp.doomed hg h.served.gen_lt hnotouch hstart).past hl hgen
    | write c p f hf hmem heq =>
      subst heq
      have hl' := (linked_of_shape cfg (Store.shape_setItem_of_inert hf.toInert) q).1 hl
      have hqp : q ≠ p := by
        rintro rfl
        have hlinked := (hb.inv.unstored _ hmem rfl).1
        rw [hl'.2] at hlinked
        cases hlinked
      simp only [Store.setItem, Function.update_of_ne hqp] at hgen ⊢
      exact h.past hl' hgen
    | env hshape hitems hslabs hlru hbooks hcas hnalloc hrefs hnow hlive =>
      rw [hitems] at hgen ⊢
      exact h.past ((linked_of_shape cfg hshape q).1 hl) hgen

/-- **A flush**: after `item_flush_expired` everything that is linked is flushed by its moment. -/
theorem Gone.of_flush (hb : Based cfg s) (hserved : Served s q g) (h0 : s.store.oldestLive ≠ 0)
    (hreached : s.store.Linked cfg q → (s.store.items q).gen = g →
      s.store.oldestLive ≤ s.store.now ∨ s.store.oldestLive ≤ m)
    (hs : s.step cfg .flushExpired = some (a, s')) (hno : NoWrap s .flushExpired s') :
    Gone cfg s' q g m := by
  have heff := (hb.inv.step hs hno).1
  have hlive := heff.oldestLive rfl
  have hnow := heff.now_le
  refine ⟨hserved.step hb hs hno, fun hl hgen => Store.FlushedBy.later ?_ hlive hnow⟩
  obtain ⟨-, rfl⟩ := Prod.mk.inj (Option.some.inj hs)
  obtain ⟨hlq, hitem, hlt⟩ :=
    (hb.inv.guarded .flushExpired none).itemFlushExpired_lt hb.ordered h0 hl
  rw [hitem] at hgen ⊢
  exact ⟨h0, hreached hlq hgen, hlt.le⟩

/-! ### A flush between lookup and touch -/

variable {now evictOpt : ℕ} {slabs : ℕ → Slab} {items : ItemPtr → Item}

theorem based_init (h2 : 2 ≤ now) (hnow : now < 2 ^ 32) :
    Based cfg (init cfg now evictOpt slabs items) where
  inv := inv_init
  stamped := stamped_init
  ordered := ⟨fun _ => List.Pairwise.nil, fun _ _ hp => absurd hp List.not_mem_nil⟩
  sound := sound_init hnow
  started := h2

theorem Based.of_reaches {C : Server → Label → Server → Prop} (h : Based cfg s)
    (hr : (server cfg).Reaches C s t) (hC : ∀ s l s', C s l s' → NoWrap s l s') : Based cfg t :=
  hr.invariant (I := Based cfg) h fun _ _ _ _ hI hst hc => hI.step hst (hC _ _ _ hc)

/-- Steps that are calm, without another flush. -/
def CalmStep (s : Server) (l : Label) (s' : Server) : Prop := NoFlush s l s' ∧ s.Calm l

/-- From `s` on there is one `flush_all`: it writes `oldest_live`, later it unlinks items, and then
all steps are calm. In between everybody does what they want. -/
def OneFlush (cfg : Config) (s t : Server) : Prop :=
  ∃ a s₁ s₂ b s₃, (s.step cfg (.flushSet none) = some (a, s₁) ∧ NoWrap s (.flushSet none) s₁) ∧
    (server cfg).Reaches NoFlush s₁ s₂ ∧
      (s₂.step cfg .flushExpired = some (b, s₃) ∧ NoWrap s₂ .flushExpired s₃) ∧
    (server cfg).Reaches CalmStep s₃ t

/-- What an immediate flush writes. -/
theorem ago_one (h2 : 2 ≤ s.store.now) (hnow : s.store.now < 2 ^ 32) :
    s.store.ago 1 = s.store.now - 1 := by
  rw [Store.ago]
  omega

/-- **A flush holds**, as long as nobody touches an item that has been flushed: no item that was
linked before it is returned by an `item_get` after it. -/
theorem flush_holds (h2 : 2 ≤ now) (hnow : now < 2 ^ 32)
    (hr : (server cfg).Reaches NoWrap (init cfg now evictOpt slabs items) s)
    (hq : s.store.Linked cfg q) (hrun : OneFlush cfg s t) (key : Key) :
    ¬ ((t.store.itemGet cfg key).1 = some q ∧ (t.store.items q).gen = (s.store.items q).gen) := by
  obtain ⟨a, s₁, s₂, b, s₃, ⟨hset, hno₁⟩, hbetween, ⟨hexpired, hno₃⟩, hafter⟩ := hrun
  have hb : Based cfg s := (based_init h2 hnow).of_reaches hr fun _ _ _ h => h
  have hserved := (hb.served hq).step hb hset hno₁
  have hb₁ := hb.step hset hno₁
  -- `oldest_live` is one second ago, until the end
  have hstore : s₁.store = { s.store with oldestLive := s.store.ago 1 } :=
    (congrArg store (Prod.mk.inj (Option.some.inj hset)).2).symm
  have hlive₁ : s₁.store.oldestLive = s.store.now - 1 := by
    rw [hstore, ← ago_one hb.started hb.sound.now]
  have hnow₁ : s₁.store.now = s.store.now := by rw [hstore]
  have hstarted := hb.started
  obtain ⟨hb₂, hserved₂, hlive₂, hle₂⟩ : Based cfg s₂ ∧ Served s₂ q (s.store.items q).gen ∧
      s₂.store.oldestLive = s.store.now - 1 ∧ s.store.now ≤ s₂.store.now := by
    refine hbetween.invariant (I := fun u => Based cfg u ∧ Served u q (s.store.items q).gen ∧
      u.store.oldestLive = s.store.now - 1 ∧ s.store.now ≤ u.store.now)
        ⟨hb₁, hserved, hlive₁, hnow₁.ge⟩ ?_
    intro u l r v ⟨hbu, hsu, hlu, hnu⟩ hst hc
    have heff := (hbu.inv.step hst hc.1).1
    exact ⟨hbu.step hst hc.1, hsu.step hbu hst hc.1, (heff.oldestLive hc.2).trans hlu,
      hnu.trans heff.now_le⟩
  have hgone : Gone cfg s₃ q (s.store.items q).gen 0 :=
    .of_flush hb₂ hserved₂ (by omega) (fun _ _ => .inl (by omega)) hexpired hno₃
  obtain ⟨hbt, hgt⟩ :=
    hafter.invariant (I := fun u => Based cfg u ∧ Gone cfg u q (s.store.items q).gen 0)
    ⟨hb₂.step hexpired hno₃, hgone⟩ fun u l r v hu hst hc =>
      ⟨hu.1.step hst hc.1.1, hu.2.step hu.1 hst hc.1.1 hc.1.2 hc.2⟩
  exact fun hsame => hgt.itemGet_ne hbt (Nat.zero_le _) key hsame.1 hsame.2

/-- An item is stored at time 100, and looked up at time 200. -/
def lookedUp : Server :=
  (server .tiny).exec (fun s l s' => decide (NoWrap s l s')) (.tiny evictLru)
    [.tick 100, .alloc 0 [97] 0 0 1 {}, .fill 0 0 [120, 13, 10], .set 0 {}, .removeItem 0,
      .tick 200, .get 1 [97]]

theorem reaches_lookedUp : (server .tiny).Reaches NoWrap (.tiny evictLru) lookedUp :=
  (Machine.reaches_exec (by decide +kernel)).mono fun _ _ _ => of_decide_eq_true

theorem linked_lookedUp : lookedUp.store.Linked .tiny ⟨0, 0⟩ :=
  ⟨⟨by decide +kernel, by decide +kernel⟩, by decide +kernel⟩

/-- The reference is given back without a touch. -/
theorem flush_holds_lookedUp : ∃ t : Server, OneFlush .tiny lookedUp t ∧
    ¬ ((t.store.itemGet .tiny [97]).1 = some ⟨0, 0⟩ ∧
      (t.store.items ⟨0, 0⟩).gen = (lookedUp.store.items ⟨0, 0⟩).gen) := by
  obtain ⟨s₁, hset⟩ : ∃ s₁, lookedUp.step .tiny (.flushSet none) = some (.done, s₁) := ⟨_, rfl⟩
  obtain ⟨s₂, hexpired⟩ : ∃ s₂, s₁.step .tiny .flushExpired = some (.done, s₂) := ⟨_, rfl⟩
  have hover : s₁.store.overflow = false ∧ s₂.store.overflow = false := by
    obtain ⟨-, rfl⟩ := Prod.mk.inj (Option.some.inj hset)
    obtain ⟨-, rfl⟩ := Prod.mk.inj (Option.some.inj hexpired)
    decide +kernel
  have hgets : (s₂.step .tiny (.remove 1 ⟨0, 0⟩)).isSome = true := by
    obtain ⟨-, rfl⟩ := Prod.mk.inj (Option.some.inj hset)
    obtain ⟨-, rfl⟩ := Prod.mk.inj (Option.some.inj hexpired)
    decide +kernel
  obtain ⟨⟨a, t⟩, hremove⟩ := Option.isSome_iff_exists.1 hgets
  have hover' : t.store.overflow = false := by
    have hmap : (s₂.step .tiny (.remove 1 ⟨0, 0⟩)).map (fun x => x.2.store.overflow) =
        some false := by
      obtain ⟨-, rfl⟩ := Prod.mk.inj (Option.some.inj hset)
      obtain ⟨-, rfl⟩ := Prod.mk.inj (Option.some.inj hexpired)
      decide +kernel
    rw [hremove] at hmap
    exact Option.some.inj hmap
  have hrun : OneFlush .tiny lookedUp t :=
    ⟨_, s₁, s₁, _, s₂, ⟨hset, hover.1⟩, .refl, ⟨hexpired, hover.2⟩,
    Relation.ReflTransGen.single ⟨.remove 1 ⟨0, 0⟩, a, hremove, ⟨hover', rfl⟩, trivial⟩⟩
  exact ⟨t, hrun, flush_holds (by decide) (by decide) reaches_lookedUp linked_lookedUp hrun [97]⟩

/-- The connection touches the item after the flush, and it is back. -/
theorem flush_undone : (server .tiny).Reaches NoWrap (.tiny evictLru) lookedUp ∧
    lookedUp.store.Linked .tiny ⟨0, 0⟩ ∧ ∃ t : Server,
      (server .tiny).run (fun _ _ _ => true) lookedUp
        [.flushSet none, .flushExpired, .touch 1 ⟨0, 0⟩] = some t ∧
      (t.store.itemGet .tiny [97]).1 = some ⟨0, 0⟩ ∧
      (t.store.items ⟨0, 0⟩).gen = (lookedUp.store.items ⟨0, 0⟩).gen := by
  refine ⟨reaches_lookedUp, linked_lookedUp, (server .tiny).exec (fun _ _ _ => true) lookedUp
    [.flushSet none, .flushExpired, .touch 1 ⟨0, 0⟩], Machine.run_eq_exec (by decide +kernel), ?_,
      ?_⟩
  · decide +kernel
  · decide +kernel

end Server

end Twemcache
