import Twemcache.Store.Gauge
import Twemcache.Server.Ownership

/-!
# The gauges of a running server

In every run in which no slab count wraps, `item_curr`, `item_free` and `slab_curr` are the numbers
of linked items, of free items and of slabs of their class (`gauges_count`), and `data_curr` and
`data_value_curr` are the sizes of the linked items as long as no value is extended or shortened in
place (`gauges_weigh`).  A queue is what a walk along its links meets.

When the counts wrap, an item is put on its free queue while it is there, and the walk never ends
(`gauge_of_loop`).  An `append` in place makes an item larger that was weighed when it was linked
(`gauge_outgrown`).
-/

namespace Twemcache

namespace Store

variable (cfg : Config) (s : Store)

/-- The gauges of numbers are right. -/
structure Counted : Prop where
  /-- `item_curr` is the length of the lru queue. -/
  itemCurr : ∀ id, ∃ l, s.links.Queue (.lru id) l ∧ (s.gauges id).itemCurr = l.length
  /-- `item_free` is the length of the free queue. -/
  itemFree : ∀ id, ∃ l, s.links.Queue (.free id) l ∧ (s.gauges id).itemFree = l.length
  /-- `slab_curr` is the number of slabs of the class in the slab table. -/
  slabCurr : ∀ id, (s.gauges id).slabCurr = s.slabTable.countP fun sl => (s.slabs sl).id = id

/-- The gauges of sizes are right. -/
structure Weighed : Prop where
  /-- `data_curr` is the size of the linked items. -/
  dataCurr : ∀ id,
    (s.gauges id).dataCurr = ((s.lruq id).map fun p => (itemSize cfg (s.items p) : ℤ)).sum
  /-- `data_value_curr` is the length of their values. -/
  dataValueCurr : ∀ id, (s.gauges id).dataValueCurr =
    ((s.lruq id).map fun p => ((s.items p).nbyte : ℤ)).sum

/-- No number is off, and the links thread the queues. -/
structure Tallied : Prop where
  /-- Linked items. -/
  itemCurr : ∀ id, (s.drift cfg id).itemCurr = 0
  /-- Free items. -/
  itemFree : ∀ id, (s.drift cfg id).itemFree = 0
  /-- Slabs. -/
  slabCurr : ∀ id, (s.drift cfg id).slabCurr = 0
  /-- The links. -/
  threaded : s.Threaded

variable {cfg s} {s' : Store} {held : List ItemPtr}

theorem Tallied.counted (h : s.Tallied cfg) (hi : s.Inv cfg held) : s.Counted where
  itemCurr := fun id => ⟨s.lruq id, h.threaded (.lru id), sub_eq_zero.1 (h.itemCurr id)⟩
  itemFree :=
    fun id => ⟨(s.slabclass id).freeItemq, h.threaded (.free id), sub_eq_zero.1 (h.itemFree id)⟩
  slabCurr := fun id => by
    have htab : s.slabTable = List.range s.slabTable.length := Shape.Wf.table_eq hi.wf
    have hnd : s.slabTable.Nodup := htab ▸ List.nodup_range
    have hnd' : s.slabLruq.Nodup := Shape.Wf.slab_nodup hi.wf
    have hperm : s.slabLruq.Perm s.slabTable := (List.perm_ext_iff_of_nodup hnd' hnd).2 fun sl =>
      ⟨fun hsl => Shape.Wf.slab_mem hi.wf sl hsl, hi.full sl⟩
    rw [sub_eq_zero.1 (h.slabCurr id), tally, slabCount, hperm.countP_eq]

theorem CountAudit.tallied (ha : CountAudit cfg s s') (h : s.Tallied cfg) : s'.Tallied cfg where
  itemCurr := fun id => (ha.itemCurr id).trans (h.itemCurr id)
  itemFree := fun id => (ha.itemFree id).trans (h.itemFree id)
  slabCurr := fun id => (ha.slabCurr id).trans (h.slabCurr id)
  threaded := ha.threaded h.threaded

end Store

namespace Server

variable {cfg : Config} {now evictOpt : ℕ} {slabs : ℕ → Slab} {items : ItemPtr → Item}
  {s s' : Server} {l : Label}

/-- A step is a path of primitives, or it concerns neither queues nor gauges. -/
theorem Effect.path_or_audit (he : Effect cfg s l s') (hi : s.Inv cfg) :
    (∃ o base held', s.store.Guarded cfg (s.scope cfg l o base) s.held ∧
      Store.Path cfg (s.scope cfg l o base) (s.store, s.held) (s'.store, held')) ∨
    Store.Audit cfg s.store s'.store := by
  cases he with
  | path o base held' hg hp hperm hbase => exact .inl ⟨o, base, held', hg, hp⟩
  | write c p f hf hmem heq =>
    subst heq
    refine .inr (Store.audit_setItem fun ⟨id, hlru⟩ => ?_)
    have hl := (hi.inv.wf.mem_lruq_iff.1 hlru).2.2
    rw [(hi.unstored _ hmem rfl).1] at hl
    cases hl
  | env hshape hitems hslabs hlru hbooks hcas hnalloc hrefs hnow hlive =>
    refine .inr (Store.audit_congr hbooks.1 hbooks.2 hlru
      (fun _ _ _ => by rw [hitems]; exact ⟨rfl, rfl⟩) ?_ (congrArg Shape.slabLruq hshape)
      fun sl => by rw [hslabs])
    exact fun id => congrArg (fun sh : Shape => (sh.slabclass id).freeItemq) hshape

theorem Effect.countAudit (he : Effect cfg s l s') (hi : s.Inv cfg) :
    Store.CountAudit cfg s.store s'.store := by
  obtain ⟨o, base, held', hg, hp⟩ | ha := he.path_or_audit hi
  · exact hp.countAudit hg
  · exact ha.counts

/-- A step that changes the length of no linked value counts all that it does. -/
theorem Effect.audit (he : Effect cfg s l s') (hi : s.Inv cfg) (hsame : s.resized cfg l = false) :
    Store.Audit cfg s.store s'.store := by
  obtain ⟨o, base, held', hg, hp⟩ | ha := he.path_or_audit hi
  · exact hp.audit hg fun m n hsize => hsize hsame
  · exact ha

/-! ### Numbers -/

theorem tallied_init : (init cfg now evictOpt slabs items).store.Tallied cfg where
  itemCurr := fun _ => rfl
  itemFree := fun _ => rfl
  slabCurr := fun _ => rfl
  threaded := fun i => by cases i <;> exact ⟨rfl, rfl⟩

/-- **The gauges count.**  As long as no slab has more than 65535 references, in every reachable
state `item_curr` is the length of the lru queue, `item_free` the length of the free queue and
`slab_curr` the number of slabs of the class. -/
theorem gauges_count (h : (server cfg).Reaches NoWrap (init cfg now evictOpt slabs items) s) :
    s.store.Counted := by
  obtain ⟨hi, ht⟩ :=
    inv_init.run (I := fun s => s.store.Tallied cfg) tallied_init h (fun _ _ _ h => h)
    fun _ _ _ _ hi hI _ _ he => (he.countAudit hi).tallied hI
  exact ht.counted hi.inv

theorem gauges_count_tiny : ∃ s : Server, (server .tiny).Reaches NoWrap (.tiny evictLru) s ∧
    s.held.length = 2 ∧ s.store.Counted := by
  obtain ⟨s, hreach, hlen⟩ := reaches_tiny
  exact ⟨s, hreach, hlen, gauges_count hreach⟩

/-- An item that leads to itself is the end of every walk. -/
theorem not_queue_of_loop {t : Tailq ItemQueue ItemPtr} {q : ItemQueue} {p : ItemPtr}
    (hfirst : t.deref (.first q) = some p) (hnext : t.deref (.next p) = some p)
    (hprev : t.prev p = .first q) (l : List ItemPtr) : ¬ t.Queue q l := by
  intro h
  have hseg := h.seg
  have hnull := h.null
  cases l with
  | nil =>
    have hlast : .first q = t.last q := hseg
    rw [← hlast, hfirst] at hnull
    cases hnull
  | cons x xs =>
    obtain ⟨hx, -, hrest⟩ := hseg
    obtain rfl : p = x := Option.some.inj (hfirst.symm.trans hx)
    cases xs with
    | nil =>
      have hlast : .next p = t.last q := hrest
      rw [← hlast, hnext] at hnull
      cases hnull
    | cons y ys =>
      obtain ⟨hy, hback, -⟩ := hrest
      obtain rfl : p = y := Option.some.inj (hnext.symm.trans hy)
      rw [hprev] at hback
      cases hback

theorem step_remove {c : ℕ} {p : ItemPtr} (hp : ⟨c, .ilist, p⟩ ∈ s.refs) :
    (server cfg).step s (.remove c p) = some (s.giveBack ⟨c, .ilist, p⟩) := if_pos hp

/-- The store after `a` was read 65536 times, deleted, and released once. -/
def loopStore : Store :=
  ((acquired (tinyStored evictLru).store ⟨0, 0⟩ 65536).itemDelete .tiny [97]).2.itemRemove ⟨0, 0⟩

/-- A connection names `a` 65536 times in one request; `a` is deleted and then released once.  It
goes to the free queue for the second time, and a walk of the queue never ends. -/
theorem gauge_of_loop : ∃ s : Server, (server .tiny).Reaches Machine.Unguarded (.tiny evictLru) s ∧
    (s.store.gauges 1).itemFree = 2 ∧ ¬ s.store.Counted := by
  have hstore : (server .tiny).Reaches Machine.Unguarded (.tiny evictLru) (tinyStored evictLru) :=
    (Machine.reaches_exec (by decide +kernel)).mono fun _ _ _ _ => trivial
  have hgets := reaches_gets .tiny (s := tinyStored evictLru) [97] (p := ⟨0, 0⟩) 1
    (by decide +kernel) (by decide +kernel) (by decide +kernel) (by decide +kernel)
    (by decide +kernel) 65536
  have hdelete := (hstore.trans hgets).tail (l := .delete [97]) rfl trivial
  have hmem : (⟨1, .ilist, ⟨0, 0⟩⟩ : Ref) ∈ List.replicate 65536 ⟨1, .ilist, ⟨0, 0⟩⟩ ++
      (tinyStored evictLru).refs :=
    List.mem_append_left _ (List.mem_replicate.2 ⟨by decide, rfl⟩)
  have hloop : (server .tiny).Reaches Machine.Unguarded (.tiny evictLru) ⟨loopStore, _⟩ :=
    hdelete.tail (step_remove hmem) trivial
  have hfirst : loopStore.links.deref (.first (.free 1)) = some ⟨0, 0⟩ := by decide +kernel
  have hnext : loopStore.links.deref (.next ⟨0, 0⟩) = some ⟨0, 0⟩ := by decide +kernel
  have hprev : loopStore.links.prev ⟨0, 0⟩ = .first (.free 1) := by decide +kernel
  refine ⟨_, hloop, by decide +kernel, fun hc => ?_⟩
  obtain ⟨l, hq, -⟩ := hc.itemFree 1
  exact not_queue_of_loop hfirst hnext hprev l hq

/-! ### Sizes -/

/-- Steps in which no slab count wraps and no linked value changes its length in place. -/
def Steady (cfg : Config) (s : Server) (l : Label) (s' : Server) : Prop :=
  NoWrap s l s' ∧ s.resized cfg l = false

instance (cfg : Config) (s : Server) (l : Label) (s' : Server) : Decidable (Steady cfg s l s') :=
  inferInstanceAs (Decidable (_ ∧ _))

/-- **The gauges weigh.**  As long as no slab has more than 65535 references, no `append` or
`prepend` puts bytes next to a value in place, and no `incr` or `decr` puts a shorter number in the
place of a value, in every reachable state `data_curr` is the size of the linked items and
`data_value_curr` the length of their values. -/
theorem gauges_weigh (h : (server cfg).Reaches (Steady cfg) (init cfg now evictOpt slabs items) s) :
    s.store.Weighed cfg := by
  have hzero : s.store.drift cfg = fun _ => ⟨0, 0, 0, 0, 0⟩ :=
    (inv_init.run (I := fun s => s.store.drift cfg = fun _ => ⟨0, 0, 0, 0, 0⟩) rfl h
      (fun _ _ _ h => h.1)
      fun _ _ _ _ hi hI _ hc he => (he.audit hi hc.2).drift.trans hI).2
  exact ⟨fun id => sub_eq_zero.1 (congrArg Gauges.dataCurr (congrFun hzero id)),
    fun id => sub_eq_zero.1 (congrArg Gauges.dataValueCurr (congrFun hzero id))⟩

/-- `a` is stored with the value `5` and incremented in place. -/
def countRun : List Label :=
  [.alloc 0 [97] 0 0 1 {}, .fill 0 0 [53, 13, 10], .set 0 {}, .removeItem 0, .delta [97] true 1 {}]

theorem gauges_weigh_count :
    ∃ s : Server, (server .tiny).Reaches (Steady .tiny) (.tiny evictLru) s ∧
    (s.store.gauges 1).dataValueCurr = 1 ∧ s.store.Weighed .tiny := by
  have hrun : ((server .tiny).run (fun s l s' => decide (Steady .tiny s l s')) (.tiny evictLru)
      countRun).map (fun s => (s.store.gauges 1).dataValueCurr) = some 1 := by decide +kernel
  obtain ⟨s, hs, hlen⟩ := Option.map_eq_some_iff.1 hrun
  have hreach := (Machine.reaches_of_run hs).mono fun _ _ _ => of_decide_eq_true
  exact ⟨s, hreach, hlen, gauges_weigh hreach⟩

/-- `a` is stored and extended in place. -/
def growRun : List Label :=
  storeRun ++ [.alloc 0 [97] 0 0 1 {}, .fill 0 0 [121, 13, 10], .annex 0 false {}, .removeItem 0]

/-- After an `append` in place the item is one byte larger than the gauges say. -/
theorem gauge_outgrown : ∃ s : Server, (server .tiny).Reaches Machine.Unguarded (.tiny evictLru) s ∧
    ¬ s.store.Weighed .tiny := by
  have hreach : (server .tiny).Reaches Machine.Unguarded (.tiny evictLru)
      ((server .tiny).exec (fun _ _ _ => true) (.tiny evictLru) growRun) :=
    (Machine.reaches_exec (by decide +kernel)).mono fun _ _ _ _ => trivial
  refine ⟨_, hreach, fun hw => ?_⟩
  have hgauge : ((((server .tiny).exec (fun _ _ _ => true) (.tiny evictLru) growRun).store).gauges
      1).dataValueCurr = 1 := by decide +kernel
  have hsum : ((((server .tiny).exec (fun _ _ _ => true) (.tiny evictLru) growRun).store.lruq 1).map
      fun p => ((((server .tiny).exec (fun _ _ _ => true) (.tiny evictLru) growRun).store.items
        p).nbyte :
        ℤ)).sum = 2 := by decide +kernel
  have hright := hw.dataValueCurr 1
  rw [hgauge, hsum] at hright
  cases hright

end Server

end Twemcache
