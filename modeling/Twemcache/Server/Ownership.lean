import Twemcache.Server.Inv

/-!
# Where chunks are, and who holds them

In every reachable state a chunk is in exactly one of four places, and the queues, the tables and
the counts agree on which (`chunks_conserved`).  An item that a connection holds is neither free nor
handed out again, and its slab is not evicted (`held_safe`).

Both rest on the 16-bit counts of slabs not wrapping.  They do wrap: a request line may name a
key 65536 times, after which the count of the slab is zero again while all of the references are
outstanding, and a `delete` then frees the item (`held_freed`).
-/

namespace Twemcache

/-- The places a chunk can be in. -/
inductive Place where
  /-- The current slab of its class, not handed out yet. -/
  | tail
  /-- The free queue of its class. -/
  | free
  /-- The hash table and the lru queue of its class. -/
  | linked
  /-- The hands of those who hold references to it. -/
  | referenced
  deriving DecidableEq, Repr

namespace Store

variable (cfg : Config) (s : Store)

/-- `p` is a chunk of an allocated slab. -/
def Chunk (p : ItemPtr) : Prop := p.slab ∈ s.slabTable ∧ p.idx < cfg.nitem (s.slabs p.slab).id

/-- `p` is in the given place. -/
def At (p : ItemPtr) : Place → Prop
  | .tail => ∃ q, (s.slabclass (s.slabs p.slab).id).freeItem = some q ∧ q.slab = p.slab ∧
      q.idx ≤ p.idx ∧
      q.idx + (s.slabclass (s.slabs p.slab).id).nfreeItem = cfg.nitem (s.slabs p.slab).id
  | .free => (s.items p).flags.slabbed = true ∧ (s.items p).refcount = 0 ∧
      (s.slabclass (s.slabs p.slab).id).freeItemq.count p = 1
  | .linked => (s.items p).flags.linked = true ∧ (s.lruq (s.slabs p.slab).id).count p = 1 ∧
      ∃ b, (s.assoc.list b).count p = 1 ∧ ∀ b', b' ≠ b → p ∉ s.assoc.list b'
  | .referenced => (s.items p).flags.linked = false ∧ (s.items p).flags.slabbed = false ∧
      0 < (s.items p).refcount

/-- Every chunk is in one place, and all books agree. -/
structure Conserved : Prop where
  /-- A chunk is in exactly one place. -/
  place : ∀ p, s.Chunk cfg p → ∃! pl, s.At cfg p pl
  /-- Lru queues hold linked chunks of their class, and nothing else. -/
  lruq : ∀ id, ∀ p ∈ s.lruq id, s.Chunk cfg p ∧ s.At cfg p .linked ∧ (s.slabs p.slab).id = id
  /-- Free queues hold free chunks of their class, and nothing else. -/
  freeq : ∀ id, ∀ p ∈ (s.slabclass id).freeItemq,
    s.Chunk cfg p ∧ s.At cfg p .free ∧ (s.slabs p.slab).id = id
  /-- The hash table holds linked chunks, and nothing else. -/
  assoc : ∀ b, ∀ p ∈ s.assoc.list b, s.Chunk cfg p ∧ s.At cfg p .linked
  /-- Linked items have different keys. -/
  key : ∀ p q, s.Chunk cfg p → s.Chunk cfg q → s.At cfg p .linked → s.At cfg q .linked →
    (s.items p).key = (s.items q).key → p = q
  /-- `nfree_itemq`. -/
  nfree : ∀ id, (s.slabclass id).nfreeItemq = (s.slabclass id).freeItemq.length
  /-- `nhash_item`. -/
  nhash : s.assoc.nhashItem = {p | s.Chunk cfg p ∧ s.At cfg p .linked}.ncard
  /-- A slab counts the references to its chunks. -/
  slabRef : ∀ sl ∈ s.slabTable, (s.slabs sl).refcount =
    ∑ i ∈ Finset.range (cfg.nitem (s.slabs sl).id), (s.items ⟨sl, i⟩).refcount
  /-- Each slab is once in the slab table. -/
  table : ∀ sl, sl ∈ s.slabTable ↔ s.slabTable.count sl = 1
  /-- Each slab is once in the slab queue, and nothing else is. -/
  queue : ∀ sl, s.slabLruq.count sl = s.slabTable.count sl

variable {cfg s} {held : List ItemPtr} {p : ItemPtr}

theorem Inv.chunk_iff (h : s.Inv cfg held) : s.Chunk cfg p ↔ s.Active cfg p :=
  and_congr_left' ⟨h.full p.slab, fun hsl => Shape.Wf.slab_mem h.wf p.slab hsl⟩

theorem Inv.at_tail_iff (h : s.Inv cfg held) :
    s.At cfg p .tail ↔ s.InTail p := by
  constructor
  · rintro ⟨q, hq, hslab, hle, -⟩
    exact ⟨_, q, hq, hslab, hle⟩
  · rintro ⟨id, q, hq, hslab, hle⟩
    obtain ⟨ha, hid, hlen⟩ := Shape.Wf.cur h.wf id q hq
    have hcls : (s.slabs p.slab).id = id := by
      rw [← hslab, ← hid]
      exact (Shape.Wf.item_id h.wf q ha).symm
    rw [At, hcls]
    exact ⟨q, hq, hslab, hle, hlen⟩

theorem Inv.at_free_iff (h : s.Inv cfg held) (hp : s.Active cfg p) :
    s.At cfg p .free ↔ (s.items p).flags.slabbed = true := by
  refine ⟨And.left, fun hs => ?_⟩
  have hfree := Shape.Wf.free h.wf
  have hid : (s.items p).id = (s.slabs p.slab).id := Shape.Wf.item_id h.wf p hp
  refine ⟨hs, (Shape.Wf.slabbed h.wf p hp hs).2, ?_⟩
  exact List.count_eq_one_of_mem (hfree _).1 (hfree.mem_iff.2 ⟨hp, hid, hs⟩)

theorem Inv.at_linked_iff (h : s.Inv cfg held) (hp : s.Active cfg p) :
    s.At cfg p .linked ↔ (s.items p).flags.linked = true := by
  refine ⟨And.left, fun hl => ?_⟩
  have hlru := Shape.Wf.lru h.wf
  have hid : (s.items p).id = (s.slabs p.slab).id := Shape.Wf.item_id h.wf p hp
  refine ⟨hl, List.count_eq_one_of_mem (hlru _).1 (hlru.mem_iff.2 ⟨hp, hid, hl⟩), ?_⟩
  have hwf : s.assoc.Wf cfg.hash s.keyOf := Shape.Wf.assoc_wf h.wf
  have hmem := hwf.has_iff.1 ((Shape.Wf.assoc_has h.wf p).2 ⟨hp, hl⟩)
  exact ⟨_, List.count_eq_one_of_mem (hwf.nodup _) hmem, fun b hb hmem' => hb (hwf.home b p hmem')⟩

theorem Inv.at_referenced_iff (h : s.Inv cfg held) (hp : s.Active cfg p) :
    s.At cfg p .referenced ↔ (s.items p).flags.linked = false ∧
      (s.items p).flags.slabbed = false ∧ ¬ s.InTail p := by
  constructor
  · rintro ⟨hl, hs, href⟩
    exact ⟨hl, hs, Shape.Wf.not_inTail_of_ref h.wf hp href.ne'⟩
  · rintro ⟨hl, hs, ht⟩
    refine ⟨hl, hs, Nat.pos_of_ne_zero (h.ref_ne_zero ?_)⟩
    rcases h.place p hp with hl' | hs' | ht' | hheld
    · simp [hl] at hl'
    · simp [hs] at hs'
    · exact absurd ht' ht
    · exact hheld

/-- The flags and the current slab decide the place. -/
theorem Inv.existsUnique_place (h : s.Inv cfg held) (hp : s.Active cfg p) :
    ∃! pl, s.At cfg p pl := by
  have hslabbed := Shape.Wf.slabbed h.wf p hp
  have htail : s.InTail p → _ := fun ht => Shape.Wf.tail h.wf p ht hp
  simp only [shape_linked, shape_slabbed, shape_ref] at hslabbed htail
  have hexcl : ∀ pl, s.At cfg p pl ↔ pl =
      if (s.items p).flags.linked = true then .linked
      else if (s.items p).flags.slabbed = true then .free
      else open Classical in if s.InTail p then .tail else .referenced := by
    intro pl
    cases pl with
    | tail => rw [h.at_tail_iff]; split_ifs <;> simp_all
    | free => rw [h.at_free_iff hp]; split_ifs <;> simp_all
    | linked => rw [h.at_linked_iff hp]; split_ifs <;> simp_all
    | referenced => rw [h.at_referenced_iff hp]; split_ifs <;> simp_all
  exact ⟨_, (hexcl _).2 rfl, fun pl hpl => (hexcl pl).1 hpl⟩

theorem Inv.conserved (h : s.Inv cfg held) : s.Conserved cfg where
  place := fun p hp => h.existsUnique_place (h.chunk_iff.1 hp)
  lruq := fun id p hp => by
    obtain ⟨ha, hid, hl⟩ := (Shape.Wf.lru h.wf).mem_iff.1 hp
    exact ⟨h.chunk_iff.2 ha, (h.at_linked_iff ha).2 hl,
      (Shape.Wf.item_id h.wf p ha).symm.trans hid⟩
  freeq := fun id p hp => by
    obtain ⟨ha, hid, hs⟩ := (Shape.Wf.free h.wf).mem_iff.1 hp
    exact ⟨h.chunk_iff.2 ha, (h.at_free_iff ha).2 hs, (Shape.Wf.item_id h.wf p ha).symm.trans hid⟩
  assoc := fun b p hp => by
    obtain ⟨ha, hl⟩ := (Shape.Wf.assoc_has h.wf p).1 ⟨b, hp⟩
    exact ⟨h.chunk_iff.2 ha, (h.at_linked_iff ha).2 hl⟩
  key := fun p q hp hq hlp hlq hkey =>
    h.wf.eq_of_key ⟨h.chunk_iff.1 hp, hlp.1⟩ ⟨h.chunk_iff.1 hq, hlq.1⟩ hkey
  nfree := Shape.Wf.free_len h.wf
  nhash := by
    refine (Shape.Wf.lru_len h.wf).trans ((Shape.Wf.lru h.wf).ncard ?_ ?_ fun p => ?_).symm
    · rintro id p ⟨ha, rfl, -⟩
      exact Shape.Wf.id_lt h.wf ha
    · rintro id id' p ⟨-, rfl, -⟩ ⟨-, rfl, -⟩
      rfl
    · constructor
      · rintro ⟨hp, hl⟩
        exact ⟨_, h.chunk_iff.1 hp, rfl, hl.1⟩
      · rintro ⟨-, ha, rfl, hl⟩
        exact ⟨h.chunk_iff.2 ha, (h.at_linked_iff ha).2 hl⟩
  slabRef := fun sl hsl => by
    have hsl' := h.full sl hsl
    have hmem : ∀ p ∈ held, p.slab = sl → p.idx < cfg.nitem (s.slabs sl).id := fun p hp hps =>
      hps ▸ (h.active p hp).2
    rw [h.slab_ref hsl', ← sum_count_eq held sl _ hmem]
    exact Finset.sum_congr rfl fun i hi => (h.ref ⟨sl, i⟩ ⟨hsl', Finset.mem_range.1 hi⟩).symm
  table := fun sl => by
    have htab : s.slabTable = List.range s.slabTable.length := Shape.Wf.table_eq h.wf
    have hnd : s.slabTable.Nodup := htab ▸ List.nodup_range
    refine ⟨fun hsl => List.count_eq_one_of_mem hnd hsl, fun hone => ?_⟩
    exact List.count_pos_iff.1 (hone ▸ Nat.one_pos)
  queue := fun sl => by
    have htab : s.slabTable = List.range s.slabTable.length := Shape.Wf.table_eq h.wf
    have hnd : s.slabTable.Nodup := htab ▸ List.nodup_range
    have hnd' : s.slabLruq.Nodup := Shape.Wf.slab_nodup h.wf
    rw [hnd.count, hnd'.count]
    exact if_congr ⟨fun hsl => Shape.Wf.slab_mem h.wf sl hsl, h.full sl⟩ rfl rfl

end Store

namespace Server

variable {cfg : Config} {now evictOpt : ℕ} {slabs : ℕ → Slab} {items : ItemPtr → Item} {s : Server}

/-- **Chunks are conserved.**  As long as no slab has more than 65535 references, in every
reachable state every chunk is in exactly one of the four places, and the queues, the hash table
and the counts agree. -/
theorem chunks_conserved (h : (server cfg).Reaches NoWrap (init cfg now evictOpt slabs items) s) :
    s.store.Conserved cfg :=
  (inv_of_reaches h).inv.conserved

/-- A run of the small server: `a` is stored, read, and deleted while it is being read; then `b` is
stored. -/
def tinyRun : List Label :=
  [.alloc 0 [97] 0 0 1 {}, .fill 0 0 [120, 13, 10], .set 0 {}, .removeItem 0, .get 1 [97],
    .delete [97], .alloc 0 [98] 0 0 1 {}, .fill 0 0 [120, 13, 10], .set 0 {}]

theorem reaches_tiny : ∃ s : Server, (server .tiny).Reaches NoWrap (.tiny evictLru) s ∧
    s.held.length = 2 := by
  have hrun : ((server .tiny).run (fun s l s' => decide (NoWrap s l s')) (.tiny evictLru)
      tinyRun).map (fun s => s.held.length) = some 2 := by decide +kernel
  obtain ⟨s, hs, hlen⟩ := Option.map_eq_some_iff.1 hrun
  exact ⟨s, (Machine.reaches_of_run hs).mono fun _ _ _ => of_decide_eq_true, hlen⟩

theorem chunks_conserved_tiny : ∃ s : Server, (server .tiny).Reaches NoWrap (.tiny evictLru) s ∧
    s.held.length = 2 ∧ s.store.Conserved .tiny := by
  obtain ⟨s, hreach, hlen⟩ := reaches_tiny
  exact ⟨s, hreach, hlen, chunks_conserved hreach⟩

/-! ### Held items -/

/-- Items that are held are not free, and their slabs are in use. -/
def HeldSafe (s : Server) : Prop :=
  ∀ p ∈ s.held, (∀ id, p ∉ (s.store.slabclass id).freeItemq) ∧ p.slab ∈ s.store.slabLruq

/-- An item that is held in both states has been neither handed out nor destroyed by an eviction
in between: it has the same number, which no item that is handed out later gets, and its slab was
not initialized. -/
def HeldKept (s s' : Server) : Prop :=
  ∀ p ∈ s.held, p ∈ s'.held → (s.store.items p).gen < s.store.nalloc ∧
    (s'.store.items p).gen = (s.store.items p).gen ∧
    (s'.store.slabs p.slab).epoch = (s.store.slabs p.slab).epoch

theorem Inv.heldSafe (h : s.Inv cfg) : s.HeldSafe := by
  intro p hp
  refine ⟨fun id hfree => ?_, (h.inv.active p hp).1⟩
  obtain ⟨-, -, hs⟩ := (Shape.Wf.free h.inv.wf).mem_iff.1 hfree
  exact absurd ((h.inv.not_slabbed hp).symm.trans hs) Bool.false_ne_true

theorem Effect.heldKept {l : Label} {s' : Server} (he : Effect cfg s l s')
    (hst : s.store.Stamped cfg s.held) :
    HeldKept s s' := by
  intro p hp hp'
  refine ⟨hst.gen p (.inr hp), ?_⟩
  cases he with
  | path o base held' hg hpath hperm hbase =>
    obtain ⟨h1, -, h3⟩ := hpath.frame_held hg (hbase p hp hp')
    exact ⟨h1, h3⟩
  | write c q f hf hmem heq =>
    subst heq
    refine ⟨?_, rfl⟩
    by_cases hpq : p = q <;> simp [Store.setItem, hpq, hf.gen]
  | env hshape hitems hslabs hlru hbooks hcas hnalloc hrefs hnow hlive =>
    exact ⟨by rw [hitems], by rw [hslabs]⟩

/-- **Held items are safe.**  As long as no slab has more than 65535 references, an item that a
connection holds is not on a free queue and its slab is in use, and no step hands it out again or
evicts its slab while the connection holds on to it. -/
theorem held_safe (h : (server cfg).Reaches NoWrap (init cfg now evictOpt slabs items) s) :
    s.HeldSafe ∧ ∀ l a s', s.step cfg l = some (a, s') → NoWrap s l s' → HeldKept s s' :=
  ⟨(inv_of_reaches h).heldSafe, fun _ _ _ hst hov =>
    ((inv_of_reaches h).step hst hov).1.heldKept (stamped_of_reaches h)⟩

theorem held_safe_tiny : ∃ s : Server, (server .tiny).Reaches NoWrap (.tiny evictLru) s ∧
    s.held.length = 2 ∧ s.HeldSafe := by
  obtain ⟨s, hreach, hlen⟩ := reaches_tiny
  exact ⟨s, hreach, hlen, (held_safe hreach).1⟩

/-! ### A count wraps -/

/-- The store after `n` references to `p` were taken. -/
def acquired (s : Store) (p : ItemPtr) (n : ℕ) : Store :=
  { s with
    items := Function.update s.items p
      { s.items p with refcount := ((s.items p).refcount + n) % 2 ^ 16 }
    slabs := Function.update s.slabs p.slab
      { s.slabs p.slab with refcount := ((s.slabs p.slab).refcount + n) % 2 ^ 16 }
    overflow := s.overflow || decide (2 ^ 16 ≤ (s.slabs p.slab).refcount + n) }

theorem acquired_zero {st : Store} {p : ItemPtr} (hi : (st.items p).refcount < 2 ^ 16)
    (hs : (st.slabs p.slab).refcount < 2 ^ 16) : acquired st p 0 = st := by
  simp only [acquired, Nat.add_zero, Nat.mod_eq_of_lt hi, Nat.mod_eq_of_lt hs,
    Function.update_eq_self, decide_eq_false (Nat.not_le.2 hs), Bool.or_false]

theorem acquired_succ (st : Store) (p : ItemPtr) (n : ℕ) :
    (acquired st p n).itemAcquireRefcount p = acquired st p (n + 1) := by
  have hov : ∀ r : ℕ, (decide (2 ^ 16 ≤ r + n) || decide ((r + n) % 2 ^ 16 + 1 = 2 ^ 16)) =
      decide (2 ^ 16 ≤ r + (n + 1)) := fun r => by
    rw [← Bool.decide_or]
    exact decide_eq_decide.2 (by omega)
  simp only [acquired, Store.itemAcquireRefcount, Store.slabAcquireRefcount, Store.setItem,
    Store.setSlab, Function.update_self, Function.update_idem, Bool.or_assoc, hov, Nat.mod_add_mod,
    Nat.add_assoc]

theorem itemGet_acquired {st : Store} {key : Key} {p : ItemPtr}
    (hfind : st.assocFind cfg key = some p) (hdead : st.dead p = false) (n : ℕ) :
    (acquired st p n).itemGet cfg key = (some p, acquired st p (n + 1)) := by
  have hkey : (acquired st p n).keyOf = st.keyOf := by
    funext q
    by_cases hq : q = p <;> simp [Store.keyOf, acquired, hq]
  have hfind' : (acquired st p n).assocFind cfg key = some p := by
    rw [← hfind, Store.assocFind, Store.assocFind, hkey]
    rfl
  obtain ⟨hexp, hfl⟩ : (acquired st p n).expired p = false ∧
      (acquired st p n).flushed p = false := by
    simpa [Store.dead, Store.expired, Store.flushed, acquired] using hdead
  simp [Store.itemGet, hfind', hexp, hfl, acquired_succ]

theorem itemTouch_acquired {st : Store} {p : ItemPtr}
    (hrecent : st.ago itemUpdateInterval ≤ (st.items p).atime) (n : ℕ) :
    (acquired st p n).itemTouch cfg p = acquired st p n := by
  have hago : (acquired st p n).ago itemUpdateInterval = st.ago itemUpdateInterval := by
    simp only [Store.ago, acquired]
  have htime : ((acquired st p n).items p).atime = (st.items p).atime := by simp [acquired]
  rw [Store.itemTouch, htime, hago, if_pos hrecent]

/-- A connection reads an item of recent date over and over, and keeps all the references. -/
theorem reaches_gets (cfg : Config) (key : Key) {p : ItemPtr} (c : ℕ)
    (hi : (s.store.items p).refcount < 2 ^ 16)
    (hs : (s.store.slabs p.slab).refcount < 2 ^ 16) (hfind : s.store.assocFind cfg key = some p)
    (hdead : s.store.dead p = false)
    (hrecent : s.store.ago itemUpdateInterval ≤ (s.store.items p).atime) (n : ℕ) :
    (server cfg).Reaches Machine.Unguarded s
      ⟨acquired s.store p n, List.replicate n ⟨c, .ilist, p⟩ ++ s.refs⟩ := by
  induction n with
  | zero =>
    rw [acquired_zero hi hs]
    exact Relation.ReflTransGen.refl
  | succ n ih =>
    have hget : (server cfg).Reaches Machine.Unguarded s
        ⟨acquired s.store p (n + 1), List.replicate (n + 1) ⟨c, .ilist, p⟩ ++ s.refs⟩ :=
      ih.tail (l := .get c key) (r := .item (some p))
        (by simp [server, step, keep, itemGet_acquired hfind hdead, List.replicate_succ]) trivial
    exact hget.tail (l := .touch c p) (r := .done)
      (by simp [server, step, call, itemTouch_acquired hrecent]) trivial

/-- `a` is stored a while after start-up. -/
def storeRun : List Label :=
  [.tick 100, .alloc 0 [97] 0 0 1 {}, .fill 0 0 [120, 13, 10], .set 0 {}, .removeItem 0]

/-- The small server after `storeRun`. -/
def tinyStored (evictOpt : ℕ) : Server :=
  (server .tiny).exec (fun _ _ _ => true) (.tiny evictOpt) storeRun

/-- A connection that names `a` 65536 times in one request holds an item that is freed. -/
theorem held_freed : ∃ s : Server, (server .tiny).Reaches Machine.Unguarded (.tiny evictLru) s ∧
    ⟨0, 0⟩ ∈ s.held ∧ ⟨0, 0⟩ ∈ (s.store.slabclass 1).freeItemq := by
  have hstore : (server .tiny).Reaches Machine.Unguarded (.tiny evictLru) (tinyStored evictLru) :=
    (Machine.reaches_exec (by decide +kernel)).mono fun _ _ _ _ => trivial
  have hgets := reaches_gets .tiny (s := tinyStored evictLru) [97] (p := ⟨0, 0⟩) 1
    (by decide +kernel) (by decide +kernel) (by decide +kernel) (by decide +kernel)
    (by decide +kernel) 65536
  refine ⟨_, (hstore.trans hgets).tail (l := .delete [97]) rfl trivial, ?_, ?_⟩
  · refine List.mem_map.2 ⟨⟨1, .ilist, ⟨0, 0⟩⟩, List.mem_append_left _ ?_, rfl⟩
    exact List.mem_replicate.2 ⟨by decide, rfl⟩
  · change ⟨0, 0⟩ ∈ (((acquired (tinyStored evictLru).store ⟨0, 0⟩ 65536).itemDelete .tiny
      [97]).2.slabclass 1).freeItemq
    decide +kernel

end Server

end Twemcache
