import Twemcache.Options.Evict
import Twemcache.Server.Ownership

/-!
# What `slab_get` asserts

`slab_get` is called when the class has no current slab and `slab_get_item_from_freeq` has found
nothing, and asserts that the free queue is empty.  With `EVICT_CS`, `slab_get_item_from_freeq` does
not look at the queue, but `slab_put_item` still fills it.

## Main definitions

* `Store.CallsSlabGet` : `item_alloc` comes to `slab_get`.
* `Store.SlabGetAsserts` : the assertions.
* `Store.GivenUp` : a chunk that was handed out and that nobody has any use for.
* `Server.slabCall` : where a step calls `item_alloc`, and in which store.
* `Server.Frugal` : the steps in which free queues are used, or no chunk is given up.
-/

namespace Twemcache

namespace Store

variable (cfg : Config) (s : Store)

/-- `item_alloc` for class `id` comes to `slab_get`. -/
def CallsSlabGet (id : ℕ) : Prop :=
  (s.itemGetFromLruq cfg id).filter s.itemExpired = none ∧ s.slabGetItemFromFreeq cfg id = none ∧
    (s.slabclass id).freeItem = none

instance (id : ℕ) : Decidable (s.CallsSlabGet cfg id) := inferInstanceAs (Decidable (_ ∧ _))

/-- The assertions at the head of `slab_get`. -/
def SlabGetAsserts (id : ℕ) :
    Prop := (s.slabclass id).freeItem = none ∧ (s.slabclass id).freeItemq = []

instance (id : ℕ) : Decidable (s.SlabGetAsserts id) := inferInstanceAs (Decidable (_ ∧ _))

/-- A chunk that was handed out, and is now neither linked nor referenced. -/
def GivenUp (p : ItemPtr) : Prop :=
  s.Active cfg p ∧ ¬ s.InTail p ∧ (s.items p).flags.linked = false ∧ (s.items p).refcount = 0

/-- The call of `item_alloc` in `item_annex`. -/
def annexSlabCall (prepend : Bool) (it : ItemPtr) : Option (ℕ × Store) :=
  match s.itemGet cfg (s.keyOf it) with
  | (none, _) => none
  | (some oit, t) =>
    let id := itemSlabid cfg (t.items oit).key.length ((t.items oit).nbyte + (t.items it).nbyte)
    if id = slabclassInvalidId then none
    else if id = (t.items oit).id ∧ (t.items oit).flags.ralign = prepend then none
    else some (id, t)

/-- The call of `item_alloc` in `item_delta`. -/
def deltaSlabCall (key : Key) (incr : Bool) (delta : ℕ) : Option (ℕ × Store) :=
  match s.itemGet cfg key with
  | (none, _) => none
  | (some p, t) =>
    match mcStrtoullLen ((t.items p).value cfg) with
    | none => none
    | some v =>
      let buf := decimal (deltaValue v incr delta)
      if buf.length > (t.items p).nbyte then some
        (itemSlabid cfg (t.items p).key.length buf.length, t) else none

variable {cfg s} {id : ℕ}

/-- An empty free queue, in terms of the chunks. -/
theorem Wf.freeItemq_eq_nil_iff (h : s.Wf cfg) : (s.slabclass id).freeItemq = [] ↔
    ∀ p, s.Active cfg p → (s.items p).id = id → (s.items p).flags.slabbed = false := by
  rw [List.eq_nil_iff_forall_not_mem]
  refine forall_congr' fun p => ?_
  have hmem : p ∈ (s.slabclass id).freeItemq ↔
      s.Active cfg p ∧ (s.items p).id = id ∧ (s.items p).flags.slabbed = true :=
        (Shape.Wf.free h).mem_iff
  rw [hmem, ← Bool.not_eq_true]
  exact ⟨fun hnot ha hid hs => hnot ⟨ha, hid, hs⟩, fun hnot hand => hnot hand.1 hand.2.1 hand.2.2⟩

/-- If free queues are used, `slab_get_item_from_freeq` finds nothing only in an empty one. -/
theorem Wf.freeItemq_eq_nil (h : s.Wf cfg) (huse : cfg.useFreeq = true)
    (hnone : s.slabGetItemFromFreeq cfg id = none) : (s.slabclass id).freeItemq = [] := by
  have hlen : (s.slabclass id).nfreeItemq = (s.slabclass id).freeItemq.length :=
    Shape.Wf.free_len h id
  simp only [slabGetItemFromFreeq, huse, not_true_eq_false, if_false] at hnone
  split_ifs at hnone with hzero
  · exact List.length_eq_zero_iff.1 (hlen ▸ hzero)
  · exact List.head?_eq_none_iff.1 hnone

/-- What is given up is in a free queue. -/
theorem Inv.givenUp_iff {held : List ItemPtr} (h : Inv cfg s held) {p : ItemPtr} :
    s.GivenUp cfg p ↔ s.Active cfg p ∧ (s.items p).flags.slabbed = true := by
  constructor
  · rintro ⟨ha, htail, hlinked, href⟩
    refine ⟨ha, ?_⟩
    rcases h.place p ha with hl | hs | ht | hheld
    · rw [hlinked] at hl
      cases hl
    · exact hs
    · exact absurd ht htail
    · exact absurd href (h.ref_ne_zero hheld)
  · rintro ⟨ha, hs⟩
    obtain ⟨hlinked, href⟩ := Shape.Wf.slabbed h.wf p ha hs
    exact ⟨ha, Shape.Wf.not_inTail_of_slabbed h.wf ha hs, hlinked, href⟩

/-- The assertions hold where free queues are used, or no chunk of the class is free. -/
theorem Wf.slabGetAsserts_iff (h : s.Wf cfg) (hcall : s.CallsSlabGet cfg id) : s.SlabGetAsserts id ↔
    cfg.useFreeq = true ∨ ∀ p, s.Active cfg p → (s.items p).id = id →
        (s.items p).flags.slabbed = false := by
  obtain ⟨-, hfreeq, hcur⟩ := hcall
  rw [← h.freeItemq_eq_nil_iff]
  refine ⟨fun hassert => .inr hassert.2, fun hor => ⟨hcur, ?_⟩⟩
  obtain huse | hnil := hor
  · exact h.freeItemq_eq_nil huse hfreeq
  · exact hnil

end Store

namespace Server

open Store (Guarded)

variable (cfg : Config) (s : Server)

/-- The call of `item_alloc` that a step makes, with the slab class and the store. -/
def slabCall : Label → Option (ℕ × Store)
  | .alloc c key _ _ nbyte _ =>
    let id := itemSlabid cfg key.length nbyte
    if s.hasItem c ∨ id = slabclassInvalidId ∨
      key.length > keyMaxLen then none else some (id, s.store)
  | .annex c prepend _ => (s.unstored c).bind (s.store.annexSlabCall cfg prepend)
  | .delta key incr delta _ =>
    if s.store.deltaClass cfg key incr delta ≠ some slabclassInvalidId then
      s.store.deltaSlabCall cfg key incr delta
    else none
  | _ => none

/-- Steps in which no count of references wraps, and free queues are used or no chunk is given up.
-/
def Frugal (s : Server) (l : Label) (s' : Server) : Prop :=
  NoWrap s l s' ∧ (cfg.useFreeq = true ∨ ∀ p, s'.store.GivenUp cfg p → s.store.GivenUp cfg p)

variable {cfg s} {now evictOpt : ℕ} {slabs : ℕ → Slab} {items : ItemPtr → Item} {l : Label}
  {t : Store} {id : ℕ}

/-- `item_alloc` is called in the store before the step, or after a lookup that succeeds. -/
theorem Inv.store_of_slabCall (h : s.Inv cfg) (hcall : s.slabCall cfg l = some (id, t)) :
    t.Wf cfg ∧ (t = s.store ∨ ∃ p, t = s.store.itemAcquireRefcount p) := by
  have hguarded : s.store.Guarded cfg (s.scope cfg l none s.held) s.held := h.guarded l none
  cases l with
  | alloc c key dataflags exptime nbyte ch =>
    simp only [slabCall] at hcall
    split_ifs at hcall
    obtain ⟨-, rfl⟩ := Prod.mk.inj (Option.some.inj hcall)
    exact ⟨h.inv.wf, .inl rfl⟩
  | annex c prepend ch =>
    obtain ⟨it, -, hannex⟩ := Option.bind_eq_some_iff.1 hcall
    unfold Store.annexSlabCall at hannex
    split at hannex
    · cases hannex
    · rename_i oit u hget
      obtain ⟨-, -, -, -, hacq, -, -, hwf, -⟩ := hguarded.get_some hget
      dsimp only at hannex
      split_ifs at hannex
      obtain ⟨-, rfl⟩ := Prod.mk.inj (Option.some.inj hannex)
      exact ⟨hwf, .inr ⟨_, hacq⟩⟩
  | delta key incr delta ch =>
    simp only [slabCall] at hcall
    split_ifs at hcall
    unfold Store.deltaSlabCall at hcall
    split at hcall
    · cases hcall
    · rename_i p u hget
      obtain ⟨-, -, -, -, hacq, -, -, hwf, -⟩ := hguarded.get_some hget
      split at hcall
      · cases hcall
      · dsimp only at hcall
        split_ifs at hcall
        obtain ⟨-, rfl⟩ := Prod.mk.inj (Option.some.inj hcall)
        exact ⟨hwf, .inr ⟨_, hacq⟩⟩
  | _ => cases hcall

/-- The free chunks of the store in which `item_alloc` is called are those given up before the step.
-/
theorem Inv.slabbed_of_slabCall (h : s.Inv cfg) (hcall : s.slabCall cfg l = some (id, t))
    (p : ItemPtr) :
    (t.items p).id = (s.store.items p).id ∧
      (t.Active cfg p ∧ (t.items p).flags.slabbed = true ↔ s.store.GivenUp cfg p) := by
  rw [h.inv.givenUp_iff]
  obtain ⟨-, rfl | ⟨q, rfl⟩⟩ := h.store_of_slabCall hcall
  · exact ⟨rfl, Iff.rfl⟩
  · -- a reference changes neither the class nor the flags
    have hsame : ((s.store.itemAcquireRefcount q).items p).id = (s.store.items p).id ∧
        ((s.store.itemAcquireRefcount q).items p).flags = (s.store.items p).flags := by
      by_cases hpq : p = q <;> simp [hpq]
    rw [hsame.2, (Store.keeps_itemAcquireRefcount q).active]
    exact ⟨hsame.1, Iff.rfl⟩

/-- A run of frugal steps without free queues leaves nothing given up. -/
theorem not_givenUp_of_frugal (hfreeq : ¬ cfg.useFreeq = true)
    (h : (server cfg).Reaches (Frugal cfg) (init cfg now evictOpt slabs items) s) (p : ItemPtr) :
    ¬ s.store.GivenUp cfg p := by
  refine h.invariant (I := fun s => ∀ p, ¬ s.store.GivenUp cfg p) (fun p hp => ?_)
    (fun u l r v hu _ hC p hp => ?_) p
  · exact absurd hp.1.1 List.not_mem_nil
  · exact hu p (hC.2.resolve_left hfreeq p hp)

/-- **The assertions of `slab_get` hold where free queues are used, or nothing is given up.**  In
every run in which no count of references wraps, they hold where a step comes to `slab_get` if and
only if free queues are used, or no chunk of the class is neither linked nor referenced; so they
hold throughout every run of frugal steps. -/
theorem slab_get_asserts_exact
    (h : (server cfg).Reaches NoWrap (init cfg now evictOpt slabs items) s)
    (hcall : s.slabCall cfg l = some (id, t)) (hget : t.CallsSlabGet cfg id) :
    (t.SlabGetAsserts id ↔
      cfg.useFreeq = true ∨ ∀ p, s.store.GivenUp cfg p → (s.store.items p).id ≠ id) ∧
    ((server cfg).Reaches (Frugal cfg) (init cfg now evictOpt slabs items) s →
        t.SlabGetAsserts id) := by
  have hinv : s.Inv cfg := inv_of_reaches h
  have hiff : t.SlabGetAsserts id ↔
      cfg.useFreeq = true ∨ ∀ p, s.store.GivenUp cfg p → (s.store.items p).id ≠ id := by
    rw [(hinv.store_of_slabCall hcall).1.slabGetAsserts_iff hget]
    refine or_congr_right (forall_congr' fun p => ?_)
    obtain ⟨hid, hup⟩ := hinv.slabbed_of_slabCall hcall p
    rw [← hup, hid, ← Bool.not_eq_true]
    exact ⟨fun hnot ⟨ha, hs⟩ hp => hnot ha hp hs, fun hnot ha hp hs => hnot ⟨ha, hs⟩ hp⟩
  refine ⟨hiff, fun hfrugal => hiff.2 ?_⟩
  by_cases hfreeq : cfg.useFreeq = true
  · exact .inl hfreeq
  · exact .inr fun p hp => absurd hp (not_givenUp_of_frugal hfreeq hfrugal p)

/-! ### A build with assertions

Its items have a header of 57 bytes, and its chunks 72 at least. -/

/-- The options `-I 512 -m 1 -z 72`. -/
def debugOptions : Options :=
  { optionsOf 512 (2 ^ 20) evictLru (some [55, 50]) with itemHdrSize := 57, chunkSize := 96 }

/-- The configuration of these options: a slab has six chunks. -/
def debugConfig : Config where
  useCas := true
  useFreeq := true
  useLruq := true
  hashPower := 1
  hash _ := 0
  processStarted := 0
  itemHdrSize := 57
  slabSize := 480
  maxId := 1
  profile := Function.update (fun _ => 0) 1 72
  maxNslab := 2048
  maxId_le := Config.one_maxId
  profile_pos id hmin hmax := by
    obtain rfl : id = 1 := le_antisymm hmax hmin
    decide
  profile_le id hmin hmax := by
    obtain rfl : id = 1 := le_antisymm hmax hmin
    decide

theorem startedWith_debug : debugConfig.StartedWith debugOptions where
  accepted :=
    have hother : (optionsOf 512 (1 * 2 ^ 20) evictLru (some [55, 50])).Accepted :=
      accepted_optionsOf (by decide) (by decide) (by decide) Nat.one_pos (by decide) (by decide)
    { slabSize := hother.slabSize
      slabAligned := hother.slabAligned
      chunkSize := by decide
      aligned := by decide
      grows := hother.grows
      maxbytes := hother.maxbytes
      evictOpt := hother.evictOpt }
  profile := by
    refine ⟨⟨debugConfig.profile, 1⟩, ?_, rfl, rfl⟩
    show mcParseProfile debugOptions [55, 50] = _
    rw [mcParseProfile, parseLoop, if_pos (by decide), if_neg (by decide)]
    rw [show mcStrtoul ([55, 50].takeWhile fun x => decide (x ≠ 44)) = some 72 by decide]
    dsimp only
    rw [if_neg (by decide), if_neg (by decide), if_neg (by decide), if_neg (by decide),
      if_neg (by decide)]
    rfl
  slabSize := rfl
  itemHdrSize := rfl
  maxNslab := by decide
  useFreeq := rfl
  useLruq := rfl

/-- The server of these options when it starts with `-M 8`. -/
def initDebug : Server :=
  .init (debugConfig.startedAs evictCs) 2 evictCs (fun _ => ⟨0, 0, 0, 0⟩)
    fun _ => ⟨0, 0, 0, 0, 0, {}, 0, [], 0, fun _ => 0, 0⟩

/-- The connections before `n` allocate an item each. -/
def allocEach (n : ℕ) : List Label := (List.range n).map fun c => .alloc c [98] 0 0 1 {}

/-- One more item is allocated. -/
def oneMore : Label := .alloc 7 [98] 0 0 1 {}

theorem slabCall_oneMore (hhas : ¬ s.hasItem 7) :
    s.slabCall (debugConfig.startedAs evictCs) oneMore = some (1, s.store) := by
  have hid : itemSlabid (debugConfig.startedAs evictCs) 1 1 = 1 := by decide +kernel
  simp [oneMore, slabCall, hhas, hid, slabclassInvalidId, keyMaxLen]

/-- Every chunk that the only class has handed out is linked or referenced. -/
def allKept (cfg : Config) (s : Store) : Bool :=
  s.slabLruq.all fun sl => (List.range (cfg.nitem (s.slabs sl).id)).all fun i =>
    (s.items ⟨sl, i⟩).flags.linked || decide ((s.items ⟨sl, i⟩).refcount ≠ 0) ||
      (s.slabclass 1).freeItem.any fun q => decide (q.slab = sl ∧ q.idx ≤ i)

theorem not_givenUp_of_allKept {s : Store} (h : allKept cfg s = true) (p : ItemPtr) :
    ¬ s.GivenUp cfg p := by
  rintro ⟨⟨hslab, hidx⟩, htail, hlinked, href⟩
  simp only [allKept, List.all_eq_true, List.mem_range] at h
  have hp := h p.slab hslab p.idx hidx
  rw [hlinked, href] at hp
  cases hfree : (s.slabclass 1).freeItem with
  | none => simp [hfree] at hp
  | some q =>
    have hle : q.slab = p.slab ∧ q.idx ≤ p.idx := by simpa [hfree] using hp
    exact htail ⟨1, q, hfree, hle⟩

/-- The guard of the runs below: no count wraps, and nothing is given up. -/
def keeps (cfg : Config) (s : Server) (l : Label) (s' : Server) : Bool :=
  decide (NoWrap s l s') && allKept cfg s'.store

theorem frugal_of_keeps {s' : Server} (h : keeps cfg s l s' = true) : Frugal cfg s l s' := by
  obtain ⟨hno, hkept⟩ := (Bool.and_eq_true _ _).mp h
  exact ⟨of_decide_eq_true hno, .inr fun p hp => absurd hp (not_givenUp_of_allKept hkept p)⟩

/-- With `-M 8`, six connections have allocated an item each. -/
def filledDebug : Server :=
  (server (debugConfig.startedAs evictCs)).exec (keeps (debugConfig.startedAs evictCs)) initDebug
    (allocEach 6)

/-- With `-M 8`, nothing has been given up where `slab_get` is called for a second slab. -/
theorem slab_get_asserts_filled : ∃ s : Server,
    (server (debugConfig.startedAs evictCs)).Reaches (Frugal (debugConfig.startedAs evictCs))
      initDebug s ∧ s.slabCall (debugConfig.startedAs evictCs) oneMore = some (1, s.store) ∧
      s.store.CallsSlabGet (debugConfig.startedAs evictCs) 1 ∧ s.store.SlabGetAsserts 1 := by
  have hreach :
      (server (debugConfig.startedAs evictCs)).Reaches (Frugal (debugConfig.startedAs evictCs))
      initDebug filledDebug :=
    (Machine.reaches_exec (by decide +kernel)).mono fun _ _ _ => frugal_of_keeps
  have hhas : ¬ filledDebug.hasItem 7 := by decide +kernel
  have hget : filledDebug.store.CallsSlabGet (debugConfig.startedAs evictCs) 1 := by decide +kernel
  generalize filledDebug = s at hreach hhas hget
  have hcall := slabCall_oneMore hhas
  have hreach' := hreach
  unfold initDebug at hreach'
  exact ⟨s, hreach, hcall, hget,
    (slab_get_asserts_exact (hreach'.mono fun _ _ _ h => h.1) hcall hget).2 hreach'⟩

/-- `a` is stored and deleted, and five connections allocate an item each. -/
def refilledDebug : Server :=
  (server (debugConfig.startedAs evictCs)).exec (fun s l s' => decide (NoWrap s l s')) initDebug
    (freedRun ++ allocEach 5)

/-- With `-M 8`, `slab_get` is called while a chunk of the class is in its free queue. -/
theorem slab_get_asserts_fail :
    (debugConfig.startedAs evictCs).StartedWith { debugOptions with evictOpt := evictCs } ∧
      ∃ s : Server, (server (debugConfig.startedAs evictCs)).Reaches NoWrap initDebug s ∧
      s.slabCall (debugConfig.startedAs evictCs) oneMore = some (1, s.store) ∧
      s.store.CallsSlabGet (debugConfig.startedAs evictCs) 1 ∧ ¬ s.store.SlabGetAsserts 1 := by
  refine ⟨startedWith_debug.startedAs (by decide), ?_⟩
  have hreach : (server (debugConfig.startedAs evictCs)).Reaches NoWrap initDebug refilledDebug :=
    (Machine.reaches_exec (by decide +kernel)).mono fun _ _ _ => of_decide_eq_true
  have hhas : ¬ refilledDebug.hasItem 7 := by decide +kernel
  have hget : refilledDebug.store.CallsSlabGet (debugConfig.startedAs evictCs) 1 := by
    decide +kernel
  have hassert : ¬ refilledDebug.store.SlabGetAsserts 1 := by decide +kernel
  generalize refilledDebug = s at hreach hhas hget hassert
  exact ⟨s, hreach, slabCall_oneMore hhas, hget, hassert⟩

end Server

end Twemcache
