import Twemcache.Options.Evict
import Twemcache.Store.LruOrder

/-!
# The order of use of items

In every run in which no slab count wraps the lru queues are in the order of access times, an access
time is at most 60 seconds older than the last use of its item, and the item that is evicted for a
new one has the least access time of those that nobody uses.

## Main definitions

* `lruMachine` : the server with a record of when each item was last linked or touched.
* `allocCall` : the call of `_item_alloc` that a step makes.
-/

namespace Twemcache

namespace Store

variable (cfg : Config) (s : Store)

/-- The store in which `item_annex` calls `_item_alloc`, and the class it asks for, if it does. -/
def annexCall (prepend : Bool) (it : ItemPtr) : Option (Store × ℕ) :=
  match s.itemGet cfg (s.keyOf it) with
  | (none, _) => none
  | (some oit, s) =>
    let o := s.items oit
    let id := itemSlabid cfg o.key.length (o.nbyte + (s.items it).nbyte)
    if id = slabclassInvalidId ∨ (id = o.id ∧ o.flags.ralign = prepend) then none else some (s, id)

/-- The store in which `item_delta` calls `_item_alloc`, and the class it asks for, if it does. -/
def deltaCall (key : Key) (incr : Bool) (delta : ℕ) : Option (Store × ℕ) :=
  match s.itemGet cfg key with
  | (none, _) => none
  | (some p, s) =>
    match mcStrtoullLen ((s.items p).value cfg) with
    | none => none
    | some v =>
      let buf := decimal (deltaValue v incr delta)
      if buf.length > (s.items p).nbyte then some
        (s, itemSlabid cfg (s.items p).key.length buf.length) else none

variable {cfg s} {ch : Choice} {sc : Scope} {t : Store} {p q : ItemPtr} {held : List ItemPtr}
  {key : Key} {id : ℕ}

theorem slabGetItemSource_ne_evictedItem : s.slabGetItemSource cfg ch id ≠ some .evictedItem := by
  unfold slabGetItemSource
  cases s.slabGetItemFromFreeq cfg id with
  | some p => simp
  | none =>
    by_cases hcur : (s.slabclass id).freeItem = none
    · cases (s.slabGetNew cfg ch).1 with
      | some sl => simp [hcur]
      | none => cases (s.slabGet cfg ch id).1 <;> simp [hcur]
    · simp [hcur]

/-- What is evicted for a new item is what the lru queue gives up, and it has not expired. -/
theorem victim_of_source (h : s.allocSource cfg ch id = some .evictedItem)
    (hp : (s.itemAllocChunk cfg ch id).1 = some p) :
    s.itemGetFromLruq cfg id = some p ∧ s.itemExpired p = false := by
  unfold allocSource at h
  unfold itemAllocChunk at hp
  cases hfilter : (s.itemGetFromLruq cfg id).filter s.itemExpired with
  | some x =>
    rw [hfilter] at h
    cases h
  | none =>
    rw [hfilter] at h hp
    dsimp only at h hp
    cases hsource : s.slabGetItemSource cfg ch id with
    | some source =>
      rw [hsource] at h
      exact absurd (hsource.trans h) slabGetItemSource_ne_evictedItem
    | none =>
      rw [hsource] at h
      have hnone : (s.slabGetItem cfg ch id).1 = none := by
        have hsame : (s.slabGetItem cfg ch id).1.isSome = _ := slabGetItem_isSome
        rw [hsource] at hsame
        exact Option.not_isSome_iff_eq_none.1 (by simp [hsame])
      rw [show s.slabGetItem cfg ch id = (none, (s.slabGetItem cfg ch id).2) from Prod.ext
        hnone rfl] at hp
      dsimp only at h hp
      split_ifs at h with hopt
      rw [if_pos hopt.1] at hp
      cases hlru : s.itemGetFromLruq cfg id with
      | none =>
        rw [hlru] at hp
        cases hp
      | some x =>
        rw [hlru] at hp hfilter
        obtain rfl := Option.some.inj hp
        exact ⟨rfl, by simpa using hfilter⟩

/-- Nothing that is linked, of the class and not used by anybody was used before the item that is
evicted. -/
def LeastUsed (cfg : Config) (s : Store) (id : ℕ) (p : ItemPtr) : Prop :=
  ∀ q, s.Linked cfg q → (s.items q).id = id → (s.items q).refcount = 0 →
    (s.items p).atime ≤ (s.items q).atime

theorem LruOrdered.leastUsed (hl : s.LruOrdered) (hwf : s.Wf cfg)
    (h : s.allocSource cfg ch id = some .evictedItem)
    (hp : (s.itemAllocChunk cfg ch id).1 = some p) : s.LeastUsed cfg id p := by
  obtain ⟨hlru, hexp⟩ := victim_of_source h hp
  exact fun q hq hid href => hl.victim_le hlru hexp (hwf.mem_lruq_iff.2 ⟨hq.1, hid, hq.2⟩) href

/-- A lookup that succeeds keeps the lru queues in order. -/
theorem Guarded.get_lruOrdered (h : Guarded cfg sc s held) (hl : s.LruOrdered)
    (heq : s.itemGet cfg key = (some p, t)) :
    t.LruOrdered ∧ t.Wf cfg := by
  obtain ⟨-, -, -, -, rfl, -, -, hwf, -⟩ := h.get_some heq
  exact ⟨hl.of_sublist le_rfl (fun _ => List.Sublist.refl _) fun _ q _ =>
    (idles_itemAcquireRefcount p).atime q, hwf⟩

theorem Guarded.annexCall_ordered (h : Guarded cfg sc s held) (hl : s.LruOrdered) {prepend : Bool}
    {it : ItemPtr} (hcall : s.annexCall cfg prepend it = some (t, id)) :
    t.LruOrdered ∧ t.Wf cfg := by
  unfold annexCall at hcall
  split at hcall
  · cases hcall
  · rename_i oit u hget
    dsimp only at hcall
    split_ifs at hcall
    obtain ⟨rfl, -⟩ := Prod.mk.inj (Option.some.inj hcall)
    exact h.get_lruOrdered hl hget

theorem Guarded.deltaCall_ordered (h : Guarded cfg sc s held) (hl : s.LruOrdered) {incr : Bool}
    {delta : ℕ} (hcall : s.deltaCall cfg key incr delta = some (t, id)) :
    t.LruOrdered ∧ t.Wf cfg := by
  unfold deltaCall at hcall
  split at hcall
  · cases hcall
  · rename_i p u hget
    split at hcall
    · cases hcall
    · dsimp only at hcall
      split_ifs at hcall
      obtain ⟨rfl, -⟩ := Prod.mk.inj (Option.some.inj hcall)
      exact h.get_lruOrdered hl hget

theorem Ages.trans {u : Store} (h : Ages s t) (h' : Ages t u) : Ages s u where
  env := ⟨h'.env.1.trans h.env.1, h'.env.2.1.trans h.env.2.1, h'.env.2.2.trans h.env.2.2⟩
  atime p := by
    rcases h'.atime p with heq | heq
    · rw [heq]
      exact h.atime p
    · exact .inr (heq.trans h.env.1)
  hash p hp := by
    rcases h'.hash p hp with hp | heq
    · refine (h.hash p hp).imp_right fun hat => ?_
      rcases h'.atime p with heq | heq
      · exact heq.trans hat
      · exact heq.trans h.env.1
    · exact .inr (heq.trans h.env.1)

/-- What a sequence of primitives does to access times. -/
theorem Deeds.ages (hd : Deeds cfg ch s t) : Ages s t := by
  induction hd with
  | refl => exact (Idles.refl s).ages
  | tail _ hd ih => exact ih.trans hd.ages

/-- The item that is linked has the current time. -/
theorem Runs.atime (h : Runs cfg ch s (some p) t) : (t.items p).atime = s.now := by
  obtain ⟨u, ch', h1, -, h2⟩ := h
  have hself : ((u.itemLink cfg ch' p).items p).atime = u.now := by simp [linkItem]
  have hnow : (u.itemLink cfg ch' p).now = u.now := congrArg Env.now (itemLink_env p)
  rcases h2.ages.atime p with heq | heq
  · rw [heq, hself, h1.env.1]
  · rw [heq, hnow, h1.env.1]

end Store

namespace Server

variable (cfg : Config) (s : Server)

/-- The item that a step links or touches. -/
def accessed : Label → Option ItemPtr
  | .touch _ p => some p
  | l => s.links cfg l

/-- The record of when items were last linked or touched. -/
def itemTimes (s : Server) (l : Label) (s' : Server) (g : ItemPtr → ℕ) : ItemPtr → ℕ := fun p =>
  if s.accessed cfg l = some p then s'.store.now else g p

/-- The server with that record. -/
def lruMachine :
    Machine (Server × (ItemPtr → ℕ)) Label Answer := (server cfg).traced (itemTimes cfg)

/-- The store in which a step calls `_item_alloc`, and the class it asks for, if it does. -/
def allocCall : Label → Option (Store × ℕ)
  | .alloc _ key _ _ nbyte _ => some (s.store, itemSlabid cfg key.length nbyte)
  | .annex c prepend _ => (s.unstored c).bind fun it => s.store.annexCall cfg prepend it
  | .delta key incr delta _ => s.store.deltaCall cfg key incr delta
  | _ => none

/-- Steps in which no slab has more than 65535 references. -/
def NoWrapTimes (x : Server × (ItemPtr → ℕ)) (l : Label) (y : Server × (ItemPtr → ℕ)) :
    Prop := NoWrap x.1 l y.1

instance (x y : Server × (ItemPtr → ℕ)) (l : Label) : Decidable (NoWrapTimes x l y) :=
  inferInstanceAs (Decidable (NoWrap _ _ _))

variable {cfg s} {s' : Server} {l : Label} {a : Answer} {g : ItemPtr → ℕ}
  {x y : Server × (ItemPtr → ℕ)} {p : ItemPtr} {now evictOpt : ℕ} {slabs : ℕ → Slab}
  {items : ItemPtr → Item}

theorem Effect.lruOrdered (he : Effect cfg s l s') (h : s.Inv cfg) (hl : s.store.LruOrdered) :
    s'.store.LruOrdered := by
  cases he with
  | path o base held' hg hp hperm hbase => exact hp.lruOrdered hg hl
  | write c p f hf hmem heq =>
    subst heq
    refine hl.of_sublist le_rfl (fun _ => List.Sublist.refl _) fun id q hq => ?_
    -- the item that is written to is in no queue
    have hqp : q ≠ p := fun hqp => by
      have hlinked := (h.inv.wf.mem_lruq_iff.1 hq).2.2
      rw [hqp, (h.unstored _ hmem rfl).1] at hlinked
      cases hlinked
    simp [Store.setItem, hqp]
  | env hshape hitems hslabs hlru hbooks hcas hnalloc hrefs hnow hlive =>
    exact hl.of_sublist hnow (fun id => by rw [hlru]) fun _ _ _ => by rw [hitems]

/-- The lru queues and the access times follow the record. -/
structure LruTimes (cfg : Config) (x : Server × (ItemPtr → ℕ)) : Prop where
  /-- The invariant of the server. -/
  inv : x.1.Inv cfg
  /-- The state is sound. -/
  sound : x.1.Sound
  /-- The queues are in order. -/
  ordered : x.1.store.LruOrdered
  /-- The record is about the past. -/
  past : ∀ p, x.2 p ≤ x.1.store.now
  /-- Access times are at most a minute behind. -/
  near : ∀ p, x.1.store.assoc.Has p → x.2 p ≤ (x.1.store.items p).atime + itemUpdateInterval

theorem accessed_of_resets (hl : l.resets = true) : s.accessed cfg l = none := by
  cases l <;> simp_all [Label.resets, accessed, links]

theorem accessed_cases (h : s.accessed cfg l = some p) :
    (∃ c, l = .touch c p) ∨ s.links cfg l = some p := by
  cases l with
  | touch c q =>
    obtain rfl := Option.some.inj h
    exact .inl ⟨c, rfl⟩
  | _ => exact .inr h

/-- The item that a step links or touches has an access time within the last minute. -/
theorem LruTimes.accessed_near (h : LruTimes cfg (s, g)) (hs : s.step cfg l = some (a, s'))
    (hruns : Store.Runs cfg l.choice s.store (s.links cfg l) s'.store) (hp : s'.store.assoc.Has p)
    (hacc : s.accessed cfg l = some p) :
    s'.store.now ≤ (s'.store.items p).atime + itemUpdateInterval := by
  have hnow : s'.store.now = s.store.now := hruns.deeds.env.1
  rw [hnow]
  rcases accessed_cases hacc with ⟨c, rfl⟩ | hlink
  · rcases hruns.deeds.ages.hash p hp with hold | heq
    · have hstore : s'.store = s.store.itemTouch cfg p := by
        simp only [Server.step] at hs
        split_ifs at hs
        exact (congrArg store (Prod.mk.inj (Option.some.inj hs)).2).symm
      rw [hstore]
      have hwf : s.store.shape.Wf cfg := h.inv.inv.wf
      exact Store.itemTouch_near h.sound.now ((hwf.assoc_has p).1 hold).2
    · rw [heq]
      exact Nat.le_add_right _ _
  · rw [hlink] at hruns
    rw [hruns.atime]
    exact Nat.le_add_right _ _

theorem LruTimes.step (h : LruTimes cfg x) (hs : (lruMachine cfg).step x l = some (a, y))
    (hno : NoWrapTimes x l y) :
    LruTimes cfg y := by
  obtain ⟨hst, hrec⟩ := Machine.traced_step hs
  obtain ⟨hacts, hsound⟩ := h.sound.step hst
  obtain ⟨heff, hinv⟩ := h.inv.step hst hno
  have hle : x.1.store.now ≤ y.1.store.now := by
    rcases hacts with hruns | ⟨-, hr⟩
    · exact hruns.deeds.env.1.ge
    · exact hr.1
  refine ⟨hinv, hsound, heff.lruOrdered h.inv h.ordered, fun p => ?_, fun p hp => ?_⟩
  · rw [hrec, itemTimes]
    split_ifs
    · exact le_rfl
    · exact (h.past p).trans hle
  · rw [hrec, itemTimes]
    rcases hacts with hruns | ⟨hl, -, -, heq⟩
    · split_ifs with hacc
      · exact h.accessed_near hst hruns hp hacc
      · -- an item that is hashed by the step has the current time
        have hages := hruns.deeds.ages
        rcases hages.hash p hp with hold | hnew
        · rcases hages.atime p with hsame | hnew
          · rw [hsame]
            exact h.near p hold
          · rw [hnew]
            exact (h.past p).trans (Nat.le_add_right _ _)
        · rw [hnew]
          exact (h.past p).trans (Nat.le_add_right _ _)
    · rw [accessed_of_resets hl, if_neg nofun]
      rw [heq] at hp ⊢
      exact h.near p hp

theorem lruTimes_init (hnow : now < 2 ^ 32) :
    LruTimes cfg (init cfg now evictOpt slabs items, fun _ => 0) where
  inv := inv_init
  sound := sound_init hnow
  ordered := ⟨fun _ => List.Pairwise.nil, fun _ _ hp => absurd hp List.not_mem_nil⟩
  past := fun _ => Nat.zero_le _
  near := fun _ _ => Nat.zero_le _

/-- **The lru queues are in the order of use, to the minute.**  As long as no slab has more than
65535 references, each lru queue is in the order of access times, the access time of a linked item
is at most 60 seconds older than when it was last linked or touched, and an item that is evicted for
a new one has the least access time of those of its class that nobody uses. -/
theorem lru_order (hnow : now < 2 ^ 32)
    (h : (lruMachine cfg).Reaches NoWrapTimes (init cfg now evictOpt slabs items, fun _ => 0) x) :
    (∀ id, (x.1.store.lruq id).Pairwise fun p q => (x.1.store.items p).atime ≤
      (x.1.store.items q).atime) ∧
    (∀ p, x.1.store.Linked cfg p → x.2 p ≤ (x.1.store.items p).atime + 60) ∧
    ∀ l t id p, x.1.allocCall cfg l = some (t, id) →
      t.allocSource cfg l.choice id = some .evictedItem →
      (t.itemAllocChunk cfg l.choice id).1 = some p → t.LeastUsed cfg id p := by
  have hx : LruTimes cfg x :=
    h.invariant (lruTimes_init hnow) fun _ _ _ _ hI hst hC => hI.step hst hC
  have hg := hx.inv.guarded (.evict 0) none
  have hwf : x.1.store.shape.Wf cfg := hx.inv.inv.wf
  refine ⟨hx.ordered.sorted, fun p hp => hx.near p ((hwf.assoc_has p).2 hp),
    fun l t id p hcall hsource hp => ?_⟩
  have ht : t.LruOrdered ∧ t.Wf cfg := by
    cases l with
    | alloc c key dataflags exptime nbyte ch =>
      obtain ⟨rfl, -⟩ := Prod.mk.inj (Option.some.inj hcall)
      exact ⟨hx.ordered, hwf⟩
    | annex c prepend ch =>
      obtain ⟨it, -, hcall⟩ := Option.bind_eq_some_iff.1 hcall
      exact hg.annexCall_ordered hx.ordered hcall
    | delta key incr delta ch => exact hg.deltaCall_ordered hx.ordered hcall
    | _ => cases hcall
  exact ht.1.leastUsed ht.2 hsource hp

/-- `a`, `b` and `c` are stored one after the other, and fill the slab. -/
def threeTimesRun : List Label :=
  [.tick 100, .alloc 0 [97] 0 0 1 {}, .fill 0 0 [120, 13, 10], .set 0 {}, .removeItem 0, .tick 200,
    .alloc 0 [98] 0 0 1 {}, .fill 0 0 [120, 13, 10], .set 0 {}, .removeItem 0, .tick 300,
    .alloc 0 [99] 0 0 1 {}, .fill 0 0 [120, 13, 10], .set 0 {}, .removeItem 0]

/-- `a` is evicted for a fourth item: it was used before `b`. -/
theorem lru_order_three :
    ∃ x : Server × (ItemPtr → ℕ), (lruMachine three).Reaches NoWrapTimes (initThree, fun _ => 0) x ∧
    (x.1.store.items ⟨0, 0⟩).atime ≤ (x.1.store.items ⟨0, 1⟩).atime ∧
      x.2 ⟨0, 0⟩ ≤ (x.1.store.items ⟨0, 0⟩).atime + 60 := by
  have hrun :
      ((lruMachine three).run (fun x l y => decide (NoWrapTimes x l y)) (initThree, fun _ => 0)
      threeTimesRun).isSome = true := by decide +kernel
  have hreach : (lruMachine three).Reaches NoWrapTimes (initThree, fun _ => 0)
      ((lruMachine three).exec
      (fun x l y => decide (NoWrapTimes x l y)) (initThree, fun _ => 0) threeTimesRun) :=
    (Machine.reaches_exec hrun).mono fun _ _ _ => of_decide_eq_true
  have hlinked :
      ((lruMachine three).exec (fun x l y => decide (NoWrapTimes x l y)) (initThree, fun _ => 0)
      threeTimesRun).1.store.Linked three ⟨0, 0⟩ ∧
        ((lruMachine three).exec (fun x l y => decide (NoWrapTimes x l y))
      (initThree, fun _ => 0) threeTimesRun).1.store.Linked three ⟨0, 1⟩ :=
    ⟨⟨⟨by decide +kernel, by decide +kernel⟩, by decide +kernel⟩,
      ⟨by decide +kernel, by decide +kernel⟩, by decide +kernel⟩
  have hfree :
      (((lruMachine three).exec (fun x l y => decide (NoWrapTimes x l y)) (initThree, fun _ => 0)
      threeTimesRun).1.store.items ⟨0, 1⟩).refcount = 0 ∧ (((lruMachine three).exec (fun x l y =>
      decide (NoWrapTimes x l y)) (initThree, fun _ => 0) threeTimesRun).1.store.items ⟨0, 1⟩).id =
          1 := by
    decide +kernel
  have hsource :
      ((lruMachine three).exec (fun x l y => decide (NoWrapTimes x l y)) (initThree, fun _ => 0)
      threeTimesRun).1.store.allocSource three {} 1 = some .evictedItem := by decide +kernel
  have hvictim :
      (((lruMachine three).exec (fun x l y => decide (NoWrapTimes x l y)) (initThree, fun _ => 0)
      threeTimesRun).1.store.itemAllocChunk three {} 1).1 = some ⟨0, 0⟩ := by decide +kernel
  generalize (lruMachine three).exec (fun x l y => decide (NoWrapTimes x l y))
    (initThree, fun _ => 0) threeTimesRun = x
    at hreach hlinked hfree hsource hvictim
  have hreach' := hreach
  unfold initThree at hreach
  have hnow : 2 < 2 ^ 32 := by decide
  obtain ⟨-, hnear, hleast⟩ := lru_order hnow hreach
  have hone : itemSlabid three 1 1 = 1 := by decide
  have hcall : x.1.allocCall three (.alloc 1 [100] 0 0 1 {}) = some (x.1.store, 1) := by
    simp only [allocCall, List.length_singleton, hone]
  exact ⟨x, hreach', hleast _ _ 1 ⟨0, 0⟩ hcall hsource hvictim ⟨0, 1⟩ hlinked.2 hfree.2 hfree.1,
    hnear _ hlinked.1⟩

/-! ### An item is linked twice -/

/-- Replies that are pending do not matter when a connection gives back its own item. -/
theorem strips_removeItem (c : ℕ) : Strips cfg (.removeItem c) := by
  intro s
  have hfind : s.strip.refs.find? (fun r => decide (r.conn = c ∧ r.slot ≠ .ilist)) =
      s.refs.find? fun r => decide (r.conn = c ∧ r.slot ≠ .ilist) := by
    simp only [strip, List.find?_filter]
    congr 1
    funext r
    by_cases hslot : r.slot = .ilist <;> simp [hslot]
  simp only [step, hfind, Option.map_map]
  congr 1
  funext r
  simp only [Function.comp, Prod.map, id, giveBack, strip, List.erase_filter, List.filter_filter,
    Bool.and_self]

theorem strips_call {f : Server → Option (Answer × Store)}
    (hl : ∀ s : Server, s.step cfg l = (f s).bind s.call) (hf : ∀ s : Server, f s.strip = f s) :
    Strips cfg l := by
  intro s
  rw [hl, hl, hf]
  cases f s <;> simp [call, strip]

theorem strips_tick (now : ℕ) : Strips cfg (.tick now) := by
  refine strips_call (f := fun s => if s.store.now ≤ now ∧ now < 2 ^ 32 then
    some (.done, { s.store with now := now }) else none) (fun s => ?_) fun _ => rfl
  by_cases h : s.store.now ≤ now ∧ now < 2 ^ 32
  · rw [step, if_pos h, if_pos h]
    rfl
  · rw [step, if_neg h, if_neg h]
    rfl

theorem strips_evict (opt : ℕ) : Strips cfg (.evict opt) :=
  strips_call (f := fun s => some (.done, { s.store with evictOpt := opt })) (fun _ => rfl) fun _ =>
    rfl

/-- A heap of one slab with three chunks of 128 bytes, without cas ids. -/
def threePlain : Config := { three with useCas := false }

/-- The heap is full: `a` and `c` are stored, and connection 2 is about to send the data block of
`b`. -/
def fullPlain : Server :=
  (server threePlain).exec (fun _ _ _ => true) (.init threePlain 2 evictAs (fun _ => ⟨0, 0, 0, 0⟩)
      fun _ => ⟨0, 0, 0, 0, 0, {}, 0, [], 0, fun _ => 0, 0⟩)
    [.tick 100, .alloc 0 [97] 0 0 1 {}, .fill 0 0 [120, 13, 10], .set 0 {}, .removeItem 0,
      .alloc 2 [98] 0 0 1 {},
      .alloc 0 [99] 0 0 1 {}, .fill 0 0 [120, 13, 10], .set 0 {}, .removeItem 0]

/-- After the slab was evicted: the stale item of connection 2 is linked at 100, `d` at 200, and
`e`, which has got the chunk of the stale item, at 300. -/
def twiceRun : List Label :=
  [.alloc 3 [100] 0 0 1 {}, .fill 2 0 [121, 13, 10], .set 2 {}, .removeItem 2, .tick 200,
    .fill 3 0 [120, 13, 10], .set 3 {}, .removeItem 3, .tick 300, .alloc 4 [101] 0 0 1 {},
    .fill 4 0 [120, 13, 10], .set 4 {}, .removeItem 4, .evict evictLru, .alloc 5 [102] 0 0 1 {}]

/-- The server after that, without the replies of connection 1. -/
def linkedTwice : Server :=
  (server threePlain).exec (fun _ _ _ => true)
    ⟨acquired fullPlain.store ⟨0, 0⟩ 65535, fullPlain.refs⟩ twiceRun

/-- The item that is evicted is not the one that was used least recently: its chunk was linked
twice. -/
theorem lru_evicts_younger : ∃ x : Server × (ItemPtr → ℕ),
    (lruMachine threePlain).Reaches Machine.Unguarded
      (.init threePlain 2 evictAs (fun _ => ⟨0, 0, 0, 0⟩)
      (fun _ => ⟨0, 0, 0, 0, 0, {}, 0, [], 0, fun _ => 0, 0⟩), fun _ => 0) x ∧
    ∃ id, x.1.allocCall threePlain (.alloc 6 [103] 0 0 1 {}) = some (x.1.store, id) ∧
      x.1.store.allocSource threePlain {} id = some .evictedItem ∧
      (x.1.store.itemAllocChunk threePlain {} id).1 = some ⟨0, 1⟩ ∧
          ¬ x.1.store.LeastUsed threePlain id ⟨0, 1⟩ := by
  have hfull : (server threePlain).Reaches Machine.Unguarded _ fullPlain :=
    (Machine.reaches_exec (by decide +kernel)).mono fun _ _ _ _ => trivial
  have hgets := reaches_gets threePlain (s := fullPlain) [97] (p := ⟨0, 0⟩) 1
    (by decide +kernel) (by decide +kernel) (by decide +kernel) (by decide +kernel)
    (by decide +kernel) 65535
  have hstrip := strip_replies (acquired fullPlain.store ⟨0, 0⟩ 65535) fullPlain.refs 1 65535 ⟨0, 0⟩
  have hstrips : ∀ l ∈ twiceRun, Strips threePlain l := by
    have hitem : ∀ {l}, OnItem l → Strips threePlain l := fun hl _ => step_strip hl
    simp only [twiceRun, List.forall_mem_cons, List.not_mem_nil, false_implies,
      implies_true, and_true]
    exact ⟨hitem trivial, hitem trivial, hitem trivial, strips_removeItem 2, strips_tick 200,
      hitem trivial, hitem trivial, strips_removeItem 3, strips_tick 300, hitem trivial,
        hitem trivial,
      hitem trivial, strips_removeItem 4, strips_evict evictLru, hitem trivial⟩
  obtain ⟨t, ht, htstrip⟩ :=
    run_of_strip linkedTwice hstrip twiceRun hstrips (Machine.run_eq_exec (by decide +kernel))
  have hstore : t.store = linkedTwice.store := store_eq_of_strip htstrip
  obtain ⟨g, hg⟩ := ((hfull.trans hgets).trans ht).to_traced (itemTimes threePlain) fun _ => 0
  have hone : itemSlabid threePlain 1 1 = 1 := by decide
  refine ⟨(t, g), hg.mono fun _ _ _ _ => trivial, 1, ?_, ?_, ?_, fun hleast => ?_⟩
  · simp only [allocCall, List.length_singleton, hone]
  · rw [hstore]
    decide +kernel
  · rw [hstore]
    decide +kernel
  · -- the chunk of `d` was used before
    rw [hstore] at hleast
    have hle := hleast ⟨0, 0⟩ ⟨⟨by decide +kernel, by decide +kernel⟩, by decide +kernel⟩
      (by decide +kernel)
      (by decide +kernel)
    revert hle
    decide +kernel

end Server

end Twemcache
