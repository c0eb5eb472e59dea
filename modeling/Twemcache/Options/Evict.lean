import Twemcache.Options.Delta
import Twemcache.Server.Sound

/-!
# Eviction strategies

The strategy is kept in three settings: `evict_opt`, and `use_freeq` and `use_lruq`, which
`EVICT_CS` alone clears. `-M` sets all three, `config evict` the first one only.  So a server that
was started with `EVICT_CS` neither looks for expired or old items nor takes chunks from the free
queues, whatever its strategy has become, and one that has changed to `EVICT_CS` goes on to do both.

## Main definitions

* `Source` : where `item_alloc` takes its chunk from, and `allocSource`.
* `Config.startedAs` : the settings of a server that is started with a strategy.
-/

namespace Twemcache

/-- Where `item_alloc` takes its chunk from. -/
inductive Source where
  /-- An expired item of the lru queue. -/
  | expiredItem
  /-- The free queue. -/
  | freeQueue
  /-- The current slab. -/
  | currentSlab
  /-- A new slab. -/
  | newSlab
  /-- An evicted slab. -/
  | evictedSlab
  /-- An item of the lru queue that is evicted. -/
  | evictedItem
  deriving DecidableEq, Repr

namespace Store

variable (cfg : Config) (ch : Choice) (id : ℕ) (s : Store)

/-- Where `slab_get_item` takes its chunk from. -/
def slabGetItemSource : Option Source :=
  match s.slabGetItemFromFreeq cfg id with
  | some _ => some .freeQueue
  | none =>
    if (s.slabclass id).freeItem = none then
      match (s.slabGetNew cfg ch).1 with
      | some _ => some .newSlab
      | none => if (s.slabGet cfg ch id).1 then some .evictedSlab else none
    else some .currentSlab

/-- Where `item_alloc` takes its chunk from, if it finds one. -/
def allocSource : Option Source :=
  match (s.itemGetFromLruq cfg id).filter s.itemExpired with
  | some _ => some .expiredItem
  | none =>
    match s.slabGetItemSource cfg ch id with
    | some source => some source
    | none =>
      if s.evictOpt &&& evictLru ≠ 0 ∧
        (s.itemGetFromLruq cfg id).isSome then some .evictedItem else none

/-- The items that `item_alloc` evicts: they are linked before it, and are not linked after it. -/
def allocEvicts : Set ItemPtr :=
  {p | (s.items p).flags.linked = true ∧
    ((s.itemAllocChunk cfg ch id).2.items p).flags.linked = false}

variable {cfg ch id s}

theorem slabGetItemFromCurrent_isSome :
    (s.slabGetItemFromCurrent id).1.isSome = (s.slabclass id).freeItem.isSome := by
  unfold slabGetItemFromCurrent
  cases (s.slabclass id).freeItem with
  | none => rfl
  | some p => rfl

/-- The slab that `slab_get` adds is the current one. -/
theorem freeItem_of_slabGet {t : Store} (h : s.slabGet cfg ch id = (true, t)) :
    ∃ p, (t.slabclass id).freeItem = some p := by
  unfold slabGet at h
  split at h
  · rename_i sl u _
    obtain ⟨-, rfl⟩ := Prod.mk.inj h
    exact ⟨⟨sl, 0⟩, by simp [slabAddOne, setClass, setGauges]⟩
  · cases (Prod.mk.inj h).1

theorem slabGet_of_new {sl : ℕ} (h : (s.slabGetNew cfg ch).1 = some sl) :
    (s.slabGet cfg ch id).1 = true := by
  have hnew : s.slabGetNew cfg ch = (some sl, (s.slabGetNew cfg ch).2) := Prod.ext h rfl
  rw [slabGet, slabObtain, hnew]

/-- `slab_get_item` finds a chunk exactly where there is a source. -/
theorem slabGetItem_isSome :
    (s.slabGetItem cfg ch id).1.isSome = (s.slabGetItemSource cfg ch id).isSome := by
  unfold slabGetItem slabGetItemSource
  cases s.slabGetItemFromFreeq cfg id with
  | some p => rfl
  | none =>
    dsimp only
    by_cases hcur : (s.slabclass id).freeItem = none
    · rw [if_pos hcur, if_pos hcur]
      have hfound : ∀ t, s.slabGet cfg ch id = (true, t) →
          (t.slabGetItemFromCurrent id).1.isSome = true := by
        intro t ht
        obtain ⟨p, hp⟩ := freeItem_of_slabGet ht
        rw [slabGetItemFromCurrent_isSome, hp]
        rfl
      cases hnew : (s.slabGetNew cfg ch).1 with
      | some sl =>
        have hget : s.slabGet cfg ch id = (true, (s.slabGet cfg ch id).2) :=
          Prod.ext (slabGet_of_new hnew) rfl
        rw [hget]
        exact hfound _ hget
      | none =>
        cases hget : s.slabGet cfg ch id with
        | mk ok t =>
          cases ok with
          | true => simpa using hfound t hget
          | false => rfl
    · rw [if_neg hcur, if_neg hcur, slabGetItemFromCurrent_isSome]
      exact Option.isSome_iff_ne_none.2 hcur

/-- `item_alloc` finds a chunk exactly where there is a source. -/
theorem itemAllocChunk_isSome :
    (s.itemAllocChunk cfg ch id).1.isSome = (s.allocSource cfg ch id).isSome := by
  unfold itemAllocChunk allocSource
  cases (s.itemGetFromLruq cfg id).filter s.itemExpired with
  | some p => rfl
  | none =>
    dsimp only
    have hslab : (s.slabGetItem cfg ch id).1.isSome = (s.slabGetItemSource cfg ch id).isSome :=
      slabGetItem_isSome
    cases hget : s.slabGetItem cfg ch id with
    | mk r t =>
      rw [hget] at hslab
      cases r with
      | some p =>
        obtain ⟨source, hsource⟩ := Option.isSome_iff_exists.1 hslab.symm
        rw [hsource]
        rfl
      | none =>
        have hnone : s.slabGetItemSource cfg ch id = none :=
          Option.not_isSome_iff_eq_none.1 (by simp [← hslab])
        rw [hnone]
        by_cases hopt : s.evictOpt &&& evictLru ≠ 0
        · cases s.itemGetFromLruq cfg id with
          | some p => simp [hopt]
          | none => simp [hopt]
        · simp [hopt]

end Store

/-- The settings of the server when it is started with `-M opt`. -/
def Config.startedAs (cfg : Config) (opt : ℕ) : Config :=
  { cfg with useFreeq := decide (opt ≠ evictCs), useLruq := decide (opt ≠ evictCs) }

theorem Config.StartedWith.startedAs {cfg : Config} {o : Options} (h : cfg.StartedWith o) {opt : ℕ}
    (hopt : opt < 16) :
    (cfg.startedAs opt).StartedWith { o with evictOpt := opt } where
  accepted := { h.accepted with evictOpt := hopt }
  profile := h.profile
  slabSize := h.slabSize
  itemHdrSize := h.itemHdrSize
  maxNslab := h.maxNslab
  useFreeq := rfl
  useLruq := rfl

/-- In every store of a server that was started with `-M a` and has changed to `b`, `item_alloc`
takes its chunk from the same source and evicts the same items as in a server that was started with
`-M b`. -/
def EvictAgrees (a b : ℕ) : Prop :=
  ∀ (o : Options) (cfg : Config), cfg.StartedWith o →
    ∀ now slabs items s, (server (cfg.startedAs a)).Reaches Machine.Unguarded
      (.init (cfg.startedAs a) now a slabs items) s → s.store.evictOpt = b →
    ∀ ch' t, Store.Deeds (cfg.startedAs a) ch' s.store t → ∀ ch id,
      t.allocSource (cfg.startedAs a) ch id = t.allocSource (cfg.startedAs b) ch id ∧
        t.allocEvicts (cfg.startedAs a) ch id = t.allocEvicts (cfg.startedAs b) ch id

theorem Config.startedAs_congr {a b : ℕ} (h : a = evictCs ↔ b = evictCs) (cfg : Config) :
    cfg.startedAs a = cfg.startedAs b := by
  simp only [startedAs, ne_eq, h]

/-- The small server, started with the strategy `a`. -/
def initAs (a : ℕ) : Server :=
  .init (Config.narrow.startedAs a) 2 a (fun _ => ⟨0, 0, 0, 0⟩) fun _ =>
    ⟨0, 0, 0, 0, 0, {}, 0, [], 0, fun _ => 0, 0⟩

/-- An item is stored and deleted. -/
def freedRun : List Label :=
  [.alloc 0 [97] 0 0 1 {}, .fill 0 0 [49, 13, 10], .set 0 {}, .removeItem 0, .delete [97]]

/-- The small server after that. -/
def freedServer (a : ℕ) : Server :=
  (server (Config.narrow.startedAs a)).exec (fun _ _ _ => true) (initAs a) freedRun

/-- Its store when the strategy has changed to `b`. -/
def freedStore (a b : ℕ) : Store := { (freedServer a).store with evictOpt := b }

theorem reaches_freedStore {a : ℕ} (ha : a < 16) (b : ℕ) :
    (server (Config.narrow.startedAs a)).Reaches Machine.Unguarded (initAs a)
      { freedServer a with store := freedStore a b } := by
  have hrun : ∀ a < 16, ((server (Config.narrow.startedAs a)).run (fun _ _ _ => true) (initAs a)
      freedRun).isSome = true := by decide +kernel
  have hfreed : (server (Config.narrow.startedAs a)).Reaches Machine.Unguarded (initAs a)
      (freedServer a) :=
    (Machine.reaches_exec (hrun a ha)).mono fun _ _ _ _ => trivial
  have hstep : (server (Config.narrow.startedAs a)).step (freedServer a) (.evict b) =
      some (.done, { freedServer a with store := freedStore a b }) := rfl
  exact hfreed.tail hstep trivial

/-- Started with `EVICT_CS`, the server does not look at the free queue. -/
theorem source_from_evictCs : ∀ b < 16, b ≠ evictCs →
    (freedStore evictCs b).allocSource (Config.narrow.startedAs evictCs) {} 1 = some .currentSlab ∧
      (freedStore evictCs b).allocSource (Config.narrow.startedAs b) {} 1 = some .freeQueue := by
  decide +kernel

/-- Changed to `EVICT_CS`, the server goes on to look at it. -/
theorem source_to_evictCs : ∀ a < 16, a ≠ evictCs →
    (freedStore a evictCs).allocSource (Config.narrow.startedAs a) {} 1 = some .freeQueue ∧
      (freedStore a evictCs).allocSource (Config.narrow.startedAs evictCs) {} 1 =
          some .currentSlab := by
  decide +kernel

/-- Where the small server agrees, it takes its chunk from one source. -/
theorem EvictAgrees.source {a b : ℕ} (h : EvictAgrees a b) (ha : a < 16) :
    (freedStore a b).allocSource (Config.narrow.startedAs a) {} 1 =
      (freedStore a b).allocSource (Config.narrow.startedAs b) {} 1 :=
  (h narrowOptions .narrow startedWith_narrow 2 _ _ _ (reaches_freedStore ha b) rfl {} _
    (.refl _) {} 1).1

/-- **`config evict` and `-M` agree if and only if both strategies are `EVICT_CS`, or neither is.**
-/
theorem evict_agrees_exact {a b : ℕ} (ha : a < 16) (hb : b < 16) :
    EvictAgrees a b ↔ (a = evictCs ↔ b = evictCs) := by
  constructor
  · intro h
    have hsame := h.source ha
    constructor
    · rintro rfl
      by_contra hne
      obtain ⟨hcur, hfree⟩ := source_from_evictCs b hb hne
      rw [hcur, hfree] at hsame
      cases hsame
    · rintro rfl
      by_contra hne
      obtain ⟨hfree, hcur⟩ := source_to_evictCs a ha hne
      rw [hcur, hfree] at hsame
      cases hsame
  · intro h o cfg _ now slabs items s _ _ ch' t _ ch id
    rw [Config.startedAs_congr h]
    exact ⟨rfl, rfl⟩

/-- Changing between the other strategies is as good as starting with them. -/
theorem evict_agrees_lru : evictLru < 16 ∧ evictAs < 16 ∧ EvictAgrees evictLru evictAs :=
  ⟨by decide, by decide, (evict_agrees_exact (by decide) (by decide)).2 (by decide)⟩

/-- Started with `EVICT_CS` and changed to `EVICT_LRU`, the server takes the next chunk of the
current slab, where it would have taken the free one. -/
theorem evict_disagrees : narrowOptions.Accepted ∧ Config.narrow.StartedWith narrowOptions ∧
    (server (Config.narrow.startedAs evictCs)).Reaches Machine.Unguarded (initAs evictCs)
      { freedServer evictCs with store := freedStore evictCs evictLru } ∧
    (freedStore evictCs evictLru).allocSource (Config.narrow.startedAs evictCs) {} 1 =
      some .currentSlab ∧
    (freedStore evictCs evictLru).allocSource (Config.narrow.startedAs evictLru) {} 1 =
      some .freeQueue ∧
    ¬ EvictAgrees evictCs evictLru := by
  have hsource := source_from_evictCs evictLru (by decide) (by decide)
  refine ⟨startedWith_narrow.accepted, startedWith_narrow, reaches_freedStore (by decide) evictLru,
    hsource.1, hsource.2, fun h => ?_⟩
  have hsame := h.source (by decide)
  rw [hsource.1, hsource.2] at hsame
  cases hsame

end Twemcache
