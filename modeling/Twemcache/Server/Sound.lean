import Twemcache.Server.Basic
import Twemcache.Store.Use

/-!
# Steps of the server, whatever the counts

`Server.Inv` holds as long as no count of references wraps.  `Server.Sound` is what holds in every
reachable state: pointers are to chunks of slabs in use, and items in the hash table have times that
have come.  Every step is a sequence of primitives that links at most one item, `Server.links`, or a
change of the clock and the settings.
-/

namespace Twemcache

/-- What the environment decides within a step. -/
def Label.choice : Label → Choice
  | .alloc _ _ _ _ _ ch | .set _ ch | .cas _ ch | .add _ ch | .replace _ ch | .annex _ _ ch
  | .delta _ _ _ ch => ch
  | _ => {}

/-- The step is about the clock and the settings only. -/
def Label.resets : Label → Bool
  | .flushSet _ | .tick _ | .evict _ => true
  | _ => false

namespace Server

variable (cfg : Config) (s : Server)

/-- The item that a step links. -/
def links : Label → Option ItemPtr
  | .set c _ => s.unstored c
  | .cas c ch => (s.unstored c).bind fun p => (s.store.itemCas cfg ch p).1.stored p
  | .add c ch => (s.unstored c).bind fun p => (s.store.itemAdd cfg ch p).1.stored p
  | .replace c ch => (s.unstored c).bind fun p => (s.store.itemReplace cfg ch p).1.stored p
  | .annex c prepend ch => (s.unstored c).bind fun p => s.store.annexNew cfg ch prepend p
  | .delta key incr delta ch => s.store.deltaNew cfg ch key incr delta
  | _ => none

/-- What is true in every reachable state. -/
structure Sound : Prop where
  /-- Pointers of the store are to chunks of slabs. -/
  anchored : s.store.Anchored
  /-- Pointers of connections are, too. -/
  refs : ∀ r ∈ s.refs, r.ptr.slab ∈ s.store.slabLruq
  /-- Times are 32 bits wide. -/
  now : s.store.now < 2 ^ 32
  /-- Hashed items have times that have come. -/
  dated : s.store.Dated

/-- The clock and the settings have changed. -/
def Resets (st st' : Store) : Prop := st.now ≤ st'.now ∧ st'.now < 2 ^ 32 ∧
  st' = { st with now := st'.now, oldestLive := st'.oldestLive, evictOpt := st'.evictOpt }

/-- What a step is to the store. -/
def Acts (cfg : Config) (s : Server) (l : Label) (s' : Server) : Prop :=
  Store.Runs cfg l.choice s.store (s.links cfg l) s'.store ∨ l.resets = true ∧
    Resets s.store s'.store

variable {cfg s} {s' : Server} {l : Label} {a : Answer} {c : ℕ} {p : ItemPtr} {ch : Choice}

theorem Sound.unstored (h : s.Sound) (hp : s.unstored c = some p) : p.slab ∈ s.store.slabLruq := by
  obtain ⟨r, hr, rfl⟩ := Option.map_eq_some_iff.1 hp
  exact h.refs r (List.mem_of_find?_eq_some hr)

theorem Sound.of_deeds (h : s.Sound) (hd : Store.Deeds cfg ch s.store s'.store)
    (hrefs : ∀ r ∈ s'.refs, r.ptr ∈ s.refs.map Ref.ptr ∨ r.ptr.slab ∈ s'.store.slabLruq) :
    s'.Sound := by
  obtain ⟨hs, ha⟩ := hd.shuffles h.anchored h.now
  refine ⟨ha, fun r hr => ?_, hs.now ▸ h.now, hd.dated h.dated⟩
  rcases hrefs r hr with hmem | hmem
  · obtain ⟨r', hr', heq⟩ := List.mem_map.1 hmem
    rw [← heq]
    exact hs.known _ (h.refs r' hr')
  · exact hmem

/-- A storage function. -/
theorem Sound.storeItem (h : s.Sound) {f : ItemPtr → Answer × Store} {g : ItemPtr → Option ItemPtr}
    (hs : s.storeItem cfg c f = some (a, s'))
    (hruns : ∀ p, p.slab ∈ s.store.slabLruq → Store.Runs cfg ch s.store (g p) (f p).2) :
    Store.Runs cfg ch s.store ((s.unstored c).bind g) s'.store ∧ s'.Sound := by
  obtain ⟨p, hp, heq⟩ := storeItem_cases hs
  obtain ⟨-, rfl⟩ := Prod.mk.inj heq
  have hr := hruns p (h.unstored hp)
  refine ⟨by rw [hp]; exact hr, h.of_deeds hr.deeds fun r hr => .inl ?_⟩
  have hmem : r.ptr ∈ (markStored c s.refs).map Ref.ptr := List.mem_map_of_mem hr
  rw [markStored, List.map_map] at hmem
  obtain ⟨r', hr', heq⟩ := List.mem_map.1 hmem
  refine List.mem_map.2 ⟨r', hr', ?_⟩
  rw [← heq]
  simp only [Function.comp]
  split_ifs <;> rfl

/-- A function without references of its own. -/
theorem Sound.call (h : s.Sound) {r : Answer × Store} (hs : s.call r = some (a, s'))
    (hd : Store.Deeds cfg ch s.store r.2) : Store.Deeds cfg ch s.store s'.store ∧ s'.Sound := by
  obtain ⟨-, rfl⟩ := Prod.mk.inj (Option.some.inj hs)
  exact ⟨hd, h.of_deeds hd fun r hr => .inl (List.mem_map_of_mem hr)⟩

/-- A change of the clock or the settings. -/
theorem Sound.resets (h : s.Sound) {r : Answer × Store} (hs : s.call r = some (a, s'))
    (hr : Resets s.store r.2) : Resets s.store s'.store ∧ s'.Sound := by
  obtain ⟨-, rfl⟩ := Prod.mk.inj (Option.some.inj hs)
  refine ⟨hr, ?_⟩
  obtain ⟨hle, hlt, heq⟩ := hr
  refine ⟨?_, ?_, hlt, fun p hp => ?_⟩
  · dsimp only
    rw [heq]
    exact ⟨h.anchored.table, h.anchored.perm, h.anchored.slab⟩
  · dsimp only
    rw [heq]
    exact h.refs
  · dsimp only at hp ⊢
    have hp' : s.store.assoc.Has p := by rwa [heq] at hp
    have hitem : (r.2.items p).atime = (s.store.items p).atime := by rw [heq]
    rw [hitem]
    exact (h.dated p hp').trans hle

/-- Writes to an unstored item. -/
theorem Sound.writeItem (h : s.Sound) {f : Item → Item} (hf : ∀ it, (f it).atime = it.atime)
    (hs : s.writeItem c f = some (a, s')) : Store.Deeds cfg ch s.store s'.store ∧ s'.Sound := by
  obtain ⟨p, hp, heq⟩ := Option.map_eq_some_iff.1 hs
  obtain ⟨-, rfl⟩ := Prod.mk.inj heq
  have hd : Store.Deeds cfg ch s.store (s.store.setItem p f) := .single (.write hf)
  exact ⟨hd, h.of_deeds hd fun r hr => .inl (List.mem_map_of_mem hr)⟩

/-- A reference is given back. -/
theorem Sound.giveBack (h : s.Sound) {r : Ref} (hr : r ∈ s.refs)
    (hs : some (s.giveBack r) = some (a, s')) :
    Store.Deeds cfg ch s.store s'.store ∧ s'.Sound := by
  obtain ⟨-, rfl⟩ := Prod.mk.inj (Option.some.inj hs)
  have hd : Store.Deeds cfg ch s.store (s.store.itemRemove r.ptr) := .single (.remove (h.refs r hr))
  exact ⟨hd, h.of_deeds hd fun r' hr' => .inl (List.mem_map_of_mem (List.mem_of_mem_erase hr'))⟩

/-- A reference is taken. -/
theorem Sound.keep (h : s.Sound) {slot : Slot} {r : Option ItemPtr × Store}
    (hd : Store.Deeds cfg ch s.store r.2) (hp : ∀ p, r.1 = some p → p.slab ∈ r.2.slabLruq) :
    (s.keep c slot r).2.Sound := by
  refine h.of_deeds hd fun x hx => ?_
  rcases List.mem_append.1 hx with hx | hx
  · obtain ⟨p, hrp, rfl⟩ : ∃ p, r.1 = some p ∧ ⟨c, slot, p⟩ = x := by simpa using hx
    exact .inr (hp p hrp)
  · exact .inl (List.mem_map_of_mem hx)

/-- **Every step of the server is a sequence of primitives that links at most one item**, or a
change of the clock and the settings, whatever the counts of references. -/
theorem Sound.step (h : s.Sound) (hs : s.step cfg l = some (a, s')) :
    Acts cfg s l s' ∧ s'.Sound := by
  have ha := h.anchored
  have hnow := h.now
  have hruns : ∀ {P : Prop}, Store.Runs cfg l.choice s.store (s.links cfg l) s'.store ∧ P →
      Acts cfg s l s' ∧ P := fun hr => ⟨.inl hr.1, hr.2⟩
  cases l with
  | alloc c key dataflags exptime nbyte ch =>
    simp only [Server.step] at hs
    split_ifs at hs
    obtain ⟨-, rfl⟩ := Prod.mk.inj (Option.some.inj hs)
    obtain ⟨hd, hp⟩ :=
      Store.deeds_itemAlloc ha cfg ch (itemSlabid cfg key.length nbyte) key dataflags
      exptime nbyte
    exact hruns ⟨hd, h.keep hd hp⟩
  | fill c off bytes =>
    simp only [Server.step] at hs
    split_ifs at hs
    exact hruns (h.writeItem (f := fun it => it.write (it.data cfg + off) bytes) (fun _ => rfl) hs)
  | reqCas c cas => exact hruns (h.writeItem (fun _ => by simp) hs)
  | set c ch =>
    have hst := h.storeItem hs (fun p hp => Store.runs_itemSet ha hnow cfg ch hp)
    rw [Option.bind_fun_some] at hst
    exact hruns hst
  | cas c ch => exact hruns (h.storeItem hs fun p hp => Store.runs_itemCas ha hnow hp)
  | add c ch => exact hruns (h.storeItem hs fun p hp => Store.runs_itemAdd ha hnow hp)
  | replace c ch => exact hruns (h.storeItem hs fun p hp => Store.runs_itemReplace ha hnow hp)
  | annex c prepend ch =>
    exact hruns (h.storeItem hs fun p _ => Store.runs_itemAnnex ha hnow prepend p)
  | removeItem c =>
    obtain ⟨r, hr, heq⟩ := Option.map_eq_some_iff.1 hs
    exact hruns (h.giveBack (List.mem_of_find?_eq_some hr) (congrArg some heq))
  | get c key =>
    obtain ⟨-, rfl⟩ := Prod.mk.inj (Option.some.inj hs)
    obtain ⟨hd, hp⟩ := Store.deeds_itemGet ha cfg {} key
    exact hruns ⟨hd, h.keep hd fun p hget => hd.known ha hnow (hp p hget)⟩
  | touch c p =>
    simp only [Server.step] at hs
    split_ifs at hs with hmem
    exact hruns (h.call hs (.single (.touch (h.refs _ hmem))))
  | remove c p =>
    simp only [Server.step] at hs
    split_ifs at hs with hmem
    exact hruns (h.giveBack hmem hs)
  | delete key => exact hruns (h.call hs (Store.deeds_itemDelete ha hnow key))
  | delta key incr delta ch =>
    simp only [Server.step] at hs
    split_ifs at hs
    -- `item_delta` may link an item, so more is known of it than its deeds
    have hr := Store.runs_itemDelta ha hnow cfg ch key incr delta
    obtain ⟨-, hsound⟩ := h.call hs hr.deeds
    obtain ⟨-, rfl⟩ := Prod.mk.inj (Option.some.inj hs)
    exact hruns ⟨hr, hsound⟩
  | flushSet exptime =>
    obtain ⟨hr, hsound⟩ := h.resets hs ⟨le_rfl, hnow, rfl⟩
    exact ⟨.inr ⟨rfl, hr⟩, hsound⟩
  | flushExpired => exact hruns (h.call hs (Store.deeds_itemFlushExpired ha hnow))
  | moveBucket => exact hruns (h.call hs (.single .moveBucket))
  | tick now =>
    simp only [Server.step] at hs
    split_ifs at hs with hle
    obtain ⟨hr, hsound⟩ := h.resets hs ⟨hle.1, hle.2, rfl⟩
    exact ⟨.inr ⟨rfl, hr⟩, hsound⟩
  | evict opt =>
    obtain ⟨hr, hsound⟩ := h.resets hs ⟨le_rfl, hnow, rfl⟩
    exact ⟨.inr ⟨rfl, hr⟩, hsound⟩

variable {now evictOpt : ℕ} {slabs : ℕ → Slab} {items : ItemPtr → Item}

theorem sound_init (hnow : now < 2 ^ 32) : (init cfg now evictOpt slabs items).Sound where
  anchored :=
    { table := rfl
      perm := List.Perm.refl _
      slab := by
        rintro p (hp | ⟨id, hp⟩ | ⟨id, hp⟩ | ⟨id, hp⟩)
        · exact absurd hp (Assoc.not_has_init _ p)
        · exact absurd hp List.not_mem_nil
        · exact absurd hp List.not_mem_nil
        · cases hp }
  refs := fun _ hr => absurd hr List.not_mem_nil
  now := hnow
  dated := fun p hp => absurd hp (Assoc.not_has_init _ p)

/-- Every reachable state is sound. -/
theorem sound_of_reaches {C : Server → Label → Server → Prop} (hnow : now < 2 ^ 32)
    (h : (server cfg).Reaches C (init cfg now evictOpt slabs items) s) : s.Sound :=
  h.invariant (sound_init hnow) fun _ _ _ _ hs hst _ => (hs.step hst).2

end Server

end Twemcache
