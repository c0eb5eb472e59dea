import Twemcache.Store.SlabGet
import Twemcache.Options.Class
import Twemcache.Server.SlabOrder

/-!
# `slab_get` in a server

Two ways in which `slab_get` goes wrong with `EVICT_RS`.  Options that are accepted can leave a
server without any slab to evict, as can a failing `malloc`; the random pick then divides by the
number of slabs, zero.  And the last of the 50 picks is not taken even if nobody uses the slab.
-/

namespace Twemcache

namespace Server

open Store (Deeds)

variable {cfg : Config} {now evictOpt : ℕ} {slabs : ℕ → Slab} {items : ItemPtr → Item} {s : Server}
  {ch : Choice} {t : Store}

/-! ### Slab table -/

/-- **`slab_get` accesses slabs only, and divides by zero nowhere, if and only if it is not the case
that there is no slab, `EVICT_RS` is set, and no slab can be had.**  The store is that of a
reachable state, or one between two primitives of a step. -/
theorem slab_table_exact (hnow : now < 2 ^ 32)
    (h : (server cfg).Reaches Machine.Unguarded (init cfg now evictOpt slabs items) s)
    {ch' : Choice} (ht : Deeds cfg ch' s.store t) (ch : Choice) :
    (∀ a ∈ t.slabGetAccesses cfg ch, a.Valid) ↔
      ¬ (t.slabTable = [] ∧ t.evictOpt &&& evictRs ≠ 0 ∧
          (cfg.maxNslab = 0 ∨ ch.slabOk = false)) := by
  have hs := sound_of_reaches hnow h
  obtain ⟨-, hanchored⟩ := ht.shuffles hs.anchored hs.now
  by_cases hno : t.NoSlab cfg ch
  · rw [Store.slabGetAccesses_of_noSlab hno]
    by_cases hnil : t.slabTable = []
    · -- the slab queue is empty as well, so that the first search finds nothing
      have hlruq : t.slabLruq = [] := List.perm_nil.1 (hnil ▸ hanchored.perm)
      have hfind : t.slabsOldest.find? t.unreferenced = none := by simp [Store.slabsOldest, hlruq]
      have hroom : cfg.maxNslab = 0 ∨ ch.slabOk = false := by
        simp only [Store.NoSlab, Store.slabGetNew, hnil, List.length_nil] at hno
        split_ifs at hno with hfull hok
        · exact .inl (Nat.le_zero.1 hfull)
        · exact .inr (by simpa using hok)
      by_cases hrs : t.evictOpt &&& evictRs ≠ 0
      · rw [if_pos ⟨hfind, hrs⟩, Store.slabRandAccesses_valid_iff (by decide)]
        exact ⟨fun hne => absurd hnil hne, fun hnot => absurd ⟨hnil, hrs, hroom⟩ hnot⟩
      · rw [if_neg fun hand => hrs hand.2]
        exact ⟨fun _ hbad => hrs hbad.2.1, fun _ => by simp⟩
    · refine ⟨fun _ hbad => hnil hbad.1, fun _ => ?_⟩
      split_ifs with hand
      · exact Store.slabRandAccesses_valid hnil slabRandMaxTries 0
      · simp
  · -- a new slab is appended
    obtain ⟨sl, hsl⟩ := Option.ne_none_iff_exists'.1 hno
    have hnew : t.slabGetNew cfg ch = (some sl, (t.slabGetNew cfg ch).2) := Prod.ext hsl rfl
    have hlen : sl < (t.slabGetNew cfg ch).2.slabTable.length ∧
        ¬ (cfg.maxNslab = 0 ∨ ch.slabOk = false) := by
      unfold Store.slabGetNew at hsl ⊢
      split_ifs at hsl ⊢ with hfull hok
      obtain rfl := Option.some.inj hsl
      refine ⟨by simp, ?_⟩
      rintro (hzero | hfail)
      · omega
      · rw [hok] at hfail
        cases hfail
    rw [Store.slabGetAccesses, hnew]
    dsimp only
    refine ⟨fun _ hbad => hlen.2 hbad.2.2, fun _ a ha => ?_⟩
    obtain rfl := List.mem_singleton.1 ha
    exact ⟨fun h => (by cases h), hlen.1⟩

/-- Two slabs have been allocated, and the server may evict at random: the picks are valid. -/
theorem slab_table_pair : ∃ s : Server,
    (server pair).Reaches Machine.Unguarded initPair.1 s ∧
      ∀ a ∈ s.store.slabGetAccesses pair { rand := fun k => k }, a.Valid := by
  have hreach : (server pair).Reaches Machine.Unguarded initPair.1
      ((server pair).exec (fun _ _ _ => true) initPair.1 allocRun) :=
    (Machine.reaches_exec (by decide +kernel)).mono fun _ _ _ _ => trivial
  have htable : ((server pair).exec (fun _ _ _ => true) initPair.1 allocRun).store.slabTable ≠
      [] := by
    decide +kernel
  have hnow : 2 < 2 ^ 32 := by decide
  generalize (server pair).exec (fun _ _ _ => true) initPair.1 allocRun = s at hreach htable
  unfold initPair at hreach
  exact ⟨s, hreach,
    (slab_table_exact hnow hreach (.refl s.store : Deeds pair {} s.store s.store) _).2
    fun hbad => htable hbad.1⟩

/-- The options `-m 1 -I 2097152 -M 2 -z 2097120`. -/
def noSlabOptions :
    Options := optionsOf (2 ^ 21) (1 * 2 ^ 20) evictRs (some [50, 48, 57, 55, 49, 50, 48])

/-- The configuration of these options: slabs are larger than the heap. -/
def noSlab : Config where
  useCas := true
  useFreeq := true
  useLruq := true
  hashPower := 1
  hash _ := 0
  processStarted := 0
  itemHdrSize := 49
  slabSize := 2097120
  maxId := 1
  profile := Function.update (fun _ => 0) 1 2097120
  maxNslab := 0
  maxId_le := Config.one_maxId
  profile_pos id hmin hmax := by
    obtain rfl : id = 1 := le_antisymm hmax hmin
    decide
  profile_le id hmin hmax := by
    obtain rfl : id = 1 := le_antisymm hmax hmin
    decide

theorem startedWith_noSlab : noSlab.StartedWith noSlabOptions where
  accepted :=
    accepted_optionsOf (by decide) (by decide) (by decide) Nat.one_pos (by decide) (by decide)
  profile := by
    refine ⟨⟨noSlab.profile, 1⟩, ?_, rfl, rfl⟩
    show mcParseProfile noSlabOptions [50, 48, 57, 55, 49, 50, 48] = _
    rw [mcParseProfile, parseLoop, if_pos (by decide), if_neg (by decide)]
    rw [show mcStrtoul ([50, 48, 57, 55, 49, 50, 48].takeWhile fun x => decide (x ≠ 44)) =
      some 2097120 by decide]
    dsimp only
    rw [if_neg (by decide), if_neg (by decide), if_neg (by decide), if_neg (by decide),
      if_neg (by decide)]
    rfl
  slabSize := rfl
  itemHdrSize := rfl
  maxNslab := by decide
  useFreeq := rfl
  useLruq := rfl

/-- Options that are accepted leave no room for a slab, and the first pick divides by zero. -/
theorem slab_table_divides_by_zero : noSlab.StartedWith noSlabOptions ∧
    ∃ s : Server, (server noSlab).Reaches Machine.Unguarded
        (init noSlab 2 noSlabOptions.evictOpt (fun _ => ⟨0, 0, 0, 0⟩) fun _ =>
          ⟨0, 0, 0, 0, 0, {}, 0, [], 0, fun _ => 0, 0⟩)
        s ∧ s.store.slabGetAccesses noSlab {} = [⟨some 0, 0, 0⟩] ∧
      ¬ ∀ a ∈ s.store.slabGetAccesses noSlab {}, a.Valid :=
  ⟨startedWith_noSlab, _, .refl, by decide, by decide⟩

/-! ### Searches -/

/-- **Where no new slab can be had, `slab_get` evicts the first unreferenced slab that it looks at,
and fails only if there is none, if and only if random picks, where it comes to them, have a slab to
pick, and the last one does not turn up the first unreferenced slab.** -/
theorem slab_get_exact (cfg : Config) (ch : Choice) (s : Store) (hno : s.NoSlab cfg ch) (id : ℕ) :
    ((∀ a ∈ s.slabGetAccesses cfg ch, a.Valid) ∧
      match (s.slabsExamined ch).find? s.unreferenced with
      | some sl => s.slabGet cfg ch id = (true, (s.slabEvictOne cfg sl).slabAddOne cfg sl id)
      | none => (s.slabGet cfg ch id).1 = false) ↔
    ¬ (s.evictOpt &&& evictRs ≠ 0 ∧ (∀ sl ∈ s.slabsOldest, (s.slabs sl).refcount ≠ 0) ∧
      (s.slabTable = [] ∨
        (∀ sl ∈ s.slabPicks ch (slabRandMaxTries - 1), (s.slabs sl).refcount ≠ 0) ∧
        ∃ sl ∈ s.slabTableRand (ch.rand (slabRandMaxTries - 1)), (s.slabs sl).refcount = 0)) := by
  have hlast : s.slabsExamined ch = s.slabsOldest ++
      if s.evictOpt &&& evictRs ≠ 0 then s.slabPicks ch (slabRandMaxTries - 1) ++
        (s.slabTableRand (ch.rand (slabRandMaxTries - 1))).toList else [] := by
    rw [← Store.slabPicks_succ]
    rfl
  rw [hlast, Store.slabGet_of_noSlab hno, Store.slabGetAccesses_of_noSlab hno, List.find?_append,
    List.find?_append, ← Store.find_unreferenced_eq_none, ← Store.find_unreferenced_eq_none]
  by_cases hrs : s.evictOpt &&& evictRs ≠ 0
  · rw [if_pos hrs, if_pos hrs]
    cases hold : s.slabsOldest.find? s.unreferenced with
    | some sl => simp
    | none =>
      rw [if_pos ⟨rfl, hrs⟩, Store.slabRandAccesses_valid_iff (by decide), Option.none_or,
        Option.none_or, List.find?_append]
      cases hpicks : (s.slabPicks ch (slabRandMaxTries - 1)).find? s.unreferenced with
      | some sl => simp [hrs]
      | none =>
        rw [Option.none_or]
        cases hpick : s.slabTableRand (ch.rand (slabRandMaxTries - 1)) with
        | none => simp [hrs]
        | some sl =>
          by_cases href : (s.slabs sl).refcount = 0
          · simp [hrs, href, Store.unreferenced]
          · simp [hrs, href, Store.unreferenced]
  · -- without `EVICT_RS` both lists are the slab queue's
    rw [if_neg hrs, if_neg hrs, if_neg fun hand => hrs hand.2]
    cases s.slabsOldest.find? s.unreferenced with
    | some sl => simp [hrs]
    | none => simp [hrs]

/-- `a` is being received into the first slab, `b` is stored in the second one, and slabs are
evicted at random. -/
def busyRun : List Label :=
  [.tick 100, .alloc 0 [97] 0 0 1 { utime := 100 }, .alloc 1 [98] 0 0 1 { utime := 100 },
    .fill 1 0 [49, 13, 10], .set 1 {}, .removeItem 1, .evict evictRs]

/-- The first `k` picks are the first slab, the others the second one. -/
def pickAfter (k : ℕ) : Choice := { rand := fun i => if i < k then 0 else 1 }

/-- The second slab is picked before the last try: it is evicted. -/
theorem slab_get_exact_pair : ∃ s : Server, (server pair).Reaches Machine.Unguarded initPair.1 s ∧
    s.store.NoSlab pair (pickAfter 48) ∧
      s.store.slabGet pair (pickAfter 48) 1 =
          (true, (s.store.slabEvictOne pair 1).slabAddOne pair 1 1) := by
  have hreach : (server pair).Reaches Machine.Unguarded initPair.1
      ((server pair).exec (fun _ _ _ => true) initPair.1 busyRun) :=
    (Machine.reaches_exec (by decide +kernel)).mono fun _ _ _ _ => trivial
  have hno : (((server pair).exec (fun _ _ _ => true) initPair.1 busyRun).store.slabGetNew pair
      (pickAfter 48)).1 = none := by decide +kernel
  have hpick : ∃ sl ∈ ((server pair).exec (fun _ _ _ => true) initPair.1 busyRun).store.slabPicks
      (pickAfter 48)
      (slabRandMaxTries - 1),
        (((server pair).exec (fun _ _ _ => true) initPair.1 busyRun).store.slabs sl).refcount =
        0 := by decide +kernel
  have htable : ((server pair).exec (fun _ _ _ => true) initPair.1 busyRun).store.slabTable ≠
      [] := by
    decide +kernel
  have hfind : (((server pair).exec (fun _ _ _ => true) initPair.1 busyRun).store.slabsExamined
      (pickAfter 48)).find?
        ((server pair).exec (fun _ _ _ => true) initPair.1 busyRun).store.unreferenced =
        some 1 := by decide +kernel
  generalize (server pair).exec (fun _ _ _ => true) initPair.1 busyRun = s
    at hreach hno hpick htable hfind
  have hget := ((slab_get_exact pair (pickAfter 48) s.store hno 1).2 fun hbad => by
    obtain ⟨-, -, hnil | ⟨hall, -⟩⟩ := hbad
    · exact htable hnil
    · obtain ⟨sl, hsl, href⟩ := hpick
      exact hall sl hsl href).2
  rw [hfind] at hget
  exact ⟨s, hreach, hno, hget⟩

/-- The second slab is picked at the last try: `slab_get` fails although nobody uses that slab. -/
theorem slab_get_wastes_last_pick :
    ∃ s : Server, (server pair).Reaches Machine.Unguarded initPair.1 s ∧
    s.store.NoSlab pair (pickAfter 49) ∧ s.store.evictOpt = evictRs ∧
      (s.store.slabsExamined (pickAfter 49)).find? s.store.unreferenced = some 1 ∧
      (s.store.slabGet pair (pickAfter 49) 1).1 = false := by
  have hreach : (server pair).Reaches Machine.Unguarded initPair.1
      ((server pair).exec (fun _ _ _ => true) initPair.1 busyRun) :=
    (Machine.reaches_exec (by decide +kernel)).mono fun _ _ _ _ => trivial
  have hno : (((server pair).exec (fun _ _ _ => true) initPair.1 busyRun).store.slabGetNew pair
      (pickAfter 49)).1 = none := by decide +kernel
  exact ⟨_, hreach, hno, by decide +kernel, by decide +kernel, by decide +kernel⟩

end Server

end Twemcache
