import Twemcache.Server.Sound

/-!
# The order of the slab queue

With `EVICT_AS` or `EVICT_CS` slabs are evicted in the order of the slab queue, which is meant to be
the order in which they were last used.  `SlabTimes` records when each slab was last moved or
appended and when it was last used; `slab_order` says that the queue follows this record to the
second, in every run in which the memory of new slabs does not hold a time that has not come yet.
`slab_hdr_init` leaves `utime` as it is, so that such a time keeps a slab from being moved
(`slab_not_moved`).
-/

namespace Twemcache

instance (st : Store) (allocated : Bool) : Decidable (st.Ranks allocated) :=
  inferInstanceAs (Decidable (_ ∨ _))

/-- Times of the slabs. -/
structure SlabTimes where
  /-- When the slab was appended to the slab queue or moved in it. -/
  moved : ℕ → ℕ
  /-- When it was, or when an item in it was linked or repositioned. -/
  used : ℕ → ℕ

namespace Server

variable (cfg : Config) (s : Server)

/-- The item that a step moves to the end of its lru queue because it is accessed. -/
def repositioned : Label → Option ItemPtr
  | .touch _ p =>
    if (s.store.items p).flags.linked = true ∧
        ¬ (s.store.items p).atime ≥ s.store.ago itemUpdateInterval then
      some p
    else none
  | _ => none

/-- A step links an item of the slab, or repositions one, and `evict_opt` makes that count. -/
def UsesSlab (l : Label) (sl : ℕ) : Prop :=
  s.store.Ranks true ∧ (s.links cfg l).any (fun p => p.slab = sl) = true ∨
    s.store.Ranks false ∧ (s.repositioned l).any (fun p => p.slab = sl) = true

instance (l : Label) (sl : ℕ) :
    Decidable (s.UsesSlab cfg l sl) := inferInstanceAs (Decidable (_ ∨ _))

/-- A step appends the slab to the slab queue or moves it there: `slab_add_one` initializes its
header, and `slab_lruq_touch` writes `utime`. -/
def MovesSlab (s' : Server) (sl : ℕ) : Prop :=
  (s'.store.slabs sl).utime ≠ (s.store.slabs sl).utime ∨
    (s'.store.slabs sl).epoch ≠ (s.store.slabs sl).epoch

instance (s' : Server) (sl : ℕ) :
    Decidable (s.MovesSlab s' sl) := inferInstanceAs (Decidable (_ ∨ _))

/-- The record after a step. -/
def slabTimes (s : Server) (l : Label) (s' : Server) (g : SlabTimes) : SlabTimes where
  moved := fun sl => if s.MovesSlab s' sl then s'.store.now else g.moved sl
  used := fun sl => if s.MovesSlab s' sl ∨ s.UsesSlab cfg l sl then s'.store.now else g.used sl

/-- The server, with a record of the times of slabs. -/
def slabMachine : Machine (Server × SlabTimes) Label Answer := (server cfg).traced (slabTimes cfg)

/-- `sl'` is behind `sl` in the slab queue. -/
def Behind (st : Store) (sl sl' : ℕ) : Prop := ∃ l₁ l₂, st.slabLruq = l₁ ++ sl :: l₂ ∧ sl' ∈ l₂

/-- Steps in which the memory of a new slab holds a time that has come. -/
def PastMemory (x : Server × SlabTimes) (l : Label) (_ : Server × SlabTimes) : Prop :=
  l.choice.utime ≤ x.1.store.now

instance (x y : Server × SlabTimes) (l : Label) :
    Decidable (PastMemory x l y) := inferInstanceAs (Decidable (_ ≤ _))

/-- The slab queue follows the record. -/
structure SlabsInOrder (x : Server × SlabTimes) : Prop where
  /-- The state is sound. -/
  sound : x.1.Sound
  /-- The queue has the order in which slabs were moved. -/
  sorted : x.1.store.slabLruq.Pairwise fun sl sl' => x.2.moved sl ≤ x.2.moved sl'
  /-- The time in a slab is not later than when it was moved. -/
  utime : ∀ sl ∈ x.1.store.slabLruq, (x.1.store.slabs sl).utime ≤ x.2.moved sl
  /-- A slab that was moved was used. -/
  used : ∀ sl, x.2.moved sl ≤ x.2.used sl
  /-- The record is about the past. -/
  past : ∀ sl, x.2.used sl ≤ x.1.store.now
  /-- A slab that was used has been moved, or had been a second before. -/
  near : ∀ sl ∈ x.1.store.slabLruq, x.2.used sl ≤ x.2.moved sl + 1

variable {cfg s} {s' : Server} {l : Label} {a : Answer} {g : SlabTimes} {x y : Server × SlabTimes}
  {sl sl' : ℕ}

theorem movesSlab_of_marked (hm : s.store.Marked s'.store sl) (hpos : s.store.now ≠ 0) :
    s.MovesSlab s' sl := by
  rcases hm with hep | ⟨hu, hlt⟩
  · exact .inr hep.ne'
  · have hlt := hlt.resolve_right hpos
    exact .inl (by omega)

/-- A slab that was moved has the time of the step. -/
theorem moved_of_marked (h : SlabsInOrder (s, g)) (hnow : s'.store.now = s.store.now)
    (hm : s.store.Marked s'.store sl) : (slabTimes cfg s l s' g).moved sl = s'.store.now := by
  dsimp only [slabTimes]
  split_ifs with hmoves
  · rfl
  · have hzero : s.store.now = 0 := by
      by_contra hpos
      exact hmoves (movesSlab_of_marked hm hpos)
    have hpast := (h.used sl).trans (h.past sl)
    dsimp only at hpast
    omega

theorem moved_of_same (hu : (s'.store.slabs sl).utime = (s.store.slabs sl).utime)
    (he : (s'.store.slabs sl).epoch = (s.store.slabs sl).epoch) :
    (slabTimes cfg s l s' g).moved sl = g.moved sl := by
  have hno : ¬ s.MovesSlab s' sl := by simp [MovesSlab, hu, he]
  simp only [slabTimes, if_neg hno]

/-- The queue follows the record after a sequence of primitives. -/
theorem SlabsInOrder.of_shuffles (h : SlabsInOrder (s, g)) (hsound : s'.Sound)
    (hsh : Store.Shuffles l.choice s.store s'.store) (hch : l.choice.utime ≤ s.store.now)
    (huse : ∀ sl, s.UsesSlab cfg l sl → s.store.now ≤ (s'.store.slabs sl).utime + 1) :
    SlabsInOrder (s', slabTimes cfg s l s' g) := by
  have hnow := hsh.now
  obtain ⟨kept, moved, hq, hsub, hsame, hmark⟩ := hsh.queue
  have hkept : ∀ x ∈ kept, (slabTimes cfg s l s' g).moved x = g.moved x := fun x hx =>
    moved_of_same (hsame x hx).1 (hsame x hx).2
  have hmoved : ∀ x ∈ moved, (slabTimes cfg s l s' g).moved x = s'.store.now := fun x hx =>
    moved_of_marked h hnow (hmark x hx)
  have hpast : ∀ x, (slabTimes cfg s l s' g).moved x ≤ s'.store.now := fun x => by
    dsimp only [slabTimes]
    split_ifs
    · exact le_rfl
    · exact hnow ▸ (h.used x).trans (h.past x)
  have hutime : ∀ x ∈ s'.store.slabLruq,
      (s'.store.slabs x).utime ≤ (slabTimes cfg s l s' g).moved x := by
    intro x hx
    rw [hq] at hx
    rcases List.mem_append.1 hx with hx | hx
    · rw [hkept x hx, (hsame x hx).1]
      exact h.utime x (hsub.subset hx)
    · rw [hmoved x hx, hnow]
      refine hsh.past hch (fun y hy => (h.utime y hy).trans ((h.used y).trans (h.past y))) x ?_
      rw [hq]
      exact List.mem_append_right _ hx
  refine ⟨hsound, ?_, hutime, fun x => ?_, fun x => ?_, fun x hx => ?_⟩
  · -- what was kept comes first, in its order
    dsimp only
    rw [hq, List.pairwise_append]
    refine ⟨?_, ?_, fun x hx y hy => ?_⟩
    · refine (h.sorted.sublist hsub).imp_of_mem fun hx hy hle => ?_
      rw [hkept _ hx, hkept _ hy]
      exact hle
    · refine List.pairwise_of_forall_mem_list fun x hx y hy => ?_
      rw [hmoved x hx, hmoved y hy]
    · rw [hmoved y hy]
      exact hpast x
  · -- what was moved was used
    have hmu := h.used x
    have hp := h.past x
    dsimp only [slabTimes] at hmu hp ⊢
    split_ifs with h1 h2 h3
    · exact le_rfl
    · exact absurd (.inl h1) h2
    · omega
    · exact hmu
  · have hp := h.past x
    dsimp only [slabTimes] at hp ⊢
    split_ifs
    · exact le_rfl
    · exact hnow ▸ hp
  · -- a slab that is used but not moved was moved less than a second ago
    have hu := hutime x hx
    by_cases hm : s.MovesSlab s' x
    · dsimp only [slabTimes]
      rw [if_pos hm, if_pos (.inl hm)]
      exact Nat.le_succ _
    · by_cases huses : s.UsesSlab cfg l x
      · have hfresh := huse x huses
        have husd : (slabTimes cfg s l s' g).used x = s'.store.now := if_pos (.inr huses)
        dsimp only at hu ⊢
        rw [husd]
        omega
      · have husd : (slabTimes cfg s l s' g).used x = g.used x := if_neg (not_or.2 ⟨hm, huses⟩)
        have hmvd : (slabTimes cfg s l s' g).moved x = g.moved x := if_neg hm
        dsimp only
        rw [husd, hmvd]
        rw [hq] at hx
        rcases List.mem_append.1 hx with hx | hx
        · exact h.near x (hsub.subset hx)
        · have hzero : s.store.now = 0 := by
            by_contra hpos
            exact hm (movesSlab_of_marked (hmark x hx) hpos)
          have hp := h.past x
          dsimp only at hp
          omega

theorem usesSlab_iff : s.UsesSlab cfg l sl ↔
    (s.store.Ranks true ∧ ∃ p, s.links cfg l = some p ∧ p.slab = sl) ∨
      s.store.Ranks false ∧ ∃ p, s.repositioned l = some p ∧ p.slab = sl := by
  simp only [UsesSlab, Option.any_eq_true, decide_eq_true_eq]

theorem not_usesSlab_of_resets (hl : l.resets = true) : ¬ s.UsesSlab cfg l sl := by
  rw [usesSlab_iff]
  cases l <;> simp_all [Label.resets, links, repositioned]

theorem repositioned_touch {c : ℕ} {p q : ItemPtr} (hp : s.repositioned (.touch c q) = some p) :
    p = q ∧ (s.store.items q).flags.linked = true ∧
      ¬ (s.store.items q).atime ≥ s.store.ago itemUpdateInterval := by
  simp only [repositioned] at hp
  by_cases hcond : (s.store.items q).flags.linked = true ∧
      ¬ (s.store.items q).atime ≥ s.store.ago itemUpdateInterval
  · rw [if_pos hcond] at hp
    exact ⟨(Option.some.inj hp).symm, hcond⟩
  · rw [if_neg hcond] at hp
    cases hp

theorem Sound.touch_fresh (h : s.Sound) (cfg : Config) {p : ItemPtr}
    (hp : p.slab ∈ s.store.slabLruq) (hr : s.store.Ranks false)
    (hl : (s.store.items p).flags.linked = true)
    (hold : ¬ (s.store.items p).atime ≥ s.store.ago itemUpdateInterval) :
    p.slab ∈ (s.store.itemTouch cfg p).slabLruq ∧
      s.store.now ≤ ((s.store.itemTouch cfg p).slabs p.slab).utime + 1 := by
  obtain ⟨hsh, -, hfresh⟩ := Store.shuffles_itemTouch cfg {} h.anchored h.now hp
  exact ⟨hsh.known p.slab hp, hfresh hr hl hold⟩

/-- A step that uses a slab finds it used within the last second, or marks it. -/
theorem Sound.fresh (h : s.Sound) (hs : s.step cfg l = some (a, s')) (huse : s.UsesSlab cfg l sl) :
    sl ∈ s'.store.slabLruq ∧ s.store.now ≤ (s'.store.slabs sl).utime + 1 := by
  rcases usesSlab_iff.1 huse with ⟨hr, p, hp, rfl⟩ | ⟨hr, p, hp, rfl⟩
  · obtain ⟨hruns | ⟨hl, -⟩, -⟩ := h.step hs
    · rw [hp] at hruns
      exact hruns.fresh h.anchored h.now hr
    · exact absurd huse (not_usesSlab_of_resets hl)
  · cases l with
    | touch c q =>
      obtain ⟨hpq, hlinked, hold⟩ := repositioned_touch hp
      simp only [Server.step] at hs
      split_ifs at hs with hmem
      obtain ⟨-, hs'⟩ := Prod.mk.inj (Option.some.inj hs)
      have hstore : s'.store = s.store.itemTouch cfg q := by rw [← hs']
      rw [hstore, hpq]
      exact h.touch_fresh cfg (h.refs ⟨c, .ilist, q⟩ hmem) hr hlinked hold
    | _ => simp [repositioned] at hp

/-- The queue follows the record after a change of the clock or the settings. -/
theorem SlabsInOrder.of_resets (h : SlabsInOrder (s, g)) (hsound : s'.Sound) (hl : l.resets = true)
    (hr : Resets s.store s'.store) : SlabsInOrder (s', slabTimes cfg s l s' g) := by
  obtain ⟨hle, -, heq⟩ := hr
  have hslabs : s'.store.slabs = s.store.slabs := by rw [heq]
  have hqueue : s'.store.slabLruq = s.store.slabLruq := by rw [heq]
  have hmoves : ∀ x, ¬ s.MovesSlab s' x := fun x => by simp [MovesSlab, hslabs]
  have hsame : slabTimes cfg s l s' g = g := by
    unfold slabTimes
    simp only [if_neg (hmoves _), if_neg (not_or.2 ⟨hmoves _, not_usesSlab_of_resets hl⟩)]
  rw [hsame]
  refine ⟨hsound, ?_, fun x hx => ?_, h.used, fun x => (h.past x).trans hle, fun x hx => ?_⟩
  · dsimp only
    rw [hqueue]
    exact h.sorted
  · dsimp only at hx ⊢
    rw [hslabs]
    exact h.utime x (hqueue ▸ hx)
  · exact h.near x (by dsimp only at hx ⊢; exact hqueue ▸ hx)

/-- The queue follows the record after a step. -/
theorem SlabsInOrder.step (h : SlabsInOrder x) (hs : (slabMachine cfg).step x l = some (a, y))
    (hpast : PastMemory x l y) : SlabsInOrder y := by
  obtain ⟨hst, hrec⟩ := Machine.traced_step hs
  obtain ⟨hacts, hsound⟩ := h.sound.step hst
  have hy : y = (y.1, slabTimes cfg x.1 l y.1 x.2) := by rw [← hrec]
  rw [hy]
  rcases hacts with hruns | ⟨hl, hr⟩
  · exact h.of_shuffles hsound (hruns.deeds.shuffles h.sound.anchored h.sound.now).1 hpast
      fun sl huse => (h.sound.fresh hst huse).2
  · exact h.of_resets hsound hl hr

variable {now evictOpt : ℕ} {slabs : ℕ → Slab} {items : ItemPtr → Item}

theorem slabsInOrder_init (hnow : now < 2 ^ 32) :
    SlabsInOrder (init cfg now evictOpt slabs items, ⟨fun _ => 0, fun _ => 0⟩) where
  sound := sound_init hnow
  sorted := List.Pairwise.nil
  utime := fun _ hsl => absurd hsl List.not_mem_nil
  used := fun _ => le_rfl
  past := fun _ => Nat.zero_le _
  near := fun _ hsl => absurd hsl List.not_mem_nil

/-- What is behind a slab was moved later. -/
theorem SlabsInOrder.behind (h : SlabsInOrder x) (hb : Behind x.1.store sl sl') :
    x.2.moved sl ≤ x.2.moved sl' := by
  obtain ⟨l₁, l₂, hq, hmem⟩ := hb
  have hsorted := h.sorted
  rw [hq] at hsorted
  exact List.rel_of_pairwise_cons (List.pairwise_append.1 hsorted).2.1 hmem

/-- The slab that `slab_evict_lru` picks is the first one that nobody uses. -/
theorem behind_of_pick {st : Store} (hpick : st.slabEvictLruPick = some sl)
    (hmem : sl' ∈ st.slabLruq) (href : (st.slabs sl').refcount = 0) :
    sl' = sl ∨ Behind st sl sl' := by
  obtain ⟨-, l₁, l₂, hq, hbefore⟩ := List.find?_eq_some_iff_append.1 hpick
  have hsplit : st.slabLruq = l₁ ++ sl :: (l₂ ++ st.slabLruq.drop slabLruMaxTries) := by
    rw [← List.cons_append, ← List.append_assoc, ← hq, List.take_append_drop]
  rw [hsplit] at hmem
  rcases List.mem_append.1 hmem with hx | hx
  · exact absurd (hbefore sl' hx) (by simpa using href)
  · rcases List.mem_cons.1 hx with hx | hx
    · exact .inl hx
    · exact .inr ⟨l₁, _, hsplit, hx⟩

/-- **The slab queue is in the order of use, to the second**, in every run in which the memory that
slabs are made from does not hold a time that has not come yet: when an item of a slab is linked or
repositioned, all slabs behind it have been appended or moved in the last second, and the slab that
is evicted was last used at most one second after any other slab that nobody uses. -/
theorem slab_order (hnow : now < 2 ^ 32)
    (h : (slabMachine cfg).Reaches PastMemory
      (init cfg now evictOpt slabs items, ⟨fun _ => 0, fun _ => 0⟩) x) :
    (∀ l a y sl sl', (slabMachine cfg).step x l = some (a, y) → PastMemory x l y →
      x.1.UsesSlab cfg l sl → Behind y.1.store sl sl' → y.1.store.now ≤ y.2.moved sl' + 1) ∧
    ∀ sl sl', x.1.store.slabEvictLruPick = some sl → sl' ∈ x.1.store.slabLruq →
      (x.1.store.slabs sl').refcount = 0 → x.2.used sl ≤ x.2.used sl' + 1 := by
  have hx : SlabsInOrder x :=
    h.invariant (slabsInOrder_init hnow) fun _ _ _ _ hI hst hC => hI.step hst hC
  refine ⟨fun l a y sl sl' hst hpast huse hb => ?_, fun sl sl' hpick hmem href => ?_⟩
  · have hy := hx.step hst hpast
    obtain ⟨hst', -⟩ := Machine.traced_step hst
    obtain ⟨hin, hfresh⟩ := hx.sound.fresh hst' huse
    have hsame : y.1.store.now = x.1.store.now := by
      obtain ⟨hruns | ⟨hl, -⟩, -⟩ := hx.sound.step hst'
      · exact hruns.deeds.env.1
      · exact absurd huse (not_usesSlab_of_resets hl)
    have hutime := hy.utime sl hin
    have hbehind := hy.behind hb
    omega
  · -- the slab that is picked is the first one that nobody uses
    have hfirst : sl' = sl ∨ Behind x.1.store sl sl' := behind_of_pick hpick hmem href
    obtain rfl | hb := hfirst
    · exact Nat.le_succ _
    · have h1 := hx.near sl (Store.slabEvictLruPick_idle hpick).1
      have h2 := hx.behind hb
      have h3 := hx.used sl'
      omega

/-- A heap of two slabs with one chunk each. -/
def pair : Config where
  useCas := true
  useFreeq := true
  useLruq := true
  hashPower := 0
  hash := fun key => key.length.toUInt32
  processStarted := 1000
  itemHdrSize := 49
  slabSize := 128
  maxId := 1
  profile := fun _ => 128
  maxNslab := 2
  maxId_le := Config.one_maxId
  profile_pos := Config.profile_pos_128
  profile_le := fun _ _ _ => by decide

/-- The server with two slabs after start-up, with an empty record. -/
def initPair : Server × SlabTimes :=
  (.init pair 2 evictAs (fun _ => ⟨0, 0, 0, 0⟩) fun _ =>
    ⟨0, 0, 0, 0, 0, {}, 0, [], 0, fun _ => 0, 0⟩, ⟨fun _ => 0, fun _ => 0⟩)

/-- Items are allocated in both slabs, and a second passes. -/
def allocRun : List Label :=
  [.tick 100, .alloc 0 [97] 0 0 2 { utime := 100 }, .alloc 1 [98] 0 0 2 { utime := 100 },
    .fill 0 0 [49, 50, 13, 10], .tick 101]

/-- The item in the first slab is linked one second after the second slab was appended. -/
theorem slab_order_pair : ∃ x y : Server × SlabTimes,
    (slabMachine pair).Reaches PastMemory initPair x ∧
      (slabMachine pair).step x (.set 0 {}) = some (.done, y) ∧ PastMemory x (.set 0 {}) y ∧
      x.1.UsesSlab pair (.set 0 {}) 0 ∧ Behind y.1.store 0 1 ∧ y.1.store.now ≤ y.2.moved 1 + 1 := by
  have hreach : (slabMachine pair).Reaches PastMemory initPair
      ((slabMachine pair).exec (fun x l y => decide (PastMemory x l y)) initPair allocRun) :=
    (Machine.reaches_exec (by decide +kernel)).mono fun _ _ _ => of_decide_eq_true
  have hs :
      (((slabMachine pair).step ((slabMachine pair).exec (fun x l y => decide (PastMemory x l y))
      initPair allocRun) (.set 0 {})).map fun z => (z.1, z.2.1.store.slabLruq)) =
        some (.done, [0, 1]) := by decide +kernel
  have huse : ((slabMachine pair).exec (fun x l y => decide (PastMemory x l y)) initPair
      allocRun).1.UsesSlab pair (.set 0 {}) 0 := by decide +kernel
  generalize (slabMachine pair).exec (fun x l y => decide (PastMemory x l y)) initPair allocRun = x
    at hreach hs huse
  obtain ⟨⟨a, y⟩, hs, heq⟩ := Option.map_eq_some_iff.1 hs
  obtain ⟨rfl, hq⟩ := Prod.mk.inj heq
  have hb : Behind y.1.store 0 1 := ⟨[], [1], hq, by simp⟩
  have hpast : PastMemory x (.set 0 {}) y := Nat.zero_le _
  exact ⟨x, y, hreach, hs, hpast, huse, hb,
    (slab_order (by decide) hreach).1 (.set 0 {}) .done y 0 1 hs hpast huse hb⟩

/-- The memory of the first slab holds a time that has not come yet. -/
def strayRun : List Label :=
  [.tick 100, .alloc 0 [97] 0 0 2 { utime := 1000000 }, .fill 0 0 [49, 50, 13, 10], .tick 200,
    .alloc 1 [98] 0 0 2 { utime := 0 }, .tick 300]

/-- An item of that slab is linked, and the slab stays before one that was appended 100 seconds ago.
-/
theorem slab_not_moved : ∃ x y : Server × SlabTimes,
    (slabMachine pair).Reaches Machine.Unguarded initPair x ∧
      (slabMachine pair).step x (.set 0 {}) = some (.done, y) ∧ x.1.UsesSlab pair (.set 0 {}) 0 ∧
      Behind y.1.store 0 1 ∧ ¬ y.1.store.now ≤ y.2.moved 1 + 1 := by
  have hreach : (slabMachine pair).Reaches Machine.Unguarded initPair
      ((slabMachine pair).exec (fun _ _ _ => true) initPair strayRun) :=
    (Machine.reaches_exec (by decide +kernel)).mono fun _ _ _ _ => trivial
  have hs :
      (((slabMachine pair).step ((slabMachine pair).exec (fun _ _ _ => true) initPair strayRun)
      (.set 0 {})).map fun z => (z.1, z.2.1.store.slabLruq, z.2.1.store.now, z.2.2.moved 1)) =
        some (.done, [0, 1], 300, 200) := by decide +kernel
  have huse : ((slabMachine pair).exec (fun _ _ _ => true) initPair strayRun).1.UsesSlab pair
      (.set 0 {}) 0 := by
    decide +kernel
  generalize (slabMachine pair).exec (fun _ _ _ => true) initPair strayRun = x at hreach hs huse
  obtain ⟨⟨a, y⟩, hs, heq⟩ := Option.map_eq_some_iff.1 hs
  obtain ⟨rfl, heq⟩ := Prod.mk.inj heq
  obtain ⟨hq, heq⟩ := Prod.mk.inj heq
  obtain ⟨hnow, hmoved⟩ := Prod.mk.inj heq
  exact ⟨x, y, hreach, hs, huse, ⟨[], [1], hq, by simp⟩, by rw [hnow, hmoved]; decide⟩

end Server

end Twemcache
