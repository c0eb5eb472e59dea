import Twemcache.Options.Profile

/-!
# Slab classes

The binary search of `slab_id` on an ascending profile: its bounds stay within 8 bits, it narrows
them in every turn, and the class that it finds is the least one whose chunks are large enough.

## Main definitions

* `Config.Ascending` : the slab classes of a server have strictly ascending chunk sizes.
* `SlabIdTurns` : the bounds of the search after some turns.
* `Least` : what the search finds, as a statement about the profile.
-/

namespace Twemcache

/-- There is a class, and chunk sizes are strictly ascending. -/
structure Config.Ascending (cfg : Config) : Prop where
  /-- There is a class. -/
  pos : slabclassMinId ≤ cfg.maxId
  /-- Chunk sizes are ascending. -/
  size : AscendingTo cfg.profile cfg.maxId

theorem Profile.Ascending.config {P : Profile} (h : P.Ascending) {cfg : Config}
    (hsize : cfg.profile = P.size) (hid : cfg.maxId = P.lastId) : cfg.Ascending :=
  ⟨hid ▸ h.pos, by rw [hsize, hid]; exact h.size⟩

/-- `slab_id`, given `size`, has the bounds `imin` and `imax`, which are 8 bits wide, after `n`
turns of its loop. -/
inductive SlabIdTurns (cfg : Config) (size : ℕ) : ℕ → ℕ → ℕ → Prop where
  /-- The search starts. -/
  | start : SlabIdTurns cfg size 0 slabclassMinId cfg.maxId
  /-- `imin = id + 1`. -/
  | up {n imin imax : ℕ} : SlabIdTurns cfg size n imin imax → imin ≤ imax →
      cfg.profile ((imin + imax) / 2) < size →
      SlabIdTurns cfg size (n + 1) (((imin + imax) / 2 + 1) % 2 ^ 8) imax
  /-- `imax = id - 1`. -/
  | down {n imin imax : ℕ} : SlabIdTurns cfg size n imin imax → imin ≤ imax →
      size ≤ cfg.profile ((imin + imax) / 2) → slabclassMinId < (imin + imax) / 2 →
      size ≤ cfg.profile ((imin + imax) / 2 - 1) →
      SlabIdTurns cfg size (n + 1) imin (((imin + imax) / 2 + 2 ^ 8 - 1) % 2 ^ 8)

/-- `id` is the least class whose chunks have room for `size` bytes, or, where there is none, it is
invalid. -/
def Least (cfg : Config) (size id : ℕ) : Prop :=
  (cfg.ValidId id ∧ size ≤ cfg.profile id ∧ ∀ i, slabclassMinId ≤ i → i < id →
    cfg.profile i < size) ∨ (id = slabclassInvalidId ∧ cfg.profile cfg.maxId < size)

variable {cfg : Config} {size n imin imax : ℕ}

/-- The bounds between two turns: what is below them is too small, and what is above them is not
needed. -/
structure Bounded (cfg : Config) (size imin imax : ℕ) : Prop where
  /-- The lower bound is a class, or one past the last. -/
  min : slabclassMinId ≤ imin
  /-- The upper bound is a class, or one before the first. -/
  max : imax ≤ cfg.maxId
  /-- They cross by one at most. -/
  cross : imin ≤ imax + 1
  /-- Chunks of a class below the bounds are too small. -/
  below : ∀ i, slabclassMinId ≤ i → i < imin → cfg.profile i < size
  /-- Where the upper bound has moved, it is a class with room. -/
  above : imax < cfg.maxId → slabclassMinId ≤ imax ∧ size ≤ cfg.profile imax

theorem Config.Ascending.bounded (h : cfg.Ascending) :
    Bounded cfg size slabclassMinId cfg.maxId where
  min := le_rfl
  max := le_rfl
  cross := h.pos.trans (Nat.le_succ _)
  below _ hi hlt := absurd hi (Nat.not_le.2 hlt)
  above hlt := absurd hlt (Nat.lt_irrefl _)

/-- The middle of the bounds is a class between them, so that 8 bits hold it and the class after it.
-/
theorem Bounded.middle (h : Bounded cfg size imin imax) (hle : imin ≤ imax) :
    imin ≤ (imin + imax) / 2 ∧ (imin + imax) / 2 ≤ imax ∧ (imin + imax) / 2 + 1 < 2 ^ 8 := by
  have hmax := h.max.trans cfg.maxId_le
  simp only [slabclassMaxId] at hmax
  omega

theorem Bounded.up (h : Bounded cfg size imin imax) (hasc : cfg.Ascending) (hle : imin ≤ imax)
    (hbig : cfg.profile ((imin + imax) / 2) < size) :
    Bounded cfg size ((imin + imax) / 2 + 1) imax where
  min := Nat.succ_le_succ (Nat.zero_le _)
  max := h.max
  cross := by
    have hmid := h.middle hle
    omega
  below i hi hlt := by
    have hmid := h.middle hle
    exact Nat.lt_of_le_of_lt (hasc.size.le hi (by omega) (hmid.2.1.trans h.max)) hbig
  above := h.above

theorem Bounded.down (h : Bounded cfg size imin imax) (hle : imin ≤ imax)
    (hid : slabclassMinId < (imin + imax) / 2)
    (hroom : size ≤ cfg.profile ((imin + imax) / 2 - 1)) :
    Bounded cfg size imin ((imin + imax) / 2 - 1) where
  min := h.min
  max := by
    have hmid := h.middle hle
    have hmax := h.max
    omega
  cross := by
    have hmid := h.middle hle
    omega
  below := h.below
  above _ := ⟨by omega, hroom⟩

theorem decrement_mod {id : ℕ} (hpos : slabclassMinId < id) (hlt : id + 1 < 2 ^ 8) :
    (id + 2 ^ 8 - 1) % 2 ^ 8 = id - 1 := by
  simp only [slabclassMinId] at hpos
  omega

/-- **The bounds are kept within 8 bits, and every turn narrows them.** -/
theorem SlabIdTurns.bounded (h : SlabIdTurns cfg size n imin imax) (hasc : cfg.Ascending) :
    Bounded cfg size imin imax ∧ n + (imax + 1 - imin) ≤ cfg.maxId := by
  induction h with
  | start =>
    refine ⟨hasc.bounded, ?_⟩
    simp only [slabclassMinId]
    omega
  | up _ hle hbig ih =>
    have hmid := ih.1.middle hle
    rw [Nat.mod_eq_of_lt hmid.2.2]
    exact ⟨ih.1.up hasc hle hbig, by omega⟩
  | down _ hle _ hid hroom ih =>
    have hmid := ih.1.middle hle
    rw [decrement_mod hid hmid.2.2]
    exact ⟨ih.1.down hle hid hroom, by omega⟩

/-- The search from bounds that it keeps, with enough turns to close them, finds the least class. -/
theorem Bounded.least (h : Bounded cfg size imin imax) (hasc : cfg.Ascending) {fuel : ℕ}
    (hfuel : imax + 1 - imin < fuel) : Least cfg size (slabIdLoop cfg size fuel imin imax) := by
  induction fuel generalizing imin imax with
  | zero => omega
  | succ fuel ih =>
    simp only [slabIdLoop]
    by_cases hge : imax ≥ imin
    · have hmid := h.middle hge
      rw [if_pos hge]
      by_cases hbig : size > cfg.profile ((imin + imax) / 2)
      · rw [if_pos hbig, Nat.mod_eq_of_lt hmid.2.2]
        exact ih (h.up hasc hge hbig) (by omega)
      · rw [if_neg hbig]
        by_cases hsmall : (imin + imax) / 2 > slabclassMinId ∧
          size ≤ cfg.profile ((imin + imax) / 2 - 1)
        · rw [if_pos hsmall]
          exact ih (h.down hge hsmall.1 hsmall.2) (by omega)
        · -- the class before the middle, if there is one, is too small, and so are those before it
          rw [if_neg hsmall]
          have hmin := h.min
          have hmax := h.max
          refine .inl ⟨⟨by omega, by omega⟩, not_lt.1 hbig, fun i hi hlt => ?_⟩
          have hprev : ¬ size ≤ cfg.profile ((imin + imax) / 2 - 1) :=
            fun hroom => hsmall ⟨by omega, hroom⟩
          exact Nat.lt_of_le_of_lt (hasc.size.le hi (by omega) (by omega)) (not_le.1 hprev)
    · -- the bounds have crossed, which they do past the last class only
      rw [if_neg hge]
      refine .inr ⟨rfl, ?_⟩
      by_cases hlt : imax < cfg.maxId
      · obtain ⟨hpos, hroom⟩ := h.above hlt
        exact absurd (h.below imax hpos (by omega)) (not_lt.2 hroom)
      · exact h.below _ hasc.pos (by have hmax := h.max; omega)

/-- **On an ascending profile `slab_id` returns the least class whose chunks have room.** -/
theorem Config.Ascending.least (h : cfg.Ascending) (size : ℕ) : Least cfg size (slabId cfg size) :=
  h.bounded.least h (by
    have hle := cfg.maxId_le
    simp only [slabclassMinId]
    omega)

/-- A search of `slab_id` goes on as the search from the bounds that it has come to. -/
theorem SlabIdTurns.slabId (h : SlabIdTurns cfg size n imin imax) (hasc : cfg.Ascending) :
    slabIdLoop cfg size (slabclassMaxId + 1 - n) imin imax = slabId cfg size := by
  induction h with
  | start => rfl
  | @up n imin imax h hle hbig ih =>
    have hn := h.bounded hasc
    have hmax := cfg.maxId_le
    rw [← ih, show slabclassMaxId + 1 - n = slabclassMaxId + 1 - (n + 1) + 1 by omega]
    simp only [slabIdLoop]
    rw [if_pos hle, if_pos hbig]
  | @down n imin imax h hle hsize hid hroom ih =>
    have hn := h.bounded hasc
    have hmid := hn.1.middle hle
    have hmax := cfg.maxId_le
    rw [← ih, show slabclassMaxId + 1 - n = slabclassMaxId + 1 - (n + 1) + 1 by omega]
    simp only [slabIdLoop]
    rw [if_pos hle, if_neg (not_lt.2 hsize), if_pos ⟨hid, hroom⟩, decrement_mod hid hmid.2.2]

/-- No class has room exactly where the last one has not. -/
theorem Config.Ascending.slabId_eq_invalid_iff (h : cfg.Ascending) {size : ℕ} :
    Twemcache.slabId cfg size = slabclassInvalidId ↔ cfg.profile cfg.maxId < size := by
  rcases h.least size with ⟨hvalid, hroom, -⟩ | ⟨hid, hlt⟩
  · have hne : Twemcache.slabId cfg size ≠ slabclassInvalidId := by
      have hle := hvalid.2.trans cfg.maxId_le
      simp only [slabclassMaxId, slabclassInvalidId] at hle ⊢
      omega
    exact ⟨fun heq => absurd heq hne,
      fun hlt => absurd (hroom.trans (h.size.le hvalid.1 hvalid.2 le_rfl)) (not_le.2 hlt)⟩
  · exact ⟨fun _ => hlt, fun _ => hid⟩

/-- **A slab profile that the options make is ascending, and `slab_id` searches it within 8 bits.**
A generated profile ends with the room in a slab; the sizes of a given one are aligned and within
bounds.  In either case the bounds of the search stay within 8 bits and close after a turn for each
class, and what it returns is the least class whose chunks have room, or invalid where the largest
chunk is too small. -/
theorem slab_profile_searched (o : Options) :
    (o.Grows → (mcGenerateProfile o).Ascending ∧
      (mcGenerateProfile o).size (mcGenerateProfile o).lastId = o.slabData) ∧
    (∀ optarg P, mcParseProfile o optarg = .ok P → P.Ascending ∧
      ∀ id, slabclassMinId ≤ id → id ≤ P.lastId →
        P.size id % 8 = 0 ∧ itemMinChunkSize o.itemHdrSize ≤ P.size id ∧ P.size id ≤ o.slabData) ∧
    ∀ P, (o.Grows ∧ mcGenerateProfile o = P ∨ ∃ optarg, mcParseProfile o optarg = .ok P) →
      ∀ cfg : Config, cfg.profile = P.size → cfg.maxId = P.lastId → ∀ size ≥ 1,
        (∀ n imin imax, SlabIdTurns cfg size n imin imax →
          n ≤ cfg.maxId ∧ slabIdLoop cfg size (slabclassMaxId + 1 - n) imin imax = slabId cfg size ∧
          (imin ≤ imax → 0 < (imin + imax) / 2 ∧ (imin + imax) / 2 + 1 < 2 ^ 8)) ∧
        Least cfg size (slabId cfg size) ∧
        (slabId cfg size = slabclassInvalidId ↔ cfg.profile cfg.maxId < size) := by
  refine ⟨mcGenerateProfile_ascending, fun optarg P hP => mcParseProfile_ascending hP, ?_⟩
  intro P hP cfg hprofile hid size hsize
  have hasc : cfg.Ascending := by
    rcases hP with ⟨hgrows, rfl⟩ | ⟨optarg, hP⟩
    · exact (mcGenerateProfile_ascending hgrows).1.config hprofile hid
    · exact (mcParseProfile_ascending hP).1.config hprofile hid
  refine ⟨fun n imin imax hturns => ?_, hasc.least size, hasc.slabId_eq_invalid_iff⟩
  obtain ⟨hbounded, hn⟩ := hturns.bounded hasc
  refine ⟨by omega, hturns.slabId hasc, fun hle => ?_⟩
  have hmid := hbounded.middle hle
  have hmin := hbounded.min
  simp only [slabclassMinId] at hmin
  omega

theorem two_maxId : 2 ≤ slabclassMaxId := by decide

/-- The two chunk sizes. -/
theorem two_profile (id : ℕ) (hmin : slabclassMinId ≤ id) (hmax : id ≤ 2) :
    0 < Function.update (Function.update (fun _ => 0) 1 96) 2 200 id ∧
      Function.update (Function.update (fun _ => 0) 1 96) 2 200 id ≤ 480 := by
  have hid : id = 1 ∨ id = 2 := by simp only [slabclassMinId] at hmin; omega
  rcases hid with rfl | rfl <;> decide

/-- The configuration of `-I 512 -z 96,200`. -/
def twoClasses : Config where
  useCas := true
  useFreeq := true
  useLruq := true
  hashPower := 1
  hash _ := 0
  processStarted := 0
  itemHdrSize := 49
  slabSize := 480
  maxId := 2
  profile := Function.update (Function.update (fun _ => 0) 1 96) 2 200
  maxNslab := 2048
  maxId_le := two_maxId
  profile_pos id hmin hmax := (two_profile id hmin hmax).1
  profile_le id hmin hmax := (two_profile id hmin hmax).2

/-- The profile `96,200` is accepted. -/
theorem mcParseProfile_twoClasses :
    mcParseProfile (optionsOf 512 (2 ^ 20) evictLru none) [57, 54, 44, 50, 48, 48] =
    .ok ⟨twoClasses.profile, 2⟩ := by
  rw [mcParseProfile, parseLoop, if_pos (by decide), if_neg (by decide)]
  rw [show mcStrtoul ([57, 54, 44, 50, 48, 48].takeWhile fun x => decide (x ≠ 44)) =
    some 96 by decide]
  dsimp only
  rw [if_neg (by decide), if_neg (by decide), if_neg (by decide), if_neg (by decide),
    if_pos (by decide)]
  rw [parseLoop, if_pos (by decide), if_neg (by decide)]
  rw [show mcStrtoul (([57, 54, 44, 50, 48, 48].drop (([57, 54, 44, 50, 48, 48].takeWhile
    fun x : UInt8 => decide (x ≠ 44)).length + 1)).takeWhile fun x => decide (x ≠ 44)) =
      some 200 by decide]
  dsimp only
  rw [if_neg (by decide), if_neg (by decide), if_neg (by decide), if_neg (by decide),
    if_neg (by decide)]
  rfl

/-- Of the classes of 96 and 200 bytes, the second one is the least for 150 bytes, and 201 bytes fit
into none. -/
theorem slab_profile_searched_two :
    (mcGenerateProfile (optionsOf 512 (2 ^ 20) evictLru none)).Ascending ∧
      Least twoClasses 150 (slabId twoClasses 150) ∧ slabId twoClasses 150 = 2 ∧
      slabId twoClasses 201 = slabclassInvalidId := by
  have hgrows : (optionsOf 512 (2 ^ 20) evictLru none).Grows := by
    intro itemSz hlt
    have hlt' : itemSz < 480 := hlt
    show itemSz ≤ min (2 * itemSz) (2 ^ 64 - 2 ^ 11)
    omega
  obtain ⟨hgen, -, hsearch⟩ := slab_profile_searched (optionsOf 512 (2 ^ 20) evictLru none)
  have htwo := hsearch _ (.inr ⟨_, mcParseProfile_twoClasses⟩) twoClasses rfl rfl
  exact ⟨(hgen hgrows).1, (htwo 150 (by decide)).2.1, by decide,
    (htwo 201 (by decide)).2.2.2 (by decide)⟩

end Twemcache
