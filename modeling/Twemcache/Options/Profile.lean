import Twemcache.Options.Basic

/-!
# Slab profiles

Both ways to make a slab profile yield strictly ascending chunk sizes.  For a generated profile this
rests on what the growth factor does to a size: the truncated product is at least its argument, and,
being a `double`, far enough below `2^64` for the alignment not to wrap.
-/

namespace Twemcache

/-- The chunk sizes of the classes `1..n` are strictly ascending. -/
def AscendingTo (size : ℕ → ℕ) (n : ℕ) :
    Prop := ∀ id, slabclassMinId ≤ id → id < n → size id < size (id + 1)

/-- A profile has between 1 and 254 classes, of strictly ascending chunk sizes. -/
structure Profile.Ascending (P : Profile) : Prop where
  /-- There is a class. -/
  pos : slabclassMinId ≤ P.lastId
  /-- There are not too many. -/
  le : P.lastId ≤ slabclassMaxId
  /-- Chunk sizes are ascending. -/
  size : AscendingTo P.size P.lastId

theorem AscendingTo.lt {size : ℕ → ℕ} {n i j : ℕ} (h : AscendingTo size n) (hi : slabclassMinId ≤ i)
    (hij : i < j) (hj : j ≤ n) : size i < size j := by
  induction j with
  | zero => omega
  | succ j ih =>
    rcases Nat.lt_succ_iff_lt_or_eq.1 hij with hlt | rfl
    · exact (ih hlt (by omega)).trans (h j (by omega) (by omega))
    · exact h i hi (by omega)

theorem AscendingTo.le {size : ℕ → ℕ} {n i j : ℕ} (h : AscendingTo size n) (hi : slabclassMinId ≤ i)
    (hij : i ≤ j) (hj : j ≤ n) : size i ≤ size j := by
  rcases hij.lt_or_eq with hlt | rfl
  · exact (h.lt hi hlt hj).le
  · exact le_rfl

/-- One more class, with a larger chunk size. -/
theorem AscendingTo.update {size : ℕ → ℕ} {n v : ℕ} (h : AscendingTo size n)
    (hv : slabclassMinId ≤ n → size n < v) :
    AscendingTo (Function.update size (n + 1) v) (n + 1) := by
  intro id hid hlt
  rw [Function.update_of_ne (by omega)]
  rcases Nat.lt_succ_iff_lt_or_eq.1 hlt with hlt | rfl
  · rw [Function.update_of_ne (by omega)]
    exact h id hid hlt
  · rw [Function.update_self]
    exact hv hid

theorem le_mcAlign {d : ℕ} (h : d + 7 < 2 ^ 64) : d ≤ mcAlign d := by
  simp only [mcAlign, mcAlignment]
  omega

/-- The next chunk size is larger. -/
theorem Options.Grows.lt_mcAlign {o : Options} (h : o.Grows) {itemSz : ℕ}
    (hlt : itemSz < o.slabData) :
    itemSz < mcAlign
      (if o.grow.product itemSz = itemSz then o.grow.product itemSz +
          1 else o.grow.product itemSz) := by
  have hle := h itemSz hlt
  have hfits := o.grow.fits itemSz
  split_ifs with heq
  · exact Nat.lt_of_lt_of_le (by omega) (le_mcAlign (by omega))
  · exact Nat.lt_of_lt_of_le (by omega) (le_mcAlign (by omega))

/-- What the loop of `mc_generate_profile` keeps: the chunk sizes so far are ascending, and below
the next one and the room in a slab. -/
theorem generateLoop_spec {o : Options} (h : o.Grows) {id : ℕ} (itemSz : ℕ) (profile : ℕ → ℕ)
    (hpos : slabclassMinId ≤ id) (hle : id ≤ slabclassMaxId) (hasc : AscendingTo profile (id - 1))
    (hnext : slabclassMinId ≤ id - 1 → profile (id - 1) < itemSz ∧ profile (id - 1) < o.slabData) :
    ∃ n profile', generateLoop o.grow o.slabData id itemSz profile = (n, profile') ∧
      slabclassMinId ≤ n ∧
      n ≤ slabclassMaxId ∧ AscendingTo profile' (n - 1) ∧
          (slabclassMinId ≤ n - 1 → profile' (n - 1) < o.slabData) := by
  induction hn : slabclassMaxId - id generalizing id itemSz profile with
  | zero =>
    rw [generateLoop, if_neg (by omega)]
    exact ⟨id, profile, rfl, hpos, hle, hasc, fun hid => (hnext hid).2⟩
  | succ n ih =>
    rw [generateLoop]
    by_cases hgo : id < slabclassMaxId ∧ itemSz < o.slabData
    · rw [if_pos hgo]
      obtain ⟨k, rfl⟩ : ∃ k, id = k + 1 := ⟨id - 1, by simp only [slabclassMinId] at hpos; omega⟩
      rw [Nat.add_sub_cancel] at hasc hnext
      refine ih _ _ (by simp only [slabclassMinId]; omega) (by omega) ?_ (fun _ => ?_) (by omega)
      · rw [Nat.add_sub_cancel]
        exact hasc.update fun hk => (hnext hk).1
      · rw [Nat.add_sub_cancel, Function.update_self]
        exact ⟨h.lt_mcAlign hgo.2, hgo.2⟩
    · rw [if_neg hgo]
      exact ⟨id, profile, rfl, hpos, hle, hasc, fun hid => (hnext hid).2⟩

/-- **A generated profile is ascending and ends with the room in a slab.** -/
theorem mcGenerateProfile_ascending {o : Options} (h : o.Grows) :
    (mcGenerateProfile o).Ascending ∧ (mcGenerateProfile o).size (mcGenerateProfile o).lastId =
        o.slabData := by
  obtain ⟨n, profile, heq, hpos, hle, hasc, hlast⟩ := generateLoop_spec h o.chunkSize (fun _ => 0)
    (le_refl slabclassMinId) (by decide) (fun id hid hlt => by omega) fun hid => by
      simp only [slabclassMinId] at hid
      omega
  have hgen : mcGenerateProfile o = ⟨Function.update profile n o.slabData, n⟩ := by
    simp only [mcGenerateProfile, heq]
  rw [hgen]
  obtain ⟨k, rfl⟩ : ∃ k, n = k + 1 := ⟨n - 1, by simp only [slabclassMinId] at hpos; omega⟩
  rw [Nat.add_sub_cancel] at hasc hlast
  exact ⟨⟨hpos, hle, hasc.update hlast⟩, Function.update_self ..⟩

/-- What a chunk size of `--slab-profile` has to be. -/
def SizeOk (o : Options) (itemSz : ℕ) : Prop :=
  itemSz % mcAlignment = 0 ∧ itemMinChunkSize o.itemHdrSize ≤ itemSz ∧ itemSz ≤ o.slabData

theorem sizeOk_update {o : Options} {id itemSz : ℕ} {profile : ℕ → ℕ}
    (hok : ∀ i, slabclassMinId ≤ i → i ≤ id → SizeOk o (profile i)) (hsize : SizeOk o itemSz) :
    ∀ i, slabclassMinId ≤ i → i ≤ id + 1 →
        SizeOk o (Function.update profile (id + 1) itemSz i) := by
  intro i hi hle
  rcases Nat.lt_or_eq_of_le hle with hlt | rfl
  · rw [Function.update_of_ne (by omega)]
    exact hok i hi (by omega)
  · rw [Function.update_self]
    exact hsize

/-- The checks of a turn have passed. -/
theorem parseTurn_ok {o : Options} {id itemSz : ℕ} {profile : ℕ → ℕ}
    {rest : Except ProfileError Profile} {P : Profile}
    (h : (if itemSz % mcAlignment ≠ 0 then .error .notAligned else if itemSz <
      itemMinChunkSize o.itemHdrSize then .error .tooSmall else if itemSz >
      o.slabData then .error .tooLarge else if id ≥ slabclassMinId ∧
      itemSz ≤ profile id then .error .notAscending else rest) = Except.ok P) :
    SizeOk o itemSz ∧ (slabclassMinId ≤ id → profile id < itemSz) ∧ rest = .ok P := by
  split_ifs at h with halign hsmall hlarge hnot
  exact ⟨⟨not_not.1 halign, not_lt.1 hsmall, not_lt.1 hlarge⟩,
    fun hid => not_le.1 fun hle => hnot ⟨hid, hle⟩, h⟩

/-- What the loop of `mc_parse_profile` keeps: the sizes so far are accepted and ascending. -/
theorem parseLoop_spec {o : Options} {ptr : List UInt8} {id : ℕ} {profile : ℕ → ℕ} {P : Profile}
    (hasc : AscendingTo profile id) (hok : ∀ i, slabclassMinId ≤ i → i ≤ id → SizeOk o (profile i))
    (h : parseLoop (itemMinChunkSize o.itemHdrSize) o.slabData ptr id profile = .ok P) :
    P.Ascending ∧ ∀ i, slabclassMinId ≤ i → i ≤ P.lastId → SizeOk o (P.size i) := by
  induction hn : slabclassMaxId - id generalizing ptr id profile with
  | zero =>
    rw [parseLoop, if_neg (by omega)] at h
    cases h
  | succ n ih =>
    rw [parseLoop] at h
    dsimp only at h
    by_cases hgo : id < slabclassMaxId
    · rw [if_pos hgo] at h
      by_cases hlen : (ptr.takeWhile fun x => decide (x ≠ 44)).length ≥ mcUint32Maxlen
      · rw [if_pos hlen] at h
        cases h
      · rw [if_neg hlen] at h
        cases hread : mcStrtoul (ptr.takeWhile fun x => decide (x ≠ 44)) with
        | none =>
          rw [hread] at h
          cases h
        | some itemSz =>
          simp only [hread] at h
          obtain ⟨hsize, hlt, h⟩ := parseTurn_ok h
          have hasc' : AscendingTo (Function.update profile (id + 1) itemSz) (id + 1) :=
            hasc.update hlt
          have hok' := sizeOk_update hok hsize
          split_ifs at h
          · exact ih hasc' hok' h (by omega)
          · obtain rfl := Except.ok.inj h
            exact ⟨⟨by simp only [slabclassMinId]; omega, hgo, hasc'⟩, hok'⟩
    · rw [if_neg hgo] at h
      cases h

/-- **A profile that is accepted is ascending, and its sizes are aligned and within bounds.** -/
theorem mcParseProfile_ascending {o : Options} {optarg : List UInt8} {P : Profile}
    (h : mcParseProfile o optarg = .ok P) :
    P.Ascending ∧ ∀ i, slabclassMinId ≤ i → i ≤ P.lastId → SizeOk o (P.size i) :=
  parseLoop_spec (fun _ _ hlt => by omega) (fun _ hi hle => by
    simp only [slabclassMinId] at hi hle
    omega) h

end Twemcache
