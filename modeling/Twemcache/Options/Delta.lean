import Twemcache.Options.Class
import Twemcache.Server.Delta

/-!
# The class of an incremented item

When the new value of `item_delta` is longer than the old one, the item moves to a chunk of the
class that has room for it.  `_item_delta` only asserts that there is such a class.  Nothing checks
a slab profile against that: where the largest chunks are small, the item may have been stored in
one of them while its longer value has no class.
-/

namespace Twemcache

namespace Store

variable {cfg : Config} {ch : Choice} {s : Store} {key : Key} {incr : Bool} {delta id : ℕ}

/-- `_item_delta` passes this class id to `_item_alloc`, and answers out of memory if that fails. -/
theorem itemDelta_of_deltaClass (h : s.deltaClass cfg key incr delta = some id) :
    ∃ p t v, s.itemGet cfg key = (some p, t) ∧ mcStrtoullLen ((t.items p).value cfg) = some v ∧
      s.itemDelta cfg ch key incr delta =
        match t.itemAlloc cfg ch id (t.keyOf p) (t.items p).dataflags (t.items p).exptime
            (decimal (deltaValue v incr delta)).length with
        | (none, u) => (.eom, u.itemRemove p)
        | (some np, u) => (.ok (deltaValue v incr delta),
            (((u.setItem np fun n => n.write (n.data cfg)
              (decimal (deltaValue v incr delta))).itemRelink cfg ch p
              np).itemRemove p).itemRemove np) := by
  unfold deltaClass at h
  cases hget : s.itemGet cfg key with
  | mk r t =>
    rw [hget] at h
    cases r with
    | none => cases h
    | some p =>
      dsimp only at h
      cases hnum : mcStrtoullLen ((t.items p).value cfg) with
      | none =>
        rw [hnum] at h
        cases h
      | some v =>
        rw [hnum] at h
        dsimp only at h
        split_ifs at h with hlong
        obtain rfl := Option.some.inj h
        refine ⟨p, t, v, rfl, hnum, ?_⟩
        unfold itemDelta
        rw [hget]
        dsimp only
        rw [hnum]
        exact if_pos hlong

/-- A delta that turns `v` into the largest number of 64 bits. -/
theorem deltaValue_max {v : ℕ} (hv : v < 2 ^ 64) :
    deltaValue v true (2 ^ 64 - 1 - v) = 2 ^ 64 - 1 := by
  simp only [deltaValue, if_true]
  omega

end Store

theorem itemNtotal_mono {cfg : Config} {nkey n n' : ℕ} {useCas : Bool} (h : n ≤ n') :
    itemNtotal cfg nkey n useCas ≤ itemNtotal cfg nkey n' useCas := by
  simp only [itemNtotal]
  omega

theorem Config.StartedWith.ascending {cfg : Config} {o : Options} (h : cfg.StartedWith o) :
    cfg.Ascending := by
  obtain ⟨P, hP, hsize, hid⟩ := h.profile
  unfold mcSetProfile at hP
  split at hP
  · exact (mcParseProfile_ascending hP).1.config hsize hid
  · obtain rfl := Except.ok.inj hP
    exact (mcGenerateProfile_ascending h.accepted.grows).1.config hsize hid

/-- **Every increment and decrement of a visible number finds a class if and only if the number has
20 digits already, or the largest chunk has room for the key and 20 digits.** -/
theorem delta_class_exact {o : Options} {cfg : Config} (hcfg : cfg.StartedWith o) {s : Store}
    {key : Key} {e : Entry (List UInt8)} {v : ℕ} (hview : s.view cfg key = some e)
    (hnum : mcStrtoullLen e.value = some v) :
    (∀ incr, ∀ delta < 2 ^ 64, ∀ id ∈ s.deltaClass cfg key incr delta, cfg.ValidId id) ↔
      20 ≤ e.value.length ∨ itemNtotal cfg key.length 20 cfg.useCas ≤ cfg.profile cfg.maxId := by
  have hasc := hcfg.ascending
  have hv := Store.mcStrtoullLen_lt hnum
  constructor
  · intro h
    by_contra hno
    obtain ⟨hshort, hsmall⟩ := not_or.1 hno
    have hlen : (decimal (2 ^ 64 - 1)).length = 20 := by decide
    have hclass : s.deltaClass cfg key true (2 ^ 64 - 1 - v) =
        some (itemSlabid cfg key.length 20) := by
      rw [Store.deltaClass_of_view hview hnum, Store.deltaValue_max hv, hlen, if_pos (by omega)]
    have hvalid := h true (2 ^ 64 - 1 - v) (by omega) _ hclass
    rw [itemSlabid, hasc.slabId_eq_invalid_iff.2 (not_le.1 hsmall)] at hvalid
    have hmax := hvalid.2.trans cfg.maxId_le
    simp [slabclassInvalidId, slabclassMaxId] at hmax
  · intro hroom incr delta hdelta id hid
    rw [Store.deltaClass_of_view hview hnum] at hid
    have hle :=
      Store.length_decimal_le (Store.deltaValue_lt hv : Store.deltaValue v incr delta < 2 ^ 64)
    rw [Option.mem_ite_none_right, Option.mem_some_iff] at hid
    obtain ⟨hlong, rfl⟩ := hid
    have hfits : itemNtotal cfg key.length 20 cfg.useCas ≤ cfg.profile cfg.maxId :=
      hroom.resolve_left (by omega)
    refine Store.itemSlabid_valid fun hinvalid => ?_
    have hbig := hasc.slabId_eq_invalid_iff.1 hinvalid
    exact absurd ((itemNtotal_mono hle).trans hfits) (not_le.2 hbig)

/-- The options `-I 512 -m 1 -z 64`. -/
def narrowOptions : Options := optionsOf 512 (2 ^ 20) evictLru (some [54, 52])

/-- The configuration of these options: the largest chunk has room for a key of one byte and a value
of three. -/
def Config.narrow : Config where
  useCas := true
  useFreeq := true
  useLruq := true
  hashPower := 1
  hash _ := 0
  processStarted := 0
  itemHdrSize := 49
  slabSize := 480
  maxId := 1
  profile := Function.update (fun _ => 0) 1 64
  maxNslab := 2048
  maxId_le := Config.one_maxId
  profile_pos id hmin hmax := by
    obtain rfl : id = 1 := le_antisymm hmax hmin
    decide
  profile_le id hmin hmax := by
    obtain rfl : id = 1 := le_antisymm hmax hmin
    decide

theorem startedWith_narrow : Config.narrow.StartedWith narrowOptions where
  accepted :=
    accepted_optionsOf (by decide) (by decide) (by decide) Nat.one_pos (by decide) (by decide)
  profile := by
    refine ⟨⟨Config.narrow.profile, 1⟩, ?_, rfl, rfl⟩
    show mcParseProfile narrowOptions [54, 52] = _
    rw [mcParseProfile, parseLoop, if_pos (by decide), if_neg (by decide)]
    rw [show mcStrtoul ([54, 52].takeWhile fun x => decide (x ≠ 44)) = some 64 by decide]
    dsimp only
    rw [if_neg (by decide), if_neg (by decide), if_neg (by decide), if_neg (by decide),
      if_neg (by decide)]
    rfl
  slabSize := rfl
  itemHdrSize := rfl
  maxNslab := by decide
  useFreeq := rfl
  useLruq := rfl

/-- The server of these options when it starts. -/
def initNarrow : Server :=
  .init .narrow 2 evictLru (fun _ => ⟨0, 0, 0, 0⟩) fun _ =>
    ⟨0, 0, 0, 0, 0, {}, 0, [], 0, fun _ => 0, 0⟩

/-- `a` is stored with value 999. -/
def hundredsRun : List Label :=
  [.alloc 0 [97] 0 0 3 {}, .fill 0 0 [57, 57, 57, 13, 10], .set 0 {}, .removeItem 0]

/-- An accepted profile of one class of 64 bytes: 999 is visible, and incrementing it passes
`SLABCLASS_INVALID_ID` to `_item_alloc`. -/
theorem delta_class_invalid : narrowOptions.Accepted ∧ Config.narrow.StartedWith narrowOptions ∧
    ∃ s : Server, (server .narrow).Reaches Machine.Unguarded initNarrow s ∧
      s.store.view .narrow [97] = some ⟨[57, 57, 57], 0, 0, 1⟩ ∧
      mcStrtoullLen [57, 57, 57] = some 999 ∧
      s.store.deltaClass .narrow [97] true 1 = some slabclassInvalidId ∧
          ¬ Config.narrow.ValidId slabclassInvalidId := by
  have hreach : (server .narrow).Reaches Machine.Unguarded initNarrow
      ((server .narrow).exec (fun _ _ _ => true) initNarrow hundredsRun) :=
    (Machine.reaches_exec (by decide +kernel)).mono fun _ _ _ _ => trivial
  refine ⟨startedWith_narrow.accepted, startedWith_narrow, _,
    hreach, by decide +kernel, by decide +kernel,
    by decide +kernel, fun h => absurd h.2 (by decide)⟩

/-- The same number in the same server: the largest chunk has no room for 20 digits, so some delta
finds no class. -/
theorem delta_class_exact_narrow :
    ∃ s : Server, (server .narrow).Reaches Machine.Unguarded initNarrow s ∧
    ¬ ∀ incr, ∀ delta < 2 ^ 64, ∀ id ∈ s.store.deltaClass .narrow [97] incr delta,
        Config.narrow.ValidId id := by
  have hreach : (server .narrow).Reaches Machine.Unguarded initNarrow
      ((server .narrow).exec (fun _ _ _ => true) initNarrow hundredsRun) :=
    (Machine.reaches_exec (by decide +kernel)).mono fun _ _ _ _ => trivial
  have hview : ((server .narrow).exec (fun _ _ _ => true) initNarrow hundredsRun).store.view
      .narrow [97] =
      some ⟨[57, 57, 57], 0, 0, 1⟩ := by decide +kernel
  have hnum : mcStrtoullLen [57, 57, 57] = some 999 := by decide +kernel
  generalize (server .narrow).exec (fun _ _ _ => true) initNarrow hundredsRun = s at hreach hview
  exact ⟨s, hreach, fun h => absurd ((delta_class_exact startedWith_narrow hview hnum).1 h)
    (by decide)⟩

end Twemcache
