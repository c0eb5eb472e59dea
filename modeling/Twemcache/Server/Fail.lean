import Twemcache.Server.Ownership
import Twemcache.Store.Fail

/-!
# Failing calls of the server

A call of `item_annex` or `item_delta` that does not succeed leaves the store as it was
(`failure_leaves_store`).  This rests on the counts of references not wrapping: the reference that
the call takes is not given back if it makes the count of the item wrap (`failure_loses_count`).
-/

namespace Twemcache

namespace Server

variable {cfg : Config} {now evictOpt : ℕ} {slabs : ℕ → Slab} {items : ItemPtr → Item}
  {s s' : Server} {l : Label} {a : Answer}

/-- The key of a call of `item_annex` or `item_delta` that did not succeed. -/
def failedKey (s : Server) : Label → Answer → Option Key
  | .annex c _ _, .annex r =>
    match r with
    | .ok _ => none
    | _ => (s.unstored c).map s.store.keyOf
  | .delta key _ _ _, .delta r =>
    match r with
    | .ok _ => none
    | _ => some key
  | _, _ => none

/-- **A call that fails leaves the store as it was**: `item_annex` that answers `ANNEX_NOT_FOUND`,
`ANNEX_OVERSIZED` or `ANNEX_EOM` and `item_delta` that answers `DELTA_NOT_FOUND`,
`DELTA_NON_NUMERIC` or `DELTA_EOM`, as long as no slab has more than 65535 references. -/
theorem failure_leaves_store
    (h : (server cfg).Reaches NoWrap (init cfg now evictOpt slabs items) s)
    (hs : s.step cfg l = some (a, s')) (hov : NoWrap s l s') (key : Key)
    (hf : s.failedKey l a = some key) : s.store.Unchanged cfg s'.store key := by
  have hg := (inv_of_reaches h).guarded l none
  cases l with
  | annex c prepend ch =>
    obtain ⟨p, hp, heq⟩ := storeItem_cases hs
    obtain ⟨rfl, rfl⟩ := Prod.mk.inj heq
    dsimp only [NoWrap] at hf hov ⊢
    generalize hr : s.store.itemAnnex cfg ch prepend p = r at hf hov ⊢
    obtain ⟨r, t⟩ := r
    have hkey : key = s.store.keyOf p ∧ ∀ n, r ≠ .ok n := by
      cases r with
      | ok n => cases hf
      | _ => exact ⟨by simpa [failedKey, hp, eq_comm] using hf, fun _ h => by cases h⟩
    rw [hkey.1]
    exact hg.itemAnnex_failed hr hkey.2 hov
  | delta key' incr delta ch =>
    simp only [step] at hs
    split_ifs at hs with hid
    obtain ⟨rfl, rfl⟩ := Prod.mk.inj (Option.some.inj hs)
    generalize hr : s.store.itemDelta cfg ch key' incr delta = r at hf hov ⊢
    obtain ⟨r, t⟩ := r
    have hkey : key = key' ∧ ∀ n, r ≠ .ok n := by
      cases r with
      | ok n => cases hf
      | _ => exact ⟨by simpa [failedKey, eq_comm] using hf, fun _ h => by cases h⟩
    rw [hkey.1]
    exact hg.itemDelta_failed hr hkey.2 hov
  | _ => cases hf

/-- A number is added to `a`, whose value is not a number. -/
theorem failure_leaves_store_tiny : ∃ s s' : Server,
    (server .tiny).Reaches NoWrap (.tiny evictLru) s ∧
      s.step .tiny (.delta [97] true 1 {}) = some (.delta .nonNumeric, s') ∧
        NoWrap s (.delta [97] true 1 {}) s' ∧
      s.failedKey (.delta [97] true 1 {}) (.delta .nonNumeric) = some [97] ∧
      s.store.Unchanged .tiny s'.store [97] := by
  have hreach : (server .tiny).Reaches NoWrap (.tiny evictLru)
      ((server .tiny).exec (fun s l s' => decide (NoWrap s l s')) (.tiny evictLru) storeRun) :=
    (Machine.reaches_exec (by decide +kernel)).mono fun _ _ _ => of_decide_eq_true
  have hs : ((((server .tiny).exec (fun s l s' => decide (NoWrap s l s')) (.tiny evictLru)
      storeRun).step .tiny (.delta [97] true 1 {})).map fun x => (x.1, x.2.store.overflow)) =
        some (.delta .nonNumeric, false) := by decide +kernel
  generalize (server .tiny).exec (fun s l s' => decide (NoWrap s l s')) (.tiny evictLru)
    storeRun = s
    at hreach hs
  obtain ⟨⟨a, s'⟩, hs, heq⟩ := Option.map_eq_some_iff.1 hs
  obtain ⟨rfl, hov⟩ := Prod.mk.inj heq
  exact ⟨s, s', hreach, hs, hov, rfl, failure_leaves_store hreach hs hov [97] rfl⟩

/-- A connection that names `a` 65535 times has its count wrap when another one tries to increment
it, and the references are not counted any more. -/
theorem failure_loses_count : ∃ s s' : Server,
    (server .tiny).Reaches Machine.Unguarded (.tiny evictLru) s ∧
      s.step .tiny (.delta [97] true 1 {}) = some (.delta .nonNumeric, s') ∧
      ¬ s.store.Unchanged .tiny s'.store [97] := by
  have hstore : (server .tiny).Reaches Machine.Unguarded (.tiny evictLru) (tinyStored evictLru) :=
    (Machine.reaches_exec (by decide +kernel)).mono fun _ _ _ _ => trivial
  have hgets := reaches_gets .tiny (s := tinyStored evictLru) [97] (p := ⟨0, 0⟩) 1
    (by decide +kernel) (by decide +kernel) (by decide +kernel) (by decide +kernel)
    (by decide +kernel) 65535
  have hs :
      (((acquired (tinyStored evictLru).store ⟨0, 0⟩ 65535).itemDelta .tiny {} [97] true 1).1 =
      .nonNumeric) ∧
        (((acquired (tinyStored evictLru).store ⟨0, 0⟩ 65535).itemDelta .tiny {} [97] true
        1).2.items ⟨0, 0⟩).refcount = 0 := by decide +kernel
  have hcount : ((acquired (tinyStored evictLru).store ⟨0, 0⟩ 65535).items ⟨0, 0⟩).refcount =
      65535 := by
    decide +kernel
  have hclass : (acquired (tinyStored evictLru).store ⟨0, 0⟩ 65535).deltaClass .tiny [97] true 1 ≠
      some slabclassInvalidId := by decide +kernel
  generalize acquired (tinyStored evictLru).store ⟨0, 0⟩ 65535 = st at hgets hs hcount hclass
  generalize List.replicate 65535 _ ++ _ = refs at hgets
  refine ⟨⟨st, refs⟩, ⟨(st.itemDelta .tiny {} [97] true 1).2, refs⟩, hstore.trans hgets,
    ?_, fun h => ?_⟩
  · rw [step, if_pos hclass, call, hs.1]
  · exact absurd ((h.refcount ⟨0, 0⟩).symm.trans hs.2) (by rw [hcount]; decide)

end Server

end Twemcache
