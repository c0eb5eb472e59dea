import Twemcache.Store.Inv

/-!
# Where `item_alloc` finds its chunk

`_item_alloc` tries six sources in turn, across the item and the slab module.  `Found` has one
constructor for each, with all that is known when the source is reached: which sources before it
came up empty, and what the settings allow.
-/

namespace Twemcache

namespace Store

variable (cfg : Config) (ch : Choice) (id : ℕ) (s : Store)

/-- The slab module has nothing of class `id` to hand out: the free queue is empty or not used, and
there is no current slab. -/
def Exhausted : Prop := s.slabGetItemFromFreeq cfg id = none ∧ (s.slabclass id).freeItem = none

/-- No new slab can be allocated. -/
def NoSlab : Prop := (s.slabGetNew cfg ch).1 = none

/-- The slab that a slab strategy picks. -/
def Picks (sl : ℕ) : Prop :=
  s.evictOpt &&& (evictCs ||| evictAs) ≠ 0 ∧ s.slabEvictLruPick = some sl ∨
    s.evictOpt &&& evictRs ≠ 0 ∧ s.slabEvictRandPick ch = some sl

/-- The chunk `p` of class `id` was found for a new item. -/
inductive Found : ItemPtr → Store → Prop
  /-- An expired item on the lru queue. -/
  | expired {p : ItemPtr} (hp : s.itemGetFromLruq cfg id = some p) (hexp : s.itemExpired p = true) :
      Found p (s.itemReuse cfg p)
  /-- The head of the free queue. -/
  | freeq {p : ItemPtr} (hp : s.slabGetItemFromFreeq cfg id = some p) : Found p
      (s.slabTakeItem id p)
  /-- The next chunk of the current slab. -/
  | current {p : ItemPtr} {t : Store} (hp : (s.slabclass id).freeItem = some p)
      (ht : t = (s.slabGetItemFromCurrent id).2) : Found p t
  /-- The first chunk of a new slab. -/
  | fresh {p : ItemPtr} {sl : ℕ} {s₁ t : Store} (hex : s.Exhausted cfg id)
      (hget : s.slabGetNew cfg ch = (some sl, s₁))
      (ht : (s₁.slabAddOne cfg sl id).slabGetItemFromCurrent id = (some p, t)) : Found p t
  /-- The first chunk of an evicted slab. -/
  | slab {p : ItemPtr} {sl : ℕ} {t : Store} (hex : s.Exhausted cfg id) (hno : s.NoSlab cfg ch)
      (hpick : s.Picks ch sl)
      (ht : ((s.slabEvictOne cfg sl).slabAddOne cfg sl id).slabGetItemFromCurrent id =
        (some p, t)) :
      Found p t
  /-- An item that the lru queue gives up. -/
  | lru {p : ItemPtr} (hex : s.Exhausted cfg id) (hno : s.NoSlab cfg ch)
      (hopt : s.evictOpt &&& evictLru ≠ 0) (hp : s.itemGetFromLruq cfg id = some p) :
      Found p (s.itemReuse cfg p)

variable {cfg ch id s} {p : ItemPtr} {t : Store}

theorem slabGetNew_none {s₁ : Store} (h : s.slabGetNew cfg ch = (none, s₁)) : s₁ = s := by
  simp only [slabGetNew] at h
  split_ifs at h <;> simp_all

/-- What `slab_get` does when it returns a slab. -/
theorem slabGet_true {s₁ : Store} (h : s.slabGet cfg ch id = (true, s₁)) :
    (∃ sl s₀, s.slabGetNew cfg ch = (some sl, s₀) ∧ s₁ = s₀.slabAddOne cfg sl id) ∨
      s.NoSlab cfg ch ∧ ∃ sl, s.Picks ch sl ∧
          s₁ = (s.slabEvictOne cfg sl).slabAddOne cfg sl id := by
  simp only [slabGet, slabObtain] at h
  generalize hnew : s.slabGetNew cfg ch = r at h
  obtain ⟨_ | sl, s₀⟩ := r
  · obtain rfl := slabGetNew_none hnew
    refine .inr ⟨by rw [NoSlab, hnew], ?_⟩
    dsimp only at h
    generalize hlru : (if s₀.evictOpt &&& (evictCs ||| evictAs) ≠ 0 then s₀.slabEvictLruPick
      else none) = r
      at h
    obtain _ | sl := r
    · generalize hrand : (if s₀.evictOpt &&& evictRs ≠ 0 then s₀.slabEvictRandPick ch
        else none) = r at h
      obtain _ | sl := r
      · cases h
      · obtain ⟨hopt, hpick⟩ := Option.ite_none_right_eq_some.1 hrand
        exact ⟨sl, .inr ⟨hopt, hpick⟩, (Prod.mk.inj h).2.symm⟩
    · obtain ⟨hopt, hpick⟩ := Option.ite_none_right_eq_some.1 hlru
      exact ⟨sl, .inl ⟨hopt, hpick⟩, (Prod.mk.inj h).2.symm⟩
  · exact .inl ⟨sl, s₀, rfl, (Prod.mk.inj h).2.symm⟩

/-- What is known when `slab_get` returns no slab. -/
theorem slabGet_false {s₁ : Store} (h : s.slabGet cfg ch id = (false, s₁)) :
    s.NoSlab cfg ch ∧ s₁ = s := by
  simp only [slabGet, slabObtain] at h
  generalize hnew : s.slabGetNew cfg ch = r at h
  obtain ⟨_ | sl, s₀⟩ := r
  · obtain rfl := slabGetNew_none hnew
    refine ⟨by rw [NoSlab, hnew], ?_⟩
    dsimp only at h
    generalize (if s₀.evictOpt &&& (evictCs ||| evictAs) ≠ 0 then s₀.slabEvictLruPick
      else none) = r at h
    obtain _ | sl := r
    · generalize (if s₀.evictOpt &&& evictRs ≠ 0 then s₀.slabEvictRandPick ch else none) = r at h
      obtain _ | sl := r
      · exact (Prod.mk.inj h).2.symm
      · cases h
    · cases h
  · cases h

/-- Without a chunk from the slab module its sources are exhausted, and the store is as before. -/
theorem slabGetItem_none {s₁ : Store} (h : s.slabGetItem cfg ch id = (none, s₁)) :
    s.Exhausted cfg id ∧ s.NoSlab cfg ch ∧ s₁ = s := by
  simp only [slabGetItem] at h
  cases hfq : s.slabGetItemFromFreeq cfg id with
  | some p => simp [hfq] at h
  | none =>
    cases hcur : (s.slabclass id).freeItem with
    | some p => simp [hfq, hcur, slabGetItemFromCurrent] at h
    | none =>
      simp only [hfq, hcur, if_true] at h
      generalize hr : s.slabGet cfg ch id = r at h
      obtain ⟨_ | _, s₂⟩ := r
      · obtain ⟨hno, hsame⟩ := slabGet_false hr
        exact ⟨⟨hfq, hcur⟩, hno, (Prod.mk.inj h).2.symm.trans hsame⟩
      · -- a slab that was added has chunks to hand out
        obtain ⟨sl, s₀, -, rfl⟩ | ⟨-, sl, -, rfl⟩ := slabGet_true hr <;>
          simp [slabGetItemFromCurrent, slabAddOne, setClass, setGauges] at h

/-- What `slab_get_item` does when it returns a chunk. -/
theorem slabGetItem_some (h : s.slabGetItem cfg ch id = (some p, t)) : Found cfg ch id s p t := by
  simp only [slabGetItem] at h
  generalize hfq : s.slabGetItemFromFreeq cfg id = r at h
  obtain _ | q := r
  · generalize hcur : (s.slabclass id).freeItem = c at h
    obtain _ | q := c
    · simp only [if_true] at h
      generalize hr : s.slabGet cfg ch id = r at h
      obtain ⟨_ | _, s₁⟩ := r
      · cases h
      · obtain ⟨sl, s₀, hnew, rfl⟩ | ⟨hno, sl, hpick, rfl⟩ := slabGet_true hr
        · exact .fresh ⟨hfq, hcur⟩ hnew h
        · exact .slab ⟨hfq, hcur⟩ hno hpick h
    · simp only [reduceCtorEq, if_false] at h
      have hfst : (s.slabGetItemFromCurrent id).1 = some q := by simp [slabGetItemFromCurrent, hcur]
      rw [h] at hfst
      obtain rfl := Option.some.inj hfst
      exact .current hcur (congrArg Prod.snd h).symm
  · obtain ⟨hq, rfl⟩ := Prod.mk.inj h
    obtain rfl := Option.some.inj hq
    exact .freeq hfq

/-- **The sources of `item_alloc`.**  A chunk comes from one of the six, each tried when those
before it had nothing. -/
theorem itemAllocChunk_found (h : s.itemAllocChunk cfg ch id = (some p, t)) :
    Found cfg ch id s p t := by
  simp only [itemAllocChunk] at h
  cases hexp : (s.itemGetFromLruq cfg id).filter s.itemExpired with
  | some q =>
    obtain ⟨hq, hdead⟩ := Option.filter_eq_some_iff.1 hexp
    rw [hexp] at h
    obtain ⟨hqp, rfl⟩ := Prod.mk.inj h
    obtain rfl := Option.some.inj hqp
    exact .expired hq hdead
  | none =>
    simp only [hexp] at h
    generalize hr : s.slabGetItem cfg ch id = r at h
    obtain ⟨_ | q, s₁⟩ := r
    · obtain ⟨hex, hno, rfl⟩ := slabGetItem_none hr
      generalize huit : (if s₁.evictOpt &&& evictLru ≠ 0 then s₁.itemGetFromLruq cfg id
        else none) = u at h
      obtain _ | q := u
      · cases h
      · obtain ⟨hopt, hq⟩ := Option.ite_none_right_eq_some.1 huit
        obtain ⟨hqp, rfl⟩ := Prod.mk.inj h
        obtain rfl := Option.some.inj hqp
        exact .lru hex hno hopt hq
    · obtain ⟨hqp, rfl⟩ := Prod.mk.inj h
      obtain rfl := Option.some.inj hqp
      exact slabGetItem_some hr

/-- **A failed allocation changes nothing.** -/
theorem itemAlloc_none {key : Key} {dataflags exptime nbyte : ℕ}
    (h : s.itemAlloc cfg ch id key dataflags exptime nbyte = (none, t)) : t = s := by
  unfold itemAlloc at h
  split at h
  · cases h
  · rename_i u hchunk
    rw [← (Prod.mk.inj h).2]
    unfold itemAllocChunk at hchunk
    split at hchunk
    · cases hchunk
    · dsimp only at hchunk
      split at hchunk
      · cases hchunk
      · rename_i v hslab
        split at hchunk
        · cases hchunk
        · rw [← (Prod.mk.inj hchunk).2]
          exact (slabGetItem_none hslab).2.2

theorem Picks.idle {sl : ℕ} (hpick : s.Picks ch sl) (hfull : s.Full) :
    sl ∈ s.slabLruq ∧ (s.slabs sl).refcount = 0 := by
  obtain ⟨-, hpick⟩ | ⟨-, hpick⟩ := hpick
  · exact slabEvictLruPick_idle hpick
  · obtain ⟨hmem, href⟩ := slabEvictRandPick_idle hpick
    exact ⟨hfull sl hmem, href⟩

theorem Hands.validId (hh : Hands cfg id s p t) : cfg.ValidId id := by
  have hid := Shape.Wf.slab_id hh.wf p.slab hh.active.1
  rw [← Shape.Wf.item_id hh.wf p hh.active] at hid
  exact hh.id ▸ hid

end Store

end Twemcache
