import Twemcache.Options.Delta
import Twemcache.Server.Sound

/-!
# The memory limit

`slab_heapinfo_init` turns `settings.maxbytes` into the number of slabs once, when the server
starts. `config maxbytes` raises the setting afterwards, and nothing derives the number of slabs
from it again: the slabs never exceed the setting, but a raised setting gives the server no slab
more.

## Main definitions

* `HeapLabel`, `heapMachine` : the server together with `config maxbytes`.
* `SameSlabs` : the steps that leave the number of slabs that fit into the setting as it is.
-/

namespace Twemcache

namespace Store

variable {cfg : Config} {ch : Choice} {s s' t : Store} {p : ItemPtr} {id : ℕ}

/-! ### The slab table -/

theorem slabTable_slabLruqTouch (sl : ℕ) (allocated : Bool) :
    (s.slabLruqTouch sl allocated).slabTable = s.slabTable := by
  unfold slabLruqTouch
  split_ifs with hopt hold
  · rfl
  · rfl
  · rfl

theorem slabTable_itemTouch : (s.itemTouch cfg p).slabTable = s.slabTable := by
  rcases itemTouch_eq cfg p with heq | ⟨hl, hold, -⟩
  · rw [heq]
  · rw [itemTouch_of_old hl hold, slabTable_slabLruqTouch]
    rfl

/-- The slab table is as long as it was, or longer by the slab that was taken from the heap. -/
theorem Found.slabTable (hf : Found cfg ch id s p t) :
    t.slabTable.length = s.slabTable.length ∨
      s.slabTable.length < cfg.maxNslab ∧ t.slabTable.length = s.slabTable.length + 1 := by
  have hhand : ∀ {u : Store} {sl : ℕ}, (u.slabAddOne cfg sl id).slabGetItemFromCurrent id =
      (some p, t) → t.slabTable = u.slabTable := by
    intro u sl ht
    have hcur : ((u.slabAddOne cfg sl id).slabclass id).freeItem = some ⟨sl, 0⟩ := by
      simp [slabAddOne, setClass, setGauges]
    have hst := (steady_slabGetItemFromCurrent hcur).slabTable
    rwa [ht] at hst
  cases hf with
  | expired hp hexp => exact .inl (congrArg List.length (steady_itemReuse p).slabTable)
  | freeq hp => exact .inl (congrArg List.length (steady_slabTakeItem id p).slabTable)
  | current hp ht =>
    rw [ht]
    exact .inl (congrArg List.length (steady_slabGetItemFromCurrent hp).slabTable)
  | fresh hex hget ht =>
    rw [hhand ht]
    unfold slabGetNew at hget
    split_ifs at hget with hfull hok
    all_goals obtain ⟨hsl, rfl⟩ := Prod.mk.inj hget
    · cases hsl
    · exact .inr ⟨not_le.1 hfull, by simp⟩
    · cases hsl
  | @slab sl _ hex hno hpick ht =>
    obtain ⟨u, hu, heq⟩ := slabEvictOne_steady cfg s sl
    rw [hhand ht, heq]
    exact .inl (congrArg List.length hu.slabTable)
  | lru hex hno hopt hp => exact .inl (congrArg List.length (steady_itemReuse p).slabTable)

/-- No primitive takes more slabs than there are. -/
theorem Deed.slabTable_le (hd : Deed cfg ch s s') (h : s.slabTable.length ≤ cfg.maxNslab) :
    s'.slabTable.length ≤ cfg.maxNslab := by
  cases hd with
  | acquire p =>
    rw [(steady_itemAcquireRefcount p).slabTable]
    exact h
  | @remove p hp =>
    rw [(steady_itemRemove p).slabTable]
    exact h
  | @unlink p hp =>
    rw [(steady_itemUnlink p).slabTable]
    exact h
  | @link ch' p hp =>
    rw [itemLink_eq, slabTable_slabLruqTouch]
    exact h
  | touch hp =>
    rw [slabTable_itemTouch]
    exact h
  | @alloc t id p hf key dataflags exptime nbyte =>
    have hdone := (steady_itemAllocDone p key dataflags exptime nbyte :
      Steady t (t.itemAllocDone cfg p key dataflags exptime nbyte) none).slabTable
    rw [hdone]
    rcases hf.slabTable with heq | ⟨hlt, heq⟩
    · omega
    · omega
  | write hf => exact h
  | moveBucket =>
    rw [steady_assocMoveBucket.slabTable]
    exact h

theorem Deeds.slabTable_le (hd : Deeds cfg ch s s') (h : s.slabTable.length ≤ cfg.maxNslab) :
    s'.slabTable.length ≤ cfg.maxNslab := by
  induction hd with
  | refl => exact h
  | tail _ hd ih => exact hd.slabTable_le ih

end Store

/-! ### The server with its setting -/

/-- A step of the server, or an accepted or refused `config maxbytes`. -/
inductive HeapLabel where
  /-- What the server does with items. -/
  | item (l : Label)
  /-- `config maxbytes`. -/
  | maxbytes (option : ℕ)

/-- The server and `settings.maxbytes`, which is 64 bits wide and is never lowered. -/
def heapMachine (cfg : Config) : Machine (Server × ℕ) HeapLabel Answer where
  step x l :=
    match l with
    | .item l => (x.1.step cfg l).map fun y => (y.1, y.2, x.2)
    | .maxbytes option =>
      if option < 2 ^ 64 - 1 ∧ option ≥ x.2 then some (.done, x.1, option) else none

/-- As many slabs fit into `settings.maxbytes` after the step as before. -/
def SameSlabs (o : Options) (x : Server × ℕ) (_ : HeapLabel) (y : Server × ℕ) : Prop :=
  y.2 / o.slabSize = x.2 / o.slabSize

instance (o : Options) (x : Server × ℕ) (l : HeapLabel) (y : Server × ℕ) :
    Decidable (SameSlabs o x l y) :=
  inferInstanceAs (Decidable (_ = _))

/-- The slabs are within the limits. -/
structure Within (cfg : Config) (o : Options) (x : Server × ℕ) : Prop where
  /-- Connections and pointers are in order. -/
  sound : x.1.Sound
  /-- There are no more slabs than there were to be. -/
  nslab : x.1.store.slabTable.length ≤ cfg.maxNslab
  /-- The setting has not been lowered. -/
  maxbytes : o.maxbytes ≤ x.2

variable {cfg : Config} {o : Options} {x y : Server × ℕ} {now evictOpt : ℕ} {slabs : ℕ → Slab}
  {items : ItemPtr → Item}

theorem Within.step {l : HeapLabel} {a : Answer} (h : Within cfg o x)
    (hs : (heapMachine cfg).step x l = some (a, y)) :
    Within cfg o y := by
  cases l with
  | item l =>
    obtain ⟨z, hz, heq⟩ := Option.map_eq_some_iff.1 hs
    obtain ⟨rfl, rfl⟩ := Prod.mk.inj heq
    obtain ⟨hacts, hsound⟩ := h.sound.step hz
    refine ⟨hsound, ?_, h.maxbytes⟩
    rcases hacts with hruns | ⟨-, -, -, heq⟩
    · exact hruns.deeds.slabTable_le h.nslab
    · dsimp only
      rw [heq]
      exact h.nslab
  | maxbytes option =>
    simp only [heapMachine] at hs
    split_ifs at hs with hok
    obtain ⟨-, rfl⟩ := Prod.mk.inj (Option.some.inj hs)
    exact ⟨h.sound, h.nslab, h.maxbytes.trans hok.2⟩

theorem within_init (hnow : now < 2 ^ 32) :
    Within cfg o (.init cfg now evictOpt slabs items, o.maxbytes) :=
  ⟨Server.sound_init hnow, Nat.zero_le _, le_rfl⟩

/-- Slabs that the server may have fit into the setting that it was started with. -/
theorem Within.memory (h : Within cfg o x) (hcfg : cfg.StartedWith o) {n : ℕ}
    (hn : n ≤ cfg.maxNslab) :
    n * o.slabSize ≤ x.2 := by
  have hmax : cfg.maxNslab ≤ o.maxbytes / o.slabSize := by
    rw [hcfg.maxNslab]
    exact Nat.mod_le ..
  calc n * o.slabSize ≤ o.maxbytes / o.slabSize * o.slabSize :=
    Nat.mul_le_mul_right _ (hn.trans hmax)
    _ ≤ o.maxbytes := Nat.div_mul_le_self ..
    _ ≤ x.2 := h.maxbytes

/-- A slab is refused where there are as many as there were to be. -/
theorem noSlab_iff {t : Store} {ch : Choice} (hok : ch.slabOk = true) :
    t.NoSlab cfg ch ↔ cfg.maxNslab ≤ t.slabTable.length := by
  unfold Store.NoSlab Store.slabGetNew
  split_ifs with hfull
  · exact iff_of_true rfl hfull
  · exact iff_of_false nofun hfull

/-- **Slabs are within `settings.maxbytes` in every run, and a slab is refused only if one more
would exceed it in every run whose steps leave the number of slabs that fit into it as it was, when
that number has 32 bits.**  In any run it is refused for that reason only as long as there are fewer
slabs than there were to be, or no more fit into the setting.  The store is that of a reachable
state, or one between two primitives of a step. -/
theorem memory_limit (hcfg : cfg.StartedWith o) (hnow : now < 2 ^ 32) :
    (∀ x, (heapMachine cfg).Reaches Machine.Unguarded
      (.init cfg now evictOpt slabs items, o.maxbytes) x →
      ∀ ch t, Store.Deeds cfg ch x.1.store t → t.slabTable.length * o.slabSize ≤ x.2 ∧
        ((∀ ch', ch'.slabOk = true → t.NoSlab cfg ch' →
          x.2 < (t.slabTable.length + 1) * o.slabSize) ↔
          t.slabTable.length < cfg.maxNslab ∨ x.2 / o.slabSize ≤ cfg.maxNslab)) ∧
    (o.maxbytes / o.slabSize < 2 ^ 32 →
      ∀ x, (heapMachine cfg).Reaches (SameSlabs o) (.init cfg now evictOpt slabs items, o.maxbytes)
        x →
      ∀ ch t, Store.Deeds cfg ch x.1.store t → ∀ ch', ch'.slabOk = true → t.NoSlab cfg ch' →
        x.2 < (t.slabTable.length + 1) * o.slabSize) := by
  have hwithin :
      ∀ {C x}, (heapMachine cfg).Reaches C (.init cfg now evictOpt slabs items, o.maxbytes) x →
      Within cfg o x := fun h => h.invariant (within_init hnow) fun _ _ _ _ hx hst _ => hx.step hst
  have hpos : 0 < o.slabSize := by
    have hmin := hcfg.accepted.slabSize.1
    simp only [slabMinSize] at hmin
    omega
  refine ⟨fun x h ch t ht => ?_, fun hfits x h ch t ht ch' hok hno => ?_⟩
  · have hlen := ht.slabTable_le (hwithin h).nslab
    refine ⟨(hwithin h).memory hcfg hlen, fun hall => ?_, fun hor ch' hok hno => ?_⟩
    · by_contra hno
      obtain ⟨hfull, hmore⟩ := not_or.1 hno
      have hlt := hall {} rfl ((noSlab_iff rfl).2 (not_lt.1 hfull))
      have hfit := (Nat.div_lt_iff_lt_mul hpos).2 hlt
      omega
    · have hfull := (noSlab_iff hok).1 hno
      exact (Nat.div_lt_iff_lt_mul hpos).1 (by omega)
  · have hsame : x.2 / o.slabSize = o.maxbytes / o.slabSize :=
      h.invariant (I := fun x => x.2 / o.slabSize = o.maxbytes / o.slabSize) rfl
        fun _ _ _ _ hx _ hC => hC.trans hx
    have hfull := (noSlab_iff hok).1 hno
    rw [hcfg.maxNslab, Options.maxNslab, Nat.mod_eq_of_lt hfits, ← hsame] at hfull
    exact (Nat.div_lt_iff_lt_mul hpos).1 (by omega)

/-- The options `-I 1048576 -m 1 -z 1048544`. -/
def oneSlabOptions :
    Options := optionsOf (2 ^ 20) (1 * 2 ^ 20) evictLru (some [49, 48, 52, 56, 53, 52, 52])

/-- The configuration of these options: the heap has room for one slab. -/
def oneSlab : Config where
  useCas := true
  useFreeq := true
  useLruq := true
  hashPower := 1
  hash _ := 0
  processStarted := 0
  itemHdrSize := 49
  slabSize := 1048544
  maxId := 1
  profile := Function.update (fun _ => 0) 1 1048544
  maxNslab := 1
  maxId_le := Config.one_maxId
  profile_pos id hmin hmax := by
    obtain rfl : id = 1 := le_antisymm hmax hmin
    decide
  profile_le id hmin hmax := by
    obtain rfl : id = 1 := le_antisymm hmax hmin
    decide

theorem startedWith_oneSlab : oneSlab.StartedWith oneSlabOptions where
  accepted :=
    accepted_optionsOf (by decide) (by decide) (by decide) Nat.one_pos (by decide) (by decide)
  profile := by
    refine ⟨⟨oneSlab.profile, 1⟩, ?_, rfl, rfl⟩
    show mcParseProfile oneSlabOptions [49, 48, 52, 56, 53, 52, 52] = _
    rw [mcParseProfile, parseLoop, if_pos (by decide), if_neg (by decide)]
    rw [show mcStrtoul ([49, 48, 52, 56, 53, 52, 52].takeWhile fun x => decide (x ≠ 44)) =
      some 1048544 by decide]
    dsimp only
    rw [if_neg (by decide), if_neg (by decide), if_neg (by decide), if_neg (by decide),
      if_neg (by decide)]
    rfl
  slabSize := rfl
  itemHdrSize := rfl
  maxNslab := by decide
  useFreeq := rfl
  useLruq := rfl

/-- The server of these options when it starts. -/
def initOneSlab : Server × ℕ :=
  (.init oneSlab 2 evictLru (fun _ => ⟨0, 0, 0, 0⟩) fun _ =>
    ⟨0, 0, 0, 0, 0, {}, 0, [], 0, fun _ => 0, 0⟩, oneSlabOptions.maxbytes)

/-- The heap is filled, and `config maxbytes` raises the setting to `option`. -/
def raiseRun (option : ℕ) : List HeapLabel := [.item (.alloc 0 [97] 0 0 1 {}), .maxbytes option]

/-- Half a slab more changes nothing: the next slab is refused because it would exceed the setting.
-/
theorem memory_limit_half :
    ∃ x : Server × ℕ, (heapMachine oneSlab).Reaches (SameSlabs oneSlabOptions) initOneSlab x ∧
    x.2 = 1572864 ∧ x.2 < (x.1.store.slabTable.length + 1) * oneSlabOptions.slabSize := by
  have hreach : (heapMachine oneSlab).Reaches (SameSlabs oneSlabOptions) initOneSlab
      ((heapMachine oneSlab).exec (fun x l y => decide (SameSlabs oneSlabOptions x l y)) initOneSlab
        (raiseRun 1572864)) :=
    (Machine.reaches_exec (by decide +kernel)).mono fun _ _ _ => of_decide_eq_true
  have hmax :
      ((heapMachine oneSlab).exec (fun x l y => decide (SameSlabs oneSlabOptions x l y)) initOneSlab
      (raiseRun 1572864)).2 = 1572864 := by decide +kernel
  have hfull :
      ((heapMachine oneSlab).exec (fun x l y => decide (SameSlabs oneSlabOptions x l y)) initOneSlab
      (raiseRun 1572864)).1.store.slabTable.length = 1 := by decide +kernel
  have hnow : 2 < 2 ^ 32 := by decide
  generalize (heapMachine oneSlab).exec
    (fun x l y => decide (SameSlabs oneSlabOptions x l y)) initOneSlab
    (raiseRun 1572864) = x at hreach hmax hfull
  refine ⟨x, hreach, hmax, ?_⟩
  unfold initOneSlab at hreach
  exact (memory_limit startedWith_oneSlab hnow).2 (by decide) x hreach {} x.1.store (.refl _) {} rfl
    ((noSlab_iff rfl).2 hfull.ge)

/-- With room for four slabs in the setting, the second one is refused. -/
theorem memory_limit_ignored : oneSlab.StartedWith oneSlabOptions ∧
    ∃ x : Server × ℕ, (heapMachine oneSlab).Reaches Machine.Unguarded initOneSlab x ∧
      x.2 = 4 * 2 ^ 20 ∧
      x.1.store.NoSlab oneSlab {} ∧
          ¬ x.2 < (x.1.store.slabTable.length + 1) * oneSlabOptions.slabSize := by
  have hreach : (heapMachine oneSlab).Reaches Machine.Unguarded initOneSlab
      ((heapMachine oneSlab).exec (fun _ _ _ => true) initOneSlab (raiseRun (4 * 2 ^ 20))) :=
    (Machine.reaches_exec (by decide +kernel)).mono fun _ _ _ _ => trivial
  have hfull : ((heapMachine oneSlab).exec (fun _ _ _ => true) initOneSlab
      (raiseRun (4 * 2 ^ 20))).1.store.slabTable.length = 1 := by decide +kernel
  have hmax :
      ((heapMachine oneSlab).exec (fun _ _ _ => true) initOneSlab (raiseRun (4 * 2 ^ 20))).2 =
      4 * 2 ^ 20 := by
    decide +kernel
  refine ⟨startedWith_oneSlab, _, hreach, hmax, (noSlab_iff rfl).2 hfull.ge, ?_⟩
  rw [hmax, hfull]
  decide

end Twemcache
