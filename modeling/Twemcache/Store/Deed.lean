import Twemcache.Assoc.Chain
import Twemcache.Store.Alloc
import Mathlib.Data.List.Range

/-!
# Item functions in any store

`Prim` says what the functions of the item module do to a store whose reference counts are right.
Once a 16-bit count has wrapped, a chunk can be free, linked and referenced at the same time, and
little of that is left.  What remains is said here: whatever the counts, each function is a sequence
of `Deed`s, pointers are to chunks of slabs in use (`Anchored`), items are stamped with times that
have come (`Stale`), and the slab queue changes at its end only (`Shuffles`).
-/

namespace Twemcache

namespace Store

variable (cfg : Config) (ch : Choice)

/-- One of the hash table, the lru queues, the free queues and the current slabs leads to `p`. -/
def Mentions (s : Store) (p : ItemPtr) : Prop :=
  s.assoc.Has p ∨ (∃ id, p ∈ s.lruq id) ∨ (∃ id, p ∈ (s.slabclass id).freeItemq) ∨
    ∃ id, (s.slabclass id).freeItem = some p

/-- The slabs in the slab queue are all there are, and pointers are to their chunks. -/
structure Anchored (s : Store) : Prop where
  /-- Slabs are numbered in the order of the table. -/
  table : s.slabTable = List.range s.slabTable.length
  /-- All slabs are in the slab queue. -/
  perm : s.slabLruq.Perm s.slabTable
  /-- Pointers are to chunks of slabs. -/
  slab : ∀ p, s.Mentions p → p.slab ∈ s.slabLruq

/-- A primitive of the item module, in any store; `ch` is what the environment decides. -/
inductive Deed : Store → Store → Prop
  /-- A reference is taken. -/
  | acquire {s : Store} (p : ItemPtr) : Deed s (s.itemAcquireRefcount p)
  /-- A reference is given back. -/
  | remove {s : Store} {p : ItemPtr} (hp : p.slab ∈ s.slabLruq) : Deed s (s.itemRemove p)
  /-- An item is unlinked. -/
  | unlink {s : Store} {p : ItemPtr} (hp : p.slab ∈ s.slabLruq) : Deed s (s.itemUnlink cfg p)
  /-- An item is linked. -/
  | link {s : Store} {ch : Choice} {p : ItemPtr} (hp : p.slab ∈ s.slabLruq) : Deed s
      (s.itemLink cfg ch p)
  /-- An item is touched. -/
  | touch {s : Store} {p : ItemPtr} (hp : p.slab ∈ s.slabLruq) : Deed s (s.itemTouch cfg p)
  /-- An item is allocated. -/
  | alloc {s t : Store} {id : ℕ} {p : ItemPtr} (hf : Found cfg ch id s p t) (key : Key)
      (dataflags exptime nbyte : ℕ) : Deed s (t.itemAllocDone cfg p key dataflags exptime nbyte)
  /-- An item is written to, and cas ids may be issued. -/
  | write {s : Store} {p : ItemPtr} {f : Item → Item} {casIssued : ℕ}
      (hf : ∀ it, (f it).atime = it.atime) : Deed s { s.setItem p f with casIssued := casIssued }
  /-- A bucket of the hash table moves. -/
  | moveBucket {s : Store} : Deed s (s.assocMoveBucket cfg)

/-- A sequence of primitives. -/
def Deeds : Store → Store → Prop := Relation.ReflTransGen (Deed cfg ch)

variable {cfg ch} {s s' t : Store} {p q : ItemPtr} {id : ℕ}

theorem Anchored.nodup (h : s.Anchored) : s.slabLruq.Nodup := by
  rw [h.perm.nodup_iff, h.table]
  exact List.nodup_range

theorem Anchored.lt_of_mem (h : s.Anchored) {sl : ℕ} (hsl : sl ∈ s.slabLruq) :
    sl < s.slabTable.length := by
  have hmem := h.perm.mem_iff.1 hsl
  rw [h.table] at hmem
  exact List.mem_range.1 hmem

theorem Anchored.found (h : s.Anchored) {key : Key} (hp : s.assocFind cfg key = some p) :
    p.slab ∈ s.slabLruq := h.slab p (.inl (Assoc.Has.of_find hp))

/-! ### Pointers -/

/-- The slabs, the slab queue and the scalar variables are the same, up to counts of references, and
pointers lead nowhere else but to `q`. -/
structure Steady (s s' : Store) (q : Option ItemPtr) : Prop where
  /-- The clock is the same. -/
  now : s'.now = s.now
  /-- The slab table is the same. -/
  slabTable : s'.slabTable = s.slabTable
  /-- The slab queue is the same. -/
  slabLruq : s'.slabLruq = s.slabLruq
  /-- The slabs have the same times. -/
  utime : ∀ sl, (s'.slabs sl).utime = (s.slabs sl).utime
  /-- No slab is initialized. -/
  epoch : ∀ sl, (s'.slabs sl).epoch = (s.slabs sl).epoch
  /-- Pointers are to what they were to before, or to `q`. -/
  mentions : ∀ p, s'.Mentions p → s.Mentions p ∨ q = some p

theorem Steady.refl (s : Store) :
    Steady s s none := ⟨rfl, rfl, rfl, fun _ => rfl, fun _ => rfl, fun _ => .inl⟩

theorem Steady.trans {q : Option ItemPtr} (h : Steady s s' none) (h' : Steady s' t q) :
    Steady s t q where
  now := h'.now.trans h.now
  slabTable := h'.slabTable.trans h.slabTable
  slabLruq := h'.slabLruq.trans h.slabLruq
  utime := fun sl => (h'.utime sl).trans (h.utime sl)
  epoch := fun sl => (h'.epoch sl).trans (h.epoch sl)
  mentions :=
    fun p hp => (h'.mentions p hp).imp_left fun hp => (h.mentions p hp).resolve_right nofun

/-- Chunks have left their queues, or entered the free queue. -/
theorem Steady.of_trims {q : Option ItemPtr} (h : Trims s s')
    (hmentions : ∀ p, s'.Mentions p → s.Mentions p ∨ q = some p) : Steady s s' q where
  now := congrArg Env.now h.env
  slabTable := h.slabTable
  slabLruq := h.slabLruq
  utime := fun sl => by rw [h.slabs]
  epoch := fun sl => by rw [h.slabs]
  mentions := hmentions

/-- Fields that no pointer is kept in have changed. -/
theorem Steady.of_eq {q : Option ItemPtr} (hnow : s'.now = s.now)
    (htable : s'.slabTable = s.slabTable) (hqueue : s'.slabLruq = s.slabLruq)
    (hslabs : ∀ sl, (s'.slabs sl).utime = (s.slabs sl).utime ∧
      (s'.slabs sl).epoch = (s.slabs sl).epoch)
    (hassoc : s'.assoc = s.assoc) (hlru : s'.lruq = s.lruq) (hclass : s'.slabclass = s.slabclass) :
    Steady s s' q where
  now := hnow
  slabTable := htable
  slabLruq := hqueue
  utime := fun sl => (hslabs sl).1
  epoch := fun sl => (hslabs sl).2
  mentions := fun p hp => .inl (by rwa [Mentions, hassoc, hlru, hclass] at hp)

/-- A count of references does not matter to the other fields of the slab. -/
theorem update_refcount (slabs : ℕ → Slab) (sl n x : ℕ) :
    (Function.update slabs sl { slabs sl with refcount := n } x).utime = (slabs x).utime ∧
      (Function.update slabs sl { slabs sl with refcount := n } x).epoch = (slabs x).epoch := by
  rw [Function.update_apply]
  split_ifs with hx
  · subst hx
    exact ⟨rfl, rfl⟩
  · exact ⟨rfl, rfl⟩

theorem steady_itemAcquireRefcount (p : ItemPtr) : Steady s (s.itemAcquireRefcount p) none :=
  .of_eq rfl rfl rfl (fun sl => update_refcount s.slabs p.slab _ sl) rfl rfl rfl

theorem steady_itemReleaseRefcount (p : ItemPtr) : Steady s (s.itemReleaseRefcount p) none :=
  .of_eq rfl rfl rfl (fun sl => update_refcount s.slabs p.slab _ sl) rfl rfl rfl

theorem steady_slabPutItem (p : ItemPtr) : Steady s (s.slabPutItem p) (some p) := by
  refine .of_trims (trims_slabPutItem p) ?_
  rintro x (hx | hx | ⟨id, hx⟩ | ⟨id, hx⟩)
  · exact .inl (.inl hx)
  · exact .inl (.inr (.inl hx))
  · change x ∈ (Function.update s.slabclass _ _ id).freeItemq at hx
    rw [Function.update_apply] at hx
    split_ifs at hx with hid
    · rcases List.mem_cons.1 hx with rfl | hx
      · exact .inr rfl
      · exact .inl (.inr (.inr (.inl ⟨_, hx⟩)))
    · exact .inl (.inr (.inr (.inl ⟨id, hx⟩)))
  · change (Function.update s.slabclass _ _ id).freeItem = _ at hx
    rw [Function.update_apply] at hx
    split_ifs at hx with hid
    · exact .inl (.inr (.inr (.inr ⟨_, hx⟩)))
    · exact .inl (.inr (.inr (.inr ⟨id, hx⟩)))

theorem steady_itemReuse (p : ItemPtr) : Steady s (s.itemReuse cfg p) none := by
  refine .of_trims (trims_itemReuse p) ?_
  rintro x (hx | ⟨id, hx⟩ | hx | hx)
  · exact .inl (.inl (Assoc.Has.of_delete hx))
  · change x ∈ Function.update s.lruq _ _ id at hx
    rw [Function.update_apply] at hx
    split_ifs at hx
    · exact .inl (.inr (.inl ⟨_, List.mem_of_mem_erase hx⟩))
    · exact .inl (.inr (.inl ⟨id, hx⟩))
  · exact .inl (.inr (.inr (.inl hx)))
  · exact .inl (.inr (.inr (.inr hx)))

theorem steady_slabTakeItem (id : ℕ) (p : ItemPtr) : Steady s (s.slabTakeItem id p) none := by
  refine .of_trims (trims_slabTakeItem id p) ?_
  rintro x (hx | hx | ⟨id', hx⟩ | ⟨id', hx⟩)
  · exact .inl (.inl hx)
  · exact .inl (.inr (.inl hx))
  · change x ∈ (Function.update s.slabclass _ _ id').freeItemq at hx
    rw [Function.update_apply] at hx
    split_ifs at hx with hid
    · exact .inl (.inr (.inr (.inl ⟨_, List.mem_of_mem_erase hx⟩)))
    · exact .inl (.inr (.inr (.inl ⟨id', hx⟩)))
  · change (Function.update s.slabclass _ _ id').freeItem = _ at hx
    rw [Function.update_apply] at hx
    split_ifs at hx with hid
    · exact .inl (.inr (.inr (.inr ⟨_, hx⟩)))
    · exact .inl (.inr (.inr (.inr ⟨id', hx⟩)))

theorem steady_itemRemove (p : ItemPtr) : Steady s (s.itemRemove p) (some p) := by
  have hrel : Steady s (if (s.items p).refcount ≠ 0 then s.itemReleaseRefcount p else s) none := by
    split_ifs
    · exact steady_itemReleaseRefcount p
    · exact .refl s
  unfold itemRemove
  generalize (if (s.items p).refcount ≠ 0 then s.itemReleaseRefcount p else s) = u at hrel ⊢
  dsimp only
  split_ifs
  · exact hrel.trans (steady_slabPutItem p)
  · exact { hrel with mentions := fun x hx => (hrel.mentions x hx).imp_right nofun }

theorem steady_itemUnlink (p : ItemPtr) : Steady s (s.itemUnlink cfg p) (some p) := by
  have hre : Steady s (s.itemReuse cfg p) none := steady_itemReuse p
  unfold itemUnlink
  dsimp only
  split_ifs
  · exact hre.trans (steady_slabPutItem p)
  · exact { hre with mentions := fun x hx => (hre.mentions x hx).imp_right nofun }
  · exact { Steady.refl s with mentions := fun x hx => .inl hx }

theorem steady_write (p : ItemPtr) (f : Item → Item) (n : ℕ) :
    Steady s { s.setItem p f with casIssued := n } none :=
  .of_eq rfl rfl rfl (fun _ => ⟨rfl, rfl⟩) rfl rfl rfl

theorem steady_assocMoveBucket : Steady s (s.assocMoveBucket cfg) none where
  now := rfl
  slabTable := rfl
  slabLruq := rfl
  utime := fun _ => rfl
  epoch := fun _ => rfl
  mentions := fun _ hx => .inl (hx.imp_left Assoc.Has.of_moveBucket)

theorem Steady.anchored {q : Option ItemPtr} (h : Steady s s' q) (ha : s.Anchored)
    (hq : ∀ p, q = some p → p.slab ∈ s.slabLruq) : s'.Anchored where
  table := by rw [h.slabTable]; exact ha.table
  perm := by rw [h.slabTable, h.slabLruq]; exact ha.perm
  slab := fun p hp => by
    rw [h.slabLruq]
    exact (h.mentions p hp).elim (ha.slab p) (hq p)

/-! ### The slab queue -/

/-- A slab was moved in the slab queue or appended to it: its header was initialized, or it has got
the time. -/
def Marked (s s' : Store) (sl : ℕ) : Prop :=
  (s.slabs sl).epoch < (s'.slabs sl).epoch ∨
    (s'.slabs sl).utime = s.now ∧ ((s.slabs sl).utime < s.now ∨ s.now = 0)

/-- The slab queue has changed at its end: slabs have been moved there or appended. -/
structure Shuffles (ch : Choice) (s s' : Store) : Prop where
  /-- The clock is the same. -/
  now : s'.now = s.now
  /-- No slab is lost. -/
  known : ∀ sl ∈ s.slabLruq, sl ∈ s'.slabLruq
  /-- Initializations are counted. -/
  epoch : ∀ sl, (s.slabs sl).epoch ≤ (s'.slabs sl).epoch
  /-- Only the current time is written to a slab that is not initialized. -/
  utime : ∀ sl, (s'.slabs sl).epoch = (s.slabs sl).epoch →
    (s'.slabs sl).utime = (s.slabs sl).utime ∨ (s'.slabs sl).utime = s.now
  /-- A slab that has been used in the last second remains one. -/
  fresh : ∀ sl ∈ s.slabLruq, s.now ≤ (s.slabs sl).utime + 1 → s.now ≤ (s'.slabs sl).utime + 1
  /-- Slabs have times that have come, if what new ones are made from does. -/
  past : ch.utime ≤ s.now → (∀ sl ∈ s.slabLruq, (s.slabs sl).utime ≤ s.now) →
    ∀ sl ∈ s'.slabLruq, (s'.slabs sl).utime ≤ s.now
  /-- Slabs that are not marked are in the same order, before those that are. -/
  queue : ∃ kept moved, s'.slabLruq = kept ++ moved ∧ kept.Sublist s.slabLruq ∧
    (∀ sl ∈ kept, (s'.slabs sl).utime = (s.slabs sl).utime ∧
      (s'.slabs sl).epoch = (s.slabs sl).epoch) ∧
    ∀ sl ∈ moved, Marked s s' sl

theorem Steady.shuffles {q : Option ItemPtr} (h : Steady s s' q) : Shuffles ch s s' where
  now := h.now
  known := fun sl hsl => h.slabLruq ▸ hsl
  epoch := fun sl => (h.epoch sl).ge
  utime := fun sl _ => .inl (h.utime sl)
  fresh := fun sl _ hsl => by rwa [h.utime]
  past := fun _ hpast sl hsl => by
    rw [h.utime]
    exact hpast sl (h.slabLruq ▸ hsl)
  queue := ⟨s.slabLruq, [], by rw [h.slabLruq, List.append_nil], List.Sublist.refl _,
    fun sl _ => ⟨h.utime sl, h.epoch sl⟩, nofun⟩

/-- A mark remains. -/
theorem Marked.trans {sl : ℕ} (h : Shuffles ch s s') (h' : Shuffles ch s' t)
    (hsl : Marked s s' sl) :
    Marked s t sl := by
  rcases hsl with hsl | ⟨hu, hlt⟩
  · exact .inl (hsl.trans_le (h'.epoch sl))
  · rcases (h'.epoch sl).lt_or_eq with hep | hep
    · exact .inl ((h.epoch sl).trans_lt hep)
    · refine .inr ⟨?_, hlt⟩
      rcases h'.utime sl hep.symm with heq | heq
      · rw [heq, hu]
      · rw [heq, h.now]

theorem Shuffles.trans (h : Shuffles ch s s') (h' : Shuffles ch s' t) : Shuffles ch s t where
  now := h'.now.trans h.now
  known := fun sl hsl => h'.known sl (h.known sl hsl)
  epoch := fun sl => (h.epoch sl).trans (h'.epoch sl)
  utime := fun sl hep => by
    have h1 : (s'.slabs sl).epoch = (s.slabs sl).epoch :=
      le_antisymm ((h'.epoch sl).trans hep.le) (h.epoch sl)
    rcases h'.utime sl (hep.trans h1.symm) with heq | heq
    · rw [heq]
      exact h.utime sl h1
    · exact .inr (heq.trans h.now)
  fresh := fun sl hsl hf => by
    have hmid := h.fresh sl hsl hf
    rw [← h.now] at hmid ⊢
    exact h'.fresh sl (h.known sl hsl) hmid
  past := fun hch hpast => by
    have hmid := h.past hch hpast
    rw [← h.now] at hmid hch ⊢
    exact h'.past hch hmid
  queue := by
    obtain ⟨kept, moved, heq, hsub, hsame, hmark⟩ := h.queue
    obtain ⟨kept', moved', heq', hsub', hsame', hmark'⟩ := h'.queue
    -- what the second change keeps of the moved slabs counts as moved
    rw [heq] at hsub'
    obtain ⟨l₁, l₂, rfl, h₁, h₂⟩ := List.sublist_append_iff.1 hsub'
    refine ⟨l₁, l₂ ++ moved', by rw [heq', List.append_assoc], h₁.trans hsub, fun sl hsl => ?_,
      fun sl hsl => ?_⟩
    · obtain ⟨hu, he⟩ := hsame sl (h₁.subset hsl)
      obtain ⟨hu', he'⟩ := hsame' sl (List.mem_append_left _ hsl)
      exact ⟨hu'.trans hu, he'.trans he⟩
    · rcases List.mem_append.1 hsl with hsl | hsl
      · exact (hmark sl (h₂.subset hsl)).trans h h'
      · rcases hmark' sl hsl with hep | ⟨hu, hlt⟩
        · exact .inl ((h.epoch sl).trans_lt hep)
        · rw [h.now] at hu hlt
          rcases (h.epoch sl).lt_or_eq with hep | hep
          · exact .inl (hep.trans_le (h'.epoch sl))
          · refine .inr ⟨hu, ?_⟩
            rcases h.utime sl hep.symm with heq | heq
            · rwa [heq] at hlt
            · rw [heq] at hlt
              exact .inr (hlt.resolve_left (lt_irrefl _))

/-- `slab_lruq_touch` counts: the slab queue is kept in the order of accesses, or of creations and
the item is new. -/
def Ranks (s : Store) (allocated : Bool) : Prop :=
  allocated = true ∧ s.evictOpt &&& evictCs ≠ 0 ∨ s.evictOpt &&& evictAs ≠ 0

theorem lt_ago_one (hnow : s.now < 2 ^ 32) {u : ℕ} (hu : u < s.ago slabLruUpdateInterval) :
    u < s.now ∨ s.now = 0 := by
  unfold ago slabLruUpdateInterval at hu
  omega

theorem ago_one_le (hnow : s.now < 2 ^ 32) {u : ℕ} (hu : u ≥ s.ago slabLruUpdateInterval) :
    s.now ≤ u + 1 := by
  unfold ago slabLruUpdateInterval at hu
  omega

/-- What `slab_lruq_touch` does: nothing, if the slab has been used in the last second, or the slab
moves to the end of the queue. -/
theorem slabLruqTouch_cases (hnow : s.now < 2 ^ 32) (sl : ℕ) (allocated : Bool) :
    s.slabLruqTouch sl allocated = s ∧ (s.Ranks allocated → s.now ≤ (s.slabs sl).utime + 1) ∨
      s.slabLruqTouch sl allocated = { s.setSlab sl fun b => { b with utime := s.now } with
        slabLruq := s.slabLruq.erase sl ++ [sl] } ∧ ((s.slabs sl).utime < s.now ∨ s.now = 0) := by
  unfold slabLruqTouch
  split_ifs with hopt hold
  · refine .inl ⟨rfl, fun hr => ?_⟩
    exact absurd hr (by rw [Ranks, not_or]; exact hopt)
  · exact .inl ⟨rfl, fun _ => ago_one_le hnow hold⟩
  · exact .inr ⟨rfl, lt_ago_one hnow (not_le.1 hold)⟩

theorem shuffles_slabLruqTouch (ha : s.Anchored) (hnow : s.now < 2 ^ 32) {sl : ℕ}
    (hsl : sl ∈ s.slabLruq) (allocated : Bool) : Shuffles ch s (s.slabLruqTouch sl allocated) ∧
      (s.slabLruqTouch sl allocated).Anchored ∧
      (s.Ranks allocated → s.now ≤ ((s.slabLruqTouch sl allocated).slabs sl).utime + 1) := by
  rcases slabLruqTouch_cases hnow sl allocated with ⟨heq, hr⟩ | ⟨heq, hlt⟩
  · rw [heq]
    exact ⟨(Steady.refl s).shuffles, ha, hr⟩
  · have hslab : ∀ x, ((s.slabLruqTouch sl allocated).slabs x) =
        if x = sl then { s.slabs sl with utime := s.now } else s.slabs x := by
      intro x
      rw [heq]
      exact Function.update_apply ..
    have hqueue : (s.slabLruqTouch sl allocated).slabLruq = s.slabLruq.erase sl ++ [sl] := by
      rw [heq]
    have hperm : (s.slabLruq.erase sl ++ [sl]).Perm s.slabLruq :=
      (List.perm_append_singleton sl _).trans (List.perm_cons_erase hsl).symm
    have hself : ((s.slabLruqTouch sl allocated).slabs sl).utime = s.now := by
      rw [hslab, if_pos rfl]
    refine ⟨⟨by rw [heq]; rfl, fun x hx => ?_, fun x => ?_, fun x _ => ?_, fun x _ hx => ?_,
      fun _ hpast x hx => ?_,
      s.slabLruq.erase sl, [sl], hqueue, List.erase_sublist, fun x hx => ?_, fun x hx => ?_⟩, ?_,
      fun _ => ?_⟩
    · rw [hqueue]
      exact hperm.mem_iff.2 hx
    · rw [hslab]
      split_ifs with h
      · rw [h]
      · exact le_rfl
    · rw [hslab]
      split_ifs with h
      · exact .inr rfl
      · exact .inl rfl
    · rw [hslab]
      split_ifs with h
      · exact Nat.le_succ _
      · exact hx
    · rw [hslab]
      split_ifs with h
      · exact le_rfl
      · exact hpast x (hperm.mem_iff.1 (hqueue ▸ hx))
    · -- the other slabs keep their order and their times
      have hne : x ≠ sl := fun h => (ha.nodup.not_mem_erase) (h ▸ hx)
      rw [hslab, if_neg hne]
      exact ⟨rfl, rfl⟩
    · obtain rfl := List.mem_singleton.1 hx
      exact .inr ⟨hself, hlt⟩
    · rw [heq]
      exact ⟨ha.table, hperm.trans ha.perm, fun x hx => hperm.mem_iff.2 (ha.slab x hx)⟩
    · rw [hself]
      exact Nat.le_succ _

theorem Mentions.of_link {p x : ItemPtr} (hx : (s.linkBare cfg ch p).Mentions x) :
    s.Mentions x ∨ some p = some x := by
  rcases hx with hx | ⟨id, hx⟩ | hx | hx
  · exact (Assoc.Has.of_insert hx).symm.imp .inl fun hx => congrArg some hx.symm
  · change x ∈ Function.update s.lruq _ _ id at hx
    rw [Function.update_apply] at hx
    split_ifs at hx
    · rcases List.mem_append.1 hx with hx | hx
      · exact .inl (.inr (.inl ⟨_, hx⟩))
      · exact .inr (congrArg some (List.mem_singleton.1 hx).symm)
    · exact .inl (.inr (.inl ⟨id, hx⟩))
  · exact .inl (.inr (.inr (.inl hx)))
  · exact .inl (.inr (.inr (.inr hx)))

theorem Mentions.of_touch {p x : ItemPtr} (hx : (s.touchBare p).Mentions x) :
    s.Mentions x ∨ some p = some x := by
  rcases hx with hx | ⟨id, hx⟩ | hx | hx
  · exact .inl (.inl hx)
  · change x ∈ Function.update s.lruq _ _ id at hx
    rw [Function.update_apply] at hx
    split_ifs at hx
    · rcases List.mem_append.1 hx with hx | hx
      · exact .inl (.inr (.inl ⟨_, List.mem_of_mem_erase hx⟩))
      · exact .inr (congrArg some (List.mem_singleton.1 hx).symm)
    · exact .inl (.inr (.inl ⟨id, hx⟩))
  · exact .inl (.inr (.inr (.inl hx)))
  · exact .inl (.inr (.inr (.inr hx)))

/-- A change and a touch of the slab of `p`. -/
theorem Steady.shuffles_touch (h : Steady s s' (some p)) (ha : s.Anchored) (hnow : s.now < 2 ^ 32)
    (hp : p.slab ∈ s.slabLruq) (allocated : Bool) :
    Shuffles ch s (s'.slabLruqTouch p.slab allocated) ∧
      (s'.slabLruqTouch p.slab allocated).Anchored ∧
      (s'.Ranks allocated →
          s.now ≤ ((s'.slabLruqTouch p.slab allocated).slabs p.slab).utime + 1) := by
  have ha' : s'.Anchored := h.anchored ha fun x hx => Option.some.inj hx ▸ hp
  obtain ⟨h1, h2, h3⟩ := shuffles_slabLruqTouch ha' (h.now ▸ hnow) (h.slabLruq ▸ hp) allocated
  exact ⟨h.shuffles.trans h1, h2, h.now ▸ h3⟩

/-- Linking an item counts as a use of its slab. -/
theorem shuffles_itemLink (cfg : Config) (ch ch' : Choice) (ha : s.Anchored) (hnow : s.now < 2 ^ 32)
    (hp : p.slab ∈ s.slabLruq) :
    Shuffles ch s (s.itemLink cfg ch' p) ∧ (s.itemLink cfg ch' p).Anchored ∧
      (s.Ranks true → s.now ≤ ((s.itemLink cfg ch' p).slabs p.slab).utime + 1) := by
  have hbare : Steady s (s.linkBare cfg ch' p) (some p) :=
    ⟨rfl, rfl, rfl, fun _ => rfl, fun _ => rfl, fun _ => Mentions.of_link⟩
  rw [itemLink_eq]
  exact hbare.shuffles_touch ha hnow hp true

theorem itemTouch_of_old (hl : (s.items p).flags.linked = true)
    (hold : ¬ (s.items p).atime ≥ s.ago itemUpdateInterval) :
    s.itemTouch cfg p = (s.touchBare p).slabLruqTouch p.slab false := by
  rw [itemTouch, if_neg hold, if_pos hl]
  simp [itemUnlinkQ, itemLinkQ, setItem, setLruq, setLinks, setGauges, touchBare]

/-- An access that repositions an item counts as a use of its slab. -/
theorem shuffles_itemTouch (cfg : Config) (ch : Choice) (ha : s.Anchored) (hnow : s.now < 2 ^ 32)
    (hp : p.slab ∈ s.slabLruq) :
    Shuffles ch s (s.itemTouch cfg p) ∧ (s.itemTouch cfg p).Anchored ∧
      (s.Ranks false → (s.items p).flags.linked = true →
        ¬ (s.items p).atime ≥ s.ago itemUpdateInterval →
        s.now ≤ ((s.itemTouch cfg p).slabs p.slab).utime + 1) := by
  have hbare : Steady s (s.touchBare p) (some p) :=
    ⟨rfl, rfl, rfl, fun _ => rfl, fun _ => rfl, fun _ => Mentions.of_touch⟩
  by_cases hre : (s.items p).flags.linked = true ∧ ¬ (s.items p).atime ≥ s.ago itemUpdateInterval
  · rw [itemTouch_of_old hre.1 hre.2]
    obtain ⟨h1, h2, h3⟩ := hbare.shuffles_touch ha hnow hp false
    exact ⟨h1, h2, fun hr _ _ => h3 hr⟩
  · rw [(itemTouch_eq cfg p).resolve_right fun h => hre ⟨h.1, h.2.1⟩]
    exact ⟨(Steady.refl s).shuffles, ha, fun _ hl hold => absurd ⟨hl, hold⟩ hre⟩

/-! ### Allocation -/

theorem steady_slabForgetCurrent (id sl : ℕ) : Steady s (s.slabForgetCurrent id sl) none := by
  unfold slabForgetCurrent
  split
  · split_ifs
    · refine ⟨rfl, rfl, rfl, fun _ => rfl, fun _ => rfl, ?_⟩
      rintro x (hx | hx | ⟨id', hx⟩ | ⟨id', hx⟩)
      · exact .inl (.inl hx)
      · exact .inl (.inr (.inl hx))
      · change x ∈ (Function.update s.slabclass _ _ id').freeItemq at hx
        rw [Function.update_apply] at hx
        split_ifs at hx
        · exact .inl (.inr (.inr (.inl ⟨_, hx⟩)))
        · exact .inl (.inr (.inr (.inl ⟨id', hx⟩)))
      · change (Function.update s.slabclass _ _ id').freeItem = _ at hx
        rw [Function.update_apply] at hx
        split_ifs at hx
        exact .inl (.inr (.inr (.inr ⟨id', hx⟩)))
    · exact .refl s
  · exact .refl s

theorem steady_slabEvictItem (id : ℕ) (p : ItemPtr) : Steady s (s.slabEvictItem cfg id p) none := by
  unfold slabEvictItem
  split_ifs
  · exact steady_itemReuse p
  · exact steady_slabTakeItem id p
  · exact .refl s

theorem steady_evictItems (id sl : ℕ) (l : List ℕ) (s : Store) :
    Steady s (l.foldl (fun s i => s.slabEvictItem cfg id ⟨sl, i⟩) s) none := by
  induction l generalizing s with
  | nil => exact .refl s
  | cons i l ih => exact (steady_slabEvictItem id ⟨sl, i⟩).trans (ih _)

/-- Evicting a slab takes it off the slab queue. -/
theorem slabEvictOne_steady (cfg : Config) (s : Store) (sl : ℕ) : ∃ u, Steady s u none ∧
    s.slabEvictOne cfg sl = { u with slabLruq := u.slabLruq.erase sl }.setGauges
        (s.slabs sl).id fun g =>
      { g with slabCurr := g.slabCurr - 1 } :=
  ⟨_, (steady_slabForgetCurrent (s.slabs sl).id sl).trans
    (steady_evictItems (s.slabs sl).id sl _ _), rfl⟩

theorem steady_slabGetItemFromCurrent (hp : (s.slabclass id).freeItem = some p) :
    Steady s (s.slabGetItemFromCurrent id).2 (some ⟨p.slab, p.idx + 1⟩) := by
  unfold slabGetItemFromCurrent
  rw [hp]
  refine ⟨rfl, rfl, rfl, fun _ => rfl, fun _ => rfl, ?_⟩
  rintro x (hx | hx | ⟨id', hx⟩ | ⟨id', hx⟩)
  · exact .inl (.inl hx)
  · exact .inl (.inr (.inl hx))
  · change x ∈ (Function.update s.slabclass _ _ id').freeItemq at hx
    rw [Function.update_apply] at hx
    split_ifs at hx
    · exact .inl (.inr (.inr (.inl ⟨_, hx⟩)))
    · exact .inl (.inr (.inr (.inl ⟨id', hx⟩)))
  · change (Function.update s.slabclass _ _ id').freeItem = _ at hx
    rw [Function.update_apply] at hx
    split_ifs at hx
    · exact .inr (Option.ite_none_right_eq_some.1 hx).2
    · exact .inl (.inr (.inr (.inr ⟨id', hx⟩)))

theorem steady_itemAllocDone (p : ItemPtr) (key : Key) (dataflags exptime nbyte : ℕ) :
    Steady s (s.itemAllocDone cfg p key dataflags exptime nbyte) none := by
  have hacq := steady_itemAcquireRefcount (s := s) p
  unfold itemAllocDone
  generalize s.itemAcquireRefcount p = u at hacq ⊢
  exact hacq.trans (.of_eq rfl rfl rfl (fun _ => ⟨rfl, rfl⟩) rfl rfl rfl)

theorem Mentions.of_add {sl : ℕ} {x : ItemPtr} (hx : (s.slabAddOne cfg sl id).Mentions x) :
    s.Mentions x ∨ x = ⟨sl, 0⟩ := by
  rcases hx with hx | hx | ⟨id', hx⟩ | ⟨id', hx⟩
  · exact .inl (.inl hx)
  · exact .inl (.inr (.inl hx))
  · change x ∈ (Function.update s.slabclass _ _ id').freeItemq at hx
    rw [Function.update_apply] at hx
    split_ifs at hx
    · exact .inl (.inr (.inr (.inl ⟨_, hx⟩)))
    · exact .inl (.inr (.inr (.inl ⟨id', hx⟩)))
  · change (Function.update s.slabclass _ _ id').freeItem = _ at hx
    rw [Function.update_apply] at hx
    split_ifs at hx
    · exact .inr (Option.some.inj hx).symm
    · exact .inl (.inr (.inr (.inr ⟨id', hx⟩)))

/-- The slab `sl` is off the slab queue of `u`, which is like `s` otherwise: it was evicted, or is
new. -/
structure Detached (ch : Choice) (s u : Store) (sl : ℕ) : Prop where
  /-- The clock is the same. -/
  now : u.now = s.now
  /-- Slabs are numbered in the order of the table. -/
  table : u.slabTable = List.range u.slabTable.length
  /-- With the slab the queue has all slabs. -/
  perm : (u.slabLruq ++ [sl]).Perm u.slabTable
  /-- The rest of the queue is in the same order. -/
  sublist : u.slabLruq.Sublist s.slabLruq
  /-- Nothing else has left the queue. -/
  known : ∀ x ∈ s.slabLruq, x ∈ u.slabLruq ∨ x = sl
  /-- Slabs have the same times. -/
  utime : ∀ x ≠ sl, (u.slabs x).utime = (s.slabs x).utime
  /-- No slab was initialized. -/
  epoch : ∀ x, (u.slabs x).epoch = (s.slabs x).epoch
  /-- The time of the slab is what it was, or what its memory holds. -/
  own : sl ∈ s.slabLruq ∧ (u.slabs sl).utime = (s.slabs sl).utime ∨
    sl ∉ s.slabLruq ∧ (u.slabs sl).utime = ch.utime
  /-- Pointers are to what they were to before. -/
  mentions : ∀ x, u.Mentions x → s.Mentions x

/-- A slab is added. -/
theorem Detached.add {u : Store} {sl : ℕ} (h : Detached ch s u sl) (ha : s.Anchored) (cfg : Config)
    (id : ℕ) :
    Shuffles ch s (u.slabAddOne cfg sl id) ∧ (u.slabAddOne cfg sl id).Anchored := by
  have hslab : ∀ x, ((u.slabAddOne cfg sl id).slabs x).utime = (u.slabs x).utime ∧
      ((u.slabAddOne cfg sl id).slabs x).epoch = (u.slabs x).epoch + if x = sl then 1 else 0 := by
    intro x
    change (Function.update u.slabs sl _ x).utime = _ ∧ (Function.update u.slabs sl _ x).epoch = _
    rw [Function.update_apply]
    split_ifs with hx
    · subst hx
      exact ⟨rfl, rfl⟩
    · exact ⟨rfl, rfl⟩
  have hqueue : (u.slabAddOne cfg sl id).slabLruq = u.slabLruq ++ [sl] := rfl
  have hnodup : (u.slabLruq ++ [sl]).Nodup := by
    rw [h.perm.nodup_iff, h.table]
    exact List.nodup_range
  have hout : sl ∉ u.slabLruq := fun hmem =>
    List.disjoint_of_nodup_append hnodup hmem (List.mem_singleton_self sl)
  have hknown : ∀ x ∈ s.slabLruq, x ∈ u.slabLruq ++ [sl] := fun x hx => by
    simpa using h.known x hx
  refine ⟨⟨h.now, hknown, fun x => ?_, fun x hx => ?_, fun x hx hf => ?_, fun hch hpast x hx => ?_,
    u.slabLruq, [sl], rfl, h.sublist, fun x hx => ?_, fun x hx => ?_⟩, h.table, h.perm,
      fun x hx => ?_⟩
  · rw [(hslab x).2, h.epoch]
    exact Nat.le_add_right ..
  · rw [(hslab x).2, h.epoch] at hx
    split_ifs at hx with hxsl
    · omega
    · exact .inl ((hslab x).1.trans (h.utime x hxsl))
  · rw [(hslab x).1]
    by_cases hxsl : x = sl
    · subst hxsl
      rw [(h.own.resolve_right fun hn => hn.1 hx).2]
      exact hf
    · rwa [h.utime x hxsl]
  · rw [(hslab x).1]
    rcases List.mem_append.1 hx with hx | hx
    · rw [h.utime x fun hxsl => hout (hxsl ▸ hx)]
      exact hpast x (h.sublist.subset hx)
    · obtain rfl := List.mem_singleton.1 hx
      -- the slab comes from the queue, or is new
      rcases h.own with ⟨hmem, heq⟩ | ⟨-, heq⟩
      · rw [heq]
        exact hpast x hmem
      · rwa [heq]
  · have hxsl : x ≠ sl := fun hxsl => hout (hxsl ▸ hx)
    rw [(hslab x).1, (hslab x).2, if_neg hxsl]
    exact ⟨h.utime x hxsl, h.epoch x⟩
  · obtain rfl := List.mem_singleton.1 hx
    left
    rw [(hslab x).2, h.epoch, if_pos rfl]
    exact Nat.lt_succ_self _
  · rcases Mentions.of_add hx with hx | rfl
    · exact hknown _ (ha.slab x (h.mentions x hx))
    · exact List.mem_append_right _ (List.mem_singleton_self _)

theorem detached_slabGetNew {u : Store} {sl : ℕ} (ha : s.Anchored)
    (hget : s.slabGetNew cfg ch = (some sl, u)) : Detached ch s u sl := by
  unfold slabGetNew at hget
  split_ifs at hget
  all_goals obtain ⟨hsl, rfl⟩ := Prod.mk.inj hget
  · cases hsl
  rotate_left
  · cases hsl
  obtain rfl := Option.some.inj hsl
  have hout : s.slabTable.length ∉ s.slabLruq := fun hmem => (ha.lt_of_mem hmem).false
  refine ⟨rfl, ?_, ha.perm.append_right _, List.Sublist.refl _, fun x hx => .inl hx,
    fun x hx => ?_, fun x => ?_, .inr ⟨hout, ?_⟩, fun x hx => hx⟩
  · change s.slabTable ++ [_] = List.range (s.slabTable ++ [_]).length
    rw [List.length_append, List.length_singleton, List.range_succ, ← ha.table]
  · exact congrArg Slab.utime (Function.update_of_ne hx ..)
  · change (Function.update s.slabs _ _ x).epoch = _
    rw [Function.update_apply]
    split_ifs with hx
    · rw [hx]
    · rfl
  · change (Function.update s.slabs _ _ _).utime = _
    rw [Function.update_self]

theorem detached_slabEvictOne {sl : ℕ} (ha : s.Anchored) (hsl : sl ∈ s.slabLruq) :
    Detached ch s (s.slabEvictOne cfg sl) sl := by
  obtain ⟨u, hu, heq⟩ := slabEvictOne_steady cfg s sl
  rw [heq]
  refine ⟨hu.now, ?_, ?_, ?_, fun x hx => ?_, fun x _ => hu.utime x, fun x => hu.epoch x,
    .inl ⟨hsl, hu.utime sl⟩, fun x hx => (hu.mentions x hx).resolve_right nofun⟩
  · change u.slabTable = List.range u.slabTable.length
    rw [hu.slabTable]
    exact ha.table
  · change (u.slabLruq.erase sl ++ [sl]).Perm u.slabTable
    rw [hu.slabLruq, hu.slabTable]
    exact (List.perm_append_singleton sl _).trans ((List.perm_cons_erase hsl).symm.trans ha.perm)
  · change (u.slabLruq.erase sl).Sublist _
    rw [hu.slabLruq]
    exact List.erase_sublist
  · change x ∈ u.slabLruq.erase sl ∨ _
    rw [hu.slabLruq]
    by_cases hxsl : x = sl
    · exact .inr hxsl
    · exact .inl ((List.mem_erase_of_ne hxsl).2 hx)

theorem Picks.mem {sl : ℕ} (ha : s.Anchored) (hpick : s.Picks ch sl) : sl ∈ s.slabLruq := by
  obtain ⟨-, hpick⟩ | ⟨-, hpick⟩ := hpick
  · exact (slabEvictLruPick_idle hpick).1
  · exact ha.perm.mem_iff.2 (slabEvictRandPick_idle hpick).1

/-- A slab is added and its first chunk is handed out. -/
theorem Detached.hand {u : Store} {sl : ℕ} (h : Detached ch s u sl) (ha : s.Anchored)
    (ht : (u.slabAddOne cfg sl id).slabGetItemFromCurrent id = (some p, t)) :
    Shuffles ch s t ∧ t.Anchored ∧ p.slab ∈ t.slabLruq := by
  obtain ⟨h1, h2⟩ := h.add ha cfg id
  have hcur : ((u.slabAddOne cfg sl id).slabclass id).freeItem = some ⟨sl, 0⟩ := by
    simp [slabAddOne, setClass, setGauges]
  have hst := steady_slabGetItemFromCurrent hcur
  have hp : p = ⟨sl, 0⟩ := by
    have hfst := congrArg Prod.fst ht
    simp only [slabGetItemFromCurrent, hcur] at hfst
    exact (Option.some.inj hfst).symm
  have hmem : sl ∈ (u.slabAddOne cfg sl id).slabLruq :=
    List.mem_append_right _ (List.mem_singleton_self sl)
  rw [ht] at hst
  refine ⟨h1.trans hst.shuffles, hst.anchored h2 fun x hx => ?_, ?_⟩
  · rw [← Option.some.inj hx]
    exact hmem
  · rw [hst.slabLruq, hp]
    exact hmem

/-- Whatever the source of a chunk, the slab queue has changed at its end at most. -/
theorem Found.shuffles (hf : Found cfg ch id s p t) (ha : s.Anchored) :
    Shuffles ch s t ∧ t.Anchored ∧ p.slab ∈ t.slabLruq := by
  have hsteady : ∀ {u : Store}, Steady s u none → s.Mentions p →
      Shuffles ch s u ∧ u.Anchored ∧ p.slab ∈ u.slabLruq := fun hu hp =>
    ⟨hu.shuffles, hu.anchored ha nofun, hu.slabLruq ▸ ha.slab p hp⟩
  have hlru : ∀ {x : ItemPtr}, s.itemGetFromLruq cfg id = some x → x ∈ s.lruq id := fun hx => by
    unfold itemGetFromLruq at hx
    split_ifs at hx
    exact ((itemLruqLoop_idle hx).resolve_left nofun).1
  cases hf with
  | expired hp hexp => exact hsteady (steady_itemReuse p) (.inr (.inl ⟨id, hlru hp⟩))
  | freeq hp =>
    refine hsteady (steady_slabTakeItem id p) (.inr (.inr (.inl ⟨id, ?_⟩)))
    unfold slabGetItemFromFreeq at hp
    split_ifs at hp
    exact List.mem_of_mem_head? hp
  | current hp ht =>
    have hst := steady_slabGetItemFromCurrent hp
    have hmem := ha.slab p (.inr (.inr (.inr ⟨id, hp⟩)))
    rw [ht]
    refine ⟨hst.shuffles, hst.anchored ha fun x hx => ?_, hst.slabLruq ▸ hmem⟩
    rw [← Option.some.inj hx]
    exact hmem
  | fresh hex hget ht => exact (detached_slabGetNew ha hget).hand ha ht
  | slab hex hno hpick ht => exact (detached_slabEvictOne ha (hpick.mem ha)).hand ha ht
  | lru hex hno hopt hp => exact hsteady (steady_itemReuse p) (.inr (.inl ⟨id, hlru hp⟩))

/-! ### Primitives -/

/-- **What a primitive does to slabs and pointers, in any store.** -/
theorem Deed.shuffles (hd : Deed cfg ch s s') (ha : s.Anchored) (hnow : s.now < 2 ^ 32) :
    Shuffles ch s s' ∧ s'.Anchored := by
  have hsteady : ∀ {u : Store} {q : Option ItemPtr}, Steady s u q →
      (∀ x, q = some x → x.slab ∈ s.slabLruq) → Shuffles ch s u ∧ u.Anchored := fun hu hq =>
    ⟨hu.shuffles, hu.anchored ha hq⟩
  cases hd with
  | acquire p => exact hsteady (steady_itemAcquireRefcount p) nofun
  | @remove p hp => exact hsteady (steady_itemRemove p) fun x hx => Option.some.inj hx ▸ hp
  | @unlink p hp => exact hsteady (steady_itemUnlink p) fun x hx => Option.some.inj hx ▸ hp
  | link hp =>
    obtain ⟨h1, h2, -⟩ := shuffles_itemLink cfg ch _ ha hnow hp
    exact ⟨h1, h2⟩
  | touch hp =>
    obtain ⟨h1, h2, -⟩ := shuffles_itemTouch cfg ch ha hnow hp
    exact ⟨h1, h2⟩
  | @alloc t id p hf key dataflags exptime nbyte =>
    obtain ⟨h1, h2, -⟩ := hf.shuffles ha
    have hdone : Steady t (t.itemAllocDone cfg p key dataflags exptime nbyte) none :=
      steady_itemAllocDone p key dataflags exptime nbyte
    exact ⟨h1.trans hdone.shuffles, hdone.anchored h2 nofun⟩
  | write hf => exact hsteady (steady_write _ _ _) nofun
  | moveBucket => exact hsteady steady_assocMoveBucket nofun

theorem Deeds.shuffles (hd : Deeds cfg ch s s') (ha : s.Anchored) (hnow : s.now < 2 ^ 32) :
    Shuffles ch s s' ∧ s'.Anchored := by
  induction hd with
  | refl => exact ⟨(Steady.refl s).shuffles, ha⟩
  | tail _ hd ih =>
    obtain ⟨h1, h2⟩ := hd.shuffles ih.2 (ih.1.now ▸ hnow)
    exact ⟨ih.1.trans h1, h2⟩

end Store

end Twemcache
