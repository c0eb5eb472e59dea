import Twemcache.Options.Class
import Twemcache.Server.Ownership
import Twemcache.Store.Layout

/-!
# Items in their chunks

In every run in which no slab count wraps, each item that can be seen lies in a chunk of its slab
that is large enough for it, and what is copied into chunks stays between the key and the end of the
chunk.  When a count wraps, a slab can be evicted under an item that is being received, and carved
into chunks of another size that overlap it.
-/

namespace Twemcache

/-! ### Addresses -/

/-- `slab_2_item`: the address of a chunk, given that of its slab.  The offset is 32 bits wide. -/
def slab2Item (slab idx size : ℕ) : ℕ := slab + slabHdrSize + idx * size % 2 ^ 32

/-- `it->offset`, as `slab_add_one` sets it. -/
def itemOffset (slab it : ℕ) : ℕ := (it - slab) % 2 ^ 32

/-- `item_2_slab`. -/
def item2Slab (it offset : ℕ) : ℕ := it - offset

/-- The addresses of the chunk number `idx` of a slab. -/
def slabChunk (slab idx size : ℕ) :
    Set ℕ := Set.Ico (slab2Item slab idx size) (slab2Item slab idx size + size)

/-- The chunks of a slab are inside the slab and disjoint, and lead back to it. -/
structure CarvesSlab (slabSize nitem size : ℕ) : Prop where
  /-- Chunks are inside the slab, behind its header. -/
  inside : ∀ slab, ∀ idx < nitem, slabChunk slab idx size ⊆ Set.Ico (slab + slabHdrSize)
    (slab + slabSize)
  /-- Chunks are disjoint. -/
  disjoint : ∀ slab, ∀ idx < nitem, ∀ idx' < nitem, idx ≠ idx' →
    Disjoint (slabChunk slab idx size) (slabChunk slab idx' size)
  /-- `item_2_slab` of a chunk is the slab. -/
  back : ∀ slab, ∀ idx < nitem,
    item2Slab (slab2Item slab idx size) (itemOffset slab (slab2Item slab idx size)) = slab

/-- The chunks of a slab that is small enough for 32-bit offsets. -/
theorem carvesSlab_of_le {slabSize nitem size : ℕ} (hfit : slabHdrSize + nitem * size ≤ slabSize)
    (hslab : slabSize < 2 ^ 32) : CarvesSlab slabSize nitem size := by
  have hend : ∀ idx < nitem, idx * size + size ≤ nitem * size := fun idx hidx => by
    calc idx * size + size = (idx + 1) * size := by ring
      _ ≤ nitem * size := Nat.mul_le_mul_right _ hidx
  have hitem : ∀ slab, ∀ idx < nitem, slab2Item slab idx size = slab + slabHdrSize +
      idx * size := by
    intro slab idx hidx
    have hle := hend idx hidx
    rw [slab2Item, Nat.mod_eq_of_lt (by omega)]
  refine ⟨fun slab idx hidx => ?_, fun slab idx hidx idx' hidx' hne => ?_, fun slab idx hidx => ?_⟩
  · have hle := hend idx hidx
    rw [slabChunk, hitem slab idx hidx]
    exact Set.Ico_subset_Ico (by omega) (by omega)
  · rw [slabChunk, slabChunk, hitem slab idx hidx, hitem slab idx' hidx', Set.Ico_disjoint_Ico]
    rcases Nat.lt_or_gt_of_ne hne with hlt | hlt
    · have hmul : (idx + 1) * size ≤ idx' * size := Nat.mul_le_mul_right _ hlt
      have hring : (idx + 1) * size = idx * size + size := by ring
      exact min_le_of_left_le (le_max_of_le_right (by omega))
    · have hmul : (idx' + 1) * size ≤ idx * size := Nat.mul_le_mul_right _ hlt
      have hring : (idx' + 1) * size = idx' * size + size := by ring
      exact min_le_of_right_le (le_max_of_le_left (by omega))
  · have hle := hend idx hidx
    rw [hitem slab idx hidx, itemOffset, item2Slab, Nat.mod_eq_of_lt (by omega)]
    omega

/-- The chunks of a class, with the options that are accepted. -/
theorem Config.StartedWith.carvesSlab {cfg : Config} {o : Options} (h : cfg.StartedWith o)
    (id : ℕ) :
    CarvesSlab o.slabSize (cfg.nitem id) (cfg.profile id) := by
  obtain ⟨hmin, hmax⟩ := h.accepted.slabSize
  simp only [slabMinSize, slabMaxSize] at hmin hmax
  have hdiv : cfg.nitem id * cfg.profile id ≤ cfg.slabSize := Nat.div_mul_le_self ..
  rw [h.slabSize, Options.slabData] at hdiv
  simp only [slabHdrSize] at hdiv
  exact carvesSlab_of_le (by simp only [slabHdrSize]; omega) (by omega)

/-- The chunk of the item is one of those that its slab is carved into. -/
structure Store.Placed (cfg : Config) (s : Store) (p : ItemPtr) : Prop where
  /-- The slab is in use. -/
  slab : p.slab ∈ s.slabLruq
  /-- The class of the item is that of its slab. -/
  id : (s.items p).id = (s.slabs p.slab).id
  /-- The class is configured. -/
  valid : cfg.ValidId (s.items p).id
  /-- The slab has that many chunks. -/
  idx : p.idx < cfg.nitem (s.items p).id

theorem Store.Wf.placed {cfg : Config} {s : Store} (h : s.Wf cfg) {p : ItemPtr}
    (hp : s.Active cfg p) :
    s.Placed cfg p := by
  have hid : (s.items p).id = (s.slabs p.slab).id := Shape.Wf.item_id h p hp
  exact ⟨hp.1, hid, h.validId hp, hid ▸ hp.2⟩

namespace Server

variable {cfg : Config} {s s' : Server} {l : Label} {a : Answer} {now evictOpt : ℕ}
  {slabs : ℕ → Slab} {items : ItemPtr → Item}

/-! ### Runs -/

/-- What a step copies into chunks: the bytes that a connection receives, the values that are put
together, and the digits of a number. -/
def writes (cfg : Config) (s : Server) : Label → List ItemWrite
  | .fill c off bytes =>
    match s.unstored c with
    | some p => [⟨p, s.store.items p, (s.store.items p).data cfg + off, bytes.length⟩]
    | none => []
  | .annex c prepend ch =>
    match s.unstored c with
    | some p => s.store.annexWrites cfg ch prepend p
    | none => []
  | .delta key incr delta ch => s.store.deltaWrites cfg ch key incr delta
  | _ => []

/-- Items that are being received are aligned to the left. -/
def LeftAligned (s : Server) : Prop :=
  ∀ r ∈ s.refs, r.slot = .item false → (s.store.items r.ptr).flags.ralign = false

theorem Effect.fitsChunk (he : Effect cfg s l s') (h : s.store.FitsChunk cfg s.held) :
    s'.store.FitsChunk cfg s'.held := by
  cases he with
  | path o base held' hg hp hperm hbase =>
    exact fun p hmem => hp.fitsChunk hg h p (hmem.imp_right hperm.mem_iff.2)
  | write c p f hf hmem heq =>
    subst heq
    have hlinked := linked_of_shape cfg
      (Store.shape_setItem_of_inert (s := s.store) (p := p) hf.toInert)
    intro q hq
    have hfit := h q (hq.imp_left (hlinked q).1)
    by_cases hqp : q = p
    · subst hqp
      simpa only [Store.setItem, Function.update_self, hf.key, hf.nbyte, hf.id] using hfit
    · simpa only [Store.setItem, Function.update_of_ne hqp] using hfit
  | env hshape hitems hslabs hlru hbooks hcas hnalloc hrefs hnow hlive =>
    have hlinked := linked_of_shape cfg hshape
    have hheld : s'.held = s.held := congrArg (List.map Ref.ptr) hrefs
    rw [hheld]
    intro q hq
    rw [hitems]
    exact h q (hq.imp_left (hlinked q).1)

/-- The alignment of an item that stays referenced is the same. -/
theorem Effect.ralign (he : Effect cfg s l s') {p : ItemPtr} (hp : p ∈ s.held) (hp' : p ∈ s'.held) :
    (s'.store.items p).flags.ralign = (s.store.items p).flags.ralign := by
  cases he with
  | path o base held' hg hpath hperm hbase => exact hpath.ralign hg (hbase p hp hp')
  | write c q f hf hmem heq =>
    subst heq
    by_cases hpq : p = q
    · subst hpq
      simp only [Store.setItem, Function.update_self, hf.ralign]
    · simp only [Store.setItem, Function.update_of_ne hpq]
  | env hshape hitems hslabs hlru hbooks hcas hnalloc hrefs hnow hlive => rw [hitems]

/-- A new item is aligned to the left. -/
theorem ralign_of_itemAlloc {st : Store} {ch : Choice} {id : ℕ} {key : Key}
    {dataflags exptime nbyte : ℕ} {p : ItemPtr}
    (hp : (st.itemAlloc cfg ch id key dataflags exptime nbyte).1 = some p) :
    ((st.itemAlloc cfg ch id key dataflags exptime nbyte).2.items p).flags.ralign = false := by
  unfold Store.itemAlloc at hp ⊢
  cases hchunk : st.itemAllocChunk cfg ch id with
  | mk r t =>
    rw [hchunk] at hp
    cases r with
    | none => cases hp
    | some q =>
      obtain rfl := Option.some.inj hp
      simp [Store.allocItem]

theorem LeftAligned.step (h : s.LeftAligned) (hs : s.step cfg l = some (a, s'))
    (he : Effect cfg s l s') :
    s'.LeftAligned := by
  intro r hr hslot
  rcases unstored_of_step hs hr hslot with hmem | ⟨key, dataflags, exptime, nbyte, ch, -,
    hnew, hstore⟩
  · rw [he.ralign (List.mem_map_of_mem hmem) (List.mem_map_of_mem hr)]
    exact h r hmem hslot
  · rw [hstore]
    exact ralign_of_itemAlloc hnew

/-- **What a step copies stays between the key and the end of the chunk.** -/
theorem Inv.writes_inside (h : s.Inv cfg) (hst : s.store.Stamped cfg s.held)
    (hfit : s.store.FitsChunk cfg s.held) (hleft : s.LeftAligned) (hs : s.step cfg l = some (a, s'))
    (hno : NoWrap s l s') :
    ∀ w ∈ s.writes cfg l, w.Inside cfg := by
  cases l with
  | fill c off bytes =>
    simp only [Server.step] at hs
    split_ifs at hs with hlen
    simp only [writes]
    cases hp : s.unstored c with
    | none => simp
    | some p =>
      -- what is received fills the value and the CRLF behind it
      have hmem := unstored_eq_some hp
      have hle := hlen p hp
      have hbefore := hfit p (.inr (List.mem_map_of_mem hmem))
      have hflag := hst.flag p (.inr (List.mem_map_of_mem hmem))
      intro w hw
      obtain rfl := List.mem_singleton.1 hw
      simp only [ItemWrite.Inside, Item.keyOff, Item.data, hleft _ hmem rfl, hflag]
      simp only [itemNtotal] at hbefore
      split_ifs at hbefore ⊢ <;> simp_all <;> omega
  | annex c prepend ch =>
    simp only [writes]
    obtain ⟨p, hp, heq⟩ := storeItem_cases hs
    obtain ⟨-, rfl⟩ := Prod.mk.inj heq
    have hmem := unstored_eq_some hp
    rw [hp]
    exact (h.guarded (.annex c prepend ch) none).annexWrites_inside hst (List.mem_map_of_mem hmem)
      (h.unstored _ hmem rfl).1 (.inl hno)
  | delta key incr delta ch =>
    simp only [Server.step] at hs
    split_ifs at hs with hid
    exact (h.guarded (.delta key incr delta ch) none).deltaWrites_inside hst hfit hid
  | _ => simp [writes]

/-- **Items lie in their chunks.**  As long as no slab has more than 65535 references, every item
that is linked or referenced lies in a chunk of its slab, with its header, cas id, key and value
apart and inside the chunk, and what a step copies into a chunk stays inside it and leaves header,
cas id and key alone.  Chunks of a slab are disjoint, inside the slab, and lead back to it. -/
theorem items_in_chunks {o : Options} (hcfg : cfg.StartedWith o)
    (h : (server cfg).Reaches NoWrap (init cfg now evictOpt slabs items) s) :
    (∀ p, s.store.Linked cfg p ∨ p ∈ s.held → (s.store.items p).Laid cfg ∧ s.store.Placed cfg p) ∧
    (∀ id, cfg.ValidId id → CarvesSlab o.slabSize (cfg.nitem id) (cfg.profile id)) ∧
    ∀ l a s', s.step cfg l = some (a, s') → NoWrap s l s' → ∀ w ∈ s.writes cfg l, w.Inside cfg := by
  have hst := stamped_of_reaches h
  obtain ⟨hi, hfit, hleft⟩ :=
    inv_init.run (I := fun s => s.store.FitsChunk cfg s.held ∧ s.LeftAligned)
    ⟨fun p hp => (hp.elim (fun hl => List.not_mem_nil hl.1.1) List.not_mem_nil).elim,
      fun r hr => absurd hr List.not_mem_nil⟩ h (fun _ _ _ h => h)
    fun _ _ _ _ _ hI hs _ he => ⟨he.fitsChunk hI.1, hI.2.step hs he⟩
  refine ⟨fun p hp => ?_, fun id _ => hcfg.carvesSlab id,
    fun l a s' hs hno => hi.writes_inside hst hfit hleft hs hno⟩
  have hact : s.store.Active cfg p := hp.elim (fun hl => hl.1) fun hmem => hi.inv.active p hmem
  exact ⟨Item.laid_of_fits (hst.flag p hp) (hfit p hp), hi.inv.wf.placed hact⟩

end Server

/-! ### A profile of four classes -/

/-- The options `-I 512 -m 1 -f 2 -M 4`. -/
def doubledOptions : Options := optionsOf 512 (2 ^ 20) evictAs none

theorem Config.four_maxId : 4 ≤ slabclassMaxId := by decide

theorem Config.four_ids {id : ℕ} (hmin : slabclassMinId ≤ id) (hmax : id ≤ 4) :
    id = 1 ∨ id = 2 ∨ id = 3 ∨ id = 4 := by
  simp only [slabclassMinId] at hmin
  omega

theorem Config.doubled_pos (id : ℕ) (hmin : slabclassMinId ≤ id) (hmax : id ≤ 4) :
    0 < Function.update
      (Function.update (Function.update (Function.update (fun _ => 0) 1 88) 2 176) 3 352) 4 480
      id := by
  rcases Config.four_ids hmin hmax with rfl | rfl | rfl | rfl <;> decide

theorem Config.doubled_le (id : ℕ) (hmin : slabclassMinId ≤ id) (hmax : id ≤ 4) :
    Function.update
      (Function.update (Function.update (Function.update (fun _ => 0) 1 88) 2 176) 3 352) 4 480 id ≤
      480 := by
  rcases Config.four_ids hmin hmax with rfl | rfl | rfl | rfl <;> decide

/-- The configuration of these options: `mc_generate_profile` makes four classes. -/
def Config.doubled : Config where
  useCas := true
  useFreeq := true
  useLruq := true
  hashPower := 1
  hash _ := 0
  processStarted := 0
  itemHdrSize := 49
  slabSize := 480
  maxId := 4
  profile :=
    Function.update
      (Function.update (Function.update (Function.update (fun _ => 0) 1 88) 2 176) 3 352) 4 480
  maxNslab := 2048
  maxId_le := Config.four_maxId
  profile_pos := Config.doubled_pos
  profile_le := Config.doubled_le

theorem startedWith_doubled : Config.doubled.StartedWith doubledOptions where
  accepted :=
    accepted_optionsOf (by decide) (by decide) (by decide) Nat.one_pos (by decide) (by decide)
  profile := by
    refine ⟨mcGenerateProfile doubledOptions, rfl, ?_, ?_⟩
    · rw [mcGenerateProfile, generateLoop, if_pos (by decide), generateLoop, if_pos (by decide),
        generateLoop, if_pos (by decide), generateLoop, if_neg (by decide)]
      rfl
    · rw [mcGenerateProfile, generateLoop, if_pos (by decide), generateLoop, if_pos (by decide),
        generateLoop, if_pos (by decide), generateLoop, if_neg (by decide)]
      rfl
  slabSize := rfl
  itemHdrSize := rfl
  maxNslab := by decide
  useFreeq := rfl
  useLruq := rfl

namespace Server

variable {cfg : Config} {s : Server}

/-- The server of these options when it starts. -/
def initDoubled : Server :=
  .init .doubled 2 evictAs (fun _ => ⟨0, 0, 0, 0⟩) fun _ =>
    ⟨0, 0, 0, 0, 0, {}, 0, [], 0, fun _ => 0, 0⟩

/-- `a` is stored, and `b` is being received. -/
def pendingRun : List Label :=
  [.tick 100, .alloc 0 [97] 0 0 1 {}, .fill 0 0 [120, 13, 10], .set 0 {}, .removeItem 0,
    .alloc 2 [98] 0 0 1 {}]

/-- The server after that. -/
def pendingServer : Server := (server .doubled).exec (fun _ _ _ => true) initDoubled pendingRun

/-- While `a` is stored and `b` is being received, no count wraps: both are in their chunks, and
apart. -/
theorem items_in_chunks_doubled : ∃ s : Server, (server .doubled).Reaches NoWrap initDoubled s ∧
    (s.store.items ⟨0, 0⟩).Laid .doubled ∧ s.store.Placed .doubled ⟨0, 0⟩ ∧
      s.store.Placed .doubled ⟨0, 1⟩ ∧ CarvesSlab 512 5 88 := by
  have hrun :
      ((server .doubled).run (fun s l s' => decide (NoWrap s l s')) initDoubled pendingRun).isSome =
      true := by
    decide +kernel
  have hreach : (server .doubled).Reaches NoWrap initDoubled ((server .doubled).exec
      (fun s l s' => decide (NoWrap s l s')) initDoubled pendingRun) :=
    (Machine.reaches_exec hrun).mono fun _ _ _ => of_decide_eq_true
  have hlinked :
      ((server .doubled).exec (fun s l s' => decide (NoWrap s l s')) initDoubled
      pendingRun).store.Linked
      .doubled ⟨0, 0⟩ := ⟨⟨by decide +kernel, by decide +kernel⟩, by decide +kernel⟩
  have hheld : ⟨0, 1⟩ ∈ ((server .doubled).exec (fun s l s' => decide (NoWrap s l s')) initDoubled
      pendingRun).held := by decide +kernel
  generalize (server .doubled).exec (fun s l s' => decide (NoWrap s l s')) initDoubled
    pendingRun = s
    at hreach hlinked hheld
  have hreach' := hreach
  unfold initDoubled at hreach
  obtain ⟨hitems, hcarves, -⟩ := items_in_chunks startedWith_doubled hreach
  obtain ⟨hlaid, hplaced⟩ := hitems ⟨0, 0⟩ (.inl hlinked)
  exact ⟨s, hreach', hlaid, hplaced, (hitems ⟨0, 1⟩ (.inr hheld)).2,
    hcarves 1 ⟨by decide, by decide⟩⟩

/-- A connection without an item allocates one. -/
theorem step_alloc {c id nbyte dataflags exptime : ℕ} {key : Key} {ch : Choice}
    (hfree : s.hasItem c = false) (hid : itemSlabid cfg key.length nbyte = id)
    (hvalid : id ≠ slabclassInvalidId) (hlen : key.length ≤ keyMaxLen) :
    s.step cfg (.alloc c key dataflags exptime nbyte ch) =
      some (s.keep c (.item false) (s.store.itemAlloc cfg ch id key dataflags exptime nbyte)) := by
  simp only [step, hid]
  rw [if_neg (by simp [hfree, hvalid, hlen])]

/-- The server when `a` is held `n` times. -/
def heldServer (n : ℕ) : Server :=
  ⟨acquired pendingServer.store ⟨0, 0⟩ n, List.replicate n ⟨1, .ilist, ⟨0, 0⟩⟩ ++
    pendingServer.refs⟩

/-- The server when a large item is allocated as well. -/
def overlapServer (n : ℕ) : Server :=
  ((heldServer n).keep 3 (.item false)
    ((heldServer n).store.itemAlloc .doubled { slabOk := false } 4 [97] 0 0 300)).2

theorem reaches_overlapServer (n : ℕ) :
    (server .doubled).Reaches Machine.Unguarded initDoubled (overlapServer n) := by
  have hpend : (server .doubled).Reaches Machine.Unguarded initDoubled pendingServer :=
    (Machine.reaches_exec (by decide +kernel)).mono fun _ _ _ _ => trivial
  have hgets : (server .doubled).Reaches Machine.Unguarded pendingServer (heldServer n) :=
    reaches_gets .doubled (s := pendingServer) [97] (p := ⟨0, 0⟩) 1
      (by decide +kernel) (by decide +kernel) (by decide +kernel) (by decide +kernel)
      (by decide +kernel) n
  have hpending : pendingServer.refs.any (fun r => r.conn = 3 ∧ r.slot ≠ .ilist) = false := by
    decide +kernel
  have hfree : (heldServer n).hasItem 3 = false := by
    simp only [hasItem, heldServer, List.any_append, hpending, Bool.or_false]
    simp
  have hstep : (server .doubled).step (heldServer n) (.alloc 3 [97] 0 0 300 { slabOk := false }) =
      some (_, overlapServer n) := step_alloc hfree (by decide) (by decide) (by decide)
  exact (hpend.trans hgets).tail hstep trivial

/-- The slab that is evicted and carved anew. -/
theorem overlapServer_ids : ((overlapServer 65535).store.slabs 0).id = 4 ∧
    ((overlapServer 65535).store.items ⟨0, 0⟩).id = 4 ∧
        ((overlapServer 65535).store.items ⟨0, 1⟩).id = 1 := by
  change (((acquired pendingServer.store ⟨0, 0⟩ 65535).itemAlloc .doubled { slabOk := false } 4
      [97] 0 0 300).2.slabs
      0).id = 4 ∧
    (((acquired pendingServer.store ⟨0, 0⟩ 65535).itemAlloc .doubled { slabOk := false } 4
      [97] 0 0 300).2.items
      ⟨0, 0⟩).id = 4 ∧
    (((acquired pendingServer.store ⟨0, 0⟩ 65535).itemAlloc .doubled { slabOk := false } 4
      [97] 0 0 300).2.items
      ⟨0, 1⟩).id = 1
  decide +kernel

theorem mem_held_overlapServer {n : ℕ} (hn : 0 < n) :
    ⟨0, 0⟩ ∈ (overlapServer n).held ∧ ⟨0, 1⟩ ∈ (overlapServer n).held := by
  have hpending : (⟨0, 1⟩ : ItemPtr) ∈ pendingServer.held := by decide +kernel
  obtain ⟨r, hr, hptr⟩ := List.mem_map.1 hpending
  refine ⟨List.mem_map.2 ⟨⟨1, .ilist, ⟨0, 0⟩⟩, ?_, rfl⟩, List.mem_map.2 ⟨r, ?_, hptr⟩⟩
  · exact List.mem_append_right _ (List.mem_append_left _ (List.mem_replicate.2 ⟨hn.ne', rfl⟩))
  · exact List.mem_append_right _ (List.mem_append_right _ hr)

/-- A slab of two chunks is evicted while `b` is being received into the second one, and is carved
into one chunk: the two items that are referenced overlap. -/
theorem items_overlap : doubledOptions.Accepted ∧ Config.doubled.StartedWith doubledOptions ∧
    ∃ s : Server, (server .doubled).Reaches Machine.Unguarded initDoubled s ∧ ⟨0, 0⟩ ∈ s.held ∧
      ⟨0, 1⟩ ∈ s.held ∧ ¬ s.store.Placed .doubled ⟨0, 1⟩ ∧
      ∀ slab, ¬ Disjoint (slabChunk slab 0 (Config.doubled.profile (s.store.items ⟨0, 0⟩).id))
        (slabChunk slab 1 (Config.doubled.profile (s.store.items ⟨0, 1⟩).id)) := by
  obtain ⟨hslab, hnew, hold⟩ := overlapServer_ids
  obtain ⟨hmem, hmem'⟩ := mem_held_overlapServer (n := 65535) (by decide)
  refine ⟨startedWith_doubled.accepted, startedWith_doubled, _, reaches_overlapServer 65535, hmem,
    hmem', fun h => ?_, fun slab hdis => ?_⟩
  · have hid := h.id
    rw [hold, hslab] at hid
    cases hid
  · -- the second small chunk starts inside the large one
    rw [hnew, hold] at hdis
    have hsize : Config.doubled.profile 4 = 480 ∧ Config.doubled.profile 1 = 88 := ⟨rfl, rfl⟩
    refine Set.disjoint_left.1 hdis (show slab + 120 ∈ _ from ?_) ?_ <;>
      simp only [slabChunk, slab2Item, slabHdrSize, Set.mem_Ico, hsize.1, hsize.2] <;> omega

end Server

end Twemcache
