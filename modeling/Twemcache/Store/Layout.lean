import Twemcache.Store.Serve
import Mathlib.Order.CompletePartialOrder
import Mathlib.Order.Interval.Set.Disjoint

/-!
# The layout of chunks

A chunk holds an item header, the cas id, the key with its terminating NUL, and the value, which is
aligned to the left or to the right.  The class of a chunk is chosen from one formula
(`item_ntotal`), and the value is found by another one (`item_data`); both agree as long as the item
is no larger than its chunk.  Every primitive keeps that, also those that change the length of a
value in place, and the bytes that `_item_annex` and `_item_delta` copy stay between the key and the
end of the chunk.

## Main definitions

* `Item.parts` : the parts of a chunk, as sets of offsets.
* `Item.Laid` : the parts are disjoint and inside the chunk.
* `FitsChunk` : the items that can be seen are no larger than their chunks.
* `ItemWrite` : a copy of bytes into a chunk, with `annexWrites` and `deltaWrites`.
-/

namespace Twemcache

namespace Item

variable (cfg : Config) (it : Item)

/-- `item_key`, as an offset into the chunk. -/
def keyOff : ℕ := cfg.itemHdrSize + if it.flags.cas then 8 else 0

/-- The header of the item. -/
def headerBytes : Set ℕ := Set.Ico 0 cfg.itemHdrSize

/-- The cas id, which is there if `ITEM_CAS` is. -/
def casBytes : Set ℕ := Set.Ico cfg.itemHdrSize (it.keyOff cfg)

/-- The key and its terminating NUL. -/
def keyBytes : Set ℕ := Set.Ico (it.keyOff cfg) (it.keyOff cfg + it.key.length + 1)

/-- The value. -/
def valueBytes : Set ℕ := Set.Ico (it.data cfg) (it.data cfg + it.nbyte)

/-- The chunk. -/
def chunkBytes : Set ℕ := Set.Ico 0 (cfg.profile it.id)

/-- The parts of the chunk. -/
def parts : List (Set ℕ) := [headerBytes cfg, it.casBytes cfg, it.keyBytes cfg, it.valueBytes cfg]

/-- The parts of the chunk are disjoint and inside it. -/
structure Laid : Prop where
  /-- The item is no larger than its chunk. -/
  fits : itemNtotal cfg it.key.length it.nbyte cfg.useCas ≤ cfg.profile it.id
  /-- Parts are inside the chunk. -/
  inside : ∀ part ∈ it.parts cfg, part ⊆ it.chunkBytes cfg
  /-- Parts are disjoint. -/
  disjoint : (it.parts cfg).Pairwise Disjoint

variable {cfg it}

/-- The value starts behind the key, and ends in the chunk. -/
theorem data_bounds (hcas : it.flags.cas = cfg.useCas)
    (hfits : itemNtotal cfg it.key.length it.nbyte cfg.useCas ≤ cfg.profile it.id) :
    it.keyOff cfg + it.key.length + 1 ≤ it.data cfg ∧
        it.data cfg + it.nbyte ≤ cfg.profile it.id := by
  simp only [itemNtotal, crlfLen] at hfits
  simp only [keyOff, data, hcas]
  split_ifs at hfits ⊢ <;> omega

/-- **An item that is no larger than its chunk is laid out properly, whatever its alignment.** -/
theorem laid_of_fits (hcas : it.flags.cas = cfg.useCas)
    (hfits : itemNtotal cfg it.key.length it.nbyte cfg.useCas ≤ cfg.profile it.id) :
    it.Laid cfg := by
  obtain ⟨hstart, hend⟩ := data_bounds hcas hfits
  have hkey : cfg.itemHdrSize ≤ it.keyOff cfg := Nat.le_add_right ..
  refine ⟨hfits, fun part hpart => ?_, ?_⟩
  · simp only [parts, List.mem_cons, List.not_mem_nil, or_false] at hpart
    rcases hpart with rfl | rfl | rfl | rfl
    · exact Set.Ico_subset_Ico_right (by omega)
    · exact Set.Ico_subset_Ico (Nat.zero_le _) (by omega)
    · exact Set.Ico_subset_Ico (Nat.zero_le _) (by omega)
    · exact Set.Ico_subset_Ico (Nat.zero_le _) hend
  · have hdis : ∀ {a b c d : ℕ}, b ≤ c → Disjoint (Set.Ico a b) (Set.Ico c d) := fun hbc =>
      Set.Ico_disjoint_Ico.2 (min_le_of_left_le (hbc.trans (le_max_right _ _)))
    simp only [parts, List.pairwise_cons, List.mem_cons, List.not_mem_nil, or_false,
      forall_eq_or_imp, forall_eq, List.Pairwise.nil, and_true, IsEmpty.forall_iff, implies_true]
    exact ⟨⟨hdis le_rfl, hdis hkey, hdis (by omega)⟩, ⟨hdis le_rfl, hdis (by omega)⟩, hdis hstart⟩

end Item

/-- A copy of `len` bytes to the offset `off` of the chunk `ptr`, in which there is the item `item`
by then. -/
structure ItemWrite where
  /-- The chunk. -/
  ptr : ItemPtr
  /-- The item. -/
  item : Item
  /-- The offset of the first byte. -/
  off : ℕ
  /-- The number of bytes. -/
  len : ℕ

/-- The bytes are inside the chunk, and outside of the header, the cas id and the key. -/
def ItemWrite.Inside (cfg : Config) (w : ItemWrite) : Prop :=
  w.item.keyOff cfg + w.item.key.length + 1 ≤ w.off ∧ w.off + w.len ≤ cfg.profile w.item.id

namespace Store

variable (cfg : Config) (ch : Choice) (s : Store)

/-- What `_item_annex` copies to a new item. -/
def annexFillWrites (prepend : Bool) (oit it nit : ItemPtr) : List ItemWrite :=
  if prepend then
    let n := { s.items nit with flags := { (s.items nit).flags with ralign := true } }
    [⟨nit, n, n.data cfg, (s.items it).nbyte⟩,
      ⟨nit, n, n.data cfg + (s.items it).nbyte, (s.items oit).nbyte⟩]
  else
    let n := s.items nit
    [⟨nit, n, n.data cfg, (s.items oit).nbyte⟩,
      ⟨nit, n, n.data cfg + (s.items oit).nbyte, (s.items it).nbyte⟩]

/-- What `_item_annex` copies. -/
def annexWrites (prepend : Bool) (it : ItemPtr) : List ItemWrite :=
  match s.itemGet cfg (s.keyOf it) with
  | (none, _) => []
  | (some oit, s) =>
    let o := s.items oit
    let total := o.nbyte + (s.items it).nbyte
    let id := itemSlabid cfg o.key.length total
    if id = slabclassInvalidId then []
    else if id = o.id ∧ o.flags.ralign = prepend then
      [⟨oit, o, if prepend then o.data cfg - (s.items it).nbyte else o.data cfg + o.nbyte,
        (s.items it).nbyte⟩]
    else
      match s.itemAlloc cfg ch id (s.keyOf it) o.dataflags o.exptime total with
      | (none, _) => []
      | (some nit, s) => s.annexFillWrites cfg prepend oit it nit

/-- What `_item_delta` copies. -/
def deltaWrites (key : Key) (incr : Bool) (delta : ℕ) : List ItemWrite :=
  match s.itemGet cfg key with
  | (none, _) => []
  | (some p, s) =>
    match mcStrtoullLen ((s.items p).value cfg) with
    | none => []
    | some v =>
      let buf := decimal (deltaValue v incr delta)
      if buf.length > (s.items p).nbyte then
        match s.itemAlloc cfg ch (itemSlabid cfg (s.items p).key.length buf.length) (s.keyOf p)
            (s.items p).dataflags (s.items p).exptime buf.length with
        | (none, _) => []
        | (some np, s) => [⟨np, s.items np, (s.items np).data cfg, buf.length⟩]
      else
        let it := (s.items p).setCas (s.itemNextCas cfg).1
        [⟨p, it, it.data cfg, buf.length⟩]

/-- Items that can be seen are no larger than their chunks. -/
def FitsChunk (held : List ItemPtr) : Prop := ∀ p, s.Linked cfg p ∨ p ∈ held →
  itemNtotal cfg (s.items p).key.length (s.items p).nbyte cfg.useCas ≤ cfg.profile (s.items p).id

variable {cfg ch s} {sc : Scope} {s' t : Store} {p q it : ItemPtr} {held held' : List ItemPtr}
  {key : Key} {dataflags exptime nbyte : ℕ}

/-! ### Primitives -/

/-- What `item_slabid` finds has room. -/
theorem itemNtotal_le_of_slabid {nkey n id : ℕ} (hid : itemSlabid cfg nkey n = id)
    (hvalid : cfg.ValidId id) :
    itemNtotal cfg nkey n cfg.useCas ≤ cfg.profile id := by
  have hne : itemSlabid cfg nkey n ≠ slabclassInvalidId := by
    rw [hid]
    have hmax := hvalid.2.trans cfg.maxId_le
    simp only [slabclassMaxId] at hmax
    simp only [slabclassInvalidId]
    omega
  have hsize := (slabId_valid hne).2
  rwa [show slabId cfg _ = id from hid] at hsize

/-- A newly allocated item fits into the chunk that was found for it. -/
theorem Hands.fits (key : Key) (hh : Hands cfg (itemSlabid cfg key.length nbyte) s p t)
    (dataflags exptime : ℕ) :
    itemNtotal cfg ((t.itemAllocDone cfg p key dataflags exptime nbyte).items p).key.length
      ((t.itemAllocDone cfg p key dataflags exptime nbyte).items p).nbyte cfg.useCas ≤
      cfg.profile ((t.itemAllocDone cfg p key dataflags exptime nbyte).items p).id := by
  have hvalid := hh.wf.validId hh.active
  rw [hh.id] at hvalid
  have hle := itemNtotal_le_of_slabid rfl hvalid
  simpa [allocItem, hh.id] using hle

/-- A reference that a primitive takes is to an item that fits, if linked items do. -/
theorem Prim.held_fits (hs : Prim cfg sc (s, held) (s', held')) (hq : q ∈ held') :
    q ∈ held ∨ s'.Linked cfg q ∨
      itemNtotal cfg (s'.items q).key.length (s'.items q).nbyte cfg.useCas ≤
          cfg.profile (s'.items q).id := by
  cases hs with
  | @acquire _ _ p hp =>
    rcases List.mem_cons.1 hq with rfl | hq
    · exact .inr (.inl (((keeps_itemAcquireRefcount q).linked (by simp)).2 hp))
    · exact .inl hq
  | remove hp hpriv hbase => exact .inl (List.mem_of_mem_erase hq)
  | unlink hp => exact .inl hq
  | link hp hpriv hlink hl hkey => exact .inl hq
  | touch hp hsc ht => exact .inl hq
  | @alloc _ t _ id p hh hchunk key dataflags exptime nbyte hid =>
    rcases List.mem_cons.1 hq with rfl | hq
    · subst hid
      exact .inr (.inr (Hands.fits key hh dataflags exptime))
    · exact .inl hq
  | write hp hnew hl hf => exact .inl hq
  | annex hp hheld hid hralign => exact .inl hq
  | delta hp hheld hsc hlen hsize => exact .inl hq
  | moveBucket => exact .inl hq

/-- A change leaves the items that can be seen within their chunks. -/
theorem Change.fitsChunk (hc : Change cfg sc s held s') (h : Guarded cfg sc s held)
    (hfit : s.FitsChunk cfg held) (hq : s'.Linked cfg q ∨ q ∈ held) :
    itemNtotal cfg (s'.items q).key.length (s'.items q).nbyte cfg.useCas ≤
        cfg.profile (s'.items q).id := by
  -- an item that the primitive is not about stays as it was
  have hold : ∀ {p}, Only cfg s s' p → q ≠ p →
      itemNtotal cfg (s'.items q).key.length (s'.items q).nbyte cfg.useCas ≤
          cfg.profile (s'.items q).id := by
    intro p ho hqp
    rw [ho.items q hqp]
    exact hfit q (hq.imp_left (ho.linked q hqp).1)
  cases hc with
  | quiet hlinked hcontent htime hcas =>
    have hcont := hcontent q hq
    rw [show (s'.items q).key = _ from congrArg Content.key hcont,
      show (s'.items q).nbyte = _ from congrArg Content.nbyte hcont,
      show (s'.items q).id = _ from congrArg Content.id hcont]
    exact hfit q (hq.imp_left (hlinked q))
  | touch p hl hheld hsc hold' hitem honly hcas =>
    by_cases hqp : q = p
    · subst hqp
      rw [hitem]
      exact hfit q (.inl hl)
    · exact hold honly hqp
  | link p hl hheld hsc hitem honly hcas =>
    by_cases hqp : q = p
    · subst hqp
      rw [hitem]
      have hfields : (s.linkItem cfg q).key = (s.items q).key ∧
          (s.linkItem cfg q).nbyte = (s.items q).nbyte ∧
          (s.linkItem cfg q).id = (s.items q).id := by simp [linkItem]
      rw [hfields.1, hfields.2.1, hfields.2.2]
      exact hfit q (.inr hheld)
    · exact hold honly hqp
  | write p f hl hheld hnew hf hitem honly hcas =>
    by_cases hqp : q = p
    · subst hqp
      rw [hitem, hf.key, hf.nbyte, hf.id]
      exact hfit q (.inr hheld)
    · exact hold honly hqp
  | annex p prepend bytes hl hheld hsc hid hralign hitem honly hcas =>
    by_cases hqp : q = p
    · subst hqp
      have hfields : (s.annexItem cfg prepend bytes (s.items q)).key = (s.items q).key ∧
          (s.annexItem cfg prepend bytes (s.items q)).nbyte = (s.items q).nbyte + bytes.length ∧
          (s.annexItem cfg prepend bytes (s.items q)).id = (s.items q).id := by
            simp [annexItem, Item.write]
      rw [hitem, hfields.1, hfields.2.1, hfields.2.2]
      exact itemNtotal_le_of_slabid hid (h.wf.validId hl.1)
    · exact hold honly hqp
  | delta p buf hl hheld hsc hlen hitem honly hcas =>
    by_cases hqp : q = p
    · subst hqp
      have hfields : (s.deltaItem cfg buf (s.items q)).key = (s.items q).key ∧
          (s.deltaItem cfg buf (s.items q)).nbyte = buf.length ∧
          (s.deltaItem cfg buf (s.items q)).id = (s.items q).id := by simp [deltaItem, Item.write]
      -- the new text is not longer than the value was
      have hbefore := hfit q (.inl hl)
      rw [hitem, hfields.1, hfields.2.1, hfields.2.2]
      simp only [itemNtotal] at hbefore ⊢
      omega
    · exact hold honly hqp

theorem Prim.fitsChunk (hs : Prim cfg sc (s, held) (s', held')) (h : Guarded cfg sc s held)
    (hfit : s.FitsChunk cfg held) : s'.FitsChunk cfg held' := by
  have hchange := hs.change h
  rintro q (hq | hq)
  · exact hchange.fitsChunk h hfit (.inl hq)
  · rcases hs.held_fits hq with hq | hq | hnew
    · exact hchange.fitsChunk h hfit (.inr hq)
    · exact hchange.fitsChunk h hfit (.inl hq)
    · exact hnew

/-- **Paths keep items within their chunks.** -/
theorem Path.fitsChunk (hs : Path cfg sc (s, held) (s', held')) (h : Guarded cfg sc s held)
    (hfit : s.FitsChunk cfg held) : s'.FitsChunk cfg held' :=
  (hs.induction (I := fun s held => s.FitsChunk cfg held) h hfit
    fun _ _ _ _ hg hI hprim _ => hprim.fitsChunk hg hI).2

/-- The alignment of an item of which a reference remains is the same. -/
theorem Prim.ralign (hs : Prim cfg sc (s, held) (s', held')) (h : Guarded cfg sc s held)
    (hq : q ∈ sc.base) :
    (s'.items q).flags.ralign = (s.items q).flags.ralign := by
  have hmem := h.base_mem q hq
  have hold : ∀ {p}, Only cfg s s' p → q ≠ p →
      (s'.items q).flags.ralign = (s.items q).flags.ralign :=
    fun ho hqp => by rw [ho.items q hqp]
  cases hs.change h with
  | quiet hlinked hcontent htime hcas => exact congrArg Content.ralign (hcontent q (.inr hmem))
  | touch p hl hheld hsc hold' hitem honly hcas =>
    by_cases hqp : q = p
    · subst hqp
      rw [hitem]
    · exact hold honly hqp
  | link p hl hheld hsc hitem honly hcas =>
    by_cases hqp : q = p
    · subst hqp
      rw [hitem]
      simp [linkItem]
    · exact hold honly hqp
  | write p f hl hheld hnew hf hitem honly hcas => exact hold honly fun hqp => hnew (hqp ▸ hq)
  | annex p prepend bytes hl hheld hsc hid hralign hitem honly hcas =>
    by_cases hqp : q = p
    · subst hqp
      rw [hitem]
      simp [annexItem, Item.write]
    · exact hold honly hqp
  | delta p buf hl hheld hsc hlen hitem honly hcas =>
    by_cases hqp : q = p
    · subst hqp
      rw [hitem]
      simp [deltaItem, Item.write]
    · exact hold honly hqp

theorem Path.ralign (hs : Path cfg sc (s, held) (s', held')) (h : Guarded cfg sc s held)
    (hq : q ∈ sc.base) :
    (s'.items q).flags.ralign = (s.items q).flags.ralign :=
  (hs.induction (I := fun t _ => (t.items q).flags.ralign = (s.items q).flags.ralign) h rfl
    fun _ _ _ _ hg hI hprim _ => (hprim.ralign hg hq).trans hI).2

/-! ### Copies -/

/-- A copy into the value of an item that fits into its chunk. -/
theorem inside_of_fits {ptr : ItemPtr} {n : Item} {off len : ℕ} (hcas : n.flags.cas = cfg.useCas)
    (hfits : itemNtotal cfg n.key.length n.nbyte cfg.useCas ≤ cfg.profile n.id)
    (hoff : n.data cfg ≤ off) (hlen : off + len ≤ n.data cfg + n.nbyte) :
    (ItemWrite.mk ptr n off len).Inside cfg := by
  obtain ⟨hstart, hend⟩ := Item.data_bounds hcas hfits
  exact ⟨hstart.trans hoff, hlen.trans hend⟩

/-- Bytes that are put next to a value, when `item_slabid` finds the class of the item for all of
them. -/
theorem inside_of_extend {ptr : ItemPtr} {o : Item} {len : ℕ} (hcas : o.flags.cas = cfg.useCas)
    (hfits : itemNtotal cfg o.key.length (o.nbyte + len) cfg.useCas ≤ cfg.profile o.id) :
    (ItemWrite.mk ptr o (if o.flags.ralign then o.data cfg - len else o.data cfg + o.nbyte)
        len).Inside cfg := by
  simp only [itemNtotal, crlfLen] at hfits
  simp only [ItemWrite.Inside, Item.keyOff, Item.data, hcas]
  split_ifs at hfits ⊢ <;> omega

/-- What `_item_annex` copies to a new item: the two values fill it. -/
theorem inside_of_fill {nit : ItemPtr} {n : Item} {a b : ℕ} (hcas : n.flags.cas = cfg.useCas)
    (hfits : itemNtotal cfg n.key.length n.nbyte cfg.useCas ≤ cfg.profile n.id)
    (hn : n.nbyte = a + b) :
    ∀ w ∈ [ItemWrite.mk nit n (n.data cfg) a, ⟨nit, n, n.data cfg + a, b⟩], w.Inside cfg := by
  intro w hw
  simp only [List.mem_cons, List.not_mem_nil, or_false] at hw
  rcases hw with rfl | rfl
  · exact inside_of_fits hcas hfits le_rfl (by omega)
  · exact inside_of_fits hcas hfits (by omega) (by omega)

/-- The item that has been looked up still says whether it has a cas id. -/
theorem flag_of_acquired (hst : Stamped cfg s held) (hl : s.Linked cfg p) :
    ((s.itemAcquireRefcount p).items p).flags.cas = cfg.useCas := by
  rw [itemAcquireRefcount_items, Function.update_self]
  exact hst.flag p (.inl hl)

namespace Guarded

/-- What `_item_annex` copies to a new item: the values of the two items are as long as they were
before the allocation. -/
theorem fill_inside (h : Guarded cfg sc s held) {prepend : Bool} {oit nit : ItemPtr} {u : Store}
    (hh : Hands cfg (itemSlabid cfg key.length ((s.items oit).nbyte + (s.items it).nbyte)) s nit u)
    (hoit : oit ∈ held) (hit : it ∈ held) {v : Store}
    (hv : v = u.itemAllocDone cfg nit key dataflags exptime
      ((s.items oit).nbyte + (s.items it).nbyte)) :
    ∀ w ∈ v.annexFillWrites cfg prepend oit it nit, w.Inside cfg := by
  have hkeep : ∀ q ∈ held, (v.items q).nbyte = (s.items q).nbyte := by
    intro q hq
    obtain ⟨hne, -, hitem⟩ := hh.keep_held h.toCounts hq
    rw [hv, ← hitem]
    simp [hne]
  have hfits := Hands.fits key hh dataflags exptime
  rw [← hv] at hfits
  have hflag : (v.items nit).flags.cas = cfg.useCas := by
    rw [hv]
    simp [allocItem]
  have hlen : (v.items nit).nbyte = (s.items oit).nbyte + (s.items it).nbyte := by
    rw [hv]
    simp [allocItem]
  rw [annexFillWrites, hkeep oit hoit, hkeep it hit]
  split_ifs with hpre
  · exact inside_of_fill
      (n := { v.items nit with flags := { (v.items nit).flags with ralign := true } }) hflag hfits
      (hlen.trans (Nat.add_comm ..))
  · exact inside_of_fill hflag hfits hlen

/-- **What `_item_annex` copies stays between the key and the end of the chunk.** -/
theorem annexWrites_inside (h : Guarded cfg sc s held) (hst : Stamped cfg s held) {prepend : Bool}
    (hit : it ∈ held) (hl : (s.items it).flags.linked = false)
    (hroom : Room (s.itemAnnex cfg ch prepend it).2 held 2) :
    ∀ w ∈ s.annexWrites cfg ch prepend it, w.Inside cfg := by
  cases heq : s.itemGet cfg (s.keyOf it) with
  | mk r t =>
    simp only [itemAnnex, heq] at hroom
    simp only [annexWrites, heq]
    cases r with
    | none => simp
    | some oit =>
      obtain ⟨hp, hlo, hkey, hsame, ht, hls, -, hwf, hfull⟩ := h.get_some heq
      have hcas : (t.items oit).flags.cas = cfg.useCas := by
        rw [ht]
        exact flag_of_acquired hst hls
      have hkeys : t.keyOf it = (t.items oit).key := by
        rw [hkey, keyOf, hsame it hl]
        rfl
      simp only [hkeys] at hroom ⊢
      by_cases hover : itemSlabid cfg (t.items oit).key.length
        ((t.items oit).nbyte + (t.items it).nbyte) =
        slabclassInvalidId
      · rw [if_pos hover]
        simp
      rw [if_neg hover] at hroom ⊢
      by_cases hsamecls : itemSlabid cfg (t.items oit).key.length
        ((t.items oit).nbyte + (t.items it).nbyte) =
        (t.items oit).id ∧ (t.items oit).flags.ralign = prepend
      · -- in place
        rw [if_pos hsamecls]
        intro w hw
        obtain rfl := List.mem_singleton.1 hw
        have hle := itemNtotal_le_of_slabid hsamecls.1 (hwf.validId hlo.1)
        rw [← hsamecls.2]
        exact inside_of_extend hcas hle
      -- in a new item, whose chunk has room by its class
      rw [if_neg hsamecls] at hroom ⊢
      cases hal : t.itemAlloc cfg ch (itemSlabid cfg (t.items oit).key.length
        ((t.items oit).nbyte + (t.items it).nbyte)) (t.items oit).key (t.items oit).dataflags
        (t.items oit).exptime ((t.items oit).nbyte + (t.items it).nbyte) with
      | mk r' w =>
        cases r' with
        | none => simp
        | some nit =>
          rw [hal] at hroom
          obtain ⟨u, hh, hchunk, rfl⟩ := alloc_some hwf hfull (itemSlabid_valid hover) hal
          simp only [itemAnnexFill_eq] at hroom
          have hinv : Guarded cfg sc t (oit :: held) :=
            (hp (hroom.of_overflow (fun hov => overflow_alloc hh
            (overflow_replaceItem hov)) (by omega))).guarded h
          exact hinv.fill_inside hh List.mem_cons_self (List.mem_cons_of_mem _ hit) rfl

/-- **What `_item_delta` copies stays between the key and the end of the chunk.** -/
theorem deltaWrites_inside (h : Guarded cfg sc s held) (hst : Stamped cfg s held)
    (hfit : s.FitsChunk cfg held) {incr : Bool} {delta : ℕ}
    (hid : s.deltaClass cfg key incr delta ≠ some slabclassInvalidId) :
    ∀ w ∈ s.deltaWrites cfg ch key incr delta, w.Inside cfg := by
  cases heq : s.itemGet cfg key with
  | mk r t =>
    simp only [deltaWrites, heq]
    cases r with
    | none => simp
    | some p =>
      obtain ⟨-, -, -, -, ht, hls, -, hwf, hfull⟩ := h.get_some heq
      have hcas : (t.items p).flags.cas = cfg.useCas := by
        rw [ht]
        exact flag_of_acquired hst hls
      dsimp only
      cases hnum : mcStrtoullLen ((t.items p).value cfg) with
      | none => simp
      | some v =>
        dsimp only
        split_ifs with hlong
        · -- in a new item, whose chunk has room by its class
          have hvalid : itemSlabid cfg (t.items p).key.length
              (decimal (deltaValue v incr delta)).length ≠ slabclassInvalidId := by
            simpa only [deltaClass, heq, hnum, if_pos hlong, ne_eq, Option.some.injEq] using hid
          cases hal : t.itemAlloc cfg ch (itemSlabid cfg (t.items p).key.length
            (decimal (deltaValue v incr delta)).length) (t.keyOf p) (t.items p).dataflags
            (t.items p).exptime (decimal (deltaValue v incr delta)).length with
          | mk r' w =>
            cases r' with
            | none => simp
            | some np =>
              obtain ⟨u, hh, -, rfl⟩ := alloc_some hwf hfull (itemSlabid_valid hvalid) hal
              intro w hw
              obtain rfl := List.mem_singleton.1 hw
              exact inside_of_fits (by simp [allocItem])
                (Hands.fits (t.keyOf p) hh (t.items p).dataflags (t.items p).exptime) le_rfl
                  (by simp [allocItem])
        · -- in place
          intro w hw
          obtain rfl := List.mem_singleton.1 hw
          have hbefore := hfit p (.inl hls)
          have hfields : (t.items p).key = (s.items p).key ∧ (t.items p).nbyte = (s.items p).nbyte ∧
              (t.items p).id = (s.items p).id := by
            rw [ht]
            simp
          rw [← hfields.1, ← hfields.2.1, ← hfields.2.2] at hbefore
          refine inside_of_fits (by simpa using hcas) (by simpa using hbefore) le_rfl ?_
          simp only [Item.setCas_nbyte]
          omega

end Guarded

end Store

end Twemcache
