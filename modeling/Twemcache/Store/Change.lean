import Twemcache.Store.Path

/-!
# What primitives do to items

`Change` says, for every primitive, what it does to the items that somebody can see: those that
are linked after it, and those that were referenced before it.  All but five kinds of primitives
leave what such an item holds alone; the others change a single item, and linking and the two
in-place changes of a value give it the next cas id.

From this come the stamps of items: every item that can be seen was allocated, and every linked
item carries a cas id that was issued (`Stamped`).
-/

namespace Twemcache

namespace Store

variable {cfg : Config} {sc : Scope} {s s' : Store}
  {p q : ItemPtr} {held held' : List ItemPtr}

/-- Nothing happens to items other than `p`. -/
structure Only (cfg : Config) (s s' : Store) (p : ItemPtr) : Prop where
  /-- The other items are the same. -/
  items : ∀ q, q ≠ p → s'.items q = s.items q
  /-- The same of the others are linked. -/
  linked : ∀ q, q ≠ p → (s'.Linked cfg q ↔ s.Linked cfg q)

theorem Only.of_keeps (hk : Keeps s s') (h : ∀ q, q ≠ p → s'.items q = s.items q) :
    Only cfg s s' p where
  items := h
  linked := fun q hq => hk.linked (by rw [h q hq])

/-- What a primitive does to the items that are linked after it or were referenced before. -/
inductive Change (cfg : Config) (sc : Scope) (s : Store) (held : List ItemPtr) (s' : Store) : Prop
  /-- Nothing. -/
  | quiet (hlinked : ∀ q, s'.Linked cfg q → s.Linked cfg q)
      (hcontent : ∀ q, s'.Linked cfg q ∨ q ∈ held → (s'.items q).content = (s.items q).content)
      (htime : ∀ q, s'.Linked cfg q ∨ q ∈ held → (s'.items q).atime = (s.items q).atime)
      (hcas : s'.casIssued = s.casIssued)
  /-- A linked item moves to the tail of its queue. -/
  | touch (p : ItemPtr) (hl : s.Linked cfg p) (hheld : p ∈ held) (hsc : sc.touch p)
      (hold : ¬ (s.items p).atime ≥ s.ago itemUpdateInterval)
      (hitem : s'.items p = { s.items p with atime := s.now }) (honly : Only cfg s s' p)
      (hcas : s'.casIssued = s.casIssued)
  /-- An item is linked. -/
  | link (p : ItemPtr) (hl : (s.items p).flags.linked = false) (hheld : p ∈ held)
      (hsc : sc.link p ∨ sc.start ≤ (s.items p).gen)
      (hitem : s'.items p = s.linkItem cfg p) (honly : Only cfg s s' p)
      (hcas : s'.casIssued = (s.itemNextCas cfg).2.casIssued)
  /-- A new item is filled. -/
  | write (p : ItemPtr) (f : Item → Item) (hl : (s.items p).flags.linked = false)
      (hheld : p ∈ held) (hnew : p ∉ sc.base) (hf : Sized f) (hitem : s'.items p = f (s.items p))
      (honly : Only cfg s s' p) (hcas : s'.casIssued = s.casIssued)
  /-- Bytes are put next to a value. -/
  | annex (p : ItemPtr) (prepend : Bool) (bytes : List UInt8) (hl : s.Linked cfg p)
      (hheld : p ∈ held) (hsc : sc.annex p) (hid : itemSlabid cfg (s.items p).key.length
        ((s.items p).nbyte + bytes.length) = (s.items p).id)
      (hralign : (s.items p).flags.ralign = prepend)
      (hitem : s'.items p = s.annexItem cfg prepend bytes (s.items p)) (honly : Only cfg s s' p)
      (hcas : s'.casIssued = (s.itemNextCas cfg).2.casIssued)
  /-- A value is overwritten with a number. -/
  | delta (p : ItemPtr) (buf : List UInt8) (hl : s.Linked cfg p) (hheld : p ∈ held)
      (hsc : sc.delta p)
      (hlen : buf.length ≤ (s.items p).nbyte)
      (hitem : s'.items p = s.deltaItem cfg buf (s.items p)) (honly : Only cfg s s' p)
      (hcas : s'.casIssued = (s.itemNextCas cfg).2.casIssued)

/-- A primitive that changes no content and links nothing. -/
theorem Change.of_env (henv : s'.casIssued = s.casIssued)
    (hlinked : ∀ q, s'.Linked cfg q → s.Linked cfg q)
    (hitems : ∀ q, s'.Linked cfg q ∨ q ∈ held →
      (s'.items q).content = (s.items q).content ∧ (s'.items q).atime = (s.items q).atime) :
    Change cfg sc s held s' :=
  .quiet hlinked (fun q hq => (hitems q hq).1) (fun q hq => (hitems q hq).2) henv

theorem itemUnlink_atime (p q : ItemPtr) :
    ((s.itemUnlink cfg p).items q).atime = (s.items q).atime := by
  by_cases hq : q = p
  · subst hq
    simp only [itemUnlink]
    split_ifs <;> simp
  · rw [itemUnlink_items_of_ne hq]

theorem itemRemove_atime (p q : ItemPtr) :
    ((s.itemRemove p).items q).atime = (s.items q).atime := by
  by_cases hq : q = p
  · subst hq
    simp only [itemRemove]
    split_ifs <;> simp
  · rw [itemRemove_items_of_ne hq]

/-- A handed out chunk apart, what is linked after an allocation was linked before. -/
theorem Hands.linked_of {id : ℕ} (hh : Hands cfg id s p s') (hq : s'.Linked cfg q) :
    s.Linked cfg q ∧ s'.items q = s.items q := by
  have hne : q ≠ p := fun heq => by
    have := hq.2
    rw [heq, hh.linked] at this
    cases this
  rcases hh.old q hne hq.1 with ⟨ha, heq, -⟩ | ht
  · exact ⟨⟨ha, heq ▸ hq.2⟩, heq⟩
  · have hl : s'.shape.linked q = false := (Shape.Wf.tail hh.wf q ht hq.1).1
    have := hq.2
    rw [show (s'.items q).flags.linked = false from hl] at this
    cases this

/-- **What a primitive can do to items.** -/
theorem Prim.change (hs : Prim cfg sc (s, held) (s', held'))
    (h : Guarded cfg sc s held) : Change cfg sc s held s' := by
  cases hs with
  | @acquire _ _ p hp =>
    have hk := keeps_itemAcquireRefcount (s := s) p
    refine .of_env rfl (fun q hq => (hk.linked ?_).1 hq) fun q _ => ?_
    · by_cases hqp : q = p <;> simp [hqp]
    · by_cases hqp : q = p <;> simp [hqp, Item.content]
  | @remove _ _ p hp hpriv hbase =>
    exact .of_env (congrArg Env.casIssued (itemRemove_env p))
      (fun q hq => ((keeps_itemRemove p).linked (itemRemove_linked p)).1 hq)
      fun q _ => ⟨itemRemove_content p q, itemRemove_atime p q⟩
  | @unlink _ _ p hp =>
    exact .of_env (congrArg Env.casIssued (itemUnlink_env p))
      (fun q hq => (linked_itemUnlink.1 hq).1)
      fun q _ => ⟨itemUnlink_content p q, itemUnlink_atime p q⟩
  | @link _ _ ch p hp hpriv hlink hl hkey =>
    refine .link p hl hp hlink (by simp) (.of_keeps (keeps_itemLink ch (h.active p hp)) ?_) ?_
    · exact fun q hq => by simp [hq]
    · exact congrArg Env.casIssued (itemLink_env p)
  | @touch _ _ _ p hp hsc ht =>
    rw [ht]
    rcases itemTouch_eq (s := s) cfg p with heq | ⟨hl, hold, heq⟩
    · rw [heq]
      exact .of_env rfl (fun _ hq => hq) fun _ _ => ⟨rfl, rfl⟩
    · have hk : Keeps s (s.touchBare p) :=
        ⟨fun _ => rfl, rfl, fun _ => Iff.rfl, fun _ => rfl, fun _ => rfl⟩
      rw [heq]
      refine .touch p ⟨h.active p hp, hl⟩ hp hsc hold ?_ (.of_keeps (hk.trans (keeps_slabLruqTouch
        ((hk.slabLruq _).2 (h.active p hp).1) false)) fun q hq => ?_) ?_
      · rw [slabLruqTouch_items]
        exact Function.update_self ..
      · rw [slabLruqTouch_items]
        exact Function.update_of_ne hq _ _
      · exact congrArg Env.casIssued (slabLruqTouch_env p.slab false)
  | @alloc _ t _ id p hh hchunk key dataflags exptime nbyte hid =>
    -- the new item is not linked yet, and no other is changed
    have hk := keeps_itemAllocDone (s := t) cfg p key dataflags exptime nbyte
    have hne : ∀ q, (t.itemAllocDone cfg p key dataflags exptime nbyte).Linked cfg q → q ≠ p := by
      rintro q hq rfl
      simpa [allocItem] using hq.2
    have hlinked : ∀ q, (t.itemAllocDone cfg p key dataflags exptime nbyte).Linked cfg q →
        s.Linked cfg q ∧ t.items q = s.items q := fun q hq =>
      hh.linked_of ((hk.linked (by simp [hne q hq])).1 hq)
    refine .of_env (congrArg Env.casIssued hh.env) (fun q hq => (hlinked q hq).1) ?_
    rintro q (hq | hq)
    · simp [hne q hq, (hlinked q hq).2]
    · obtain ⟨hqp, -, heq⟩ := hh.keep_held h.toCounts hq
      simp [hqp, heq]
  | @write _ _ p f hp hnew hl hf =>
    refine .write p f hl hp hnew hf (Function.update_self ..) (.of_keeps (keeps_setItem p f) ?_) rfl
    exact fun q hq => Function.update_of_ne hq _ _
  | @annex _ _ prepend p bytes hp hheld hsc hid hralign hsize =>
    rw [itemAnnexInPlace_eq]
    refine .annex p prepend bytes hp hheld hsc hid hralign (Function.update_self ..)
      (.of_keeps ⟨fun _ => rfl, rfl, fun _ => Iff.rfl, fun _ => rfl, fun _ => rfl⟩ ?_) rfl
    exact fun q hq => Function.update_of_ne hq _ _
  | @delta _ _ p buf hp hheld hsc hlen hsize =>
    rw [itemDeltaInPlace_eq]
    refine .delta p buf hp hheld hsc hlen (Function.update_self ..)
      (.of_keeps ⟨fun _ => rfl, rfl, fun _ => Iff.rfl, fun _ => rfl, fun _ => rfl⟩ ?_) rfl
    exact fun q hq => Function.update_of_ne hq _ _
  | moveBucket => exact .of_env rfl (fun _ hq => hq) fun _ _ => ⟨rfl, rfl⟩

/-! ### Stamps -/

/-- The items that can be seen were allocated, and the linked ones carry ids that were issued. -/
structure Stamped (cfg : Config) (s : Store) (held : List ItemPtr) : Prop where
  /-- An item that can be seen was allocated. -/
  gen : ∀ p, s.Linked cfg p ∨ p ∈ held → (s.items p).gen < s.nalloc
  /-- `ITEM_CAS` is what the setting says. -/
  flag : ∀ p, s.Linked cfg p ∨ p ∈ held → (s.items p).flags.cas = cfg.useCas
  /-- The cas ids of linked items were issued. -/
  cas : cfg.useCas = true → ∀ p, s.Linked cfg p →
    ∃ n, 0 < n ∧ n ≤ s.casIssued ∧ (s.items p).casField = n % 2 ^ 64


theorem itemAllocDone_nalloc (p : ItemPtr) (key : Key) (dataflags exptime nbyte : ℕ) :
    (s.itemAllocDone cfg p key dataflags exptime nbyte).nalloc = s.nalloc + 1 := by
  simp only [itemAllocDone]

/-- A reference that a primitive takes is to a linked item, or to one that it allocates. -/
theorem Prim.held_cases (hs : Prim cfg sc (s, held) (s', held')) (hq : q ∈ held') :
    q ∈ held ∨ s'.Linked cfg q ∨ ∃ it key dataflags exptime nbyte,
      s'.items q = allocItem cfg it key dataflags exptime nbyte s.nalloc ∧
        s'.nalloc = s.nalloc + 1 := by
  cases hs with
  | @acquire _ _ p hp =>
    rcases List.mem_cons.1 hq with rfl | hq
    · exact .inr (.inl (((keeps_itemAcquireRefcount q).linked (by simp)).2 hp))
    · exact .inl hq
  | remove hp hpriv hbase => exact .inl (List.mem_of_mem_erase hq)
  | unlink hp => exact .inl hq
  | link hp hpriv hlink hl hkey => exact .inl hq
  | touch hp hsc ht => exact .inl hq
  | @alloc _ t _ id p hh hchunk key dataflags exptime nbyte hid =>
    rcases List.mem_cons.1 hq with rfl | hq
    · have hnalloc : t.nalloc = s.nalloc := congrArg Env.nalloc hh.env
      refine .inr (.inr ⟨t.items q, key, dataflags, exptime, nbyte, ?_, ?_⟩)
      · rw [itemAllocDone_items, Function.update_self, hnalloc]
      · rw [itemAllocDone_nalloc, hnalloc]
    · exact .inl hq
  | write hp hnew hl hf => exact .inl hq
  | annex hp hheld hid hralign => exact .inl hq
  | delta hp hheld hsc hlen hsize => exact .inl hq
  | moveBucket => exact .inl hq

/-- The next cas id. -/
theorem itemNextCas_of_useCas (h : cfg.useCas = true) :
    (s.itemNextCas cfg).1 = (s.casIssued + 1) % 2 ^ 64 ∧
      (s.itemNextCas cfg).2.casIssued = s.casIssued + 1 := by
  simp [itemNextCas, h]

theorem flags_cas_linkItem (p : ItemPtr) :
    (s.linkItem cfg p).flags.cas = (s.items p).flags.cas := by
  simp [linkItem]

theorem gen_linkItem (p : ItemPtr) : (s.linkItem cfg p).gen = (s.items p).gen := by
  simp [linkItem]

theorem casField_linkItem (h : (s.items p).flags.cas = true) :
    (s.linkItem cfg p).casField = (s.itemNextCas cfg).1 :=
  Item.setCas_casField
    (show ({ s.items p with flags := { (s.items p).flags with linked := true } } : Item).flags.cas =
      true from h) _

theorem casField_annexItem {prepend : Bool} {bytes : List UInt8} {it : Item}
    (h : it.flags.cas = true) :
    (s.annexItem cfg prepend bytes it).casField = (s.itemNextCas cfg).1 := by
  simp [annexItem, Item.setCas, Item.write, h]

theorem casField_deltaItem {buf : List UInt8} {it : Item} (h : it.flags.cas = true) :
    (s.deltaItem cfg buf it).casField = (s.itemNextCas cfg).1 := by
  simp [deltaItem, Item.setCas, Item.write, h]

/-- What a change does to the stamps of an item that can be seen: none but the cas id changes, and
that only to the next one. -/
structure Restamped (cfg : Config) (s : Store) (held : List ItemPtr) (s' : Store) (q : ItemPtr) :
    Prop where
  /-- The item could be seen before. -/
  seen : s.Linked cfg q ∨ q ∈ held
  /-- It is the same item. -/
  gen : (s'.items q).gen = (s.items q).gen
  /-- `ITEM_CAS` is the same. -/
  flag : (s'.items q).flags.cas = (s.items q).flags.cas
  /-- A linked item was linked and holds the same, or has the next cas id. -/
  cas : s'.Linked cfg q → s.Linked cfg q ∧ (s'.items q).content = (s.items q).content ∨
    s'.casIssued = (s.itemNextCas cfg).2.casIssued ∧
      ((s.items q).flags.cas = true → (s'.items q).casField = (s.itemNextCas cfg).1)

theorem Only.restamped (h : Only cfg s s' p) (hne : q ≠ p) (hq : s'.Linked cfg q ∨ q ∈ held) :
    Restamped cfg s held s' q where
  seen := hq.imp_left (h.linked q hne).1
  gen := by rw [h.items q hne]
  flag := by rw [h.items q hne]
  cas := fun hl => .inl ⟨(h.linked q hne).1 hl, by rw [h.items q hne]⟩

theorem Change.restamped (hc : Change cfg sc s held s') (hq : s'.Linked cfg q ∨ q ∈ held) :
    Restamped cfg s held s' q := by
  cases hc with
  | quiet hlinked hcontent htime hcas =>
    have hcont := hcontent q hq
    exact ⟨hq.imp_left (hlinked q), congrArg Content.gen hcont, congrArg Content.cas hcont,
      fun hl => .inl ⟨hlinked q hl, hcont⟩⟩
  | touch p hl hheld hsc hold hitem honly hcas =>
    by_cases hqp : q = p
    · subst hqp
      exact ⟨.inl hl, by rw [hitem], by rw [hitem], fun _ => .inl ⟨hl, by rw [hitem]; rfl⟩⟩
    · exact honly.restamped hqp hq
  | link p hl hheld hsc hitem honly hcas =>
    by_cases hqp : q = p
    · subst hqp
      exact ⟨.inr hheld, by rw [hitem, gen_linkItem], by rw [hitem, flags_cas_linkItem], fun _ =>
        .inr ⟨hcas, fun hflag => by rw [hitem, casField_linkItem hflag]⟩⟩
    · exact honly.restamped hqp hq
  | write p f hl hheld hnew hf hitem honly hcas =>
    by_cases hqp : q = p
    · subst hqp
      refine ⟨.inr hheld, by rw [hitem, hf.gen], by rw [hitem, hf.cas], fun hl' => ?_⟩
      have hlf := hl'.2
      rw [hitem, hf.linked, hl] at hlf
      cases hlf
    · exact honly.restamped hqp hq
  | annex p prepend bytes hl hheld hsc hid hralign hitem honly hcas =>
    by_cases hqp : q = p
    · subst hqp
      have hf : Inert (s.annexItem cfg prepend bytes) := inert_annexItem prepend bytes
      exact ⟨.inl hl, by rw [hitem, hf.gen], by rw [hitem, hf.cas], fun _ =>
        .inr ⟨hcas, fun hflag => by rw [hitem, casField_annexItem hflag]⟩⟩
    · exact honly.restamped hqp hq
  | delta p buf hl hheld hsc hlen hitem honly hcas =>
    by_cases hqp : q = p
    · subst hqp
      have hf : Inert (s.deltaItem cfg buf) := inert_deltaItem buf
      exact ⟨.inl hl, by rw [hitem, hf.gen], by rw [hitem, hf.cas], fun _ =>
        .inr ⟨hcas, fun hflag => by rw [hitem, casField_deltaItem hflag]⟩⟩
    · exact honly.restamped hqp hq

/-- A change concerns at most one item. -/
theorem Change.pivot (hc : Change cfg sc s held s') : ∃ p, ∀ q, q ≠ p → s'.Linked cfg q →
    s.Linked cfg q ∧ (s'.items q).casField = (s.items q).casField := by
  have honly : ∀ {p}, Only cfg s s' p → ∀ q, q ≠ p → s'.Linked cfg q →
      s.Linked cfg q ∧ (s'.items q).casField = (s.items q).casField :=
    fun ho q hq hl => ⟨(ho.linked q hq).1 hl, by rw [ho.items q hq]⟩
  cases hc with
  | quiet hlinked hcontent htime hcas =>
    exact ⟨⟨0, 0⟩, fun q _ hl =>
      ⟨hlinked q hl, congrArg Content.casField (hcontent q (.inl hl))⟩⟩
  | touch p hl hheld hsc hold hitem ho hcas => exact ⟨p, honly ho⟩
  | link p hl hheld hsc hitem ho hcas => exact ⟨p, honly ho⟩
  | write p f hl hheld hnew hf hitem ho hcas => exact ⟨p, honly ho⟩
  | annex p prepend bytes hl hheld hsc hid hralign hitem ho hcas => exact ⟨p, honly ho⟩
  | delta p buf hl hheld hsc hlen hitem ho hcas => exact ⟨p, honly ho⟩

theorem Prim.stamped (hs : Prim cfg sc (s, held) (s', held'))
    (h : Guarded cfg sc s held) (hst : Stamped cfg s held) : Stamped cfg s' held' := by
  have hlater := hs.later
  have hchange := hs.change h
  -- what can be seen afterwards could be seen before, or was just allocated
  have hcases : ∀ q, s'.Linked cfg q ∨ q ∈ held' → Restamped cfg s held s' q ∨
      ∃ it key dataflags exptime nbyte, s'.items q =
        allocItem cfg it key dataflags exptime nbyte s.nalloc ∧ s'.nalloc = s.nalloc + 1 := by
    rintro q (hq | hq)
    · exact .inl (hchange.restamped (.inl hq))
    · rcases hs.held_cases hq with hq | hq | hnew
      · exact .inl (hchange.restamped (.inr hq))
      · exact .inl (hchange.restamped (.inl hq))
      · exact .inr hnew
  refine ⟨fun q hq => ?_, fun q hq => ?_, fun hcas q hq => ?_⟩
  · rcases hcases q hq with hr | ⟨it, key, dataflags, exptime, nbyte, hitem, hn⟩
    · rw [hr.gen]
      exact (hst.gen q hr.seen).trans_le hlater.nalloc
    · rw [hitem, hn, allocItem, Item.setCas_gen]
      exact Nat.lt_succ_self _
  · rcases hcases q hq with hr | ⟨it, key, dataflags, exptime, nbyte, hitem, hn⟩
    · rw [hr.flag]
      exact hst.flag q hr.seen
    · rw [hitem, allocItem, Item.setCas_flags]
  · have hr := hchange.restamped (.inl hq)
    obtain ⟨hnext, hissued⟩ := itemNextCas_of_useCas (s := s) hcas
    rcases hr.cas hq with ⟨hl, heq⟩ | ⟨hissued', hfield⟩
    · obtain ⟨n, hpos, hle, hn⟩ := hst.cas hcas q hl
      exact ⟨n, hpos, hle.trans hlater.casIssued, (congrArg Content.casField heq).trans hn⟩
    · refine ⟨s.casIssued + 1, Nat.succ_pos _, (hissued'.trans hissued).ge, ?_⟩
      rw [hfield ((hst.flag q hr.seen).trans hcas), hnext]

/-- As long as the counter has not wrapped, linked items have different cas ids. -/
def CasInj (cfg : Config) (s : Store) : Prop := s.casIssued < 2 ^ 64 →
  ∀ p q, s.Linked cfg p → s.Linked cfg q → (s.items p).casField = (s.items q).casField → p = q

theorem Prim.casInj (hs : Prim cfg sc (s, held) (s', held'))
    (h : Guarded cfg sc s held) (hst : Stamped cfg s held) (hcas : cfg.useCas = true)
    (hI : CasInj cfg s) : CasInj cfg s' := by
  intro hlt p q hp hq heq
  have hle := hs.later.casIssued
  have hI := hI (hle.trans_lt hlt)
  have hchange := hs.change h
  obtain ⟨hnext, hissued⟩ := itemNextCas_of_useCas (s := s) hcas
  obtain ⟨x, hx⟩ := hchange.pivot
  -- the item that is changed has its old id or the next one, all others their old ones
  have hpivot : ∀ q, s'.Linked cfg x → s'.Linked cfg q → q ≠ x →
      (s'.items x).casField ≠ (s'.items q).casField := by
    intro q hlx hlq hne heq
    obtain ⟨hl, hfield⟩ := hx q hne hlq
    have hr := hchange.restamped (.inl hlx)
    rw [hfield] at heq
    rcases hr.cas hlx with ⟨hlx', hcont⟩ | ⟨hissued', hnew⟩
    · exact hne (hI q x hl hlx' (heq.symm.trans (congrArg Content.casField hcont)))
    · obtain ⟨n, -, hn, hfield'⟩ := hst.cas hcas q hl
      rw [hnew ((hst.flag x hr.seen).trans hcas), hnext, hfield'] at heq
      omega
  by_contra hne
  by_cases hpx : p = x
  · subst hpx
    exact hpivot q hp hq (Ne.symm hne) heq
  · by_cases hqx : q = x
    · subst hqx
      exact hpivot p hq hp hne heq.symm
    · obtain ⟨h1, h2⟩ := hx p hpx hp
      obtain ⟨h3, h4⟩ := hx q hqx hq
      exact hne (hI p q h1 h3 (h2.symm.trans (heq.trans h4)))

theorem Path.stamped (hs : Path cfg sc (s, held) (s', held'))
    (h : Guarded cfg sc s held) (hst : Stamped cfg s held) : Stamped cfg s' held' :=
  (hs.induction h hst fun _ _ _ _ hg hI hprim _ => hprim.stamped hg hI).2

theorem Path.casInj (hs : Path cfg sc (s, held) (s', held'))
    (h : Guarded cfg sc s held) (hst : Stamped cfg s held) (hcas : cfg.useCas = true)
    (hI : CasInj cfg s) : CasInj cfg s' :=
  (hs.induction (I := fun t l => Stamped cfg t l ∧ CasInj cfg t) h ⟨hst, hI⟩
    fun _ _ _ _ hg hI hprim _ =>
      ⟨hprim.stamped hg hI.1, hprim.casInj hg hI.1 hcas hI.2⟩).2.2

theorem Path.later (hs : Path cfg sc (s, held) (s', held'))
    (h : Guarded cfg sc s held) : Later s s' :=
  (hs.induction (I := fun t _ => Later s t) h (.refl s)
    fun _ _ _ _ _ hI hprim _ => hI.trans hprim.later).2

/-- `q` was linked in `s` and holds the same in `s'`, or has an id that was issued in between. -/
def SameOrNew (cfg : Config) (s s' : Store) (q : ItemPtr) : Prop :=
  s.Linked cfg q ∧ (s'.items q).content = (s.items q).content ∨
    ∃ n, s.casIssued < n ∧ n ≤ s'.casIssued ∧ (s'.items q).casField = n % 2 ^ 64

theorem SameOrNew.trans {s'' : Store} (h' : SameOrNew cfg s' s'' q)
    (h : s'.Linked cfg q → SameOrNew cfg s s' q) (hle : s.casIssued ≤ s'.casIssued)
    (hle' : s'.casIssued ≤ s''.casIssued) : SameOrNew cfg s s'' q := by
  rcases h' with ⟨hl, hcont⟩ | ⟨n, hlo, hhi, hn⟩
  · rcases h hl with ⟨hl', hcont'⟩ | ⟨n, hlo, hhi, hn⟩
    · exact .inl ⟨hl', hcont.trans hcont'⟩
    · exact .inr ⟨n, hlo, hhi.trans hle', (congrArg Content.casField hcont).trans hn⟩
  · exact .inr ⟨n, hle.trans_lt hlo, hhi, hn⟩

theorem Prim.sameOrNew (hs : Prim cfg sc (s, held) (s', held'))
    (h : Guarded cfg sc s held) (hst : Stamped cfg s held) (hcas : cfg.useCas = true)
    (hq : s'.Linked cfg q) : SameOrNew cfg s s' q := by
  have hr := (hs.change h).restamped (.inl hq)
  obtain ⟨hnext, hissued⟩ := itemNextCas_of_useCas (s := s) hcas
  refine (hr.cas hq).imp_right fun ⟨hissued', hnew⟩ =>
    ⟨s.casIssued + 1, Nat.lt_succ_self _, (hissued'.trans hissued).ge, ?_⟩
  rw [hnew ((hst.flag q hr.seen).trans hcas), hnext]

theorem Path.sameOrNew (hs : Path cfg sc (s, held) (s', held'))
    (h : Guarded cfg sc s held) (hst : Stamped cfg s held) (hcas : cfg.useCas = true)
    (hq : s'.Linked cfg q) : SameOrNew cfg s s' q := by
  refine (hs.induction (I := fun t l => (Stamped cfg t l ∧ Later s t) ∧ ∀ q, t.Linked cfg q →
    SameOrNew cfg s t q) h ⟨⟨hst, .refl s⟩, fun q hq => .inl ⟨hq, rfl⟩⟩ ?_).2.2 q hq
  rintro t l t' l' hg ⟨⟨hst, hlater⟩, hI⟩ hprim -
  exact ⟨⟨hprim.stamped hg hst, hlater.trans hprim.later⟩, fun q hq =>
    (hprim.sameOrNew hg hst hcas hq).trans (hI q) hlater.casIssued hprim.later.casIssued⟩

end Store

end Twemcache
