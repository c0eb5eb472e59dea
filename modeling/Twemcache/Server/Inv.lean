import Twemcache.Server.Basic
import Twemcache.Store.Change

/-!
# The invariant of the server

Every step of the server is a path of primitives of the item module, or changes a scalar
variable of the store.  So the invariant of stores and references holds in every reachable state
in which no slab count has wrapped.
-/

namespace Twemcache

namespace Server

variable (cfg : Config) (s : Server)

/-- The unstored items of the other connections; with `none`, of all of them. -/
def Priv (o : Option ℕ) (x : ItemPtr) : Prop :=
  ∃ r ∈ s.refs, r.slot = .item false ∧ o ≠ some r.conn ∧ r.ptr = x

/-- The item that a step touches. -/
def touched : Label → Option ItemPtr
  | .touch _ p => some p
  | _ => none

/-- The item whose value a step extends in place. -/
def extended : Label → Option ItemPtr
  | .annex c prepend _ => (s.unstored c).bind (s.store.annexTarget cfg prepend)
  | _ => none

/-- The item whose value a step overwrites in place. -/
def overwritten : Label → Option ItemPtr
  | .delta key incr delta _ => s.store.deltaTarget cfg key incr delta
  | _ => none

/-- A step changes the length of a linked item's value. -/
def resized : Label → Bool
  | .annex c prepend _ =>
    match s.unstored c with
    | some it => (s.store.annexTarget cfg prepend it).isSome && (s.store.items it).nbyte != 0
    | none => false
  | .delta key incr delta _ =>
    match s.store.deltaTarget cfg key incr delta with
    | some p =>
      match mcStrtoullLen ((s.store.items p).value cfg) with
      | some v => (decimal (Store.deltaValue v incr delta)).length != (s.store.items p).nbyte
      | none => false
    | none => false
  | _ => false

/-- What a step may do on behalf of connection `o`. -/
def scope (l : Label) (o : Option ℕ) (base : List ItemPtr) : Store.Scope where
  priv := s.Priv o
  base := base
  start := s.store.nalloc
  link := fun p => ∃ c, ⟨c, .item false, p⟩ ∈ s.refs
  touch := fun p => touched l = some p
  annex := fun p => s.extended cfg l = some p
  delta := fun p => s.overwritten cfg l = some p
  resize := fun m n => s.resized cfg l = false → n = m

/-- The invariant of the server. -/
structure Inv : Prop where
  /-- The references are those that the store counts. -/
  inv : s.store.Inv cfg s.held
  /-- An unstored item is not linked, and only its connection knows it. -/
  unstored : ∀ r ∈ s.refs, r.slot = .item false →
    (s.store.items r.ptr).flags.linked = false ∧ s.held.count r.ptr = 1
  /-- A connection has at most one item. -/
  one : ∀ c, s.refs.countP (fun r => r.conn = c ∧ r.slot ≠ .ilist) ≤ 1

variable {cfg s} {s' : Server} {l : Label} {a : Answer} {c : ℕ} {p : ItemPtr}

theorem inv_perm {st : Store} {h h' : List ItemPtr} (hi : st.Inv cfg h) (hp : h.Perm h') :
    st.Inv cfg h' where
  wf := hi.wf
  full := hi.full
  active := fun p hm => hi.active p (hp.mem_iff.2 hm)
  ref := fun p ha => (hi.ref p ha).trans (hp.count_eq p)
  fits := fun sl => (hp.countP_eq _) ▸ hi.fits sl
  place := fun p ha => (hi.place p ha).imp_right (.imp_right (.imp_right hp.mem_iff.1))

/-- Nobody else has a reference to an unstored item. -/
theorem Inv.eq_of_ptr (h : s.Inv cfg) {r r' : Ref} (hr : r ∈ s.refs) (hr' : r' ∈ s.refs)
    (hslot : r.slot = .item false) (hptr : r'.ptr = r.ptr) : r' = r := by
  by_contra hne
  have hcount := (h.unstored r hr hslot).2
  have hperm := ((List.perm_cons_erase hr).map Ref.ptr).count_eq r.ptr
  have hmem : r.ptr ∈ (s.refs.erase r).map Ref.ptr :=
    hptr ▸ List.mem_map_of_mem ((List.mem_erase_of_ne hne).2 hr')
  have hpos := List.count_pos_iff.2 hmem
  rw [List.map_cons, List.count_cons_self] at hperm
  change s.held.count r.ptr = _ at hperm
  omega

theorem Inv.guarded (h : s.Inv cfg) (l : Label) (o : Option ℕ) :
    s.store.Guarded cfg (s.scope cfg l o s.held) s.held where
  toInv := h.inv
  priv_base := fun _ ⟨_, hr, _, _, hx⟩ => hx ▸ List.mem_map_of_mem hr
  priv_linked := fun _ ⟨r, hr, hslot, _, hx⟩ => hx ▸ (h.unstored r hr hslot).1
  base_mem := fun _ hx => hx
  start_le := le_rfl

theorem unstored_eq_some (hp : s.unstored c = some p) : ⟨c, .item false, p⟩ ∈ s.refs := by
  obtain ⟨r, hr, rfl⟩ := Option.map_eq_some_iff.1 hp
  have hmem := List.mem_of_find?_eq_some hr
  have hprop := List.find?_some hr
  simp only [decide_eq_true_eq] at hprop
  obtain ⟨hc, hslot⟩ := hprop
  cases r
  simp_all

theorem held_markStored (c : ℕ) (refs : List Ref) :
    (markStored c refs).map Ref.ptr = refs.map Ref.ptr := by
  rw [markStored, List.map_map]
  refine List.map_congr_left fun r _ => ?_
  simp only [Function.comp]
  split_ifs <;> rfl

theorem held_erase {r : Ref} {refs : List Ref} (hr : r ∈ refs) :
    ((refs.map Ref.ptr).erase r.ptr).Perm ((refs.erase r).map Ref.ptr) := by
  have h1 := (List.perm_cons_erase hr).map Ref.ptr
  have h2 := h1.erase r.ptr
  rwa [List.map_cons, List.erase_cons_head] at h2

theorem Inv.of_path (h : s.Inv cfg) {o : Option ℕ} {base held' : List ItemPtr}
    (hg : s.store.Guarded cfg (s.scope cfg l o base) s.held)
    (hp : Store.Path cfg (s.scope cfg l o base) (s.store, s.held) (s'.store, held'))
    (hperm : held'.Perm s'.held)
    (hrefs : ∀ r ∈ s'.refs, r.slot = .item false → r ∈ s.refs ∧ o ≠ some r.conn ∨
      (s'.store.items r.ptr).flags.linked = false ∧ s'.held.count r.ptr = 1)
    (hone : ∀ c, s'.refs.countP (fun r => r.conn = c ∧ r.slot ≠ .ilist) ≤ 1) : s'.Inv cfg where
  inv := inv_perm (hp.guarded hg).toInv hperm
  unstored := fun r hr hslot => by
    rcases hrefs r hr hslot with ⟨hr', ho⟩ | hnew
    · obtain ⟨hitem, hcount⟩ := hp.frame hg ⟨r, hr', hslot, ho, rfl⟩
      obtain ⟨hl, hc⟩ := h.unstored r hr' hslot
      rw [hitem, ← hperm.count_eq, hcount]
      exact ⟨hl, hc⟩
    · exact hnew
  one := hone

/-- What a step is to the store. -/
inductive Effect (cfg : Config) (s : Server) (l : Label) (s' : Server) : Prop
  /-- A path of primitives. -/
  | path (o : Option ℕ) (base held' : List ItemPtr)
      (hg : s.store.Guarded cfg (s.scope cfg l o base) s.held)
      (hp : Store.Path cfg (s.scope cfg l o base) (s.store, s.held) (s'.store, held'))
      (hperm : held'.Perm s'.held) (hbase : ∀ p ∈ s.held, p ∈ s'.held → p ∈ base)
  /-- A write to an unstored item. -/
  | write (c : ℕ) (p : ItemPtr) (f : Item → Item) (hf : Store.Rigid f)
      (hmem : ⟨c, .item false, p⟩ ∈ s.refs) (heq : s' = ⟨s.store.setItem p f, s.refs⟩)
  /-- A change of scalar variables. -/
  | env (hshape : s'.store.shape = s.store.shape) (hitems : s'.store.items = s.store.items)
      (hslabs : s'.store.slabs = s.store.slabs)
      (hlru : s'.store.lruq = s.store.lruq)
      (hbooks : s'.store.gauges = s.store.gauges ∧ s'.store.links = s.store.links)
        (hcas : s'.store.casIssued = s.store.casIssued)
      (hnalloc : s'.store.nalloc = s.store.nalloc) (hrefs : s'.refs = s.refs)
      (hnow : s.store.now ≤ s'.store.now)
      (hlive : s'.store.oldestLive = s.store.oldestLive ∨ ∃ exptime, l = .flushSet exptime ∧
        s'.store.now = s.store.now ∧ s'.store.oldestLive = s.store.flushallTime cfg exptime)

theorem Inv.not_priv_own (h : s.Inv cfg) (hp : ⟨c, .item false, p⟩ ∈ s.refs) :
    ¬ s.Priv (some c) p := by
  rintro ⟨r, hr, hslot, hne, hptr⟩
  have heq := h.eq_of_ptr hr hp hslot hptr.symm
  exact hne (by rw [← heq])

theorem countP_markStored (c c' : ℕ) (refs : List Ref) :
    (markStored c refs).countP (fun r => r.conn = c' ∧ r.slot ≠ .ilist) =
      refs.countP fun r => r.conn = c' ∧ r.slot ≠ .ilist := by
  rw [markStored, List.countP_map]
  refine List.countP_congr fun r _ => ?_
  simp only [Function.comp]
  split_ifs with hr <;> simp [hr]

theorem mem_markStored {r : Ref} {refs : List Ref} (hr : r ∈ markStored c refs)
    (hslot : r.slot = .item false) : r ∈ refs ∧ r.conn ≠ c := by
  obtain ⟨r', hr', heq⟩ := List.mem_map.1 hr
  split_ifs at heq with hc
  · rw [← heq] at hslot
    cases hslot
  · subst heq
    exact ⟨hr', fun hconn => hc ⟨hconn, hslot⟩⟩

/-- An item that is being received was being received before, or was just allocated. -/
theorem unstored_of_step (hs : s.step cfg l = some (a, s')) {r : Ref} (hr : r ∈ s'.refs)
    (hslot : r.slot = .item false) :
    r ∈ s.refs ∨ ∃ (key : Key) (dataflags exptime nbyte : ℕ) (ch : Choice),
      itemSlabid cfg key.length nbyte ≠ slabclassInvalidId ∧
      (s.store.itemAlloc cfg ch (itemSlabid cfg key.length nbyte) key dataflags exptime nbyte).1 =
        some r.ptr ∧
      s'.store =
          (s.store.itemAlloc cfg ch (itemSlabid cfg key.length nbyte) key dataflags exptime
          nbyte).2 := by
  -- only `item_alloc` adds such a reference, the other calls at most take one away
  have hstore : ∀ {c : ℕ} {f : ItemPtr → Answer × Store}, s.storeItem cfg c f = some (a, s') →
      r ∈ s.refs := by
    intro c f hs
    obtain ⟨p, -, heq⟩ := storeItem_cases hs
    obtain ⟨-, rfl⟩ := Prod.mk.inj heq
    exact (mem_markStored hr hslot).1
  have hcall : ∀ {x : Answer × Store}, s.call x = some (a, s') → r ∈ s.refs := by
    intro x hs
    obtain ⟨-, rfl⟩ := Prod.mk.inj (Option.some.inj hs)
    exact hr
  have hwrite : ∀ {c : ℕ} {f : Item → Item}, s.writeItem c f = some (a, s') → r ∈ s.refs := by
    intro c f hs
    obtain ⟨p, -, heq⟩ := Option.map_eq_some_iff.1 hs
    obtain ⟨-, rfl⟩ := Prod.mk.inj heq
    exact hr
  have hgive : ∀ {r' : Ref}, s.giveBack r' = (a, s') → r ∈ s.refs := by
    intro r' hs
    obtain ⟨-, rfl⟩ := Prod.mk.inj hs
    exact List.mem_of_mem_erase hr
  cases l with
  | alloc c key dataflags exptime nbyte ch =>
    simp only [Server.step] at hs
    split_ifs at hs with hen
    rw [not_or, not_or] at hen
    obtain ⟨-, rfl⟩ := Prod.mk.inj (Option.some.inj hs)
    rcases List.mem_append.1 hr with hnew | hold
    · obtain ⟨p, hp, rfl⟩ := Option.map_eq_some_iff.1 (Option.mem_toList.1 hnew)
      exact .inr ⟨key, dataflags, exptime, nbyte, ch, hen.2.1, hp, rfl⟩
    · exact .inl hold
  | fill c off bytes =>
    simp only [Server.step] at hs
    split_ifs at hs
    exact .inl (hwrite hs)
  | reqCas c cas => exact .inl (hwrite hs)
  | set c ch => exact .inl (hstore hs)
  | cas c ch => exact .inl (hstore hs)
  | add c ch => exact .inl (hstore hs)
  | replace c ch => exact .inl (hstore hs)
  | annex c prepend ch => exact .inl (hstore hs)
  | removeItem c =>
    obtain ⟨r', -, heq⟩ := Option.map_eq_some_iff.1 hs
    exact .inl (hgive heq)
  | get c key =>
    obtain ⟨-, rfl⟩ := Prod.mk.inj (Option.some.inj hs)
    rcases List.mem_append.1 hr with hnew | hold
    · -- the reference that is taken is no item of the connection
      obtain ⟨p, -, rfl⟩ := Option.map_eq_some_iff.1 (Option.mem_toList.1 hnew)
      cases hslot
    · exact .inl hold
  | touch c p =>
    simp only [Server.step] at hs
    split_ifs at hs
    exact .inl (hcall hs)
  | remove c p =>
    simp only [Server.step] at hs
    split_ifs at hs
    exact .inl (hgive (Option.some.inj hs))
  | delete key => exact .inl (hcall hs)
  | delta key incr delta ch =>
    simp only [Server.step] at hs
    split_ifs at hs
    exact .inl (hcall hs)
  | flushSet exptime => exact .inl (hcall hs)
  | flushExpired => exact .inl (hcall hs)
  | moveBucket => exact .inl (hcall hs)
  | tick now =>
    simp only [Server.step] at hs
    split_ifs at hs
    exact .inl (hcall hs)
  | evict opt => exact .inl (hcall hs)

/-- A storage function that is a path keeps the invariant. -/
theorem Inv.storeItem (h : s.Inv cfg) {f : ItemPtr → Answer × Store}
    (hs : s.storeItem cfg c f = some (a, s'))
    (hpath : ∀ p, s.unstored c = some p → p ∈ s.held → ¬ s.Priv (some c) p →
      (∃ c, ⟨c, .item false, p⟩ ∈ s.refs) →
      (s.store.items p).flags.linked = false → (f p).2 = s'.store →
      Store.Path cfg (s.scope cfg l (some c) s.held) (s.store, s.held) ((f p).2, s.held)) :
    Effect cfg s l s' ∧ s'.Inv cfg := by
  obtain ⟨p, hp, heq⟩ := storeItem_cases hs
  obtain ⟨-, rfl⟩ := Prod.mk.inj heq
  have hmem := unstored_eq_some hp
  have hpath := hpath p hp (List.mem_map_of_mem hmem) (h.not_priv_own hmem) ⟨c, hmem⟩
    (h.unstored _ hmem rfl).1 rfl
  have hheld : s.held.Perm (Server.held ⟨(f p).2, markStored c s.refs⟩) := by
    rw [held, held, held_markStored]
  refine ⟨.path (some c) s.held s.held (h.guarded _ _) hpath hheld fun _ hp _ => hp,
    h.of_path (h.guarded _ _) hpath hheld (fun r hr hslot => .inl ?_) fun c' => ?_⟩
  · obtain ⟨h1, h2⟩ := mem_markStored hr hslot
    exact ⟨h1, fun heq => h2 (Option.some.inj heq).symm⟩
  · exact (countP_markStored c c' s.refs).trans_le (h.one c')

/-- A function without references of its own that is a path keeps the invariant. -/
theorem Inv.call (h : s.Inv cfg) {r : Answer × Store} (hs : s.call r = some (a, s'))
    (hpath : r.2 = s'.store →
      Store.Path cfg (s.scope cfg l none s.held) (s.store, s.held) (r.2, s.held)) :
    Effect cfg s l s' ∧ s'.Inv cfg := by
  obtain ⟨-, rfl⟩ := Prod.mk.inj (Option.some.inj hs)
  have hpath := hpath rfl
  exact ⟨.path none s.held s.held (h.guarded _ _) hpath (List.Perm.refl _) fun _ hp _ => hp,
    h.of_path (h.guarded _ _) hpath (List.Perm.refl _) (fun r hr _ => .inl ⟨hr, nofun⟩) h.one⟩

/-- A change of scalar variables keeps the invariant. -/
theorem Inv.callEnv (h : s.Inv cfg) {r : Answer × Store} (hs : s.call r = some (a, s'))
    (hshape : r.2.shape = s.store.shape) (hitems : r.2.items = s.store.items)
    (hslabs : r.2.slabs = s.store.slabs) (hlru : r.2.lruq = s.store.lruq)
    (hbooks : r.2.gauges = s.store.gauges ∧ r.2.links = s.store.links)
    (hcas : r.2.casIssued = s.store.casIssued) (hnalloc : r.2.nalloc = s.store.nalloc)
    (hnow : s.store.now ≤ r.2.now)
    (hlive : r.2.oldestLive = s.store.oldestLive ∨ ∃ exptime, l = .flushSet exptime ∧
      r.2.now = s.store.now ∧ r.2.oldestLive = s.store.flushallTime cfg exptime) :
    Effect cfg s l s' ∧ s'.Inv cfg := by
  obtain ⟨-, rfl⟩ := Prod.mk.inj (Option.some.inj hs)
  refine ⟨.env hshape hitems hslabs hlru hbooks hcas hnalloc rfl hnow hlive,
    h.inv.of_env hshape hslabs, fun r' hr hslot => ?_, h.one⟩
  obtain ⟨h1, h2⟩ := h.unstored r' hr hslot
  exact ⟨by simpa only [hitems] using h1, h2⟩

/-- Writes to an unstored item keep the invariant. -/
theorem Inv.writeItem (h : s.Inv cfg) {f : Item → Item} (hf : Store.Rigid f)
    (hs : s.writeItem c f = some (a, s')) : Effect cfg s l s' ∧ s'.Inv cfg := by
  obtain ⟨p, hp, heq⟩ := Option.map_eq_some_iff.1 hs
  obtain ⟨-, rfl⟩ := Prod.mk.inj heq
  have hmem := unstored_eq_some hp
  refine ⟨.write c p f hf hmem rfl, h.inv.setItem hf.toInert, fun r hr hslot => ?_, h.one⟩
  obtain ⟨hl, hcount⟩ := h.unstored r hr hslot
  refine ⟨?_, hcount⟩
  by_cases hrp : r.ptr = p
  · simpa [Store.setItem, hrp, hf.linked] using hl
  · simpa [Store.setItem, hrp] using hl

/-- Giving back a reference keeps the invariant. -/
theorem Inv.giveBack (h : s.Inv cfg) {r : Ref} (hr : r ∈ s.refs) {o : Option ℕ}
    (ho : ∀ r' ∈ s.refs.erase r, r'.slot = .item false → o ≠ some r'.conn)
    (hpriv : ¬ s.Priv o r.ptr) :
    Effect cfg s l (s.giveBack r).2 ∧ (s.giveBack r).2.Inv cfg := by
  have hmem : r.ptr ∈ s.held := List.mem_map_of_mem hr
  have hg : s.store.Guarded cfg (s.scope cfg l o (s.held.erase r.ptr)) s.held :=
    { h.guarded l o with
      priv_base := fun x hx => by
        have hne : x ≠ r.ptr := fun heq => hpriv (heq ▸ hx)
        exact (List.mem_erase_of_ne hne).2 ((h.guarded l o).priv_mem hx)
      base_mem := fun _ hx => List.mem_of_mem_erase hx }
  have hpath := hg.path_remove hmem hpriv fun _ hx => hx
  have hperm : (s.held.erase r.ptr).Perm (s.giveBack r).2.held := held_erase hr
  refine ⟨.path o _ _ hg hpath hperm fun x _ hx => hperm.mem_iff.2 hx,
    h.of_path hg hpath hperm (fun r' hr' hslot => .inl ⟨?_, ?_⟩) fun c' => ?_⟩
  · exact List.mem_of_mem_erase hr'
  · exact ho r' hr' hslot
  · exact List.erase_sublist.countP_le.trans (h.one c')

/-- Taking a reference keeps the invariant. -/
theorem Inv.keep (h : s.Inv cfg) {slot : Slot} {r : Option ItemPtr × Store}
    (hpath : Store.Path cfg (s.scope cfg l none s.held) (s.store, s.held)
      (r.2, r.1.toList ++ s.held))
    (hnew : ∀ p, r.1 = some p → slot = .item false → (r.2.items p).flags.linked = false ∧
      p ∉ s.held)
    (hone : slot = .item false → s.hasItem c = false) (hslot : slot ≠ .item true) :
    Effect cfg s l (s.keep c slot r).2 ∧ (s.keep c slot r).2.Inv cfg := by
  have hheld : (s.keep c slot r).2.held = r.1.toList ++ s.held := by
    rcases r with ⟨_ | p, st⟩ <;> rfl
  refine ⟨.path none s.held _ (h.guarded _ none) hpath (by rw [hheld]) fun _ hp _ => hp,
    h.of_path (h.guarded _ none) hpath (by rw [hheld]) (fun r' hr' hs' => ?_) fun c' => ?_⟩
  · -- the new reference is to an item that is not linked, and the only one to it
    rcases List.mem_append.1 hr' with hr' | hr'
    · refine .inr ?_
      obtain ⟨p, hp, rfl⟩ : ∃ p, r.1 = some p ∧ ⟨c, slot, p⟩ = r' := by
        simpa using hr'
      obtain ⟨hl, hout⟩ := hnew p hp hs'
      refine ⟨hl, ?_⟩
      rw [hheld, hp]
      simp [List.count_eq_zero.2 hout]
    · exact .inl ⟨hr', nofun⟩
  · -- a connection has at most one item
    have hc := h.one c'
    change (_ ++ s.refs).countP _ ≤ 1
    rw [List.countP_append]
    cases hr : r.1 with
    | none => simpa using hc
    | some p =>
      cases slot with
      | ilist => simpa using hc
      | item stored =>
        cases stored with
        | true => exact absurd rfl hslot
        | false =>
          by_cases hcc : c = c'
          · subst hcc
            have hzero : s.refs.countP (fun r => decide (r.conn = c ∧ r.slot ≠ .ilist)) = 0 := by
              have := hone rfl
              simp only [hasItem, List.any_eq_false] at this
              exact List.countP_eq_zero.2 fun r hr => by simpa using this r hr
            rw [hzero]
            simp
          · simpa [hcc] using hc

/-- **Every step of the server is a path of primitives or a change of scalar variables**, and
keeps the invariant as long as no slab count wraps. -/
theorem Inv.step (h : s.Inv cfg) (hs : s.step cfg l = some (a, s'))
    (hov : s'.store.overflow = false) : Effect cfg s l s' ∧ s'.Inv cfg := by
  -- no count has wrapped, so there was room for every reference
  have hroom : ∀ {n : ℕ} {st : Store}, st = s'.store → st.Room s.held n := fun heq =>
    .inl (heq ▸ hov)
  cases l with
  | alloc c key dataflags exptime nbyte ch =>
    simp only [Server.step] at hs
    split_ifs at hs with hen
    rw [not_or, not_or] at hen
    obtain ⟨hitem, hid, -⟩ := hen
    obtain ⟨-, rfl⟩ := Prod.mk.inj (Option.some.inj hs)
    refine h.keep ((h.guarded _ none).path_itemAlloc hid (hroom rfl)) (fun p hp _ => ?_)
      (fun _ => by simpa using hitem) (by simp)
    rcases Store.itemAlloc_cases h.inv.wf h.inv.full (Store.itemSlabid_valid hid) ch key
      dataflags exptime nbyte with heq | ⟨p', u, hh, heq⟩
    · rw [heq] at hp
      cases hp
    · rw [heq] at hp ⊢
      obtain rfl := Option.some.inj hp
      exact ⟨by simp [Store.allocItem], hh.not_held h.inv.toCounts⟩
  | fill c off bytes =>
    simp only [Server.step] at hs
    split_ifs at hs
    exact h.writeItem (f := fun it => it.write (it.data cfg + off) bytes)
      ⟨⟨by constructor <;> intro it <;> rfl, fun _ => rfl⟩, fun _ => rfl⟩ hs
  | reqCas c cas =>
    exact h.writeItem (f := fun it => it.setCas cas)
      ⟨⟨by constructor <;> intro it <;> simp, fun it => by simp⟩, fun it => by simp⟩ hs
  | set c ch =>
    exact h.storeItem hs fun p _ hp hpriv hlink hl heq =>
      (h.guarded _ _).path_itemSet hp hpriv hlink hl (hroom heq)
  | cas c ch =>
    exact h.storeItem hs fun p _ hp hpriv hlink hl heq =>
      (h.guarded _ _).path_itemCas hp hpriv hlink hl (hroom heq)
  | add c ch =>
    exact h.storeItem hs fun p _ hp hpriv hlink hl heq =>
      (h.guarded _ _).path_itemAdd hp hpriv hlink hl (hroom heq)
  | replace c ch =>
    exact h.storeItem hs fun p _ hp hpriv hlink hl heq =>
      (h.guarded _ _).path_itemReplace hp hpriv hlink hl (hroom heq)
  | annex c prepend ch =>
    exact h.storeItem hs fun p hit _ _ _ hl heq => (h.guarded _ _).path_itemAnnex
      (fun q hq => Option.bind_eq_some_iff.2 ⟨p, hit, hq⟩)
      (fun q hq hsize => by simpa [resized, hit, hq] using hsize) hl (hroom heq)
  | removeItem c =>
    obtain ⟨r, hr, heq⟩ := Option.map_eq_some_iff.1 hs
    have hmem := List.mem_of_find?_eq_some hr
    have hprop := List.find?_some hr
    simp only [decide_eq_true_eq] at hprop
    obtain rfl : s' = (s.giveBack r).2 := by rw [heq]
    refine h.giveBack hmem (o := some c) (fun r' hr' hslot hcc => ?_) ?_
    · -- the connection has no second item
      have hone := h.one c
      have hsplit := (List.perm_cons_erase hmem).countP_eq fun r =>
        decide (r.conn = c ∧ r.slot ≠ .ilist)
      have hpos : 0 < (s.refs.erase r).countP fun r => decide (r.conn = c ∧ r.slot ≠ .ilist) :=
        List.countP_pos_iff.2 ⟨r', hr', by simp [hslot, Option.some.inj hcc]⟩
      rw [List.countP_cons_of_pos (by simpa using hprop)] at hsplit
      omega
    · rintro ⟨r', hr', hslot, hne, hptr⟩
      exact hne (by rw [← h.eq_of_ptr hr' hmem hslot hptr.symm, hprop.1])
  | get c key =>
    obtain ⟨-, rfl⟩ := Prod.mk.inj (Option.some.inj hs)
    exact h.keep ((h.guarded _ none).path_itemGet (hroom rfl)) (fun p _ hslot => by cases hslot)
      (fun hslot => by cases hslot) (by simp)
  | touch c p =>
    simp only [Server.step] at hs
    split_ifs at hs with hmem
    have hprim : Store.Prim cfg (s.scope cfg (.touch c p) none s.held) (s.store, s.held)
        (s.store.itemTouch cfg p, s.held) :=
      .touch (List.mem_map_of_mem (f := Ref.ptr) hmem) rfl rfl
    exact h.call hs fun _ => .single hprim h.inv.fits
  | remove c p =>
    simp only [Server.step] at hs
    split_ifs at hs with hmem
    obtain rfl : s' = (s.giveBack ⟨c, .ilist, p⟩).2 := by rw [Option.some.inj hs]
    refine h.giveBack hmem (o := none) (fun _ _ _ h => by cases h) ?_
    rintro ⟨r', hr', hslot, -, hptr⟩
    have heq := h.eq_of_ptr hr' hmem hslot hptr.symm
    rw [← heq] at hslot
    cases hslot
  | delete key => exact h.call hs fun heq => (h.guarded _ none).path_itemDelete (hroom heq)
  | delta key incr delta ch =>
    simp only [Server.step] at hs
    split_ifs at hs with hid
    exact h.call hs fun heq => (h.guarded _ none).path_itemDelta hid
      (fun _ hp => hp) (fun p v hp hv hsize => by simpa [resized, hp, hv] using hsize) (hroom heq)
  | flushSet exptime =>
    exact h.callEnv hs rfl rfl rfl rfl ⟨rfl, rfl⟩ rfl rfl le_rfl (.inr ⟨exptime, rfl, rfl, rfl⟩)
  | flushExpired => exact h.call hs fun _ => (h.guarded _ none).path_itemFlushExpired
  | moveBucket => exact h.call hs fun _ => .single .moveBucket h.inv.fits
  | tick now =>
    simp only [Server.step] at hs
    split_ifs at hs with hnow
    exact h.callEnv hs rfl rfl rfl rfl ⟨rfl, rfl⟩ rfl rfl hnow.1 (.inl rfl)
  | evict opt => exact h.callEnv hs rfl rfl rfl rfl ⟨rfl, rfl⟩ rfl rfl le_rfl (.inl rfl)

/-! ### Runs -/

variable {now evictOpt : ℕ} {slabs : ℕ → Slab} {items : ItemPtr → Item}

theorem inv_init : (init cfg now evictOpt slabs items).Inv cfg where
  inv :=
    { wf :=
        { table_eq := rfl
          slab_mem := fun _ hsl => hsl
          slab_nodup := List.nodup_nil
          slab_id := fun sl hsl => absurd hsl List.not_mem_nil
          item_id := fun p hp => absurd hp.1 List.not_mem_nil
          free := fun id => ⟨List.nodup_nil, fun p =>
            ⟨fun hp => absurd hp List.not_mem_nil, fun hp => absurd hp.1.1 List.not_mem_nil⟩⟩
          free_len := fun _ => rfl
          lru := fun id => ⟨List.nodup_nil, fun p =>
            ⟨fun hp => absurd hp List.not_mem_nil, fun hp => absurd hp.1.1 List.not_mem_nil⟩⟩
          lru_len := (Finset.sum_eq_zero fun _ _ => rfl).symm
          assoc_wf := Assoc.wf_init _
          assoc_has := fun p => ⟨fun hp => absurd hp (Assoc.not_has_init _ p), fun hp =>
            absurd hp.1.1 List.not_mem_nil⟩
          key_inj := fun p _ hp => absurd hp (Assoc.not_has_init _ p)
          cur := fun _ _ hq => by cases hq
          cur_none := fun _ _ => rfl
          tail := fun _ _ hp => absurd hp.1 List.not_mem_nil
          slabbed := fun _ hp => absurd hp.1 List.not_mem_nil
          ref_lt := fun _ hp => absurd hp.1 List.not_mem_nil
          slab_ref := fun _ hsl => absurd hsl List.not_mem_nil }
      full := fun _ hsl => hsl
      active := fun _ hp => absurd hp List.not_mem_nil
      ref := fun _ hp => absurd hp.1 List.not_mem_nil
      fits := fun _ => by simp [held, init]
      place := fun _ hp => absurd hp.1 List.not_mem_nil }
  unstored := fun _ hr => absurd hr List.not_mem_nil
  one := fun _ => by simp [init]

/-- Steps in which no slab has more than 65535 references. -/
def NoWrap (_ : Server) (_ : Label) (s' : Server) : Prop := s'.store.overflow = false

instance (s : Server) (l : Label) (s' : Server) : Decidable (NoWrap s l s') :=
  inferInstanceAs (Decidable (_ = _))

/-- **Run rule.**  Along a run in which no slab count wraps the invariant holds, and so does any
property that is kept by all that a step can do. -/
theorem Inv.run {C : Server → Label → Server → Prop} {I : Server → Prop} (h : s.Inv cfg) (hI : I s)
    (hr : (server cfg).Reaches C s s') (hC : ∀ s l s', C s l s' → NoWrap s l s')
    (hstep : ∀ s l a s', s.Inv cfg → I s → s.step cfg l = some (a, s') → C s l s' →
      Effect cfg s l s' → I s') : s'.Inv cfg ∧ I s' :=
  hr.invariant (I := fun s => s.Inv cfg ∧ I s) ⟨h, hI⟩ fun s l a s' hs hst hc =>
    ⟨(hs.1.step hst (hC s l s' hc)).2,
      hstep s l a s' hs.1 hs.2 hst hc (hs.1.step hst (hC s l s' hc)).1⟩

theorem inv_of_reaches (h : (server cfg).Reaches NoWrap (init cfg now evictOpt slabs items) s) :
    s.Inv cfg :=
  (inv_init.run (I := fun _ => True) trivial h (fun _ _ _ h => h)
    fun _ _ _ _ _ _ _ _ _ => trivial).1

theorem linked_of_shape (cfg : Config) {st st' : Store} (h : st'.shape = st.shape) (p : ItemPtr) :
    st'.Linked cfg p ↔ st.Linked cfg p := by
  have hl : (st'.items p).flags.linked = (st.items p).flags.linked :=
    congrFun (congrArg Shape.linked h) p
  rw [Store.Linked, Store.Linked, Store.Active, Store.Active, h, hl]

/-- Cas ids are issued one after another. -/
theorem Effect.casIssued (he : Effect cfg s l s') : s.store.casIssued ≤ s'.store.casIssued := by
  cases he with
  | path o base held' hg hp hperm hbase => exact (hp.later hg).casIssued
  | write c p f hf hmem heq => rw [heq]; exact le_rfl
  | env hshape hitems hslabs hlru hbooks hcas hnalloc hrefs hnow hlive => exact hcas.ge

/-- Steps keep the stamps of items. -/
theorem Effect.stamped (he : Effect cfg s l s') (hi : s.Inv cfg) (h : s.store.Stamped cfg s.held) :
    s'.store.Stamped cfg s'.held := by
  cases he with
  | path o base held' hg hp hperm hbase =>
    obtain ⟨h1, h2, h3⟩ := hp.stamped hg h
    exact ⟨fun p hp => h1 p (hp.imp_right hperm.mem_iff.2),
      fun p hp => h2 p (hp.imp_right hperm.mem_iff.2), h3⟩
  | write c p f hf hmem heq =>
    subst heq
    have hlinked := linked_of_shape cfg
      (Store.shape_setItem_of_inert (s := s.store) (p := p) hf.toInert)
    have hitem : ∀ q, q ≠ p → (s.store.setItem p f).items q = s.store.items q := fun q hq =>
      Function.update_of_ne hq _ _
    have hself : (s.store.setItem p f).items p = f (s.store.items p) := Function.update_self ..
    refine ⟨fun q hq => ?_, fun q hq => ?_, fun hc q hq => ?_⟩
    · have hgen := h.gen q (hq.imp_left (hlinked q).1)
      by_cases hqp : q = p
      · subst hqp
        rwa [hself, hf.gen]
      · rwa [hitem q hqp]
    · have hflag := h.flag q (hq.imp_left (hlinked q).1)
      by_cases hqp : q = p
      · subst hqp
        rwa [hself, hf.cas]
      · rwa [hitem q hqp]
    · -- the item that is written to is not linked
      have hqp : q ≠ p := fun hqp => by
        have hl := ((hlinked q).1 hq).2
        rw [hqp, (hi.unstored _ hmem rfl).1] at hl
        cases hl
      rw [hitem q hqp]
      exact h.cas hc q ((hlinked q).1 hq)
  | env hshape hitems hslabs hlru hbooks hcas hnalloc hrefs hnow hlive =>
    have hlinked := linked_of_shape cfg hshape
    have hheld : s'.held = s.held := congrArg (List.map Ref.ptr) hrefs
    rw [hheld]
    exact ⟨fun p hp => by rw [hitems, hnalloc]; exact h.gen p (hp.imp_left (hlinked p).1),
      fun p hp => by rw [hitems]; exact h.flag p (hp.imp_left (hlinked p).1),
      fun hc p hp => by rw [hitems, hcas]; exact h.cas hc p ((hlinked p).1 hp)⟩

theorem stamped_init : (init cfg now evictOpt slabs items).store.Stamped cfg [] where
  gen := fun _ hp => absurd hp fun hp => hp.elim (fun hl => List.not_mem_nil hl.1.1)
    List.not_mem_nil
  flag := fun _ hp => absurd hp fun hp => hp.elim (fun hl => List.not_mem_nil hl.1.1)
    List.not_mem_nil
  cas := fun _ _ hp => absurd hp.1.1 List.not_mem_nil

/-- In every reachable state the items that can be seen have stamps. -/
theorem stamped_of_reaches
    (h : (server cfg).Reaches NoWrap (init cfg now evictOpt slabs items) s) :
    s.store.Stamped cfg s.held :=
  (inv_init.run stamped_init h (fun _ _ _ h => h) fun _ _ _ _ hi hI _ _ he => he.stamped hi hI).2

end Server

end Twemcache
