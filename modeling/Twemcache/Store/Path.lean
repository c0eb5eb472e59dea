import Twemcache.Store.Inv

/-!
# Item functions as sequences of primitives

What a thread does while it holds `cache_lock` is a sequence of a few primitives: it takes and
gives back references, allocates, links, unlinks and rewrites items.  `Prim` lists them, each with
what is known when it runs, and a `Path` is a sequence of them.  Every function of the item
module is a path from any store that satisfies the invariant.  A property of stores is then
shown to survive all of the functions by showing that it survives each primitive.

A `Scope` says which items a path may concern.  Items that other connections have allocated and
not stored yet are private to them, and no primitive of a path touches them; some references are
not given back; and only certain items are linked, touched or overwritten.
-/

namespace Twemcache

namespace Store

/-- What a sequence of primitives may do. -/
structure Scope where
  /-- Items that are not to be touched. -/
  priv : ItemPtr → Prop
  /-- Items of which a reference remains. -/
  base : List ItemPtr
  /-- The number of items allocated before. -/
  start : ℕ
  /-- Items, of those that exist, that may be linked. -/
  link : ItemPtr → Prop
  /-- Items that may be touched. -/
  touch : ItemPtr → Prop
  /-- Items whose value may be extended in place. -/
  annex : ItemPtr → Prop
  /-- Items whose value may be overwritten. -/
  delta : ItemPtr → Prop
  /-- The lengths that a value may have before and after it is extended or overwritten. -/
  resize : ℕ → ℕ → Prop

variable (cfg : Config) (sc : Scope)

/-- A primitive of the item module, within a scope.  The second component lists the outstanding
references. -/
inductive Prim : Store × List ItemPtr → Store × List ItemPtr → Prop
  /-- A reference to a linked item is taken. -/
  | acquire {s : Store} {held : List ItemPtr} {p : ItemPtr} (hp : s.Linked cfg p) :
      Prim (s, held) (s.itemAcquireRefcount p, p :: held)
  /-- A reference is given back. -/
  | remove {s : Store} {held : List ItemPtr} {p : ItemPtr} (hp : p ∈ held) (hpriv : ¬ sc.priv p)
      (hbase : ∀ x ∈ sc.base, x ∈ held.erase p) :
      Prim (s, held) (s.itemRemove p, held.erase p)
  /-- A linked item is unlinked. -/
  | unlink {s : Store} {held : List ItemPtr} {p : ItemPtr} (hp : s.Linked cfg p) :
      Prim (s, held) (s.itemUnlink cfg p, held)
  /-- An item that only its holders know is linked, under a key that is not in use. -/
  | link {s : Store} {held : List ItemPtr} {ch : Choice} {p : ItemPtr} (hp : p ∈ held)
      (hpriv : ¬ sc.priv p) (hlink : sc.link p ∨ sc.start ≤ (s.items p).gen)
      (hl : (s.items p).flags.linked = false)
      (hkey : ∀ q, s.Linked cfg q → (s.items q).key ≠ (s.items p).key) :
      Prim (s, held) (s.itemLink cfg ch p, held)
  /-- A referenced item is touched. -/
  | touch {s t : Store} {held : List ItemPtr} {p : ItemPtr} (hp : p ∈ held) (hsc : sc.touch p)
      (ht : t = s.itemTouch cfg p) : Prim (s, held) (t, held)
  /-- An item is allocated. -/
  | alloc {s t : Store} {held : List ItemPtr} {id : ℕ} {p : ItemPtr} (hh : Hands cfg id s p t)
      (hchunk : ∃ ch, s.itemAllocChunk cfg ch id = (some p, t)) (key : Key)
        (dataflags exptime nbyte : ℕ) (hid : id = itemSlabid cfg key.length nbyte) :
      Prim (s, held) (t.itemAllocDone cfg p key dataflags exptime nbyte, p :: held)
  /-- An item allocated on the way is written to. -/
  | write {s : Store} {held : List ItemPtr} {p : ItemPtr} {f : Item → Item} (hp : p ∈ held)
      (hnew : p ∉ sc.base) (hl : (s.items p).flags.linked = false)
      (hf : Sized f) : Prim (s, held) (s.setItem p f, held)
  /-- Bytes are put next to the value of a linked item. -/
  | annex {s : Store} {held : List ItemPtr} {prepend : Bool} {p : ItemPtr} {bytes : List UInt8}
      (hp : s.Linked cfg p) (hheld : p ∈ held) (hsc : sc.annex p)
      (hid : itemSlabid cfg (s.items p).key.length ((s.items p).nbyte + bytes.length) =
        (s.items p).id) (hralign : (s.items p).flags.ralign = prepend)
      (hsize : sc.resize (s.items p).nbyte ((s.items p).nbyte + bytes.length)) :
      Prim (s, held) (s.itemAnnexInPlace cfg prepend p bytes, held)
  /-- The value of a linked item is overwritten with a number. -/
  | delta {s : Store} {held : List ItemPtr} {p : ItemPtr} {buf : List UInt8}
      (hp : s.Linked cfg p) (hheld : p ∈ held) (hsc : sc.delta p)
      (hlen : buf.length ≤ (s.items p).nbyte) (hsize : sc.resize (s.items p).nbyte buf.length) :
      Prim (s, held) (s.itemDeltaInPlace cfg p buf, held)
  /-- A bucket of the hash table moves. -/
  | moveBucket {s : Store} {held : List ItemPtr} : Prim (s, held) (s.assocMoveBucket cfg, held)

/-- A sequence of primitives in which all references fit into the counts. -/
def Path : Store × List ItemPtr → Store × List ItemPtr → Prop :=
  Relation.ReflTransGen fun a b => Prim cfg sc a b ∧ Fits b.2

variable {cfg sc} {ch : Choice} {s s' : Store} {p q it : ItemPtr} {held : List ItemPtr} {key : Key}

/-! ### Primitives keep the invariant -/

/-- The item after an in-place append or prepend. -/
def annexItem (cfg : Config) (s : Store) (prepend : Bool) (bytes : List UInt8) :
    Item → Item := fun o =>
  ({ o.write (if prepend then o.data cfg - bytes.length else o.data cfg + o.nbyte) bytes with
    nbyte := o.nbyte + bytes.length }).setCas (s.itemNextCas cfg).1

theorem itemAnnexInPlace_eq (prepend : Bool) (p : ItemPtr) (bytes : List UInt8) :
    s.itemAnnexInPlace cfg prepend p bytes =
      { s.setItem p (s.annexItem cfg prepend bytes) with
        casIssued := (s.itemNextCas cfg).2.casIssued } := by
  simp only [itemAnnexInPlace, itemNextCas_setItem]
  simp only [setItem, annexItem, Function.update_self, Function.update_idem]

theorem itemNextCas_eq (s : Store) : s.itemNextCas cfg =
    ((s.itemNextCas cfg).1, { s with casIssued := (s.itemNextCas cfg).2.casIssued }) := by
  simp only [itemNextCas]
  split_ifs <;> rfl

/-- The item after an in-place increment. -/
def deltaItem (cfg : Config) (s : Store) (buf : List UInt8) : Item → Item := fun it =>
  { (it.setCas (s.itemNextCas cfg).1).write ((it.setCas (s.itemNextCas cfg).1).data cfg) buf with
    nbyte := buf.length }

theorem itemDeltaInPlace_eq (p : ItemPtr) (buf : List UInt8) :
    s.itemDeltaInPlace cfg p buf =
      { s.setItem p (s.deltaItem cfg buf) with
        casIssued := (s.itemNextCas cfg).2.casIssued } := by
  have hcas : s.itemNextCas cfg = _ := itemNextCas_eq s
  unfold itemDeltaInPlace deltaItem
  generalize (s.itemNextCas cfg) = r at hcas ⊢
  obtain ⟨cas, t⟩ := r
  simp only [Prod.mk.injEq, true_and] at hcas
  rw [hcas]
  rfl

/-- The new item of `item_annex`, filled. -/
def annexFillItem (cfg : Config) (prepend : Bool) (old bytes : List UInt8) : Item → Item := fun n =>
  if prepend then
    let n := { n with flags := { n.flags with ralign := true } }
    (n.write (n.data cfg) bytes).write (n.data cfg + bytes.length) old
  else (n.write (n.data cfg) old).write (n.data cfg + old.length) bytes

theorem itemAnnexFill_eq (prepend : Bool) (p : ItemPtr) (old bytes : List UInt8) :
    s.itemAnnexFill cfg prepend p old bytes =
      s.setItem p (annexFillItem cfg prepend old bytes) := by
  cases prepend <;> rfl

theorem sized_annexFillItem (prepend : Bool) (old bytes : List UInt8) :
    Sized (annexFillItem cfg prepend old bytes) := by
  refine ⟨?_, fun it => by cases prepend <;> simp [annexFillItem, Item.write]⟩
  constructor <;> intro it <;> cases prepend <;> simp [annexFillItem, Item.write]

theorem overflow_itemAnnexInPlace {prepend : Bool} {bytes : List UInt8} :
    (s.itemAnnexInPlace cfg prepend p bytes).overflow = s.overflow := by
  rw [itemAnnexInPlace_eq]
  rfl

theorem overflow_itemDeltaInPlace {buf : List UInt8} :
    (s.itemDeltaInPlace cfg p buf).overflow = s.overflow := by
  rw [itemDeltaInPlace_eq]
  rfl

theorem inert_annexItem (prepend : Bool) (bytes : List UInt8) :
    Inert (s.annexItem cfg prepend bytes) := by
  constructor <;> intro it <;> simp [annexItem, Item.write]

theorem inert_deltaItem (buf : List UInt8) : Inert (s.deltaItem cfg buf) := by
  constructor <;> intro it <;> simp [deltaItem, Item.write]

theorem sized_deltaFill {buf : List UInt8} :
    Sized fun n : Item => n.write (n.data cfg) buf := by
  refine ⟨?_, fun it => rfl⟩
  constructor <;> intro it <;> rfl

theorem Prim.inv {held' : List ItemPtr} (hs : Prim cfg sc (s, held) (s', held'))
    (h : Inv cfg s held) (hfit : Fits held') : Inv cfg s' held' := by
  cases hs with
  | acquire hp => exact h.acquire hp hfit
  | remove hp hpriv hbase => exact h.remove hp
  | unlink hp => exact h.unlink hp
  | link hp hpriv hlink hl hkey => exact h.link _ hp hl hkey
  | touch hp hsc ht =>
    rw [ht]
    exact h.touch (h.active _ hp)
  | alloc hh hchunk key dataflags exptime nbyte =>
    exact h.itemAllocDone hh key dataflags exptime nbyte hfit
  | write hp hnew hl hf => exact h.setItem hf.toInert
  | annex hp hheld hsc hid hralign hsize =>
    rw [itemAnnexInPlace_eq]
    exact (h.setItem (inert_annexItem _ _)).of_env rfl rfl
  | delta hp hheld hsc hlen hsize =>
    rw [itemDeltaInPlace_eq]
    exact (h.setItem (inert_deltaItem _)).of_env rfl rfl
  | moveBucket => exact h.assocMoveBucket

theorem Path.inv {a b : Store × List ItemPtr} (hs : Path cfg sc a b) (h : Inv cfg a.1 a.2) :
    Inv cfg b.1 b.2 := by
  induction hs with
  | refl => exact h
  | tail _ hstep ih => exact hstep.1.inv ih hstep.2

theorem Path.single {held' : List ItemPtr} (hs : Prim cfg sc (s, held) (s', held'))
    (hfit : Fits held') : Path cfg sc (s, held) (s', held') :=
  Relation.ReflTransGen.single ⟨hs, hfit⟩

theorem Path.trans {a b c : Store × List ItemPtr} (h : Path cfg sc a b) (h' : Path cfg sc b c) :
    Path cfg sc a c := Relation.ReflTransGen.trans h h'

theorem Fits.sublist {l l' : List ItemPtr} (h : Fits l) (hl : l'.Sublist l) : Fits l' :=
  fun sl => hl.countP_le.trans_lt (h sl)

/-- The item whose value `item_annex` extends in place, if it does. -/
def annexTarget (cfg : Config) (s : Store) (prepend : Bool) (it : ItemPtr) : Option ItemPtr :=
  match (s.itemGet cfg (s.keyOf it)).1 with
  | none => none
  | some oit =>
    let id := itemSlabid cfg (s.items oit).key.length ((s.items oit).nbyte + (s.items it).nbyte)
    if id ≠ slabclassInvalidId ∧ id = (s.items oit).id ∧ (s.items oit).flags.ralign = prepend then
      some oit
    else none

/-- The item whose value `item_delta` overwrites, if it does. -/
def deltaTarget (cfg : Config) (s : Store) (key : Key) (incr : Bool) (delta : ℕ) :
    Option ItemPtr :=
  match (s.itemGet cfg key).1 with
  | none => none
  | some p =>
    match mcStrtoullLen ((s.items p).value cfg) with
    | none => none
    | some v =>
      if (decimal (deltaValue v incr delta)).length > (s.items p).nbyte then none else some p

/-! ### Looking an item up -/

theorem Wf.assocFind_eq_some_iff (h : s.Wf cfg) :
    s.assocFind cfg key = some p ↔ s.Linked cfg p ∧ (s.items p).key = key :=
  ((Shape.Wf.assoc_wf h).find_eq_some_iff (Shape.Wf.key_inj h)).trans
    (and_congr_left' (Shape.Wf.assoc_has h p))

theorem Wf.assocFind_eq_none_iff (h : s.Wf cfg) :
    s.assocFind cfg key = none ↔ ∀ q, s.Linked cfg q → (s.items q).key ≠ key :=
  ((Shape.Wf.assoc_wf h).find_eq_none_iff (Shape.Wf.key_inj h)).trans
    (forall_congr' fun q => imp_congr_left (Shape.Wf.assoc_has h q))

theorem Wf.eq_of_key (h : s.Wf cfg) (hp : s.Linked cfg p) (hq : s.Linked cfg q)
    (hkey : (s.items p).key = (s.items q).key) : p = q :=
  Shape.Wf.key_inj h p q ((Shape.Wf.assoc_has h p).2 hp) ((Shape.Wf.assoc_has h q).2 hq) hkey

/-- An item that `_item_get` does not return. -/
def dead (s : Store) (p : ItemPtr) : Bool := s.expired p || s.flushed p

/-- What `item_get` can do. -/
theorem Wf.itemGet_cases (h : s.Wf cfg) (key : Key) :
    (∀ q, s.Linked cfg q → (s.items q).key ≠ key) ∧ s.itemGet cfg key = (none, s) ∨
    ∃ p, s.Linked cfg p ∧ (s.items p).key = key ∧
      (s.dead p = true ∧ s.itemGet cfg key = (none, s.itemUnlink cfg p) ∨
        s.dead p = false ∧ s.itemGet cfg key = (some p, s.itemAcquireRefcount p)) := by
  simp only [itemGet]
  cases hfind : s.assocFind cfg key with
  | none => exact .inl ⟨h.assocFind_eq_none_iff.1 hfind, rfl⟩
  | some p =>
    obtain ⟨hp, hkey⟩ := h.assocFind_eq_some_iff.1 hfind
    refine .inr ⟨p, hp, hkey, ?_⟩
    simp only [dead]
    cases hexp : s.expired p <;> cases hfl : s.flushed p <;> simp

/-! ### What unlinking and removing change -/

theorem itemUnlink_items_of_ne (hq : q ≠ p) : (s.itemUnlink cfg p).items q = s.items q := by
  simp only [itemUnlink]
  split_ifs <;> simp [hq]

/-- Unlinking changes no content. -/
@[simp] theorem itemUnlink_content (p q : ItemPtr) :
    ((s.itemUnlink cfg p).items q).content = (s.items q).content := by
  by_cases hq : q = p
  · subst hq
    simp only [itemUnlink]
    split_ifs <;> simp [Item.content]
  · rw [itemUnlink_items_of_ne hq]

theorem itemUnlink_linked (p : ItemPtr) :
    ((s.itemUnlink cfg p).items p).flags.linked = false := by
  simp only [itemUnlink]
  split_ifs with hl hr
  · simp
  · simp
  · simpa using hl

@[simp] theorem itemUnlink_env (p : ItemPtr) : (s.itemUnlink cfg p).env = s.env := by
  simp only [itemUnlink]
  split_ifs <;> simp only [itemReuse_env, slabPutItem_env]

theorem keeps_itemUnlink (p : ItemPtr) : Keeps s (s.itemUnlink cfg p) := by
  have hk : Keeps s (s.itemReuse cfg p) := .of_trims (trims_itemReuse p)
  simp only [itemUnlink]
  split_ifs
  · exact hk.trans (keeps_slabPutItem p)
  · exact hk
  · exact Keeps.refl s

/-- Exactly the unlinked item is not linked any more. -/
theorem linked_itemUnlink : (s.itemUnlink cfg p).Linked cfg q ↔ s.Linked cfg q ∧ q ≠ p := by
  by_cases hq : q = p
  · subst hq
    simp [Linked, itemUnlink_linked]
  · rw [(keeps_itemUnlink p).linked (by rw [itemUnlink_items_of_ne hq])]
    simp [hq]

theorem itemRemove_items_of_ne (hq : q ≠ p) : (s.itemRemove p).items q = s.items q := by
  simp only [itemRemove]
  split_ifs <;> simp only [slabPutItem_items, itemReleaseRefcount_items, ne_eq, hq,
    not_false_eq_true, Function.update_of_ne]

/-- Whatever does not depend on the count and on the free queue is left alone. -/
theorem itemRemove_same {α : Type} {f : Item → α} (hf : ∀ it r b,
    f { it with refcount := r, flags := { it.flags with slabbed := b } } = f it) (p q : ItemPtr) :
    f ((s.itemRemove p).items q) = f (s.items q) := by
  have hrel : f ((s.itemReleaseRefcount p).items q) = f (s.items q) := by
    rw [itemReleaseRefcount_same]
    exact hf (s.items q) _ _
  have hput : ∀ t : Store, f ((t.slabPutItem p).items q) = f (t.items q) := by
    intro t
    rw [slabPutItem_items]
    by_cases hq : q = p
    · rw [hq, Function.update_self]
      exact hf (t.items p) _ _
    · rw [Function.update_of_ne hq]
  simp only [itemRemove]
  split_ifs
  · exact (hput _).trans hrel
  · exact hrel
  · exact hput s
  · rfl

/-- Giving a reference back changes no content. -/
@[simp] theorem itemRemove_content (p q : ItemPtr) :
    ((s.itemRemove p).items q).content = (s.items q).content :=
  itemRemove_same (fun _ _ _ => rfl) p q

theorem itemRemove_linked (p : ItemPtr) :
    ((s.itemRemove p).items q).flags.linked = (s.items q).flags.linked :=
  itemRemove_same (f := fun it => it.flags.linked) (fun _ _ _ => rfl) p q

@[simp] theorem itemRemove_env (p : ItemPtr) : (s.itemRemove p).env = s.env := by
  simp only [itemRemove]
  split_ifs <;> simp only [itemReleaseRefcount_env, slabPutItem_env]

theorem keeps_itemRemove (p : ItemPtr) : Keeps s (s.itemRemove p) := by
  have hstep : ∀ t, Keeps s t → Keeps s (if (t.items p).refcount = 0 ∧
      ¬ (t.items p).flags.linked then t.slabPutItem p else t) := fun t hk => by
    split_ifs
    · exact hk.trans (keeps_slabPutItem p)
    · exact hk
  refine hstep _ ?_
  split_ifs
  · exact keeps_itemReleaseRefcount p
  · exact Keeps.refl s

theorem keeps_itemLink (ch : Choice) (hp : s.Active cfg p) : Keeps s (s.itemLink cfg ch p) := by
  rw [itemLink_eq]
  have hk : Keeps s (s.linkBare cfg ch p) := ⟨fun _ => rfl, rfl, fun _ => Iff.rfl, fun _ => rfl,
    fun _ => rfl⟩
  exact hk.trans (keeps_slabLruqTouch ((hk.slabLruq _).2 hp.1) true)

theorem linked_itemLink (hp : s.Active cfg p) :
    (s.itemLink cfg ch p).Linked cfg q ↔ s.Linked cfg q ∨ q = p := by
  have hk := keeps_itemLink ch hp
  by_cases hq : q = p
  · subst hq
    simp [Linked, hk.active, hp, linkItem]
  · rw [hk.linked (by simp [hq])]
    simp [hq]

/-! ### Scalar variables -/

/-- The scalar variables change in one direction. -/
structure Later (s s' : Store) : Prop where
  /-- The clock stands still. -/
  now : s'.now = s.now
  /-- `oldest_live` is not written. -/
  oldestLive : s'.oldestLive = s.oldestLive
  /-- Cas ids are issued. -/
  casIssued : s.casIssued ≤ s'.casIssued
  /-- Items are allocated. -/
  nalloc : s.nalloc ≤ s'.nalloc

theorem Later.refl (s : Store) : Later s s := ⟨rfl, rfl, le_rfl, le_rfl⟩

theorem Later.trans {s'' : Store} (h : Later s s') (h' : Later s' s'') : Later s s'' :=
  ⟨h'.now.trans h.now, h'.oldestLive.trans h.oldestLive, h.casIssued.trans h'.casIssued,
    h.nalloc.trans h'.nalloc⟩

theorem Later.of_env (h : s'.env = s.env) : Later s s' :=
  ⟨congrArg Env.now h, congrArg Env.oldestLive h, (congrArg Env.casIssued h).ge,
    (congrArg Env.nalloc h).ge⟩

theorem casIssued_le_next : s.casIssued ≤ (s.itemNextCas cfg).2.casIssued := by
  simp only [itemNextCas]
  split_ifs <;> simp

theorem later_next (h : s'.env = { s.env with casIssued := (s.itemNextCas cfg).2.casIssued }) :
    Later s s' :=
  ⟨congrArg Env.now h, congrArg Env.oldestLive h,
    casIssued_le_next.trans (congrArg Env.casIssued h).ge, (congrArg Env.nalloc h).ge⟩

theorem later_itemAllocDone (cfg : Config) (p : ItemPtr) (key : Key) (dataflags exptime nbyte : ℕ) :
    Later s (s.itemAllocDone cfg p key dataflags exptime nbyte) := by
  unfold itemAllocDone itemAcquireRefcount slabAcquireRefcount
  exact ⟨rfl, rfl, le_rfl, Nat.le_succ _⟩

theorem Prim.later {held' : List ItemPtr} (hs : Prim cfg sc (s, held) (s', held')) :
    Later s s' := by
  cases hs with
  | acquire hp => exact ⟨rfl, rfl, le_rfl, le_rfl⟩
  | remove hp hpriv hbase => exact .of_env (itemRemove_env _)
  | unlink hp => exact .of_env (itemUnlink_env _)
  | link hp hpriv hlink hl hkey => exact later_next (itemLink_env _)
  | @touch _ _ _ p hp hsc ht =>
    rw [ht]
    rcases itemTouch_eq (s := s) cfg p with heq | ⟨-, -, heq⟩
    · rw [heq]
      exact .refl s
    · rw [heq]
      exact .of_env (slabLruqTouch_env (s := s.touchBare p) p.slab false)
  | @alloc _ t _ id p hh hchunk key dataflags exptime nbyte hid =>
    exact (Later.of_env hh.env).trans (later_itemAllocDone cfg p key dataflags exptime nbyte)
  | write hp hnew hl hf => exact ⟨rfl, rfl, le_rfl, le_rfl⟩
  | annex hp hheld hsc hid hralign hsize =>
    rw [itemAnnexInPlace_eq]
    exact later_next rfl
  | delta hp hheld hsc hlen hsize =>
    rw [itemDeltaInPlace_eq]
    exact later_next rfl
  | moveBucket => exact ⟨rfl, rfl, le_rfl, le_rfl⟩

/-! ### The functions as paths -/

theorem Room.of_overflow {held' : List ItemPtr} {n n' : ℕ} (h : Room s' held' n')
    (hov : s'.overflow = false → s.overflow = false) (hlen : held.length + n ≤ held'.length + n') :
    Room s held n :=
  h.imp hov hlen.trans_lt

theorem overflow_of_env (henv : s'.env = s.env) (h : s'.overflow = false) : s.overflow = false :=
  (congrArg Env.overflow henv).symm.trans h

theorem overflow_of_acquire (h : (s.itemAcquireRefcount p).overflow = false) :
    s.overflow = false := (Bool.or_eq_false_iff.1 h).1

/-- The invariant, with the items that are private to other connections and the references that
remain. -/
structure Guarded (cfg : Config) (sc : Scope) (s : Store)
    (held : List ItemPtr) : Prop extends Inv cfg s held where
  /-- Private items stay referenced. -/
  priv_base : ∀ x, sc.priv x → x ∈ sc.base
  /-- Private items are not linked. -/
  priv_linked : ∀ x, sc.priv x → (s.items x).flags.linked = false
  /-- References remain. -/
  base_mem : ∀ x ∈ sc.base, x ∈ held
  /-- Items have been allocated since. -/
  start_le : sc.start ≤ s.nalloc

theorem Guarded.priv_mem (h : Guarded cfg sc s held) {x : ItemPtr} (hx : sc.priv x) :
    x ∈ held := h.base_mem x (h.priv_base x hx)

theorem Guarded.not_priv (h : Guarded cfg sc s held) (hp : s.Linked cfg p) : ¬ sc.priv p :=
  fun hpriv => by simpa [h.priv_linked p hpriv] using hp.2

/-- Private items stay as they are, and so do the references to them. -/
theorem Prim.frame {held' : List ItemPtr} (hs : Prim cfg sc (s, held) (s', held'))
    (h : Guarded cfg sc s held) {x : ItemPtr} (hx : sc.priv x) :
    s'.items x = s.items x ∧ held'.count x = held.count x := by
  have hne : ∀ {p}, s.Linked cfg p → x ≠ p := fun hp heq => h.not_priv hp (heq ▸ hx)
  cases hs with
  | acquire hp => exact ⟨by simp [hne hp], List.count_cons_of_ne (hne hp).symm⟩
  | @remove _ _ p hp hpriv hbase =>
    have hxp : x ≠ p := fun heq => hpriv (heq ▸ hx)
    exact ⟨itemRemove_items_of_ne hxp, List.count_erase_of_ne hxp⟩
  | unlink hp => exact ⟨itemUnlink_items_of_ne (hne hp), rfl⟩
  | @link _ _ _ p hp hpriv hlink hl hkey =>
    have hxp : x ≠ p := fun heq => hpriv (heq ▸ hx)
    exact ⟨by simp [hxp], rfl⟩
  | @touch _ _ _ p hp hsc ht =>
    refine ⟨?_, rfl⟩
    rw [ht]
    rcases itemTouch_eq (s := s) cfg p with heq | ⟨hl, -, heq⟩
    · rw [heq]
    · rw [heq, slabLruqTouch_items]
      exact Function.update_of_ne (hne ⟨h.active p hp, hl⟩) _ _
  | alloc hh =>
    obtain ⟨hxp, -, hsame⟩ := hh.keep_held h.toCounts (h.priv_mem hx)
    exact ⟨by simp [hxp, hsame], List.count_cons_of_ne hxp.symm⟩
  | @write _ _ p f hp hnew hl hf =>
    have hxp : x ≠ p := fun heq => hnew (heq ▸ h.priv_base x hx)
    exact ⟨Function.update_of_ne hxp _ _, rfl⟩
  | annex hp =>
    rw [itemAnnexInPlace_eq]
    exact ⟨Function.update_of_ne (hne hp) _ _, rfl⟩
  | delta hp =>
    rw [itemDeltaInPlace_eq]
    exact ⟨Function.update_of_ne (hne hp) _ _, rfl⟩
  | moveBucket => exact ⟨rfl, rfl⟩

theorem Prim.guarded {held' : List ItemPtr} (hs : Prim cfg sc (s, held) (s', held'))
    (h : Guarded cfg sc s held) (hfit : Fits held') : Guarded cfg sc s' held' where
  toInv := hs.inv h.toInv hfit
  priv_base := h.priv_base
  priv_linked := fun x hx => by
    rw [(hs.frame h hx).1]
    exact h.priv_linked x hx
  start_le := h.start_le.trans hs.later.nalloc
  base_mem := fun x hx => by
    have hmem := h.base_mem x hx
    cases hs with
    | acquire hp => exact List.mem_cons_of_mem _ hmem
    | remove hp hpriv hbase => exact hbase x hx
    | unlink hp => exact hmem
    | link hp hpriv hlink hl hkey => exact hmem
    | touch hp hsc ht => exact hmem
    | alloc hh => exact List.mem_cons_of_mem _ hmem
    | write hp hnew hl hf => exact hmem
    | annex hp => exact hmem
    | delta hp => exact hmem
    | moveBucket => exact hmem

/-- **Path rule.**  Paths keep the invariant, and a property of stores and references that every
primitive keeps. -/
theorem Path.induction {I : Store → List ItemPtr → Prop} {held' : List ItemPtr}
    (hs : Path cfg sc (s, held) (s', held')) (h : Guarded cfg sc s held) (hI : I s held)
    (hstep : ∀ s held s' held', Guarded cfg sc s held → I s held →
      Prim cfg sc (s, held) (s', held') → Fits held' → I s' held') :
    Guarded cfg sc s' held' ∧ I s' held' := by
  have key : ∀ a b, Path cfg sc a b → Guarded cfg sc a.1 a.2 → I a.1 a.2 →
      Guarded cfg sc b.1 b.2 ∧ I b.1 b.2 := fun a b hab ha hIa => by
    induction hab with
    | refl => exact ⟨ha, hIa⟩
    | tail _ hprim ih =>
      exact ⟨hprim.1.guarded ih.1 hprim.2, hstep _ _ _ _ ih.1 ih.2 hprim.1 hprim.2⟩
  exact key _ _ hs h hI

/-- A referenced chunk is not handed out, and its slab not initialized. -/
theorem Prim.frame_held {held' : List ItemPtr} (hs : Prim cfg sc (s, held) (s', held'))
    (h : Guarded cfg sc s held) {x : ItemPtr} (hx : x ∈ held) :
    (s'.items x).gen = (s.items x).gen ∧ (s'.items x).key = (s.items x).key ∧
      (s'.slabs x.slab).epoch = (s.slabs x.slab).epoch := by
  -- all but allocation keep the slabs
  have hkeep : ∀ {t : Store}, Keeps s t → (t.items x).content.gen = (s.items x).content.gen →
      (t.items x).content.key = (s.items x).content.key →
      (t.items x).gen = (s.items x).gen ∧ (t.items x).key = (s.items x).key ∧
        (t.slabs x.slab).epoch = (s.slabs x.slab).epoch :=
    fun hk hgen hkey => ⟨hgen, hkey, hk.epoch _⟩
  cases hs with
  | @acquire _ _ p hp =>
    refine hkeep (keeps_itemAcquireRefcount p) ?_ ?_
    all_goals by_cases hxp : x = p <;> simp [hxp, Item.content]
  | @remove _ _ p hp hpriv hbase => exact hkeep (keeps_itemRemove p) (by simp) (by simp)
  | @unlink _ _ p hp => exact hkeep (keeps_itemUnlink p) (by simp) (by simp)
  | @link _ _ _ p hp hpriv hlink hl hkey =>
    refine hkeep (keeps_itemLink _ (h.active p hp)) ?_ ?_
    all_goals by_cases hxp : x = p <;> simp [hxp, Item.content, linkItem]
  | @touch _ _ _ p hp hsc ht =>
    rw [ht]
    rcases itemTouch_eq (s := s) cfg p with heq | ⟨hl, -, heq⟩
    · rw [heq]
      exact ⟨rfl, rfl, rfl⟩
    · have hk : Keeps s (s.touchBare p) :=
        ⟨fun _ => rfl, rfl, fun _ => Iff.rfl, fun _ => rfl, fun _ => rfl⟩
      rw [heq]
      refine hkeep (hk.trans (keeps_slabLruqTouch ((hk.slabLruq _).2 (h.active p hp).1) false)) ?_
        ?_
      all_goals by_cases hxp : x = p <;> simp [hxp, Item.content, touchBare]
  | @alloc _ t _ id p hh hchunk key dataflags exptime nbyte =>
    obtain ⟨hxp, -, hsame⟩ := hh.keep_held h.toCounts hx
    obtain ⟨-, -, -, hepoch⟩ := hh.keep x hxp (h.active x hx) (h.slab_ref_ne_zero hx)
    refine ⟨by simp [hxp, hsame], by simp [hxp, hsame], ?_⟩
    rw [(keeps_itemAllocDone cfg p key dataflags exptime nbyte).epoch, hepoch]
  | @write _ _ p f hp hnew hl hf =>
    refine hkeep (keeps_setItem p f) ?_ ?_
    all_goals by_cases hxp : x = p <;> simp [hxp, Item.content, setItem, hf.gen, hf.key]
  | @annex _ _ prepend p bytes hp =>
    rw [itemAnnexInPlace_eq]
    have hf : Inert (s.annexItem cfg prepend bytes) := inert_annexItem prepend bytes
    refine ⟨?_, ?_, rfl⟩
    all_goals by_cases hxp : x = p <;> simp [hxp, setItem, hf.gen, hf.key]
  | @delta _ _ p buf hp =>
    rw [itemDeltaInPlace_eq]
    have hf : Inert (s.deltaItem cfg buf) := inert_deltaItem buf
    refine ⟨?_, ?_, rfl⟩
    all_goals by_cases hxp : x = p <;> simp [hxp, setItem, hf.gen, hf.key]
  | moveBucket => exact ⟨rfl, rfl, rfl⟩

theorem Path.frame_held {held' : List ItemPtr}
    (hs : Path cfg sc (s, held) (s', held')) (h : Guarded cfg sc s held)
    {x : ItemPtr} (hx : x ∈ sc.base) :
    (s'.items x).gen = (s.items x).gen ∧ (s'.items x).key = (s.items x).key ∧
      (s'.slabs x.slab).epoch = (s.slabs x.slab).epoch :=
  (hs.induction (I := fun t _ => (t.items x).gen = (s.items x).gen ∧
      (t.items x).key = (s.items x).key ∧
      (t.slabs x.slab).epoch = (s.slabs x.slab).epoch) h ⟨rfl, rfl, rfl⟩
    fun _ _ _ _ hg hI hprim _ => by
      obtain ⟨h1, h2, h3⟩ := hprim.frame_held hg (hg.base_mem x hx)
      exact ⟨h1.trans hI.1, h2.trans hI.2.1, h3.trans hI.2.2⟩).2

theorem Path.guarded {held' : List ItemPtr} (hs : Path cfg sc (s, held) (s', held'))
    (h : Guarded cfg sc s held) : Guarded cfg sc s' held' :=
  (hs.induction (I := fun _ _ => True) h trivial fun _ _ _ _ _ _ _ _ => trivial).1

theorem Path.frame {held' : List ItemPtr} (hs : Path cfg sc (s, held) (s', held'))
    (h : Guarded cfg sc s held) {x : ItemPtr} (hx : sc.priv x) :
    s'.items x = s.items x ∧ held'.count x = held.count x :=
  (hs.induction (I := fun t l => t.items x = s.items x ∧ l.count x = held.count x) h ⟨rfl, rfl⟩
    fun _ _ _ _ hg hI hprim _ =>
      ⟨(hprim.frame hg hx).1.trans hI.1, (hprim.frame hg hx).2.trans hI.2⟩).2

namespace Guarded

theorem path_acquire (h : Guarded cfg sc s held) (hp : s.Linked cfg p)
    (hroom : Room (s.itemAcquireRefcount p) held 1) :
    Path cfg sc (s, held) (s.itemAcquireRefcount p, p :: held) :=
  .single (.acquire hp) (h.fits_cons hp.1 hroom)

theorem path_unlink (h : Guarded cfg sc s held) (hp : s.Linked cfg p) :
    Path cfg sc (s, held) (s.itemUnlink cfg p, held) := .single (.unlink hp) h.fits

theorem path_remove (h : Guarded cfg sc s held) (hp : p ∈ held) (hpriv : ¬ sc.priv p)
    (hbase : ∀ x ∈ sc.base, x ∈ held.erase p) :
    Path cfg sc (s, held) (s.itemRemove p, held.erase p) :=
  .single (.remove hp hpriv hbase) (h.fits.sublist List.erase_sublist)

/-- `_item_relink` and the `_item_remove` after it. -/
theorem path_relink (h : Guarded cfg sc s held) (ch : Choice) {oit nit : ItemPtr} (ho : oit ∈ held)
    (hlo : s.Linked cfg oit) (hn : nit ∈ held) (hnp : ¬ sc.priv nit)
    (hlink : sc.link nit ∨ sc.start ≤ (s.items nit).gen) (hln : (s.items nit).flags.linked = false)
    (hkey : (s.items nit).key = (s.items oit).key) (hbase : ∀ x ∈ sc.base, x ∈ held.erase oit) :
    Path cfg sc (s, held) ((s.itemRelink cfg ch oit nit).itemRemove oit, held.erase oit) := by
  have hne : nit ≠ oit := fun heq => by simp [heq, hlo.2] at hln
  have h1 := h.path_unlink hlo
  have hinv1 : Guarded cfg sc (s.itemUnlink cfg oit) held := h1.guarded h
  have h2 : Path cfg sc (s.itemUnlink cfg oit, held)
      ((s.itemUnlink cfg oit).itemLink cfg ch nit, held) := by
    refine .single (.link hn hnp ?_ ?_ fun q hq heq => ?_) h.fits
    · rw [itemUnlink_items_of_ne hne]
      exact hlink
    · rw [itemUnlink_items_of_ne hne, hln]
    · obtain ⟨hlq, hqo⟩ := linked_itemUnlink.1 hq
      rw [itemUnlink_items_of_ne hne, itemUnlink_items_of_ne hqo, hkey] at heq
      exact hqo (h.wf.eq_of_key hlq hlo heq)
  have hinv2 : Guarded cfg sc ((s.itemUnlink cfg oit).itemLink cfg ch nit) held := h2.guarded hinv1
  exact (h1.trans h2).trans (hinv2.path_remove ho (h.not_priv hlo) hbase)

theorem overflow_itemLink (h : (s.itemLink cfg ch p).overflow = false) : s.overflow = false := by
  have henv : (s.itemLink cfg ch p).env = _ := itemLink_env p
  exact (congrArg Env.overflow henv).symm.trans h

theorem overflow_itemRelink {oit nit : ItemPtr}
    (h : ((s.itemRelink cfg ch oit nit).itemRemove oit).overflow = false) : s.overflow = false :=
  overflow_of_env (itemUnlink_env oit) (overflow_itemLink (overflow_of_env (itemRemove_env oit) h))

/-- What is known after an `item_get` that fails. -/
theorem get_none (h : Guarded cfg sc s held) {t : Store} (heq : s.itemGet cfg key = (none, t)) :
    Path cfg sc (s, held) (t, held) ∧ (∀ q, t.Linked cfg q → (t.items q).key ≠ key) ∧
      (∀ q, (s.items q).flags.linked = false → t.items q = s.items q) ∧ t.env = s.env := by
  rcases h.wf.itemGet_cases key with ⟨hno, heq'⟩ | ⟨p, hp, hkey, ⟨-, heq'⟩ | ⟨-, heq'⟩⟩
  · obtain ⟨-, rfl⟩ := Prod.mk.inj (heq.symm.trans heq')
    exact ⟨Relation.ReflTransGen.refl, hno, fun _ _ => rfl, rfl⟩
  · obtain ⟨-, rfl⟩ := Prod.mk.inj (heq.symm.trans heq')
    refine ⟨h.path_unlink hp, fun q hq hqk => ?_, fun q hq => ?_, itemUnlink_env p⟩
    · obtain ⟨hlq, hqp⟩ := linked_itemUnlink.1 hq
      rw [itemUnlink_items_of_ne hqp, ← hkey] at hqk
      exact hqp (h.wf.eq_of_key hlq hp hqk)
    · exact itemUnlink_items_of_ne fun hqp => by simp [hqp, hp.2] at hq
  · cases (Prod.mk.inj (heq.symm.trans heq')).1

/-- What is known after an `item_get` that succeeds. -/
theorem get_some (h : Guarded cfg sc s held) {t : Store} (heq : s.itemGet cfg key = (some p, t)) :
    (Room t held 1 → Path cfg sc (s, held) (t, p :: held)) ∧ t.Linked cfg p ∧
      (t.items p).key = key ∧
      (∀ q, (s.items q).flags.linked = false → t.items q = s.items q) ∧
      t = s.itemAcquireRefcount p ∧ s.Linked cfg p ∧ s.dead p = false ∧ t.Wf cfg ∧ t.Full := by
  rcases h.wf.itemGet_cases key with ⟨-, heq'⟩ | ⟨q, hq, hkey, ⟨-, heq'⟩ | ⟨hdead, heq'⟩⟩
  · cases (Prod.mk.inj (heq.symm.trans heq')).1
  · cases (Prod.mk.inj (heq.symm.trans heq')).1
  · obtain ⟨hpq, rfl⟩ := Prod.mk.inj (heq.symm.trans heq')
    obtain rfl := Option.some.inj hpq
    have hk := keeps_itemAcquireRefcount (s := s) p
    refine ⟨h.path_acquire hq, (hk.linked (by simp)).2 hq, by simpa using hkey, fun x hx => ?_, rfl,
      hq, hdead, ?_, hk.full h.full⟩
    · have hxp : x ≠ p := fun hxp => by simp [hxp, hq.2] at hx
      simp [hxp]
    · rw [Wf, shape_acquire]
      exact Shape.Wf.acquire h.wf hq.1 (h.wf.slabbed_of_linked hq)
        (Shape.Wf.not_inTail_of_linked h.wf hq.1 hq.2)

/-- A lookup that fails, and a link. -/
theorem path_get_link (h : Guarded cfg sc s held) (ch : Choice) (hit : it ∈ held)
    (hip : ¬ sc.priv it) (hlink : sc.link it) (hl : (s.items it).flags.linked = false) {t : Store}
    (heq : s.itemGet cfg (s.keyOf it) = (none, t)) :
    Path cfg sc (s, held) (t.itemLink cfg ch it, held) := by
  obtain ⟨hp, hno, hsame, -⟩ := h.get_none heq
  refine hp.trans (.single (.link hit hip (.inl hlink) ?_ fun q hq => ?_) h.fits)
  · rw [hsame it hl, hl]
  · rw [hsame it hl]
    exact hno q hq

/-- A lookup that succeeds, and nothing else. -/
theorem path_get_remove (h : Guarded cfg sc s held) {t : Store} {oit : ItemPtr}
    (heq : s.itemGet cfg key = (some oit, t)) (hroom : Room (t.itemRemove oit) held 1) :
    Path cfg sc (s, held) (t.itemRemove oit, held) := by
  obtain ⟨hp, hlo, -⟩ := h.get_some heq
  replace hp := hp (hroom.of_overflow (overflow_of_env (itemRemove_env oit)) le_rfl)
  have hinv : Guarded cfg sc t (oit :: held) := hp.guarded h
  have hrm := hinv.path_remove List.mem_cons_self (hinv.not_priv hlo)
    (by simpa using h.base_mem)
  rw [List.erase_cons_head] at hrm
  exact hp.trans hrm

/-- A lookup that succeeds, and a replacement of what was found. -/
theorem path_get_relink (h : Guarded cfg sc s held) (hit : it ∈ held) (hip : ¬ sc.priv it)
    (hlink : sc.link it) (hl : (s.items it).flags.linked = false) {t : Store} {oit : ItemPtr}
    (heq : s.itemGet cfg (s.keyOf it) = (some oit, t))
    (hroom : Room ((t.itemRelink cfg ch oit it).itemRemove oit) held 1) :
    Path cfg sc (s, held) ((t.itemRelink cfg ch oit it).itemRemove oit, held) := by
  obtain ⟨hp, hlo, hkey, hsame, -⟩ := h.get_some heq
  replace hp := hp (hroom.of_overflow overflow_itemRelink le_rfl)
  have hinv : Guarded cfg sc t (oit :: held) := hp.guarded h
  have hre := hinv.path_relink ch List.mem_cons_self hlo
    (List.mem_cons_of_mem oit hit) hip (.inl hlink) (by rw [hsame it hl, hl])
      (by rw [hsame it hl, hkey]; rfl)
    (by simpa using h.base_mem)
  rw [List.erase_cons_head] at hre
  exact hp.trans hre

theorem path_itemGet (h : Guarded cfg sc s held) (hroom : Room (s.itemGet cfg key).2 held 1) :
    Path cfg sc (s, held) ((s.itemGet cfg key).2, (s.itemGet cfg key).1.toList ++ held) := by
  cases heq : s.itemGet cfg key with
  | mk r t =>
    rw [heq] at hroom
    cases r with
    | none => exact (h.get_none heq).1
    | some p => exact (h.get_some heq).1 hroom

theorem path_itemSet (h : Guarded cfg sc s held) (hit : it ∈ held) (hip : ¬ sc.priv it)
    (hlink : sc.link it) (hl : (s.items it).flags.linked = false)
    (hroom : Room (s.itemSet cfg ch it) held 1) :
    Path cfg sc (s, held) (s.itemSet cfg ch it, held) := by
  cases heq : s.itemGet cfg (s.keyOf it) with
  | mk r t =>
    simp only [itemSet, heq] at hroom ⊢
    cases r with
    | none => exact h.path_get_link ch hit hip hlink hl heq
    | some oit => exact h.path_get_relink hit hip hlink hl heq hroom

theorem path_itemCas (h : Guarded cfg sc s held) (hit : it ∈ held) (hip : ¬ sc.priv it)
    (hlink : sc.link it) (hl : (s.items it).flags.linked = false)
    (hroom : Room (s.itemCas cfg ch it).2 held 1) :
    Path cfg sc (s, held) ((s.itemCas cfg ch it).2, held) := by
  cases heq : s.itemGet cfg (s.keyOf it) with
  | mk r t =>
    simp only [itemCas, heq] at hroom ⊢
    cases r with
    | none => exact (h.get_none heq).1
    | some oit =>
      simp only at hroom ⊢
      split_ifs at hroom ⊢ with hcas
      · exact h.path_get_remove heq hroom
      · exact h.path_get_relink hit hip hlink hl heq hroom

theorem path_itemAdd (h : Guarded cfg sc s held) (hit : it ∈ held) (hip : ¬ sc.priv it)
    (hlink : sc.link it) (hl : (s.items it).flags.linked = false)
    (hroom : Room (s.itemAdd cfg ch it).2 held 1) :
    Path cfg sc (s, held) ((s.itemAdd cfg ch it).2, held) := by
  cases heq : s.itemGet cfg (s.keyOf it) with
  | mk r t =>
    simp only [itemAdd, heq] at hroom ⊢
    cases r with
    | none => exact h.path_get_link ch hit hip hlink hl heq
    | some oit => exact h.path_get_remove heq hroom

theorem path_itemReplace (h : Guarded cfg sc s held) (hit : it ∈ held) (hip : ¬ sc.priv it)
    (hlink : sc.link it) (hl : (s.items it).flags.linked = false)
    (hroom : Room (s.itemReplace cfg ch it).2 held 1) :
    Path cfg sc (s, held) ((s.itemReplace cfg ch it).2, held) := by
  cases heq : s.itemGet cfg (s.keyOf it) with
  | mk r t =>
    simp only [itemReplace, heq] at hroom ⊢
    cases r with
    | none => exact (h.get_none heq).1
    | some oit => exact h.path_get_relink hit hip hlink hl heq hroom

theorem path_itemDelete (h : Guarded cfg sc s held) (hroom : Room (s.itemDelete cfg key).2 held 1) :
    Path cfg sc (s, held) ((s.itemDelete cfg key).2, held) := by
  cases heq : s.itemGet cfg key with
  | mk r t =>
    simp only [itemDelete, heq] at hroom ⊢
    cases r with
    | none => exact (h.get_none heq).1
    | some p =>
      obtain ⟨hp, hl, -⟩ := h.get_some heq
      have hp := hp (hroom.of_overflow (fun hov =>
        overflow_of_env (itemUnlink_env p) (overflow_of_env (itemRemove_env p) hov)) le_rfl)
      have hinv : Guarded cfg sc t (p :: held) := hp.guarded h
      have hu := hinv.path_unlink hl
      have hrm := Guarded.path_remove (hu.guarded hinv) List.mem_cons_self
        (hinv.not_priv hl) (by simpa using h.base_mem)
      rw [List.erase_cons_head] at hrm
      exact (hp.trans hu).trans hrm

/-! ### Flushing -/

theorem path_flushQueue (l : List ItemPtr) (h : Guarded cfg sc s held)
    (hl : ∀ p ∈ l, s.Linked cfg p) (hnd : l.Nodup) :
    Path cfg sc (s, held) (s.flushQueue cfg l, held) := by
  induction l generalizing s with
  | nil => exact Relation.ReflTransGen.refl
  | cons p ps ih =>
    simp only [flushQueue]
    split_ifs
    · exact Relation.ReflTransGen.refl
    · have hu := h.path_unlink (hl p List.mem_cons_self)
      refine hu.trans (ih (hu.guarded h) (fun q hq => ?_) (List.nodup_cons.1 hnd).2)
      refine linked_itemUnlink.2 ⟨hl q (List.mem_cons_of_mem p hq), ?_⟩
      rintro rfl
      exact (List.nodup_cons.1 hnd).1 hq

theorem path_flushQueues (ids : List ℕ) (h : Guarded cfg sc s held) :
    Path cfg sc (s, held)
      (ids.foldl (fun s id => s.flushQueue cfg (s.lruq id).reverse) s, held) := by
  induction ids generalizing s with
  | nil => exact Relation.ReflTransGen.refl
  | cons id ids ih =>
    have hlru : Tracks s.lruq _ := Shape.Wf.lru h.wf
    have hq := h.path_flushQueue (s.lruq id).reverse
      (fun p hp => by
        obtain ⟨ha, -, hl⟩ := hlru.mem_iff.1 (List.mem_reverse.1 hp)
        exact ⟨ha, hl⟩)
      (List.nodup_reverse.2 (hlru id).1)
    exact hq.trans (ih (hq.guarded h))

theorem path_itemFlushExpired (h : Guarded cfg sc s held) :
    Path cfg sc (s, held) (s.itemFlushExpired cfg, held) := by
  simp only [itemFlushExpired]
  split_ifs
  · exact Relation.ReflTransGen.refl
  · exact h.path_flushQueues _

end Guarded

/-! ### Numbers -/

theorem strtoullDigits_lt {out v : ℕ} {bs rest : List UInt8} (hout : out < 2 ^ 64)
    (h : strtoullDigits out bs = some (v, rest)) : v < 2 ^ 64 := by
  induction bs generalizing out with
  | nil =>
    simp only [strtoullDigits, Option.some.injEq, Prod.mk.injEq] at h
    omega
  | cons b bs ih =>
    simp only [strtoullDigits] at h
    split_ifs at h with hdig hmax
    · refine ih ?_ h
      have : b.toNat ≤ 57 := hdig.2
      omega
    · simp only [Option.some.injEq, Prod.mk.injEq] at h
      omega

theorem mcStrtoullLen_lt {str : List UInt8} {v : ℕ} (h : mcStrtoullLen str = some v) :
    v < 2 ^ 64 := by
  simp only [mcStrtoullLen] at h
  split at h
  · cases h
  · rename_i out rest heq
    split_ifs at h
    obtain rfl := Option.some.inj h
    exact strtoullDigits_lt (by decide) heq

theorem deltaValue_lt {v delta : ℕ} {incr : Bool} (h : v < 2 ^ 64) :
    deltaValue v incr delta < 2 ^ 64 := by
  simp only [deltaValue]
  split_ifs <;> omega

theorem length_decimal_le {v : ℕ} (h : v < 2 ^ 64) : (decimal v).length ≤ 20 := by
  rw [decimal, List.length_map]
  exact (Nat.length_toDigits_le_iff (by decide) (by decide)).2 (h.trans (by omega))

/-- What a lookup finds has the key. -/
theorem key_of_itemGet {t : Store} (h : s.itemGet cfg key = (some p, t)) :
    (t.items p).key = key := by
  unfold itemGet at h
  split at h
  · cases h
  · rename_i q hfind
    have hkey : s.keyOf q = key := by simpa using List.find?_some hfind
    change (s.items q).key = key at hkey
    split_ifs at h
    · cases h
    · cases h
    · obtain ⟨hp, rfl⟩ := Prod.mk.inj h
      obtain rfl := Option.some.inj hp
      simpa using hkey

/-- If keys with numbers fit into some class, `item_delta` finds one. -/
theorem deltaClass_ne_invalid (hfits : cfg.DeltaFits key) (incr : Bool) (delta : ℕ) :
    s.deltaClass cfg key incr delta ≠ some slabclassInvalidId := by
  unfold deltaClass
  split
  · simp
  · rename_i p t hget
    have hkey : (t.items p).key = key := key_of_itemGet hget
    split
    · simp
    · rename_i v hnum
      dsimp only
      split_ifs
      · rw [hkey, ne_eq, Option.some.injEq]
        exact hfits _ (length_decimal_le (deltaValue_lt (mcStrtoullLen_lt hnum)))
      · simp

/-! ### Allocating -/

theorem slabIdLoop_valid {size fuel imin imax : ℕ} (hmin : slabclassMinId ≤ imin)
    (hmax : imax ≤ cfg.maxId) (hid : slabIdLoop cfg size fuel imin imax ≠ slabclassInvalidId) :
    cfg.ValidId (slabIdLoop cfg size fuel imin imax) ∧
      size ≤ cfg.profile (slabIdLoop cfg size fuel imin imax) := by
  have hle := cfg.maxId_le
  simp only [slabclassMinId, slabclassMaxId] at hmin hle
  induction fuel generalizing imin imax with
  | zero => exact absurd rfl hid
  | succ n ih =>
    simp only [slabIdLoop] at hid ⊢
    split_ifs at hid ⊢ with hge hbig hsmall
    · refine ih ?_ hmax hid
      rw [Nat.mod_eq_of_lt (by omega)]
      omega
    · exact ih hmin (by omega) hid
    · refine ⟨⟨?_, ?_⟩, by omega⟩
      · simp only [slabclassMinId]
        omega
      · omega
    · exact absurd rfl hid

/-- A class that `slab_id` finds is configured, and its chunks are large enough. -/
theorem slabId_valid {size : ℕ} (hid : slabId cfg size ≠ slabclassInvalidId) :
    cfg.ValidId (slabId cfg size) ∧ size ≤ cfg.profile (slabId cfg size) :=
  slabIdLoop_valid le_rfl le_rfl hid

theorem itemSlabid_valid {nkey nbyte : ℕ} (hid : itemSlabid cfg nkey nbyte ≠ slabclassInvalidId) :
    cfg.ValidId (itemSlabid cfg nkey nbyte) := (slabId_valid hid).1

variable {id dataflags exptime nbyte : ℕ}

theorem alloc_none (h : s.Wf cfg) (hfull : s.Full) (hid : cfg.ValidId id) {t : Store}
    (heq : s.itemAlloc cfg ch id key dataflags exptime nbyte = (none, t)) : t = s := by
  rcases itemAlloc_cases h hfull hid ch key dataflags exptime nbyte with
    heq' | ⟨_, _, -, heq'⟩
  · exact (Prod.mk.inj (heq.symm.trans heq')).2
  · cases (Prod.mk.inj (heq.symm.trans heq')).1

theorem alloc_some (h : s.Wf cfg) (hfull : s.Full) (hid : cfg.ValidId id) {t : Store}
    (heq : s.itemAlloc cfg ch id key dataflags exptime nbyte = (some p, t)) :
    ∃ u, Hands cfg id s p u ∧ (∃ ch, s.itemAllocChunk cfg ch id = (some p, u)) ∧
      t = u.itemAllocDone cfg p key dataflags exptime nbyte := by
  have hhands := h.itemAllocChunk ch hfull hid
  rw [itemAlloc] at heq
  generalize hchunk : s.itemAllocChunk cfg ch id = r at hhands heq
  obtain ⟨_ | p', u⟩ := r
  · cases (Prod.mk.inj heq).1
  · obtain ⟨hp, rfl⟩ := Prod.mk.inj heq
    obtain rfl := Option.some.inj hp
    exact ⟨u, hhands, ⟨ch, hchunk⟩, rfl⟩

namespace Guarded

theorem fits_alloc (h : Guarded cfg sc s held) {u : Store} (hh : Hands cfg id s p u)
    (hroom : Room (u.itemAllocDone cfg p key dataflags exptime nbyte) held 1) : Fits (p :: held) :=
  (hh.counts h.toCounts).fits_cons hh.active hroom

theorem overflow_alloc {u : Store} (hh : Hands cfg id s p u)
    (hov : (u.itemAllocDone cfg p key dataflags exptime nbyte).overflow = false) :
    s.overflow = false := by
  have hacquire : (u.itemAcquireRefcount p).overflow = false := hov
  exact overflow_of_env hh.env (overflow_of_acquire hacquire)

theorem path_itemAlloc (h : Guarded cfg sc s held)
    (hid : itemSlabid cfg key.length nbyte ≠ slabclassInvalidId)
    (hroom : Room (s.itemAlloc cfg ch (itemSlabid cfg key.length nbyte) key dataflags exptime
      nbyte).2 held 1) :
    Path cfg sc (s, held)
      ((s.itemAlloc cfg ch (itemSlabid cfg key.length nbyte) key dataflags exptime nbyte).2,
        (s.itemAlloc cfg ch (itemSlabid cfg key.length nbyte) key dataflags exptime
          nbyte).1.toList ++ held) := by
  cases heq : s.itemAlloc cfg ch (itemSlabid cfg key.length nbyte) key dataflags exptime nbyte with
  | mk r t =>
    rw [heq] at hroom
    cases r with
    | none =>
      obtain rfl := alloc_none h.wf h.full (itemSlabid_valid hid) heq
      exact Relation.ReflTransGen.refl
    | some p =>
      obtain ⟨u, hh, hchunk, rfl⟩ := alloc_some h.wf h.full (itemSlabid_valid hid) heq
      exact .single (.alloc hh hchunk key dataflags exptime nbyte rfl) (h.fits_alloc hh hroom)

/-- An item is allocated to take the place of `oit`: filled, relinked, and both references given
back. -/
theorem path_replaceItem (h : Guarded cfg sc s (p :: held)) (hbase : ∀ x ∈ sc.base, x ∈ held)
    (hl : s.Linked cfg p) {u : Store} {np : ItemPtr}
    (hh : Hands cfg (itemSlabid cfg (s.items p).key.length nbyte) s np u)
    (hchunk : ∃ ch, s.itemAllocChunk cfg ch (itemSlabid cfg (s.items p).key.length nbyte) =
      (some np, u))
    {f : Item → Item} (hf : Sized f) (hfit : Fits (np :: p :: held)) {v : Store}
    (hv : v = (u.itemAllocDone cfg np (s.items p).key dataflags exptime nbyte).setItem np f) :
    Path cfg sc (s, p :: held)
      (((v.itemRelink cfg ch p np).itemRemove p).itemRemove np, held) := by
  obtain ⟨hne, hact, hsame⟩ := hh.keep_held h.toCounts (List.mem_cons_self (a := p) (l := held))
  have herase : (np :: p :: held).erase p = np :: held := by
    rw [List.erase_cons_tail (by simpa using hne.symm), List.erase_cons_head]
  have hnb : np ∉ sc.base := fun hmem => hh.not_held h.toCounts (h.base_mem np hmem)
  have hnp : ¬ sc.priv np := fun hpriv => hnb (h.priv_base np hpriv)
  -- the new item is allocated, written, linked in place of the old one, and both are given back
  have h1 : Path cfg sc (s, p :: held)
      (u.itemAllocDone cfg np (s.items p).key dataflags exptime nbyte, np :: p :: held) :=
    .single (.alloc hh hchunk _ dataflags exptime nbyte rfl) hfit
  have hinv1 : Guarded cfg sc _ (np :: p :: held) := h1.guarded h
  have hnew : ((u.itemAllocDone cfg np (s.items p).key dataflags exptime nbyte).items
      np).flags.linked = false := by simp [allocItem]
  have hkey : ((u.itemAllocDone cfg np (s.items p).key dataflags exptime nbyte).items np).key =
      (s.items p).key := by simp [allocItem]
  have h2 : Path cfg sc
      (u.itemAllocDone cfg np (s.items p).key dataflags exptime nbyte, np :: p :: held)
      (v, np :: p :: held) := by
    rw [hv]
    exact .single (.write List.mem_cons_self hnb hnew hf) hfit
  have hinv2 : Guarded cfg sc v (np :: p :: held) := h2.guarded hinv1
  have hitem : v.items p = s.items p := by
    rw [hv, ← hsame]
    simp [Store.setItem, hne]
  have hk : Keeps u v := by
    rw [hv]
    exact (keeps_itemAllocDone cfg np _ _ _ _).trans (keeps_setItem np f)
  have hvnew : (v.items np).flags.linked = false ∧ (v.items np).key = (s.items p).key := by
    simp only [hv, Store.setItem, Function.update_self]
    exact ⟨(hf.linked _).trans hnew, (hf.key _).trans hkey⟩
  have hgen : sc.start ≤ (v.items np).gen := by
    have hnalloc : u.nalloc = s.nalloc := congrArg Env.nalloc hh.env
    simp only [hv, Store.setItem, Function.update_self, hf.gen, itemAllocDone_items, allocItem,
      Item.setCas_gen, hnalloc]
    exact h.start_le
  have h3 := hinv2.path_relink ch (List.mem_cons_of_mem np List.mem_cons_self)
    ⟨(hk.active p).2 hact, by rw [hitem]; exact hl.2⟩ List.mem_cons_self hnp (.inr hgen) hvnew.1
    (by rw [hvnew.2, hitem]) (by
      rw [herase]
      exact fun x hx => List.mem_cons_of_mem np (hbase x hx))
  rw [herase] at h3
  have hinv3 : Guarded cfg sc _ (np :: held) := h3.guarded hinv2
  have h4 := hinv3.path_remove List.mem_cons_self hnp (by simpa using hbase)
  rw [List.erase_cons_head] at h4
  exact ((h1.trans h2).trans h3).trans h4

theorem overflow_replaceItem {np : ItemPtr} {f : Item → Item}
    (h : ((((s.setItem np f).itemRelink cfg ch p np).itemRemove p).itemRemove np).overflow =
      false) : s.overflow = false := by
  have hov := overflow_itemRelink (overflow_of_env (itemRemove_env np) h)
  exact hov

theorem path_itemAnnex (h : Guarded cfg sc s held) {prepend : Bool}
    (hsc : ∀ p, s.annexTarget cfg prepend it = some p → sc.annex p)
    (hsize : ∀ p, s.annexTarget cfg prepend it = some p →
      sc.resize (s.items p).nbyte ((s.items p).nbyte + (s.items it).nbyte))
    (hl : (s.items it).flags.linked = false)
    (hroom : Room (s.itemAnnex cfg ch prepend it).2 held 2) :
    Path cfg sc (s, held) ((s.itemAnnex cfg ch prepend it).2, held) := by
  cases heq : s.itemGet cfg (s.keyOf it) with
  | mk r t =>
    simp only [itemAnnex, heq] at hroom ⊢
    cases r with
    | none => exact (h.get_none heq).1
    | some oit =>
      obtain ⟨hp, hlo, hkey, hsame, ht, -, -, hwf, hfull⟩ := h.get_some heq
      have hkeys : t.keyOf it = (t.items oit).key := by
        rw [hkey, keyOf, hsame it hl]
        rfl
      simp only [hkeys] at hroom ⊢
      split_ifs at hroom ⊢ with hover hsamecls
      · exact h.path_get_remove heq (hroom.imp_right fun hlen => by omega)
      · -- in place
        have hoit : t.items oit = { s.items oit with
            refcount := ((s.items oit).refcount + 1) % 2 ^ 16 } := by
          rw [ht, itemAcquireRefcount_items, Function.update_self]
        have htarget : s.annexTarget cfg prepend it = some oit := by
          rw [hoit, hsame it hl] at hover hsamecls
          simp only [annexTarget, heq]
          exact if_pos ⟨hover, hsamecls⟩
        have hp := hp (hroom.of_overflow (fun hov => overflow_itemAnnexInPlace.symm.trans
          (overflow_of_env (itemRemove_env oit) hov)) (by omega))
        have hinv : Guarded cfg sc t (oit :: held) := hp.guarded h
        have han : Path cfg sc (t, oit :: held)
            (t.itemAnnexInPlace cfg prepend oit ((t.items it).value cfg), oit :: held) :=
          .single (.annex hlo List.mem_cons_self (hsc oit htarget)
            (by simpa [Item.value, Item.read] using hsamecls.1) hsamecls.2
            (by simpa [hoit, hsame it hl, Item.value, Item.read] using hsize oit htarget)) hinv.fits
        have hrm := Guarded.path_remove (han.guarded hinv) List.mem_cons_self
          (hinv.not_priv hlo) (by simpa using h.base_mem)
        rw [List.erase_cons_head] at hrm
        exact (hp.trans han).trans hrm
      · -- in a new item, which may not be found
        cases hal : t.itemAlloc cfg ch (itemSlabid cfg (t.items oit).key.length
          ((t.items oit).nbyte + (t.items it).nbyte)) (t.items oit).key (t.items oit).dataflags
          (t.items oit).exptime ((t.items oit).nbyte + (t.items it).nbyte) with
        | mk r' w =>
          have hvalid := itemSlabid_valid hover
          rw [hal] at hroom
          cases r' with
          | none =>
            obtain rfl := alloc_none hwf hfull hvalid hal
            exact h.path_get_remove heq (hroom.imp_right fun hlen => by omega)
          | some nit =>
            obtain ⟨u, hh, hchunk, rfl⟩ := alloc_some hwf hfull hvalid hal
            simp only [itemAnnexFill_eq] at hroom ⊢
            have hp := hp (hroom.of_overflow (fun hov => overflow_alloc hh
              (overflow_replaceItem hov)) (by omega))
            have hinv : Guarded cfg sc t (oit :: held) := hp.guarded h
            have hfit := hinv.fits_alloc hh (hroom.of_overflow overflow_replaceItem (by
              simp only [List.length_cons]
              omega))
            exact hp.trans
              (hinv.path_replaceItem h.base_mem hlo hh hchunk (sized_annexFillItem _ _ _) hfit rfl)

theorem path_itemDelta (h : Guarded cfg sc s held) {incr : Bool} {delta : ℕ}
    (hid : s.deltaClass cfg key incr delta ≠ some slabclassInvalidId)
    (hsc : ∀ p, s.deltaTarget cfg key incr delta = some p → sc.delta p)
    (hsize : ∀ p v, s.deltaTarget cfg key incr delta = some p →
      mcStrtoullLen ((s.items p).value cfg) = some v →
      sc.resize (s.items p).nbyte (decimal (deltaValue v incr delta)).length)
    (hroom : Room (s.itemDelta cfg ch key incr delta).2 held 2) :
    Path cfg sc (s, held) ((s.itemDelta cfg ch key incr delta).2, held) := by
  cases heq : s.itemGet cfg key with
  | mk r t =>
    simp only [itemDelta, heq] at hroom ⊢
    cases r with
    | none => exact (h.get_none heq).1
    | some p =>
      obtain ⟨hp, hl, hkey, -, ht, -, -, hwf, hfull⟩ := h.get_some heq
      simp only at hroom ⊢
      cases hnum : mcStrtoullLen ((t.items p).value cfg) with
      | none =>
        simp only [hnum] at hroom ⊢
        exact h.path_get_remove heq (hroom.imp_right fun hlen => by omega)
      | some v =>
        simp only [hnum] at hroom ⊢
        split_ifs at hroom ⊢ with hlong
        · -- in a new item, which may not be found
          have hkeys : t.keyOf p = (t.items p).key := rfl
          have hvalid : itemSlabid cfg (t.items p).key.length
              (decimal (deltaValue v incr delta)).length ≠ slabclassInvalidId := by
            simpa only [deltaClass, heq, hnum, if_pos hlong, ne_eq, Option.some.injEq] using hid
          simp only [hkeys] at hroom ⊢
          cases hal : t.itemAlloc cfg ch (itemSlabid cfg (t.items p).key.length
            (decimal (deltaValue v incr delta)).length) (t.items p).key (t.items p).dataflags
            (t.items p).exptime (decimal (deltaValue v incr delta)).length with
          | mk r' w =>
            rw [hal] at hroom
            cases r' with
            | none =>
              obtain rfl := alloc_none hwf hfull (itemSlabid_valid hvalid) hal
              exact h.path_get_remove heq (hroom.imp_right fun hlen => by omega)
            | some np =>
              obtain ⟨u, hh, hchunk, rfl⟩ := alloc_some hwf hfull (itemSlabid_valid hvalid) hal
              simp only at hroom ⊢
              have hp := hp (hroom.of_overflow (fun hov => overflow_alloc hh
                (overflow_replaceItem hov)) (by omega))
              have hinv : Guarded cfg sc t (p :: held) := hp.guarded h
              have hfit := hinv.fits_alloc hh (hroom.of_overflow overflow_replaceItem (by
                simp only [List.length_cons]
                omega))
              exact hp.trans
                (hinv.path_replaceItem h.base_mem hl hh hchunk sized_deltaFill hfit rfl)
        · -- in place
          have hitem : ((s.items p).value cfg) = (t.items p).value cfg ∧
              (s.items p).nbyte = (t.items p).nbyte := by
            rw [ht]
            simp [Item.value, Item.read, Item.data]
          have htarget : s.deltaTarget cfg key incr delta = some p := by
            simp only [deltaTarget, heq, hitem.1, hitem.2, hnum, if_neg hlong]
          have hp := hp (hroom.of_overflow (fun hov => overflow_itemDeltaInPlace.symm.trans
            (overflow_of_env (itemRemove_env p) hov)) (by omega))
          have hinv : Guarded cfg sc t (p :: held) := hp.guarded h
          have hde : Path cfg sc (t, p :: held)
              (t.itemDeltaInPlace cfg p (decimal (deltaValue v incr delta)), p :: held) :=
            .single (.delta hl List.mem_cons_self (hsc p htarget) (by omega)
              (hitem.2 ▸ hsize p v htarget (hitem.1 ▸ hnum))) hinv.fits
          have hrm := Guarded.path_remove (hde.guarded hinv) List.mem_cons_self
            (hinv.not_priv hl) (by simpa using h.base_mem)
          rw [List.erase_cons_head] at hrm
          exact (hp.trans hde).trans hrm

end Guarded

end Store

end Twemcache
