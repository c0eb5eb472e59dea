import Twemcache.Store.Basic
import Twemcache.Assoc.Wf
import Twemcache.Queue.Basic

/-!
# Who owns a chunk

A chunk is owned by its class's current slab, by a free queue, by the hash table and an lru
queue, or by those who hold references to it.  What decides this is the *shape* of a store:
the slab headers, the headers' flags, counts, class ids and keys, the hash table and the
queues.  The operations on items and slabs are compositions of a dozen changes of shape, and
each of them keeps shapes well formed (`Shape.Wf`).

Well-formedness leaves one case open, that of a chunk in none of the four places: a function
of the item module has such a chunk in its hands in the middle of a step.
-/

namespace Twemcache

/-- The part of a store that says where its chunks are. -/
@[ext]
structure Shape where
  /-- `heapinfo.slab_table`. -/
  slabTable : List ℕ
  /-- `heapinfo.slab_lruq`. -/
  slabLruq : List ℕ
  /-- `slab->id`. -/
  slabId : ℕ → ℕ
  /-- `slab->refcount`. -/
  slabRef : ℕ → ℕ
  /-- `it->id`. -/
  id : ItemPtr → ℕ
  /-- `it->refcount`. -/
  ref : ItemPtr → ℕ
  /-- `ITEM_LINKED`. -/
  linked : ItemPtr → Bool
  /-- `ITEM_SLABBED`. -/
  slabbed : ItemPtr → Bool
  /-- The keys. -/
  key : ItemPtr → Key
  /-- The hash table. -/
  assoc : Assoc ItemPtr
  /-- The lru queues. -/
  lruq : ℕ → List ItemPtr
  /-- The slab classes. -/
  slabclass : ℕ → SlabClass

/-- The shape of a store. -/
def Store.shape (s : Store) : Shape where
  slabTable := s.slabTable
  slabLruq := s.slabLruq
  slabId := fun sl => (s.slabs sl).id
  slabRef := fun sl => (s.slabs sl).refcount
  id := fun p => (s.items p).id
  ref := fun p => (s.items p).refcount
  linked := fun p => (s.items p).flags.linked
  slabbed := fun p => (s.items p).flags.slabbed
  key := fun p => (s.items p).key
  assoc := s.assoc
  lruq := s.lruq
  slabclass := s.slabclass

namespace Shape

variable (cfg : Config) (sh : Shape)

/-- `p` is a chunk of a slab in use. -/
def Active (p : ItemPtr) : Prop := p.slab ∈ sh.slabLruq ∧ p.idx < cfg.nitem (sh.slabId p.slab)

/-- `p` is one of the chunks of a current slab not handed out yet. -/
def InTail (p : ItemPtr) : Prop :=
  ∃ id q, (sh.slabclass id).freeItem = some q ∧ q.slab = p.slab ∧ q.idx ≤ p.idx

/-- The free queues. -/
def freeq (id : ℕ) : List ItemPtr := (sh.slabclass id).freeItemq

/-- The references to the chunks of a slab. -/
def refs (sl : ℕ) : ℕ := ∑ i ∈ Finset.range (cfg.nitem (sh.slabId sl)), sh.ref ⟨sl, i⟩

/-- The flags, counts, queues and tables of a shape agree. -/
structure Wf : Prop where
  /-- Slabs are numbered in the order of the table. -/
  table_eq : sh.slabTable = List.range sh.slabTable.length
  /-- Slabs in use are in the table. -/
  slab_mem : ∀ sl ∈ sh.slabLruq, sl ∈ sh.slabTable
  /-- No slab is twice in the slab queue. -/
  slab_nodup : sh.slabLruq.Nodup
  /-- Slabs belong to configured classes. -/
  slab_id : ∀ sl ∈ sh.slabLruq, cfg.ValidId (sh.slabId sl)
  /-- Items have the class of their slab. -/
  item_id : ∀ p, sh.Active cfg p → sh.id p = sh.slabId p.slab
  /-- The free queues hold the slabbed chunks. -/
  free : Tracks sh.freeq fun id p => sh.Active cfg p ∧ sh.id p = id ∧ sh.slabbed p = true
  /-- `nfree_itemq` is the length of the free queue. -/
  free_len : ∀ id, (sh.slabclass id).nfreeItemq = (sh.freeq id).length
  /-- The lru queues hold the linked chunks. -/
  lru : Tracks sh.lruq fun id p => sh.Active cfg p ∧ sh.id p = id ∧ sh.linked p = true
  /-- `nhash_item` counts them. -/
  lru_len : sh.assoc.nhashItem = queued sh.lruq (slabclassMaxId + 1)
  /-- The hash table is well formed. -/
  assoc_wf : sh.assoc.Wf cfg.hash sh.key
  /-- The hash table holds the linked chunks. -/
  assoc_has : ∀ p, sh.assoc.Has p ↔ sh.Active cfg p ∧ sh.linked p = true
  /-- Linked chunks have different keys. -/
  key_inj : sh.assoc.KeyInj sh.key
  /-- The next free chunk of a current slab, and how many follow it. -/
  cur : ∀ id q, (sh.slabclass id).freeItem = some q →
    sh.Active cfg q ∧ sh.id q = id ∧ q.idx + (sh.slabclass id).nfreeItem = cfg.nitem id
  /-- Without a current slab nothing is left of it. -/
  cur_none : ∀ id, (sh.slabclass id).freeItem = none → (sh.slabclass id).nfreeItem = 0
  /-- Chunks not handed out are idle. -/
  tail : ∀ p, sh.InTail p → sh.Active cfg p →
    sh.linked p = false ∧ sh.slabbed p = false ∧ sh.ref p = 0
  /-- Free chunks are idle. -/
  slabbed : ∀ p, sh.Active cfg p → sh.slabbed p = true → sh.linked p = false ∧ sh.ref p = 0
  /-- Item counts are 16 bits wide. -/
  ref_lt : ∀ p, sh.Active cfg p → sh.ref p < 2 ^ 16
  /-- A slab counts, in 16 bits, the references to its chunks. -/
  slab_ref : ∀ sl ∈ sh.slabLruq, sh.slabRef sl = sh.refs cfg sl % 2 ^ 16

/-! ### Changes of shape -/

/-- `item_acquire_refcount`. -/
def acquire (p : ItemPtr) : Shape :=
  { sh with
    ref := Function.update sh.ref p ((sh.ref p + 1) % 2 ^ 16)
    slabRef := Function.update sh.slabRef p.slab ((sh.slabRef p.slab + 1) % 2 ^ 16) }

/-- `item_release_refcount`. -/
def release (p : ItemPtr) : Shape :=
  { sh with
    ref := Function.update sh.ref p ((sh.ref p + 2 ^ 16 - 1) % 2 ^ 16)
    slabRef := Function.update sh.slabRef p.slab ((sh.slabRef p.slab + 2 ^ 16 - 1) % 2 ^ 16) }

/-- The item enters the hash table and the tail of its lru queue. -/
def link (ok : Bool) (p : ItemPtr) : Shape :=
  { sh with
    linked := Function.update sh.linked p true
    assoc := sh.assoc.insert cfg.hash sh.key cfg.hashPower ok p
    lruq := Function.update sh.lruq (sh.id p) (sh.lruq (sh.id p) ++ [p]) }

/-- The item leaves the hash table and its lru queue. -/
def unlink (p : ItemPtr) : Shape :=
  { sh with
    linked := Function.update sh.linked p false
    assoc := sh.assoc.delete cfg.hash sh.key (sh.key p)
    lruq := Function.update sh.lruq (sh.id p) ((sh.lruq (sh.id p)).erase p) }

/-- The item moves to the tail of its lru queue. -/
def requeue (p : ItemPtr) : Shape :=
  { sh with lruq := Function.update sh.lruq (sh.id p) ((sh.lruq (sh.id p)).erase p ++ [p]) }

/-- The item enters the head of its free queue. -/
def put (p : ItemPtr) : Shape :=
  { sh with
    slabbed := Function.update sh.slabbed p true
    slabclass := Function.update sh.slabclass (sh.id p)
      { sh.slabclass (sh.id p) with
        nfreeItemq := (sh.slabclass (sh.id p)).nfreeItemq + 1
        freeItemq := p :: (sh.slabclass (sh.id p)).freeItemq } }

/-- The item leaves the free queue of class `id`. -/
def take (id : ℕ) (p : ItemPtr) : Shape :=
  { sh with
    slabbed := Function.update sh.slabbed p false
    slabclass := Function.update sh.slabclass id
      { sh.slabclass id with
        nfreeItemq := (sh.slabclass id).nfreeItemq - 1
        freeItemq := (sh.slabclass id).freeItemq.erase p } }

/-- The key of the item changes. -/
def setKey (p : ItemPtr) (key : Key) : Shape := { sh with key := Function.update sh.key p key }

/-- The hash table moves a bucket. -/
def moveBucket : Shape := { sh with assoc := sh.assoc.moveBucket cfg.hash sh.key }

/-- The slab moves to the tail of the slab queue. -/
def moveSlab (sl : ℕ) : Shape := { sh with slabLruq := sh.slabLruq.erase sl ++ [sl] }

/-- Class `id` has no current slab any more. -/
def forget (id : ℕ) : Shape :=
  { sh with
    slabclass := Function.update sh.slabclass id
      { sh.slabclass id with nfreeItem := 0, freeItem := none } }

/-- The next chunk of the current slab of class `id`, which is `q`, is handed out. -/
def handOut (id : ℕ) (q : ItemPtr) : Shape :=
  { sh with
    slabclass := Function.update sh.slabclass id
      { sh.slabclass id with
        nfreeItem := (sh.slabclass id).nfreeItem - 1
        freeItem :=
          if (sh.slabclass id).nfreeItem - 1 ≠ 0 then some ⟨q.slab, q.idx + 1⟩ else none } }

/-- The slab leaves the slab queue. -/
def dropSlab (sl : ℕ) : Shape := { sh with slabLruq := sh.slabLruq.erase sl }

/-- A new slab enters the slab table. -/
def newSlab : Shape := { sh with slabTable := sh.slabTable ++ [sh.slabTable.length] }

/-- The slab is initialized as the current slab of class `id`. -/
def addSlab (sl id : ℕ) : Shape :=
  { sh with
    slabLruq := sh.slabLruq ++ [sl]
    slabId := Function.update sh.slabId sl id
    slabRef := Function.update sh.slabRef sl 0
    id := fun p => if p.slab = sl ∧ p.idx < cfg.nitem id then id else sh.id p
    ref := fun p => if p.slab = sl ∧ p.idx < cfg.nitem id then 0 else sh.ref p
    linked := fun p => if p.slab = sl ∧ p.idx < cfg.nitem id then false else sh.linked p
    slabbed := fun p => if p.slab = sl ∧ p.idx < cfg.nitem id then false else sh.slabbed p
    slabclass := Function.update sh.slabclass id
      { sh.slabclass id with nfreeItem := cfg.nitem id, freeItem := some ⟨sl, 0⟩ } }

/-! ### They keep shapes well formed -/

variable {cfg sh}

namespace Wf

theorem nitem_pos (h : sh.Wf cfg) {sl : ℕ} (hsl : sl ∈ sh.slabLruq) :
    0 < cfg.nitem (sh.slabId sl) := cfg.nitem_pos (h.slab_id sl hsl)

theorem id_lt (h : sh.Wf cfg) {p : ItemPtr} (hp : sh.Active cfg p) :
    sh.id p < slabclassMaxId + 1 := by
  have hid := h.slab_id _ hp.1
  have hmax := cfg.maxId_le
  rw [h.item_id p hp]
  exact Nat.lt_succ_of_le (hid.2.trans hmax)

/-- A current slab belongs to one class. -/
theorem cur_unique (h : sh.Wf cfg) {id id' : ℕ} {q q' : ItemPtr}
    (hq : (sh.slabclass id).freeItem = some q) (hq' : (sh.slabclass id').freeItem = some q')
    (hslab : q.slab = q'.slab) : id = id' := by
  obtain ⟨ha, hid, -⟩ := h.cur id q hq
  obtain ⟨ha', hid', -⟩ := h.cur id' q' hq'
  rw [← hid, ← hid', h.item_id q ha, h.item_id q' ha', hslab]

theorem not_inTail_of_ref (h : sh.Wf cfg) {p : ItemPtr} (hp : sh.Active cfg p)
    (href : sh.ref p ≠ 0) : ¬ sh.InTail p := fun ht => href (h.tail p ht hp).2.2

theorem not_inTail_of_linked (h : sh.Wf cfg) {p : ItemPtr} (hp : sh.Active cfg p)
    (hl : sh.linked p = true) : ¬ sh.InTail p := fun ht => by
  simp [(h.tail p ht hp).1] at hl

theorem not_inTail_of_slabbed (h : sh.Wf cfg) {p : ItemPtr} (hp : sh.Active cfg p)
    (hs : sh.slabbed p = true) : ¬ sh.InTail p := fun ht => by
  simp [(h.tail p ht hp).2.1] at hs

/-- A changed count keeps the shape well formed if the slab's count follows it. -/
theorem setRef (h : sh.Wf cfg) {p : ItemPtr} {r sr : ℕ} (hp : sh.Active cfg p) (hr : r < 2 ^ 16)
    (hidle : sh.slabbed p = true ∨ sh.InTail p → r = 0)
    (hsr : ∀ n, n % 2 ^ 16 = sh.slabRef p.slab → sh.ref p ≤ n →
      sr = (n - sh.ref p + r) % 2 ^ 16) :
    ({ sh with
      ref := Function.update sh.ref p r
      slabRef := Function.update sh.slabRef p.slab sr } : Shape).Wf cfg :=
  { h with
    tail := fun q hq ha => by
      obtain ⟨h1, h2, h3⟩ := h.tail q hq ha
      refine ⟨h1, h2, ?_⟩
      by_cases hqp : q = p
      · subst hqp
        simpa using hidle (.inr hq)
      · simpa [hqp] using h3
    slabbed := fun q ha hs => by
      obtain ⟨h1, h2⟩ := h.slabbed q ha hs
      refine ⟨h1, ?_⟩
      by_cases hqp : q = p
      · subst hqp
        simpa using hidle (.inl hs)
      · simpa [hqp] using h2
    ref_lt := fun q ha => by
      by_cases hqp : q = p
      · subst hqp
        simpa using hr
      · simpa [hqp] using h.ref_lt q ha
    slab_ref := fun sl hsl => by
      by_cases hslp : sl = p.slab
      · subst hslp
        -- the sum over the slab without the chunk is the same before and after
        have hmem : p.idx ∈ Finset.range (cfg.nitem (sh.slabId p.slab)) :=
          Finset.mem_range.2 hp.2
        have hrest : ∑ i ∈ (Finset.range (cfg.nitem (sh.slabId p.slab))).erase p.idx,
            Function.update sh.ref p r ⟨p.slab, i⟩ =
            ∑ i ∈ (Finset.range (cfg.nitem (sh.slabId p.slab))).erase p.idx,
              sh.ref ⟨p.slab, i⟩ := by
          refine Finset.sum_congr rfl fun i hi => ?_
          refine Function.update_of_ne (fun heq => ?_) _ _
          exact Finset.ne_of_mem_erase hi (congrArg ItemPtr.idx heq)
        have hnew := Finset.add_sum_erase _ (fun i => Function.update sh.ref p r ⟨p.slab, i⟩) hmem
        have hold := Finset.add_sum_erase _ (fun i => sh.ref ⟨p.slab, i⟩) hmem
        have hslab := h.slab_ref _ hsl
        have hself : Function.update sh.ref p r ⟨p.slab, p.idx⟩ = r := Function.update_self ..
        simp only [hself, hrest] at hnew
        change Function.update sh.slabRef p.slab sr p.slab = _
        rw [Function.update_self, hsr _ hslab.symm (by
          simp only [refs, ← hold]
          exact Nat.le_add_right _ _)]
        simp only [refs]
        rw [← hnew, ← hold, Nat.add_sub_cancel_left, Nat.add_comm]
      · change Function.update sh.slabRef p.slab sr sl = _
        rw [Function.update_of_ne hslp, h.slab_ref sl hsl]
        simp only [refs]
        congr 1
        refine Finset.sum_congr rfl fun i _ => ?_
        exact (Function.update_of_ne (fun heq => hslp (congrArg ItemPtr.slab heq)) _ _).symm }

theorem acquire (h : sh.Wf cfg) {p : ItemPtr} (hp : sh.Active cfg p) (hs : sh.slabbed p = false)
    (ht : ¬ sh.InTail p) : (sh.acquire p).Wf cfg := by
  refine h.setRef hp (Nat.mod_lt _ (by decide)) ?_ fun n hn hle => ?_
  · rintro (hs' | ht')
    · simp [hs] at hs'
    · exact absurd ht' ht
  · have := h.ref_lt p hp
    omega

theorem release (h : sh.Wf cfg) {p : ItemPtr} (hp : sh.Active cfg p) (href : sh.ref p ≠ 0) :
    (sh.release p).Wf cfg := by
  refine h.setRef hp (Nat.mod_lt _ (by decide)) ?_ fun n hn hle => ?_
  · rintro (hs | ht)
    · exact absurd (h.slabbed p hp hs).2 href
    · exact absurd (h.tail p ht hp).2.2 href
  · have := h.ref_lt p hp
    omega

theorem link (h : sh.Wf cfg) {p : ItemPtr} {ok : Bool} (hp : sh.Active cfg p)
    (hl : sh.linked p = false) (hs : sh.slabbed p = false) (ht : ¬ sh.InTail p)
    (hkey : ∀ q, sh.Active cfg q → sh.linked q = true → sh.key q ≠ sh.key p) :
    (sh.link cfg ok p).Wf cfg := by
  have hnot : ¬ sh.assoc.Has p := fun hp' => by simp [((h.assoc_has p).1 hp').2] at hl
  have hhas : ∀ q, (sh.link cfg ok p).assoc.Has q ↔ q = p ∨ sh.assoc.Has q := fun q =>
    h.assoc_wf.has_insert hnot
  refine { h with
    lru := ?_, lru_len := ?_, assoc_wf := ?_, assoc_has := ?_, key_inj := ?_, tail := ?_,
    slabbed := ?_ }
  · refine h.lru.insertTail (by simp [hl]) fun id q => ?_
    change sh.Active cfg q ∧ sh.id q = id ∧ Function.update sh.linked p true q = true ↔ _
    by_cases hqp : q = p
    · subst hqp
      simp [hl, hp, eq_comm]
    · simp [hqp]
  · have hq := queued_update sh.lruq (h.id_lt hp) (sh.lruq (sh.id p) ++ [p])
    change (sh.assoc.insert cfg.hash sh.key cfg.hashPower ok p).nhashItem = _
    rw [Assoc.insert_nhashItem, h.lru_len]
    simp only [List.length_append, List.length_singleton] at hq
    change _ = queued (Function.update _ _ _) _
    omega
  · exact h.assoc_wf.insert hnot
  · intro q
    rw [hhas, h.assoc_has]
    change _ ↔ sh.Active cfg q ∧ Function.update sh.linked p true q = true
    by_cases hqp : q = p
    · subst hqp
      simpa using hp
    · simp [hqp]
  · intro q q' hq hq' hk
    rw [hhas] at hq hq'
    -- two items of one key: the new one is neither, as no linked item had its key
    rcases hq with rfl | hq <;> rcases hq' with rfl | hq'
    · rfl
    · exact absurd hk.symm (hkey q' ((h.assoc_has q').1 hq').1 ((h.assoc_has q').1 hq').2)
    · exact absurd hk (hkey q ((h.assoc_has q).1 hq).1 ((h.assoc_has q).1 hq).2)
    · exact h.key_inj q q' hq hq' hk
  · intro q hq ha
    -- an item of the tail is not linked, hence it is not `p`
    have hne : q ≠ p := fun hqp => ht (hqp ▸ hq)
    simpa [Shape.link, hne] using h.tail q hq ha
  · intro q ha hs'
    have hne : q ≠ p := by
      rintro rfl
      simp [Shape.link, hs] at hs'
    simpa [Shape.link, hne] using h.slabbed q ha hs'

theorem unlink (h : sh.Wf cfg) {p : ItemPtr} (hp : sh.Active cfg p) (hl : sh.linked p = true) :
    (sh.unlink cfg p).Wf cfg := by
  have hmem : sh.assoc.Has p := (h.assoc_has p).2 ⟨hp, hl⟩
  have hhas : ∀ q, (sh.unlink cfg p).assoc.Has q ↔ q ≠ p ∧ sh.assoc.Has q := fun q =>
    h.assoc_wf.has_delete h.key_inj hmem
  have hlinked : ∀ q, (sh.unlink cfg p).linked q = true ↔ q ≠ p ∧ sh.linked q = true := fun q => by
    by_cases hqp : q = p <;> simp [Shape.unlink, hqp]
  refine { h with
    lru := ?_, lru_len := ?_, assoc_wf := ?_, assoc_has := ?_, key_inj := ?_, tail := ?_,
    slabbed := ?_ }
  · refine h.lru.erase fun id q => ?_
    rw [hlinked]
    change sh.Active cfg q ∧ sh.id q = id ∧ _ ↔ _
    by_cases hqp : q = p
    · subst hqp
      simpa using fun _ h2 _ => h2.symm
    · simp [hqp]
  · have hq := queued_update sh.lruq (h.id_lt hp) ((sh.lruq (sh.id p)).erase p)
    -- the item leaves the table and its queue at the same time, and the counts stay equal
    have hin : p ∈ sh.lruq (sh.id p) := h.lru.mem_iff.2 ⟨hp, rfl, hl⟩
    have hlen := List.length_erase_of_mem hin
    have hpos := List.length_pos_of_mem hin
    change (sh.assoc.delete cfg.hash sh.key (sh.key p)).nhashItem = queued (Function.update _ _ _) _
    rw [Assoc.delete_nhashItem, h.lru_len]
    omega
  · exact h.assoc_wf.delete h.key_inj hmem
  · intro q
    rw [hhas, hlinked, h.assoc_has]
    exact and_left_comm
  · intro q q' hq hq' hk
    exact h.key_inj q q' ((hhas q).1 hq).2 ((hhas q').1 hq').2 hk
  · intro q hq ha
    obtain ⟨h1, h2, h3⟩ := h.tail q hq ha
    refine ⟨?_, h2, h3⟩
    rw [← Bool.not_eq_true, hlinked]
    simp [h1]
  · intro q ha hs
    obtain ⟨h1, h2⟩ := h.slabbed q ha hs
    refine ⟨?_, h2⟩
    rw [← Bool.not_eq_true, hlinked]
    simp [h1]

theorem requeue (h : sh.Wf cfg) {p : ItemPtr} (hp : sh.Active cfg p) (hl : sh.linked p = true) :
    (sh.requeue p).Wf cfg := by
  have hin : p ∈ sh.lruq (sh.id p) := h.lru.mem_iff.2 ⟨hp, rfl, hl⟩
  refine { h with lru := h.lru.moveToTail ⟨hp, rfl, hl⟩, lru_len := ?_ }
  have hq := queued_update sh.lruq (h.id_lt hp) ((sh.lruq (sh.id p)).erase p ++ [p])
  have hlen := List.length_erase_of_mem hin
  have hpos := List.length_pos_of_mem hin
  have hlru := h.lru_len
  change sh.assoc.nhashItem = queued (Function.update _ _ _) _
  simp only [List.length_append, List.length_singleton] at hq
  omega

theorem put (h : sh.Wf cfg) {p : ItemPtr} (hp : sh.Active cfg p) (hl : sh.linked p = false)
    (hs : sh.slabbed p = false) (href : sh.ref p = 0) (ht : ¬ sh.InTail p) :
    (sh.put p).Wf cfg := by
  have hclass : ∀ id, ((sh.put p).slabclass id).freeItem = (sh.slabclass id).freeItem ∧
      ((sh.put p).slabclass id).nfreeItem = (sh.slabclass id).nfreeItem := fun id => by
    by_cases hid : id = sh.id p <;> simp [Shape.put, hid]
  have htail : ∀ q, (sh.put p).InTail q ↔ sh.InTail q := fun q => by
    simp only [InTail, (hclass _).1]
  have hslabbed : ∀ q, (sh.put p).slabbed q = true ↔ q = p ∨ sh.slabbed q = true := fun q => by
    by_cases hqp : q = p <;> simp [Shape.put, hqp]
  refine { h with
    free := ?_, free_len := ?_, cur := ?_, cur_none := ?_, tail := ?_, slabbed := ?_ }
  · have hq : (sh.put p).freeq = Function.update sh.freeq (sh.id p) (p :: sh.freeq (sh.id p)) := by
      funext id
      by_cases hid : id = sh.id p <;> simp [freeq, Shape.put, Function.update_apply, hid]
    rw [hq]
    refine h.free.insertHead (by simp [hs]) fun id q => ?_
    rw [hslabbed]
    change sh.Active cfg q ∧ sh.id q = id ∧ _ ↔ _
    by_cases hqp : q = p
    · subst hqp
      simp [hs, hp, eq_comm]
    · simp [hqp]
  · intro id
    have := h.free_len id
    by_cases hid : id = sh.id p
    · subst hid
      simpa [freeq, Shape.put] using this
    · simpa [freeq, Shape.put, hid] using this
  · intro id q hq
    rw [(hclass id).2]
    exact h.cur id q ((hclass id).1 ▸ hq)
  · intro id hid
    rw [(hclass id).2]
    exact h.cur_none id ((hclass id).1 ▸ hid)
  · intro q hq ha
    rw [htail] at hq
    -- an item that was never handed out is not given back either
    have hne : q ≠ p := fun hqp => ht (hqp ▸ hq)
    simpa [Shape.put, hne] using h.tail q hq ha
  · intro q ha hs'
    -- `p` has just been unlinked by its last holder
    rcases (hslabbed q).1 hs' with rfl | hq
    · exact ⟨hl, href⟩
    · exact h.slabbed q ha hq

theorem take (h : sh.Wf cfg) {p : ItemPtr} (hp : sh.Active cfg p) (hs : sh.slabbed p = true) :
    (sh.take (sh.id p) p).Wf cfg := by
  have hclass : ∀ id, ((sh.take (sh.id p) p).slabclass id).freeItem = (sh.slabclass id).freeItem ∧
      ((sh.take (sh.id p) p).slabclass id).nfreeItem = (sh.slabclass id).nfreeItem := fun id => by
    by_cases hid : id = sh.id p <;> simp [Shape.take, hid]
  have htail : ∀ q, (sh.take (sh.id p) p).InTail q ↔ sh.InTail q := fun q => by
    simp only [InTail, (hclass _).1]
  have hslabbed : ∀ q, (sh.take (sh.id p) p).slabbed q = true ↔ q ≠ p ∧ sh.slabbed q = true :=
    fun q => by by_cases hqp : q = p <;> simp [Shape.take, hqp]
  refine { h with
    free := ?_, free_len := ?_, cur := ?_, cur_none := ?_, tail := ?_, slabbed := ?_ }
  · have hq : (sh.take (sh.id p) p).freeq =
        Function.update sh.freeq (sh.id p) ((sh.freeq (sh.id p)).erase p) := by
      funext id
      by_cases hid : id = sh.id p <;> simp [freeq, Shape.take, Function.update_apply, hid]
    rw [hq]
    refine h.free.erase fun id q => ?_
    rw [hslabbed]
    change sh.Active cfg q ∧ sh.id q = id ∧ _ ↔ _
    by_cases hqp : q = p
    · subst hqp
      simpa using fun _ h2 _ => h2.symm
    · simp [hqp]
  · intro id
    have hlen := h.free_len id
    by_cases hid : id = sh.id p
    · subst hid
      -- the count of the free queue goes down with the queue
      have hin : p ∈ sh.freeq (sh.id p) := h.free.mem_iff.2 ⟨hp, rfl, hs⟩
      simpa [freeq, Shape.take, hlen] using (List.length_erase_of_mem hin).symm
    · simpa [freeq, Shape.take, hid] using hlen
  · intro id q hq
    rw [(hclass id).2]
    exact h.cur id q ((hclass id).1 ▸ hq)
  · intro id hid
    rw [(hclass id).2]
    exact h.cur_none id ((hclass id).1 ▸ hid)
  · intro q hq ha
    obtain ⟨h1, h2, h3⟩ := h.tail q ((htail q).1 hq) ha
    refine ⟨h1, ?_, h3⟩
    rw [← Bool.not_eq_true, hslabbed]
    simp [h2]
  · intro q ha hs'
    exact h.slabbed q ha ((hslabbed q).1 hs').2

theorem setKey (h : sh.Wf cfg) {p : ItemPtr} (hp : ¬ sh.assoc.Has p) (key : Key) :
    (sh.setKey p key).Wf cfg := by
  have hkey : ∀ q, sh.assoc.Has q → (sh.setKey p key).key q = sh.key q := fun q hq => by
    have hne : q ≠ p := fun hqp => hp (hqp ▸ hq)
    simp [Shape.setKey, hne]
  refine { h with assoc_wf := h.assoc_wf.congr_keyOf hkey, key_inj := ?_ }
  intro q q' hq hq' hk
  rw [hkey q hq, hkey q' hq'] at hk
  exact h.key_inj q q' hq hq' hk

theorem moveBucket (h : sh.Wf cfg) : (sh.moveBucket cfg).Wf cfg :=
  { h with
    lru_len := h.assoc_wf.moveBucket_nhashItem.trans h.lru_len
    assoc_wf := h.assoc_wf.moveBucket
    assoc_has := fun p => h.assoc_wf.has_moveBucket.trans (h.assoc_has p)
    key_inj := fun p q hp hq =>
      h.key_inj p q (h.assoc_wf.has_moveBucket.1 hp) (h.assoc_wf.has_moveBucket.1 hq) }

theorem newSlab (h : sh.Wf cfg) : sh.newSlab.Wf cfg :=
  { h with
    table_eq := by
      change sh.slabTable ++ [_] = List.range (sh.slabTable ++ [_]).length
      rw [List.length_append, List.length_singleton, List.range_succ, ← h.table_eq]
    slab_mem := fun sl hsl => List.mem_append_left _ (h.slab_mem sl hsl) }

theorem handOut_freeItem {id id' : ℕ} {q q' : ItemPtr}
    (hq' : ((sh.handOut id q).slabclass id').freeItem = some q') :
    id' ≠ id ∧ (sh.slabclass id').freeItem = some q' ∨
    id' = id ∧ (sh.slabclass id).nfreeItem - 1 ≠ 0 ∧ q' = ⟨q.slab, q.idx + 1⟩ := by
  by_cases hid : id' = id
  · subst hid
    simp only [Shape.handOut, Function.update_self] at hq'
    split_ifs at hq' with hn
    exact .inr ⟨rfl, hn, (Option.some.inj hq').symm⟩
  · simp only [Shape.handOut, Function.update_of_ne hid] at hq'
    exact .inl ⟨hid, hq'⟩

/-- What is not handed out afterwards was not handed out before, and is not the chunk `q`. -/
theorem handOut_inTail (h : sh.Wf cfg) {id : ℕ} {q : ItemPtr}
    (hq : (sh.slabclass id).freeItem = some q) {p : ItemPtr} (ht : (sh.handOut id q).InTail p) :
    sh.InTail p ∧ p ≠ q := by
  obtain ⟨id', q', hq', hslab, hidx⟩ := ht
  rcases handOut_freeItem hq' with ⟨hid, hold⟩ | ⟨rfl, -, rfl⟩
  · refine ⟨⟨id', q', hold, hslab, hidx⟩, ?_⟩
    rintro rfl
    exact hid (h.cur_unique hold hq hslab)
  · refine ⟨⟨id', q, hq, hslab, by simp at hidx; omega⟩, ?_⟩
    rintro rfl
    simp at hidx

theorem handOut_inTail_iff (h : sh.Wf cfg) {id : ℕ} {q : ItemPtr}
    (hq : (sh.slabclass id).freeItem = some q) {p : ItemPtr} (hp : sh.Active cfg p) :
    (sh.handOut id q).InTail p ↔ sh.InTail p ∧ p ≠ q := by
  refine ⟨h.handOut_inTail hq, ?_⟩
  rintro ⟨⟨id', q', hq', hslab, hle⟩, hne⟩
  by_cases hid : id' = id
  · subst hid
    obtain rfl : q = q' := Option.some.inj (hq.symm.trans hq')
    obtain ⟨ha, hqid, hlen⟩ := h.cur id' q hq
    have hlt : p.idx < cfg.nitem id' := by
      rw [← hqid, h.item_id q ha, hslab]
      exact hp.2
    have hidx : q.idx ≠ p.idx := fun heq => hne (by cases p; cases q; simp_all)
    have hn : (sh.slabclass id').nfreeItem - 1 ≠ 0 := by omega
    refine ⟨id', ⟨q.slab, q.idx + 1⟩, ?_, hslab, ?_⟩
    · simp only [Shape.handOut, Function.update_self]
      rw [if_pos hn]
    · change q.idx + 1 ≤ p.idx
      omega
  · refine ⟨id', q', ?_, hslab, hle⟩
    simpa only [Shape.handOut, Function.update_of_ne hid] using hq'

theorem handOut (h : sh.Wf cfg) {id : ℕ} {q : ItemPtr}
    (hq : (sh.slabclass id).freeItem = some q) : (sh.handOut id q).Wf cfg := by
  have hfree : (sh.handOut id q).freeq = sh.freeq := by
    funext id'
    by_cases hid : id' = id <;> simp [freeq, Shape.handOut, hid]
  refine { h with
    free := ?_, free_len := ?_, cur := ?_, cur_none := ?_, tail := ?_ }
  · rw [hfree]
    exact h.free
  · intro id'
    rw [hfree, ← h.free_len id']
    by_cases hid : id' = id <;> simp [Shape.handOut, hid]
  · intro id' q' hq'
    rcases handOut_freeItem hq' with ⟨hid, hold⟩ | ⟨rfl, hn, rfl⟩
    · obtain ⟨ha, hid', hlen⟩ := h.cur id' q' hold
      exact ⟨ha, hid', by simpa [Shape.handOut, hid] using hlen⟩
    · obtain ⟨ha, hid, hlen⟩ := h.cur id' q hq
      -- the next chunk of the slab becomes the first of the tail
      have hslab : sh.slabId q.slab = id' := by rw [← hid, h.item_id q ha]
      have ha' : sh.Active cfg ⟨q.slab, q.idx + 1⟩ := by
        refine ⟨ha.1, ?_⟩
        rw [hslab]
        change q.idx + 1 < _
        omega
      refine ⟨ha', (h.item_id _ ha').trans hslab, ?_⟩
      simp only [Shape.handOut, Function.update_self]
      omega
  · intro id' hnone
    by_cases hid : id' = id
    · subst hid
      simp only [Shape.handOut, Function.update_self] at hnone ⊢
      -- the last chunk of the slab has gone
      split_ifs at hnone with hn
      omega
    · simp only [Shape.handOut, Function.update_of_ne hid] at hnone ⊢
      exact h.cur_none id' hnone
  · exact fun p ht ha => h.tail p (h.handOut_inTail hq ht).1 ha

theorem forget_inTail {id : ℕ} {p : ItemPtr} (ht : (sh.forget id).InTail p) :
    ∃ id' q, id' ≠ id ∧ (sh.slabclass id').freeItem = some q ∧ q.slab = p.slab ∧ q.idx ≤ p.idx := by
  obtain ⟨id', q, hq, hslab⟩ := ht
  by_cases hid : id' = id
  · simp [Shape.forget, hid] at hq
  · simp only [Shape.forget, Function.update_of_ne hid] at hq
    exact ⟨id', q, hid, hq, hslab⟩

theorem forget (h : sh.Wf cfg) (id : ℕ) : (sh.forget id).Wf cfg := by
  have hfree : (sh.forget id).freeq = sh.freeq := by
    funext id'
    by_cases hid : id' = id <;> simp [freeq, Shape.forget, hid]
  refine { h with
    free := ?_, free_len := ?_, cur := ?_, cur_none := ?_, tail := ?_ }
  · rw [hfree]
    exact h.free
  · intro id'
    rw [hfree, ← h.free_len id']
    by_cases hid : id' = id <;> simp [Shape.forget, hid]
  · intro id' q hq
    by_cases hid : id' = id
    · simp [Shape.forget, hid] at hq
    · simp only [Shape.forget, Function.update_of_ne hid] at hq ⊢
      exact h.cur id' q hq
  · intro id' hnone
    by_cases hid : id' = id
    · simp [Shape.forget, hid]
    · simp only [Shape.forget, Function.update_of_ne hid] at hnone ⊢
      exact h.cur_none id' hnone
  · intro p ht ha
    obtain ⟨id', q, -, hq⟩ := forget_inTail ht
    exact h.tail p ⟨id', q, hq⟩ ha

theorem moveSlab (h : sh.Wf cfg) {sl : ℕ} (hsl : sl ∈ sh.slabLruq) : (sh.moveSlab sl).Wf cfg := by
  have hmem : ∀ x, x ∈ (sh.moveSlab sl).slabLruq ↔ x ∈ sh.slabLruq := fun x => by
    by_cases hx : x = sl <;> simp [Shape.moveSlab, h.slab_nodup.mem_erase_iff, hx, hsl]
  have hact : ∀ p, (sh.moveSlab sl).Active cfg p ↔ sh.Active cfg p := fun p => by
    rw [Active, hmem]
    exact Iff.rfl
  exact
    { h with
      slab_mem := fun x hx => h.slab_mem x ((hmem x).1 hx)
      slab_nodup := by
        refine List.nodup_append.2 ⟨h.slab_nodup.erase sl, List.nodup_singleton sl, ?_⟩
        rintro x hx y hy rfl
        rw [List.mem_singleton.1 hy, h.slab_nodup.mem_erase_iff] at hx
        exact hx.1 rfl
      slab_id := fun x hx => h.slab_id x ((hmem x).1 hx)
      item_id := fun p hp => h.item_id p ((hact p).1 hp)
      free := h.free.congr fun id p => by rw [hact]; exact Iff.rfl
      lru := h.lru.congr fun id p => by rw [hact]; exact Iff.rfl
      assoc_has := fun p => by rw [hact]; exact h.assoc_has p
      cur := fun id q hq => by rw [hact]; exact h.cur id q hq
      tail := fun p ht ha => h.tail p ht ((hact p).1 ha)
      slabbed := fun p ha => h.slabbed p ((hact p).1 ha)
      ref_lt := fun p ha => h.ref_lt p ((hact p).1 ha)
      slab_ref := fun x hx => h.slab_ref x ((hmem x).1 hx) }

/-- A slab none of whose chunks is queued, hashed or waiting to be handed out can go. -/
theorem dropSlab (h : sh.Wf cfg) {sl : ℕ}
    (hidle : ∀ p, sh.Active cfg p → p.slab = sl →
      sh.linked p = false ∧ sh.slabbed p = false ∧ ¬ sh.InTail p) : (sh.dropSlab sl).Wf cfg := by
  have hmem : ∀ x, x ∈ (sh.dropSlab sl).slabLruq ↔ x ≠ sl ∧ x ∈ sh.slabLruq := fun x =>
    h.slab_nodup.mem_erase_iff
  have hact : ∀ p, (sh.dropSlab sl).Active cfg p ↔ p.slab ≠ sl ∧ sh.Active cfg p := fun p => by
    rw [Active, hmem, and_assoc]
    exact Iff.rfl
  exact
    { h with
      slab_mem := fun x hx => h.slab_mem x ((hmem x).1 hx).2
      slab_nodup := h.slab_nodup.erase sl
      slab_id := fun x hx => h.slab_id x ((hmem x).1 hx).2
      item_id := fun p hp => h.item_id p ((hact p).1 hp).2
      free := h.free.congr fun id p => by
        rw [hact]
        exact ⟨fun hp => ⟨⟨fun hsl => by simpa [(hidle p hp.1 hsl).2.1] using hp.2.2, hp.1⟩, hp.2⟩,
          fun hp => ⟨hp.1.2, hp.2⟩⟩
      lru := h.lru.congr fun id p => by
        rw [hact]
        exact ⟨fun hp => ⟨⟨fun hsl => by simpa [(hidle p hp.1 hsl).1] using hp.2.2, hp.1⟩, hp.2⟩,
          fun hp => ⟨hp.1.2, hp.2⟩⟩
      assoc_has := fun p => by
        rw [hact]
        refine (h.assoc_has p).trans ?_
        exact ⟨fun hp => ⟨⟨fun hsl => by simpa [(hidle p hp.1 hsl).1] using hp.2, hp.1⟩, hp.2⟩,
          fun hp => ⟨hp.1.2, hp.2⟩⟩
      cur := fun id q hq => by
        obtain ⟨ha, hrest⟩ := h.cur id q hq
        exact ⟨(hact q).2 ⟨fun hsl => (hidle q ha hsl).2.2 ⟨id, q, hq, rfl, le_rfl⟩, ha⟩, hrest⟩
      tail := fun p ht ha => h.tail p ht ((hact p).1 ha).2
      slabbed := fun p ha => h.slabbed p ((hact p).1 ha).2
      ref_lt := fun p ha => h.ref_lt p ((hact p).1 ha).2
      slab_ref := fun x hx => h.slab_ref x ((hmem x).1 hx).2 }

theorem addSlab_active {sl id : ℕ} (hsl : sl ∉ sh.slabLruq) (p : ItemPtr) :
    (sh.addSlab cfg sl id).Active cfg p ↔
      sh.Active cfg p ∨ p.slab = sl ∧ p.idx < cfg.nitem id := by
  simp only [Active, Shape.addSlab, List.mem_append, List.mem_singleton, Function.update_apply]
  by_cases hp : p.slab = sl
  · simp [hp, hsl]
  · simp [hp]

/-- The chunks that were there stay as they were. -/
theorem addSlab_same (sh : Shape) {sl id : ℕ} {p : ItemPtr}
    (hp : ¬ (p.slab = sl ∧ p.idx < cfg.nitem id)) :
    (sh.addSlab cfg sl id).id p = sh.id p ∧ (sh.addSlab cfg sl id).ref p = sh.ref p ∧
      (sh.addSlab cfg sl id).linked p = sh.linked p ∧
      (sh.addSlab cfg sl id).slabbed p = sh.slabbed p :=
  ⟨if_neg hp, if_neg hp, if_neg hp, if_neg hp⟩

theorem addSlab_inTail {sl id : ℕ} {p : ItemPtr} (ht : (sh.addSlab cfg sl id).InTail p) :
    p.slab = sl ∨ sh.InTail p := by
  obtain ⟨id', q, hq, hslab, hidx⟩ := ht
  by_cases hid : id' = id
  · simp only [Shape.addSlab, hid, Function.update_self, Option.some.injEq] at hq
    exact .inl (by rw [← hslab, ← hq])
  · simp only [Shape.addSlab, Function.update_of_ne hid] at hq
    exact .inr ⟨id', q, hq, hslab, hidx⟩

theorem addSlab_freeq {sl id : ℕ} : (sh.addSlab cfg sl id).freeq = sh.freeq := by
  funext id'
  by_cases hid : id' = id <;> simp [freeq, Shape.addSlab, hid]

section

variable {sl id : ℕ} (hsl : sl ∉ sh.slabLruq)

include hsl

/-- A chunk that was there is not one of the new slab. -/
theorem not_new {p : ItemPtr} (hp : sh.Active cfg p) : ¬ (p.slab = sl ∧ p.idx < cfg.nitem id) :=
  fun hn => hsl (hn.1 ▸ hp.1)

/-- The chunks of the new slab have no flag set. -/
theorem active_of_addSlab {p : ItemPtr} (hp : (sh.addSlab cfg sl id).Active cfg p)
    (hs : (sh.addSlab cfg sl id).slabbed p = true ∨ (sh.addSlab cfg sl id).linked p = true) :
    sh.Active cfg p :=
  ((addSlab_active hsl p).1 hp).resolve_right fun hn => by simp [Shape.addSlab, hn] at hs

theorem addSlab_item_id (h : sh.Wf cfg) {p : ItemPtr} (hp : (sh.addSlab cfg sl id).Active cfg p) :
    (sh.addSlab cfg sl id).id p = (sh.addSlab cfg sl id).slabId p.slab := by
  rcases (addSlab_active hsl p).1 hp with hp | hp
  · have hps : p.slab ≠ sl := fun hps => hsl (hps ▸ hp.1)
    rw [(addSlab_same sh (not_new hsl hp)).1, h.item_id p hp]
    simp [Shape.addSlab, hps]
  · simp [Shape.addSlab, hp]

theorem addSlab_free (h : sh.Wf cfg) : Tracks (sh.addSlab cfg sl id).freeq fun id' p =>
    (sh.addSlab cfg sl id).Active cfg p ∧ (sh.addSlab cfg sl id).id p = id' ∧
      (sh.addSlab cfg sl id).slabbed p = true := by
  rw [addSlab_freeq]
  refine h.free.congr fun id' p => ⟨?_, ?_⟩
  · rintro ⟨hp, hpid, hs⟩
    obtain ⟨e1, -, -, e4⟩ := addSlab_same sh (not_new hsl hp)
    exact ⟨(addSlab_active hsl p).2 (.inl hp), e1.trans hpid, e4.trans hs⟩
  · rintro ⟨hp, hpid, hs⟩
    have ha := active_of_addSlab hsl hp (.inl hs)
    obtain ⟨e1, -, -, e4⟩ := addSlab_same sh (not_new hsl ha)
    exact ⟨ha, e1.symm.trans hpid, e4.symm.trans hs⟩

theorem addSlab_lru (h : sh.Wf cfg) : Tracks (sh.addSlab cfg sl id).lruq fun id' p =>
    (sh.addSlab cfg sl id).Active cfg p ∧ (sh.addSlab cfg sl id).id p = id' ∧
      (sh.addSlab cfg sl id).linked p = true := by
  refine h.lru.congr fun id' p => ⟨?_, ?_⟩
  · rintro ⟨hp, hpid, hl⟩
    obtain ⟨e1, -, e3, -⟩ := addSlab_same sh (not_new hsl hp)
    exact ⟨(addSlab_active hsl p).2 (.inl hp), e1.trans hpid, e3.trans hl⟩
  · rintro ⟨hp, hpid, hl⟩
    have ha := active_of_addSlab hsl hp (.inr hl)
    obtain ⟨e1, -, e3, -⟩ := addSlab_same sh (not_new hsl ha)
    exact ⟨ha, e1.symm.trans hpid, e3.symm.trans hl⟩

theorem addSlab_assoc_has (h : sh.Wf cfg) (p : ItemPtr) : sh.assoc.Has p ↔
    (sh.addSlab cfg sl id).Active cfg p ∧ (sh.addSlab cfg sl id).linked p = true := by
  refine (h.assoc_has p).trans ⟨?_, ?_⟩
  · rintro ⟨hp, hl⟩
    exact ⟨(addSlab_active hsl p).2 (.inl hp), (addSlab_same sh (not_new hsl hp)).2.2.1.trans hl⟩
  · rintro ⟨hp, hl⟩
    have ha := active_of_addSlab hsl hp (.inr hl)
    exact ⟨ha, (addSlab_same sh (not_new hsl ha)).2.2.1.symm.trans hl⟩

/-- The new slab is the current one of its class; the other classes keep theirs. -/
theorem addSlab_cur (h : sh.Wf cfg) (hid : cfg.ValidId id) {id' : ℕ} {q : ItemPtr}
    (hq : ((sh.addSlab cfg sl id).slabclass id').freeItem = some q) :
    (sh.addSlab cfg sl id).Active cfg q ∧ (sh.addSlab cfg sl id).id q = id' ∧
      q.idx + ((sh.addSlab cfg sl id).slabclass id').nfreeItem = cfg.nitem id' := by
  by_cases hid' : id' = id
  · subst hid'
    simp only [Shape.addSlab, Function.update_self, Option.some.injEq] at hq
    subst hq
    have hpos := cfg.nitem_pos hid
    refine ⟨(addSlab_active hsl _).2 (.inr ⟨rfl, hpos⟩), ?_, ?_⟩
    · simp [Shape.addSlab, hpos]
    · simp [Shape.addSlab]
  · simp only [Shape.addSlab, Function.update_of_ne hid'] at hq
    obtain ⟨ha, hqid, hlen⟩ := h.cur id' q hq
    refine ⟨(addSlab_active hsl q).2 (.inl ha), (addSlab_same sh (not_new hsl ha)).1.trans hqid, ?_⟩
    simpa [Shape.addSlab, hid'] using hlen

theorem addSlab_tail (h : sh.Wf cfg) {p : ItemPtr} (ht : (sh.addSlab cfg sl id).InTail p)
    (ha : (sh.addSlab cfg sl id).Active cfg p) : (sh.addSlab cfg sl id).linked p = false ∧
      (sh.addSlab cfg sl id).slabbed p = false ∧ (sh.addSlab cfg sl id).ref p = 0 := by
  rcases (addSlab_active hsl p).1 ha with hp | hp
  · have ht' := (addSlab_inTail ht).resolve_left fun hps => hsl (hps ▸ hp.1)
    obtain ⟨-, e2, e3, e4⟩ := addSlab_same sh (not_new hsl hp)
    rw [e2, e3, e4]
    exact h.tail p ht' hp
  · simp [Shape.addSlab, hp]

/-- The new slab has no references. -/
theorem addSlab_slab_ref (h : sh.Wf cfg) {x : ℕ} (hx : x ∈ (sh.addSlab cfg sl id).slabLruq) :
    (sh.addSlab cfg sl id).slabRef x = (sh.addSlab cfg sl id).refs cfg x % 2 ^ 16 := by
  simp only [refs, Shape.addSlab, Function.update_apply]
  by_cases hxs : x = sl
  · subst hxs
    simp only [if_true]
    rw [Finset.sum_eq_zero fun i hi => by simp [Finset.mem_range.1 hi]]
    rfl
  · have hx' : x ∈ sh.slabLruq := (List.mem_append.1 hx).resolve_right fun hx' =>
      hxs (List.mem_singleton.1 hx')
    simp only [hxs, false_and, if_false]
    exact h.slab_ref x hx'

end

theorem addSlab (h : sh.Wf cfg) {sl id : ℕ} (hid : cfg.ValidId id) (hsl : sl ∉ sh.slabLruq)
    (htab : sl ∈ sh.slabTable) : (sh.addSlab cfg sl id).Wf cfg := by
  refine { h with
    slab_mem := ?_, slab_nodup := ?_, slab_id := ?_, item_id := fun _ => addSlab_item_id hsl h
    free := addSlab_free hsl h, free_len := ?_, lru := addSlab_lru hsl h, assoc_has :=
      addSlab_assoc_has hsl h
    cur := fun _ _ => addSlab_cur hsl h hid, cur_none := ?_, tail := fun _ => addSlab_tail hsl h
    slabbed := ?_, ref_lt := ?_, slab_ref := fun _ => addSlab_slab_ref hsl h }
  · intro x hx
    rcases List.mem_append.1 hx with hx | hx
    · exact h.slab_mem x hx
    · exact List.mem_singleton.1 hx ▸ htab
  · refine List.nodup_append.2 ⟨h.slab_nodup, List.nodup_singleton sl, ?_⟩
    -- a slab is not twice in the queue, as it was in none before
    rintro x hx y hy rfl
    exact hsl (List.mem_singleton.1 hy ▸ hx)
  · intro x hx
    simp only [Shape.addSlab, Function.update_apply]
    split_ifs with hxs
    · exact hid
    · rcases List.mem_append.1 hx with hx | hx
      · exact h.slab_id x hx
      · exact absurd (List.mem_singleton.1 hx) hxs
  · intro id'
    rw [addSlab_freeq, ← h.free_len id']
    by_cases hid : id' = id <;> simp [Shape.addSlab, hid]
  · intro id' hnone
    by_cases hid' : id' = id
    · simp [Shape.addSlab, hid'] at hnone
    · simp only [Shape.addSlab, Function.update_of_ne hid'] at hnone ⊢
      exact h.cur_none id' hnone
  · intro p ha hs
    -- a chunk of the new slab is not in the free queue yet, so this one is of another slab
    have hp := active_of_addSlab hsl ha (.inl hs)
    obtain ⟨-, e2, e3, e4⟩ := addSlab_same sh (not_new hsl hp)
    rw [e2, e3]
    exact h.slabbed p hp (e4.symm.trans hs)
  · intro p ha
    rcases (addSlab_active hsl p).1 ha with hp | hp
    · rw [(addSlab_same sh (not_new hsl hp)).2.1]
      exact h.ref_lt p hp
    · simp [Shape.addSlab, hp]

end Wf

end Shape

end Twemcache
