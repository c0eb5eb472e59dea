import Twemcache.Server.Ownership
import Twemcache.Server.Sound

/-!
# The calls of one connection

What a connection knows of the server is its share of it: the store, the item it has allocated, and
the items that it has taken references to for a reply (`Server.Owns`).  `Calls` says that a
connection can bring its share from one state to another, from any state of the server in which it
has the first.  Such calls leave the shares of the other connections alone, and what they have
allocated.

## Main definitions

* `Label.conn` : the connection that a step needs.
* `Server.Owns` : the share of a connection.
* `Calls` : the connection makes some calls.

## Main results

* `Calls.alloc`, `Calls.complete`, `Calls.get` and so on : the calls.
* `Server.Inv.items_of_step` : a step leaves alone what other connections have allocated.
* `Server.noWrap_of_reaches` : a count that has wrapped stays on record.
-/

namespace Twemcache

/-- The connection that makes the call, if it needs a reference of one. -/
def Label.conn : Label → Option ℕ
  | .alloc c _ _ _ _ _ | .fill c _ _ | .reqCas c _ | .set c _ | .cas c _ | .add c _ | .replace c _
  | .annex c _ _
  | .removeItem c | .get c _ | .touch c _ | .remove c _ => some c
  | .delete _ | .delta _ _ _ _ | .flushSet _ | .flushExpired | .moveBucket | .tick _ | .evict _ =>
    none

/-! ### Wrapped counts stay on record -/

namespace Store

variable {cfg : Config} {ch : Choice} {s s' t u : Store} {p : ItemPtr} {id : ℕ}

theorem overflow_itemReuse (cfg : Config) (s : Store) (p : ItemPtr) :
    (s.itemReuse cfg p).overflow = s.overflow := by
  have henv : (s.itemReuse cfg p).env = s.env := itemReuse_env p
  exact congrArg Env.overflow henv

theorem overflow_hand {sl : ℕ}
    (h : (u.slabAddOne cfg sl id).slabGetItemFromCurrent id = (some p, t)) :
    t.overflow = u.overflow := by
  have ht : ((u.slabAddOne cfg sl id).slabGetItemFromCurrent id).2 = t := congrArg Prod.snd h
  rw [← ht]
  unfold slabGetItemFromCurrent
  split <;> rfl

theorem slabEvictOne_overflow (cfg : Config) (s : Store) (sl : ℕ) :
    (s.slabEvictOne cfg sl).overflow = s.overflow := by
  have hforget : (s.slabForgetCurrent (s.slabs sl).id sl).overflow = s.overflow := by
    unfold slabForgetCurrent
    split
    · split_ifs <;> rfl
    · rfl
  have hitem : ∀ (s : Store) (id : ℕ) (p : ItemPtr), (s.slabEvictItem cfg id p).overflow =
      s.overflow := by
    intro s id p
    unfold slabEvictItem
    split_ifs
    · exact overflow_itemReuse cfg s p
    · rfl
    · rfl
  -- the chunks of the slab, one after another
  have hitems : ∀ (l : List ℕ) (id : ℕ) (s : Store),
      (l.foldl (fun s i => s.slabEvictItem cfg id ⟨sl, i⟩) s).overflow = s.overflow := by
    intro l id
    induction l with
    | nil => exact fun _ => rfl
    | cons i l ih => exact fun s => (ih _).trans (hitem s id ⟨sl, i⟩)
  exact (hitems _ _ _).trans hforget

theorem Found.overflow (hf : Found cfg ch id s p t) : t.overflow = s.overflow := by
  cases hf with
  | expired hp hexp => exact overflow_itemReuse cfg s p
  | freeq hp => rfl
  | current hp ht =>
    rw [ht]
    unfold slabGetItemFromCurrent
    split <;> rfl
  | fresh hex hget ht =>
    refine (overflow_hand ht).trans ?_
    unfold slabGetNew at hget
    split_ifs at hget
    all_goals
      obtain ⟨-, rfl⟩ := Prod.mk.inj hget
      rfl
  | slab hex hno hpick ht => exact (overflow_hand ht).trans (slabEvictOne_overflow cfg s _)
  | lru hex hno hopt hp => exact overflow_itemReuse cfg s p

theorem Deed.overflow (hd : Deed cfg ch s s') (h : s'.overflow = false) : s.overflow = false := by
  cases hd with
  | acquire p => exact overflow_of_acquire h
  | remove hp => exact overflow_of_env (itemRemove_env _) h
  | unlink hp => exact overflow_of_env (itemUnlink_env _) h
  | link hp => exact Guarded.overflow_itemLink h
  | @touch p hp =>
    rcases itemTouch_eq (s := s) cfg p with heq | ⟨-, -, heq⟩
    · rwa [heq] at h
    · rw [heq] at h
      exact overflow_of_env (slabLruqTouch_env (s := s.touchBare p) p.slab false) h
  | @alloc t _ p hf key dataflags exptime nbyte =>
    have hacquire : (t.itemAcquireRefcount p).overflow = false := h
    exact hf.overflow.symm.trans (overflow_of_acquire hacquire)
  | write hf => exact h
  | moveBucket => exact h

theorem Deeds.overflow (hd : Deeds cfg ch s s') (h : s'.overflow = false) : s.overflow = false := by
  induction hd with
  | refl => exact h
  | tail _ hd ih => exact ih (hd.overflow h)

end Store

namespace Server

variable {cfg : Config} {s s' : Server} {l : Label} {a : Answer} {i j : ℕ} {p : ItemPtr}

theorem Acts.overflow (h : Acts cfg s l s') (hov : s'.store.overflow = false) :
    s.store.overflow = false := by
  rcases h with hr | ⟨-, -, -, heq⟩
  · exact hr.deeds.overflow hov
  · rwa [heq] at hov

/-- **A count that has wrapped stays on record**: if there is none at the end of a run, there was
none in it. -/
theorem noWrap_of_reaches {C : Server → Label → Server → Prop} (h : (server cfg).Reaches C s s')
    (hs : s.Sound) (hov : s'.store.overflow = false) :
    (server cfg).Reaches (fun s l s' => C s l s' ∧ NoWrap s l s') s s' ∧ s'.Sound := by
  suffices hrun : s'.Sound ∧ (s'.store.overflow = false →
      (server cfg).Reaches (fun s l s' => C s l s' ∧ NoWrap s l s') s s') from ⟨hrun.2 hov, hrun.1⟩
  clear hov
  induction h with
  | refl => exact ⟨hs, fun _ => .refl⟩
  | tail _ hnext ih =>
    obtain ⟨l, a, hst, hC⟩ := hnext
    obtain ⟨hacts, hsound⟩ := ih.1.step hst
    exact ⟨hsound, fun hov => (ih.2 (hacts.overflow hov)).tail hst ⟨hC, hov⟩⟩

/-! ### What a step leaves alone -/

theorem filter_erase_conn {r : Ref} (refs : List Ref) (hr : r.conn ≠ j) :
    (refs.erase r).filter (·.conn = j) = refs.filter (·.conn = j) := by
  rw [← List.erase_filter]
  exact List.erase_of_not_mem fun hmem => hr (by simpa using (List.mem_filter.1 hmem).2)

theorem filter_markStored_conn (refs : List Ref) (hi : i ≠ j) :
    (markStored i refs).filter (·.conn = j) = refs.filter (·.conn = j) := by
  induction refs with
  | nil => rfl
  | cons r refs ih =>
    have hcons : markStored i (r :: refs) =
        (if r.conn = i ∧ r.slot = .item false then { r with slot := .item true } else r) ::
          markStored i refs := rfl
    rw [hcons, List.filter_cons, List.filter_cons, ih]
    by_cases hr : r.conn = i ∧ r.slot = .item false
    · have hne : r.conn ≠ j := fun h => hi (hr.1.symm.trans h)
      rw [if_pos hr, if_neg (by simpa using hne), if_neg (by simpa using hne)]
    · rw [if_neg hr]

/-- A step changes the references of the connection that it needs only. -/
theorem refs_of_step (hs : s.step cfg l = some (a, s')) (hj : l.conn ≠ some j) :
    s'.refs.filter (·.conn = j) = s.refs.filter (·.conn = j) := by
  have hkeep : ∀ {c : ℕ} {slot : Slot} {r : Option ItemPtr × Store}, c ≠ j →
      some (s.keep c slot r) = some (a, s') →
      s'.refs.filter (·.conn = j) = s.refs.filter (·.conn = j) := by
    intro c slot r hc hs
    obtain ⟨-, rfl⟩ := Prod.mk.inj (Option.some.inj hs)
    obtain ⟨_ | p, st⟩ := r
    · rfl
    · exact List.filter_cons_of_neg (by simpa using hc)
  have hgive : ∀ {r : Ref}, r.conn ≠ j → some (s.giveBack r) = some (a, s') →
      s'.refs.filter (·.conn = j) = s.refs.filter (·.conn = j) := by
    intro r hr hs
    obtain ⟨-, rfl⟩ := Prod.mk.inj (Option.some.inj hs)
    exact filter_erase_conn s.refs hr
  have hstore : ∀ {c : ℕ} {f : ItemPtr → Answer × Store}, c ≠ j →
      s.storeItem cfg c f = some (a, s') →
      s'.refs.filter (·.conn = j) = s.refs.filter (·.conn = j) := by
    intro c f hc hs
    obtain ⟨p, -, heq⟩ := storeItem_cases hs
    obtain ⟨-, rfl⟩ := Prod.mk.inj heq
    exact filter_markStored_conn s.refs hc
  have hwrite : ∀ {c : ℕ} {f : Item → Item}, s.writeItem c f = some (a, s') → s'.refs = s.refs := by
    intro c f hs
    obtain ⟨p, -, heq⟩ := Option.map_eq_some_iff.1 hs
    obtain ⟨-, rfl⟩ := Prod.mk.inj heq
    rfl
  -- the rest of the store is not looked at
  have hcall : ∀ {x : Answer × Store}, s.call x = some (a, s') → s'.refs = s.refs := by
    intro x hs
    obtain ⟨-, rfl⟩ := Prod.mk.inj (Option.some.inj hs)
    rfl
  have hne : ∀ {c : ℕ}, l.conn = some c → c ≠ j := fun hc hcj => hj (by rw [hc, hcj])
  cases l with
  | alloc c key dataflags exptime nbyte ch =>
    simp only [Server.step] at hs
    split_ifs at hs
    exact hkeep (hne rfl) hs
  | fill c off bytes =>
    simp only [Server.step] at hs
    split_ifs at hs
    rw [hwrite hs]
  | reqCas c cas => rw [hwrite hs]
  | set c ch | cas c ch | add c ch | replace c ch | annex c prepend ch => exact hstore (hne rfl) hs
  | removeItem c =>
    obtain ⟨r, hr, heq⟩ := Option.map_eq_some_iff.1 hs
    have hprop := List.find?_some hr
    simp only [decide_eq_true_eq] at hprop
    exact hgive (hprop.1 ▸ hne rfl) (congrArg some heq)
  | get c key => exact hkeep (hne rfl) hs
  | touch c p =>
    simp only [Server.step] at hs
    split_ifs at hs
    rw [hcall hs]
  | remove c p =>
    simp only [Server.step] at hs
    split_ifs at hs
    exact hgive (hne rfl) hs
  | delete key => rw [hcall hs]
  | delta key incr delta ch =>
    simp only [Server.step] at hs
    split_ifs at hs
    rw [hcall hs]
  | flushSet exptime => rw [hcall hs]
  | flushExpired => rw [hcall hs]
  | moveBucket => rw [hcall hs]
  | tick now =>
    simp only [Server.step] at hs
    split_ifs at hs
    rw [hcall hs]
  | evict opt => rw [hcall hs]

/-- A path of primitives on behalf of `o` leaves alone what is private to others. -/
theorem items_of_path {o : Option ℕ} {base held' : List ItemPtr} {st : Store}
    (hg : s.store.Guarded cfg (s.scope cfg l o base) s.held)
    (hp : Store.Path cfg (s.scope cfg l o base) (s.store, s.held) (st, held')) {r : Ref}
    (hr : r ∈ s.refs) (hslot : r.slot = .item false) (ho : o ≠ some r.conn) :
    st.items r.ptr = s.store.items r.ptr :=
  (hp.frame hg ⟨r, hr, hslot, ho, rfl⟩).1

section

variable {r : Ref} (hr : r ∈ s.refs) (hslot : r.slot = .item false)

include hr hslot

/-- A connection stores its own item. -/
theorem Inv.items_of_storeItem (h : s.Inv cfg) (l : Label) {c : ℕ} {f : ItemPtr → Answer × Store}
    (hc : c ≠ r.conn) (hs : s.storeItem cfg c f = some (a, s'))
    (hpath : ∀ p, s.unstored c = some p → p ∈ s.held → ¬ s.Priv (some c) p →
      (∃ c, ⟨c, .item false, p⟩ ∈ s.refs) → (s.store.items p).flags.linked = false →
      (f p).2 = s'.store → Store.Path cfg (s.scope cfg l (some c) s.held) (s.store, s.held)
      ((f p).2, s.held)) :
    s'.store.items r.ptr = s.store.items r.ptr := by
  obtain ⟨p, hp, heq⟩ := storeItem_cases hs
  obtain ⟨-, rfl⟩ := Prod.mk.inj heq
  have hmem := unstored_eq_some hp
  exact items_of_path (h.guarded _ _)
    (hpath p hp (List.mem_map_of_mem hmem) (h.not_priv_own hmem) ⟨c, hmem⟩
    (h.unstored _ hmem rfl).1 rfl) hr hslot fun heq => hc (Option.some.inj heq)

/-- A call that is not made for a connection. -/
theorem Inv.items_of_call (h : s.Inv cfg) (l : Label) {x : Answer × Store}
    (hs : s.call x = some (a, s'))
    (hpath : x.2 = s'.store → Store.Path cfg (s.scope cfg l none s.held) (s.store, s.held)
      (x.2, s.held)) :
    s'.store.items r.ptr = s.store.items r.ptr := by
  obtain ⟨-, rfl⟩ := Prod.mk.inj (Option.some.inj hs)
  exact items_of_path (h.guarded _ _) (hpath rfl) hr hslot (fun heq => by cases heq)

/-- A connection writes to its own item, which has one reference only. -/
theorem Inv.items_of_writeItem (h : s.Inv cfg) {c : ℕ} {f : Item → Item} (hc : c ≠ r.conn)
    (hs : s.writeItem c f = some (a, s')) : s'.store.items r.ptr = s.store.items r.ptr := by
  obtain ⟨p, hp, heq⟩ := Option.map_eq_some_iff.1 hs
  obtain ⟨-, rfl⟩ := Prod.mk.inj heq
  have hne : r.ptr ≠ p := by
    rintro rfl
    have hown := h.eq_of_ptr hr (unstored_eq_some hp) hslot rfl
    exact hc (by rw [← hown])
  exact Function.update_of_ne hne _ _

/-- A reference is given back, which is no longer counted on then. -/
theorem Inv.items_of_giveBack (h : s.Inv cfg) (l : Label) {r' : Ref} {o : Option ℕ}
    (hr' : r' ∈ s.refs) (ho : o ≠ some r.conn) (hpriv : ¬ s.Priv o r'.ptr)
    (hs : some (s.giveBack r') = some (a, s')) :
    s'.store.items r.ptr = s.store.items r.ptr := by
  obtain ⟨-, rfl⟩ := Prod.mk.inj (Option.some.inj hs)
  have hmem : r'.ptr ∈ s.held := List.mem_map_of_mem hr'
  have hg : s.store.Guarded cfg (s.scope cfg l o (s.held.erase r'.ptr)) s.held :=
    { h.guarded l o with
      priv_base := fun x hx => by
        have hne : x ≠ r'.ptr := fun heq => hpriv (heq ▸ hx)
        exact (List.mem_erase_of_ne hne).2 ((h.guarded l o).priv_mem hx)
      base_mem := fun _ hx => List.mem_of_mem_erase hx }
  exact items_of_path hg (hg.path_remove hmem hpriv fun _ hx => hx) hr hslot ho

end

/-- **A step leaves alone what other connections have allocated and not stored yet.** -/
theorem Inv.items_of_step (h : s.Inv cfg) (hs : s.step cfg l = some (a, s'))
    (hov : s'.store.overflow = false) {r : Ref} (hr : r ∈ s.refs) (hslot : r.slot = .item false)
    (hconn : l.conn ≠ some r.conn) :
    s'.store.items r.ptr = s.store.items r.ptr := by
  have hroom : ∀ {n : ℕ} {st : Store}, st = s'.store → st.Room s.held n :=
    fun heq => .inl (heq ▸ hov)
  have hsame : ∀ {x : Answer × Store}, s.call x = some (a, s') → x.2.items = s.store.items →
      s'.store.items r.ptr = s.store.items r.ptr := by
    intro x hs heq
    obtain ⟨-, rfl⟩ := Prod.mk.inj (Option.some.inj hs)
    rw [heq]
  have hne : ∀ {c : ℕ}, l.conn = some c → c ≠ r.conn := fun hc hcj => hconn (by rw [hc, hcj])
  cases l with
  | alloc c key dataflags exptime nbyte ch =>
    simp only [Server.step] at hs
    split_ifs at hs with hen
    rw [not_or, not_or] at hen
    obtain ⟨-, rfl⟩ := Prod.mk.inj (Option.some.inj hs)
    exact items_of_path (h.guarded (.alloc c key dataflags exptime nbyte ch) none)
      ((h.guarded _ none).path_itemAlloc hen.2.1 (hroom rfl)) hr hslot (fun heq => by cases heq)
  | fill c off bytes =>
    simp only [Server.step] at hs
    split_ifs at hs
    exact h.items_of_writeItem hr hslot (hne rfl) hs
  | reqCas c cas => exact h.items_of_writeItem hr hslot (hne rfl) hs
  | set c ch =>
    exact h.items_of_storeItem hr hslot (.set c ch) (hne rfl) hs fun p _ hp hpriv hlink hl heq =>
      (h.guarded _ _).path_itemSet hp hpriv hlink hl (hroom heq)
  | cas c ch =>
    exact h.items_of_storeItem hr hslot (.cas c ch) (hne rfl) hs fun p _ hp hpriv hlink hl heq =>
      (h.guarded _ _).path_itemCas hp hpriv hlink hl (hroom heq)
  | add c ch =>
    exact h.items_of_storeItem hr hslot (.add c ch) (hne rfl) hs fun p _ hp hpriv hlink hl heq =>
      (h.guarded _ _).path_itemAdd hp hpriv hlink hl (hroom heq)
  | replace c ch =>
    exact h.items_of_storeItem hr hslot (.replace c ch) (hne rfl) hs
        fun p _ hp hpriv hlink hl heq =>
      (h.guarded _ _).path_itemReplace hp hpriv hlink hl (hroom heq)
  | annex c prepend ch =>
    exact h.items_of_storeItem hr hslot (.annex c prepend ch) (hne rfl) hs fun p hit _ _ _ hl heq =>
      (h.guarded _ _).path_itemAnnex
      (fun q hq => Option.bind_eq_some_iff.2 ⟨p, hit, hq⟩)
      (fun q hq hsize => by simpa [resized, hit, hq] using hsize) hl (hroom heq)
  | removeItem c =>
    obtain ⟨r', hr', heq⟩ := Option.map_eq_some_iff.1 hs
    have hmem := List.mem_of_find?_eq_some hr'
    have hprop := List.find?_some hr'
    simp only [decide_eq_true_eq] at hprop
    refine h.items_of_giveBack hr hslot (.removeItem c) (o := some c) hmem
      (fun heq => hne rfl (Option.some.inj heq)) ?_
      (congrArg some heq)
    -- the item that is given back is held by one connection only
    rintro ⟨r'', hr'', hslot', hne', hptr⟩
    exact hne' (by rw [← h.eq_of_ptr hr'' hmem hslot' hptr.symm, hprop.1])
  | get c key =>
    obtain ⟨-, rfl⟩ := Prod.mk.inj (Option.some.inj hs)
    exact items_of_path (h.guarded (.get c key) none) ((h.guarded _ none).path_itemGet (hroom rfl))
      hr hslot
      (fun heq => by cases heq)
  | touch c p =>
    simp only [Server.step] at hs
    split_ifs at hs with hmem
    have hprim : Store.Prim cfg (s.scope cfg (.touch c p) none s.held) (s.store, s.held)
        (s.store.itemTouch cfg p, s.held) :=
      .touch (List.mem_map_of_mem (f := Ref.ptr) hmem) rfl rfl
    exact h.items_of_call hr hslot (.touch c p) hs fun _ => .single hprim h.inv.fits
  | remove c p =>
    simp only [Server.step] at hs
    split_ifs at hs with hmem
    refine h.items_of_giveBack hr hslot (.remove c p) (o := none) hmem
      (fun heq => by cases heq) ?_ hs
    rintro ⟨r', hr', hslot', -, hptr⟩
    have heq := h.eq_of_ptr hr' hmem hslot' hptr.symm
    rw [← heq] at hslot'
    cases hslot'
  | delete key =>
    exact h.items_of_call hr hslot (.delete key) hs fun heq =>
      (h.guarded _ none).path_itemDelete (hroom heq)
  | delta key incr delta ch =>
    simp only [Server.step] at hs
    split_ifs at hs with hid
    exact h.items_of_call hr hslot (.delta key incr delta ch) hs fun heq =>
      (h.guarded _ none).path_itemDelta hid
      (fun _ hp => hp) (fun p v hp hv hsize => by simpa [resized, hp, hv] using hsize) (hroom heq)
  | flushSet exptime => exact hsame hs rfl
  | flushExpired =>
    exact h.items_of_call hr hslot .flushExpired hs fun _ =>
      (h.guarded _ none).path_itemFlushExpired
  | moveBucket => exact hsame hs rfl
  | tick now =>
    simp only [Server.step] at hs
    split_ifs at hs
    exact hsame hs rfl
  | evict opt => exact hsame hs rfl

/-! ### Shares -/

/-- The share of connection `i`: the item it has allocated and not stored yet, and the references it
has taken for a reply. -/
structure Owns (s : Server) (i : ℕ) (item : Option ItemPtr) (list : List ItemPtr) : Prop where
  /-- `c->item`. -/
  item : s.refs.filter (fun r => r.conn = i ∧ r.slot ≠ .ilist) =
    (item.map fun p => ⟨i, .item false, p⟩).toList
  /-- The references that were taken for a reply. -/
  list : ∀ p, s.refs.count ⟨i, .ilist, p⟩ = list.count p

variable {item : Option ItemPtr} {list list' : List ItemPtr}

theorem Owns.perm (h : s.Owns i item list) (hp : list.Perm list') : s.Owns i item list' :=
  ⟨h.item, fun p => (h.list p).trans (hp.count_eq p)⟩

theorem Owns.mem (h : s.Owns i item list) (hp : p ∈ list) : ⟨i, .ilist, p⟩ ∈ s.refs := by
  rw [← List.count_pos_iff, h.list, List.count_pos_iff]
  exact hp

theorem Owns.find (h : s.Owns i item list) :
    s.refs.find? (fun r => r.conn = i ∧ r.slot ≠ .ilist) = item.map fun p =>
        ⟨i, .item false, p⟩ := by
  rw [← List.head?_filter, h.item]
  cases item <;> rfl

theorem Owns.unstored (h : s.Owns i item list) : s.unstored i = item := by
  have hfind : s.refs.find? (fun r => r.conn = i ∧ r.slot = .item false) =
      item.map fun p => ⟨i, .item false, p⟩ := by
    -- an item that was not stored is one that is not on the list
    have hsub := @List.find?_filter _ s.refs (fun r => decide (r.conn = i ∧ r.slot ≠ .ilist))
      (fun r => decide (r.conn = i ∧ r.slot = .item false))
    rw [h.item] at hsub
    have hpred : ∀ r : Ref, decide (decide (r.conn = i ∧ r.slot ≠ .ilist) = true ∧
        decide (r.conn = i ∧ r.slot = .item false) = true) =
            decide (r.conn = i ∧ r.slot = .item false) := by
      intro r
      rw [decide_eq_decide, decide_eq_true_iff, decide_eq_true_iff]
      exact ⟨And.right, fun hr => ⟨⟨hr.1, by rw [hr.2]; simp⟩, hr⟩⟩
    simp only [hpred] at hsub
    rw [← hsub]
    cases item with
    | none => rfl
    | some p => simp
  unfold Server.unstored
  rw [hfind]
  cases item <;> rfl

theorem Owns.hasItem (h : s.Owns i none list) : s.hasItem i = false := by
  have hnil : s.refs.filter (fun r => r.conn = i ∧ r.slot ≠ .ilist) = [] := h.item
  rw [List.filter_eq_nil_iff] at hnil
  exact List.any_eq_false.2 hnil

/-- The share depends on the references of the connection. -/
theorem Owns.of_filter (h : s.Owns i item list)
    (heq : s'.refs.filter (·.conn = i) = s.refs.filter (·.conn = i)) : s'.Owns i item list := by
  have hitem : ∀ refs : List Ref, refs.filter (fun r => r.conn = i ∧ r.slot ≠ .ilist) =
      (refs.filter (·.conn = i)).filter (·.slot ≠ .ilist) := by
    intro refs
    rw [List.filter_filter]
    refine List.filter_congr fun r _ => ?_
    rw [Bool.and_comm, ← Bool.decide_and]
  have hcount : ∀ (refs : List Ref) (p : ItemPtr),
      refs.count ⟨i, .ilist, p⟩ = (refs.filter (·.conn = i)).count ⟨i, .ilist, p⟩ :=
    fun refs p => (List.count_filter (by simp)).symm
  exact ⟨by rw [hitem, heq, ← hitem, h.item], fun p => by rw [hcount, heq, ← hcount, h.list]⟩

/-- A step leaves the shares of other connections alone. -/
theorem Owns.of_step (h : s.Owns j item list) (hs : s.step cfg l = some (a, s'))
    (hj : l.conn ≠ some j) :
    s'.Owns j item list :=
  h.of_filter (refs_of_step hs hj)

theorem owns_none (i : ℕ) (h : s.refs = []) : s.Owns i none [] :=
  ⟨by rw [h]; rfl, fun p => by rw [h]; rfl⟩

/-- An item is allocated. -/
theorem Owns.keep_item (h : s.Owns i none list) (r : Option ItemPtr × Store) :
    (s.keep i (.item false) r).2.Owns i r.1 list := by
  obtain ⟨_ | p, st⟩ := r
  · exact ⟨h.item, h.list⟩
  · refine ⟨?_, fun q => ?_⟩
    · have hcons :=
        List.filter_cons_of_pos (p := fun r : Ref => decide (r.conn = i ∧ r.slot ≠ .ilist))
        (a := ⟨i, .item false, p⟩) (l := s.refs) (by simp)
      exact hcons.trans (congrArg _ h.item)
    · exact (List.count_cons_of_ne (by simp)).trans (h.list q)

/-- A reference is taken for a reply. -/
theorem Owns.keep_list (h : s.Owns i item list) (r : Option ItemPtr × Store) :
    (s.keep i .ilist r).2.Owns i item (r.1.toList ++ list) := by
  obtain ⟨_ | p, st⟩ := r
  · exact ⟨h.item, h.list⟩
  · refine ⟨?_, fun q => ?_⟩
    · have hcons :=
        List.filter_cons_of_neg (p := fun r : Ref => decide (r.conn = i ∧ r.slot ≠ .ilist))
        (a := ⟨i, .ilist, p⟩) (l := s.refs) (by simp)
      exact hcons.trans h.item
    · change (⟨i, .ilist, p⟩ :: s.refs : List Ref).count _ = (p :: list).count q
      rw [List.count_cons, List.count_cons, h.list]
      simp

/-- The item is given back. -/
theorem Owns.removeItem (h : s.Owns i (some p) list) :
    (s.giveBack ⟨i, .item false, p⟩).2.Owns i none list := by
  refine ⟨?_, fun q => ?_⟩
  · change (s.refs.erase _).filter _ = _
    rw [← List.erase_filter, h.item]
    exact List.erase_cons_head ..
  · exact (List.count_erase_of_ne (by simp)).trans (h.list q)

/-- A reference that was taken for a reply is given back. -/
theorem Owns.remove (h : s.Owns i item list) (p : ItemPtr) :
    (s.giveBack ⟨i, .ilist, p⟩).2.Owns i item (list.erase p) := by
  refine ⟨?_, fun q => ?_⟩
  · change (s.refs.erase _).filter _ = _
    rw [← List.erase_filter, List.erase_of_not_mem, h.item]
    rw [h.item]
    cases item <;> simp
  · change (s.refs.erase _).count _ = _
    rw [List.count_erase, List.count_erase, h.list]
    simp

/-- The item was stored, or its storage has failed, and it is given back. -/
theorem Owns.storedItem (h : s.Owns i (some p) list) (st : Store) :
    (markStored i s.refs).find? (fun r => r.conn = i ∧ r.slot ≠ .ilist) = some ⟨i, .item true, p⟩ ∧
      (Server.giveBack ⟨st, markStored i s.refs⟩ ⟨i, .item true, p⟩).2.Owns i none list := by
  have hfilter : (markStored i s.refs).filter (fun r => r.conn = i ∧ r.slot ≠ .ilist) =
      [⟨i, .item true, p⟩] := by
    have hsame : (fun r : Ref => decide (r.conn = i ∧ r.slot ≠ .ilist)) ∘
        (fun r => if r.conn = i ∧ r.slot = .item false then { r with slot := .item true } else r) =
        fun r => decide (r.conn = i ∧ r.slot ≠ .ilist) := by
      funext r
      simp only [Function.comp]
      split_ifs with hr
      · simp [hr]
      · rfl
    unfold markStored
    rw [List.filter_map, hsame, h.item]
    simp
  refine ⟨by rw [← List.head?_filter, hfilter]; rfl, ?_, fun q => ?_⟩
  · change ((markStored i s.refs).erase _).filter _ = _
    rw [← List.erase_filter, hfilter]
    exact List.erase_cons_head ..
  · change ((markStored i s.refs).erase _).count _ = _
    rw [List.count_erase_of_ne (by simp), ← h.list q]
    unfold markStored
    rw [List.count_eq_countP, List.count_eq_countP, List.countP_map]
    refine List.countP_congr fun r _ => ?_
    simp only [Function.comp]
    split_ifs with hr
    · obtain ⟨c, slot, ptr⟩ := r
      simp only [beq_iff_eq, Ref.mk.injEq] at hr ⊢
      rw [hr.2]
      simp
    · rfl

end Server

/-! ### Calls -/

/-- The store, and the share of a connection. -/
structure Share where
  /-- The store. -/
  store : Store
  /-- The item that the connection has allocated and not stored yet. -/
  item : Option ItemPtr
  /-- The references that it has taken for a reply. -/
  list : List ItemPtr

/-- The step needs no other connection than `i`. -/
def Label.By (i : ℕ) (l : Label) : Prop := ∀ j, l.conn = some j → j = i

/-- Connection `i` can make calls that bring its share from one state to the other, whatever other
references it has taken. -/
def Calls (cfg : Config) (i : ℕ) (x y : Share) : Prop :=
  ∀ (s : Server) (kept : List ItemPtr), s.store = x.store → s.Owns i x.item (x.list ++ kept) →
    ∃ s', (server cfg).Reaches (fun _ l _ => l.By i) s s' ∧ s'.store = y.store ∧
      s'.Owns i y.item (y.list ++ kept)

namespace Calls

open Server

variable {cfg : Config} {i : ℕ} {x y z : Share} {st : Store} {item : Option ItemPtr}
  {list list' : List ItemPtr} {p : ItemPtr} {l : Label}

theorem refl (x : Share) : Calls cfg i x x := fun s _ hst h => ⟨s, .refl, hst, h⟩

theorem trans (h : Calls cfg i x y) (h' : Calls cfg i y z) : Calls cfg i x z := by
  intro s kept hst hs
  obtain ⟨t, ht, hst, hown⟩ := h s kept hst hs
  obtain ⟨u, hu, hst, hown⟩ := h' t kept hst hown
  exact ⟨u, ht.trans hu, hst, hown⟩

/-- The references for a reply may be listed in any order. -/
theorem perm (h : Calls cfg i x ⟨st, item, list⟩) (hp : list.Perm list') :
    Calls cfg i x ⟨st, item, list'⟩ := by
  intro s kept hst hs
  obtain ⟨t, ht, hst, hown⟩ := h s kept hst hs
  exact ⟨t, ht, hst, hown.perm (hp.append_right kept)⟩

/-- Other references do not matter. -/
theorem frame {st' : Store} {item' : Option ItemPtr}
    (h : Calls cfg i ⟨st, item, list⟩ ⟨st', item', list'⟩) (more : List ItemPtr) :
    Calls cfg i ⟨st, item, list ++ more⟩ ⟨st', item', list' ++ more⟩ := by
  intro s kept hst hs
  obtain ⟨t, ht, hst, hown⟩ := h s (more ++ kept) hst (by rwa [← List.append_assoc])
  exact ⟨t, ht, hst, by rwa [List.append_assoc]⟩

/-- One call. -/
theorem of_step (hl : l.By i)
    (h : ∀ (s : Server) (kept : List ItemPtr), s.store = x.store →
      s.Owns i x.item (x.list ++ kept) → ∃ a s', s.step cfg l = some (a, s') ∧ s'.store = y.store ∧
      s'.Owns i y.item (y.list ++ kept)) :
    Calls cfg i x y := by
  intro s kept hst hs
  obtain ⟨a, s', hstep, hst', hown⟩ := h s kept hst hs
  exact ⟨s', Machine.Reaches.tail .refl hstep hl, hst', hown⟩

theorem by_of_conn (h : l.conn = some i) : l.By i := fun _ hj => Option.some.inj (hj.symm.trans h)

theorem by_of_none (h : l.conn = none) : l.By i := fun _ hj => by
  rw [h] at hj
  cases hj

/-- `item_alloc`. -/
theorem alloc {key : Key} {nbyte : ℕ} (hid : itemSlabid cfg key.length nbyte ≠ slabclassInvalidId)
    (hkey : key.length ≤ keyMaxLen) (ch : Choice) (dataflags exptime : ℕ) (list : List ItemPtr) :
    Calls cfg i ⟨st, none, list⟩
      ⟨(st.itemAlloc cfg ch (itemSlabid cfg key.length nbyte) key dataflags exptime nbyte).2,
      (st.itemAlloc cfg ch (itemSlabid cfg key.length nbyte) key dataflags exptime nbyte).1,
          list⟩ := by
  refine of_step (l := .alloc i key dataflags exptime nbyte ch) (by_of_conn rfl)
    fun s kept hst hs => ?_
  obtain rfl : s.store = st := hst
  have hen : ¬ (s.hasItem i = true ∨ itemSlabid cfg key.length nbyte = slabclassInvalidId ∨
      key.length > keyMaxLen) := by
    rw [Owns.hasItem hs]
    simp only [Bool.false_eq_true, false_or, not_or]
    exact ⟨hid, Nat.not_lt.2 hkey⟩
  exact ⟨_, _, if_neg hen, rfl, Owns.keep_item hs _⟩

/-- A write to the item. -/
theorem write {f : Item → Item} (hl : l.conn = some i)
    (hstep : ∀ s : Server, s.store = st → s.unstored i = some p → s.step cfg l = s.writeItem i f) :
    Calls cfg i ⟨st, some p, list⟩ ⟨st.setItem p f, some p, list⟩ := by
  refine of_step (by_of_conn hl) fun s kept hst hs =>
    ⟨.done, ⟨s.store.setItem p f, s.refs⟩, ?_, ?_, hs.item, hs.list⟩
  · rw [hstep s hst hs.unstored, writeItem, hs.unstored]
    rfl
  · rw [hst]

/-- Bytes of the data block are read into the item. -/
theorem fill {off : ℕ} {bytes : List UInt8}
    (hroom : off + bytes.length ≤ (st.items p).nbyte + crlfLen) :
    Calls cfg i ⟨st, some p, list⟩ ⟨st.setItem p fun it => it.write (it.data cfg + off) bytes,
        some p, list⟩ := by
  refine write (l := .fill i off bytes) rfl fun s hst hp => ?_
  simp only [Server.step]
  refine if_pos fun q hq => ?_
  rw [hp] at hq
  obtain rfl := Option.some.inj hq
  rwa [hst]

/-- `item_set_cas`. -/
theorem reqCas (cas : ℕ) :
    Calls cfg i ⟨st, some p, list⟩ ⟨st.setItem p (·.setCas cas), some p, list⟩ :=
  write (l := .reqCas i cas) rfl fun _ _ _ => rfl

/-- `item_remove` of `c->item`, which was not stored. -/
theorem removeItem : Calls cfg i ⟨st, some p, list⟩ ⟨st.itemRemove p, none, list⟩ := by
  refine of_step (l := .removeItem i) (by_of_conn rfl) fun s kept hst hs => ?_
  obtain rfl : s.store = st := hst
  have hgive : s.step cfg (.removeItem i) = some (s.giveBack ⟨i, .item false, p⟩) :=
    congrArg (Option.map s.giveBack) hs.find
  exact ⟨_, _, hgive, rfl, Owns.removeItem hs⟩

/-- A storage function, and `item_remove` of `c->item`. -/
theorem complete {f : Store → ItemPtr → Answer × Store} (hl : l.conn = some i)
    (hend : (st.items p).endsInCrlf cfg = true)
    (hstep : ∀ s : Server, s.step cfg l = s.storeItem cfg i (f s.store)) :
    Calls cfg i ⟨st, some p, list⟩ ⟨(f st p).2.itemRemove p, none, list⟩ := by
  intro s kept hst hs
  obtain ⟨hfind, hown⟩ := hs.storedItem (f st p).2
  have hstore : (server cfg).step s l = some ((f st p).1, ⟨(f st p).2, markStored i s.refs⟩) := by
    change s.step cfg l = _
    rw [hstep, storeItem_of_unstored hs.unstored (hst ▸ hend), hst]
  have hremove : (server cfg).step ⟨(f st p).2, markStored i s.refs⟩ (.removeItem i) =
      some (Server.giveBack ⟨(f st p).2, markStored i s.refs⟩ ⟨i, .item true, p⟩) :=
    (congrArg (Option.map (Server.giveBack ⟨(f st p).2, markStored i s.refs⟩)) hfind).trans rfl
  have hfirst : (server cfg).Reaches (fun _ l _ => l.By i) s _ :=
    Machine.Reaches.tail .refl hstore (by_of_conn hl)
  exact ⟨_, hfirst.tail hremove (by_of_conn rfl), rfl, hown⟩

theorem set (hend : (st.items p).endsInCrlf cfg = true) (ch : Choice) :
    Calls cfg i ⟨st, some p, list⟩ ⟨(st.itemSet cfg ch p).itemRemove p, none, list⟩ :=
  complete (l := .set i ch) (f := fun st p => (.done, st.itemSet cfg ch p)) rfl hend fun _ => rfl

theorem cas (hend : (st.items p).endsInCrlf cfg = true) (ch : Choice) :
    Calls cfg i ⟨st, some p, list⟩ ⟨(st.itemCas cfg ch p).2.itemRemove p, none, list⟩ :=
  complete (l := .cas i ch)
    (f := fun st p => (.cas (st.itemCas cfg ch p).1, (st.itemCas cfg ch p).2)) rfl
    hend fun _ => rfl

theorem add (hend : (st.items p).endsInCrlf cfg = true) (ch : Choice) :
    Calls cfg i ⟨st, some p, list⟩ ⟨(st.itemAdd cfg ch p).2.itemRemove p, none, list⟩ :=
  complete (l := .add i ch)
    (f := fun st p => (.add (st.itemAdd cfg ch p).1, (st.itemAdd cfg ch p).2)) rfl
    hend fun _ => rfl

theorem replace (hend : (st.items p).endsInCrlf cfg = true) (ch : Choice) :
    Calls cfg i ⟨st, some p, list⟩ ⟨(st.itemReplace cfg ch p).2.itemRemove p, none, list⟩ :=
  complete (l := .replace i ch)
    (f := fun st p => (.replace (st.itemReplace cfg ch p).1, (st.itemReplace cfg ch p).2))
      rfl hend fun _ => rfl

theorem annex (hend : (st.items p).endsInCrlf cfg = true) (prepend : Bool) (ch : Choice) :
    Calls cfg i ⟨st, some p, list⟩ ⟨(st.itemAnnex cfg ch prepend p).2.itemRemove p, none, list⟩ :=
  complete (l := .annex i prepend ch)
    (f := fun st p => (.annex (st.itemAnnex cfg ch prepend p).1, (st.itemAnnex cfg ch prepend p).2))
      rfl hend fun _ => rfl

/-- `item_get`. -/
theorem get (key : Key) : Calls cfg i ⟨st, item, list⟩
    ⟨(st.itemGet cfg key).2, item, (st.itemGet cfg key).1.toList ++ list⟩ := by
  refine of_step (l := .get i key) (by_of_conn rfl) fun s kept hst hs => ?_
  obtain rfl : s.store = st := hst
  refine ⟨_, _, rfl, rfl, ?_⟩
  rw [List.append_assoc]
  exact hs.keep_list _

/-- `item_touch`. -/
theorem touch (hp : p ∈ list) : Calls cfg i ⟨st, item, list⟩ ⟨st.itemTouch cfg p, item, list⟩ := by
  refine of_step (l := .touch i p) (by_of_conn rfl) fun s kept hst hs => ?_
  obtain rfl : s.store = st := hst
  exact ⟨_, _, if_pos (hs.mem (List.mem_append_left kept hp)), rfl, hs.item, hs.list⟩

/-- `item_remove` of a reference that was taken for a reply. -/
theorem remove (hp : p ∈ list) :
    Calls cfg i ⟨st, item, list⟩ ⟨st.itemRemove p, item, list.erase p⟩ := by
  refine of_step (l := .remove i p) (by_of_conn rfl) fun s kept hst hs => ?_
  obtain rfl : s.store = st := hst
  refine ⟨_, _, if_pos (hs.mem (List.mem_append_left kept hp)), rfl, ?_⟩
  rw [← List.erase_append_left kept hp]
  exact hs.remove p

/-- `item_remove` of several references. -/
theorem removeAll (ps list : List ItemPtr) (st : Store) : Calls cfg i ⟨st, item, ps ++ list⟩
    ⟨ps.foldl Store.itemRemove st, item, list⟩ := by
  induction ps generalizing st with
  | nil => exact refl _
  | cons p ps ih =>
    have hfirst :
        Calls cfg i ⟨st, item, p :: ps ++ list⟩
        ⟨st.itemRemove p, item, (p :: ps ++ list).erase p⟩ :=
      remove List.mem_cons_self
    rw [List.cons_append, List.erase_cons_head] at hfirst
    exact hfirst.trans (ih _)

/-- A call that takes or gives back no reference of a connection. -/
theorem call {f : Store → Answer × Store} (hl : l.conn = none)
    (hstep : ∀ s : Server, s.store = st → s.step cfg l = s.call (f s.store)) :
    Calls cfg i ⟨st, item, list⟩ ⟨(f st).2, item, list⟩ := by
  refine of_step (by_of_none hl) fun s kept hst hs => ?_
  obtain rfl : s.store = st := hst
  exact ⟨_, _, hstep s rfl, rfl, hs.item, hs.list⟩

end Calls

end Twemcache
