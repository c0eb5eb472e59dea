import Twemcache.Server.CasId
import Twemcache.Server.Sound
import Twemcache.Store.Rewrite

/-!
# Incrementing and decrementing

`item_delta` reads the value of a key as a number and writes a text of the new number, over the old
text or in a new item.  In place, the text is written where the old value starts; but the value of
an item that is aligned to the right starts where its length says, so that a shorter text is not
read from where it was written.  `delta_rewrites` says that this is the only way in which the value
can differ from the number that the client is told, if a longer text finds a class at all;
`delta_garbles` is a run in which it does.
-/

namespace Twemcache

/-- The text is read where it was written: the value is aligned to the left, or its length remains,
or else the bytes at the end of the chunk happen to be those of the text. -/
def Item.KeepsText (cfg : Config) (it : Item) (buf : List UInt8) : Prop :=
  it.flags.ralign = true → buf.length < it.nbyte →
    (it.write (it.data cfg) buf).read (cfg.profile it.id - buf.length) buf.length = buf

namespace Store

variable {cfg : Config} {ch : Choice} {s t : Store} {p np : ItemPtr} {key : Key}
  {e : Entry (List UInt8)} {incr : Bool} {delta v : ℕ}

/-- A text that is written in place is the value if it is read where it was written. -/
theorem value_deltaItem_eq_iff {it : Item} {buf : List UInt8} (hlen : buf.length ≤ it.nbyte) :
    (s.deltaItem cfg buf it).value cfg = buf ↔ it.KeepsText cfg buf := by
  have hdata : (it.setCas (s.itemNextCas cfg).1).data cfg = it.data cfg := by simp [Item.data]
  have hvalue : (s.deltaItem cfg buf it).value cfg = (it.write (it.data cfg) buf).read
      (if it.flags.ralign then cfg.profile it.id - buf.length else it.data cfg) buf.length := by
    simp only [deltaItem, Item.value, Item.read, Item.data, Item.write, Item.setCas_flags,
      Item.setCas_id, Item.setCas_key, Item.setCas_nbyte, Item.setCas_mem]
    split_ifs <;> rfl
  rw [hvalue]
  cases hr : it.flags.ralign with
  | false => simp [Item.KeepsText, hr, Item.read_write_self]
  | true =>
    rcases hlen.lt_or_eq with hlt | heq
    · simp [Item.KeepsText, hr, hlt]
    · -- the text is as long as the one before
      have hself : cfg.profile it.id - buf.length = it.data cfg := by rw [Item.data, if_pos hr, heq]
      rw [if_pos rfl, hself]
      exact iff_of_true Item.read_write_self fun _ hlt => absurd heq hlt.ne

/-- A text that is put into a new item is its value. -/
theorem value_deltaFill {it : Item} {buf : List UInt8} (hlen : it.nbyte = buf.length) :
    (it.write (it.data cfg) buf).value cfg = buf := by
  change (it.write (it.data cfg) buf).read (it.data cfg) it.nbyte = buf
  rw [hlen, Item.read_write_self]

/-- The text is put into a new item, which is aligned to the left. -/
theorem finds_deltaGrown {id : ℕ} {buf : List UInt8} (hdated : s.Dated)
    (hfind : s.assocFind cfg key = some p) (hd : s.dead p = false)
    (halloc : s.itemAlloc cfg ch id (s.keyOf p) (s.items p).dataflags (s.items p).exptime
      buf.length = (some np, t)) :
    ∃ it : Item,
      ((((t.setItem np fun n => n.write (n.data cfg) buf).itemRelink cfg ch p np).itemRemove
      p).itemRemove np).Finds cfg key it ∧ it.value cfg = buf ∧
        it.dataflags = (s.items p).dataflags ∧
        it.exptime = (s.items p).exptime ∧ it.flags.ralign = false := by
  rw [keyOf_of_find hfind] at halloc
  have hfinds := finds_grown hdated hfind hd halloc (f := fun n => n.write (n.data cfg) buf) rfl rfl
  obtain ⟨-, -, it, gen, hnp⟩ := itemAlloc_some halloc
  have hfields : (t.items np).nbyte = buf.length ∧ (t.items np).dataflags = (s.items p).dataflags ∧
      (t.items np).exptime = (s.items p).exptime ∧ (t.items np).flags.ralign = false := by
    rw [hnp]
    simp [allocItem]
  exact ⟨_, hfinds, value_deltaFill hfields.1, hfields.2⟩

/-- The text is written over the one that is there. -/
theorem finds_deltaInPlace (buf : List UInt8) (hfind : s.assocFind cfg key = some p)
    (hd : s.dead p = false) :
    ((s.itemDeltaInPlace cfg p buf).itemRemove p).Finds cfg key
        (s.deltaItem cfg buf (s.items p)) := by
  have hchanged : (s.itemDeltaInPlace cfg p buf).assocFind cfg key = some p ∧
      (s.itemDeltaInPlace cfg p buf).dead p = false ∧
      (s.itemDeltaInPlace cfg p buf).items p = s.deltaItem cfg buf (s.items p) := by
    rw [itemDeltaInPlace_eq]
    exact finds_changed hfind hd rfl rfl rfl rfl (by simp [deltaItem, Item.write])
      (by simp [deltaItem, Item.write]) (by simp [deltaItem, Item.write])
  have hfinds : (s.itemDeltaInPlace cfg p buf).Finds cfg key (s.deltaItem cfg buf (s.items p)) :=
    ⟨p, hchanged.1, hchanged.2.1, by rw [hchanged.2.2]; rfl⟩
  exact hfinds.itemRemove p

theorem deltaItem_fields (cfg : Config) (s : Store) (buf : List UInt8) (it : Item) :
    (s.deltaItem cfg buf it).dataflags = it.dataflags ∧
    (s.deltaItem cfg buf it).exptime = it.exptime ∧
        (s.deltaItem cfg buf it).flags.ralign = it.flags.ralign := by
  simp [deltaItem, Item.write]

theorem keepsText_congr {it it' : Item} {buf : List UInt8} (h : it'.content = it.content) :
    it'.KeepsText cfg buf ↔ it.KeepsText cfg buf := by
  have hwrite : ∀ off off' n, (it'.write off buf).read off' n = (it.write off buf).read off' n :=
    fun off off' n => by
    simp only [Item.read, Item.write, show it'.mem = it.mem from congrArg Content.mem h]
  have hralign : it'.flags.ralign = it.flags.ralign := congrArg Content.ralign h
  have hnbyte : it'.nbyte = it.nbyte := congrArg Content.nbyte h
  have hid : it'.id = it.id := congrArg Content.id h
  rw [Item.KeepsText, Item.KeepsText, hralign, hnbyte, hid, Item.data_congr h, hwrite]

theorem length_entry_value {it : Item} : (it.entry cfg).value.length = it.nbyte :=
  Item.length_read ..

/-- The class of a visible number that grows is the class of the key with the new digits. -/
theorem deltaClass_of_view (hview : s.view cfg key = some e)
    (hnum : mcStrtoullLen e.value = some v) :
    s.deltaClass cfg key incr delta =
      if (decimal (deltaValue v incr delta)).length > e.value.length then
        some (itemSlabid cfg key.length (decimal (deltaValue v incr delta)).length)
      else none := by
  obtain ⟨p, hfind, -, hget, rfl⟩ := find_of_view hview
  have hkey : (s.items p).key = key := keyOf_of_find hfind
  have hitem : ((s.itemAcquireRefcount p).items p).value cfg = (s.items p).value cfg :=
    congrArg Entry.value (Item.entry_congr (content_itemAcquireRefcount p p))
  have hfields : ((s.itemAcquireRefcount p).items p).nbyte = (s.items p).nbyte ∧
      ((s.itemAcquireRefcount p).items p).key = (s.items p).key :=
    ⟨congrArg Content.nbyte (content_itemAcquireRefcount p p),
      congrArg Content.key (content_itemAcquireRefcount p p)⟩
  have hnum' : mcStrtoullLen ((s.items p).value cfg) = some v := hnum
  rw [deltaClass, hget]
  dsimp only
  rw [hitem, hnum']
  dsimp only
  rw [hfields.1, hfields.2, hkey, length_entry_value]

/-- `item_delta` on a number: it runs out of memory for a longer text, or returns the new number;
and the new number is what is visible if its text is read where it was written. -/
theorem view_itemDelta (cfg : Config) (ch : Choice) (incr : Bool) (delta : ℕ) (hdated : s.Dated)
    (hview : s.view cfg key = some e) (hv : mcStrtoullLen e.value = some v) :
    (s.itemDelta cfg ch key incr delta).1 = .eom ∧
        e.value.length < (decimal (deltaValue v incr delta)).length ∨
      (s.itemDelta cfg ch key incr delta).1 = .ok (deltaValue v incr delta) ∧
        ((∃ cas, (s.itemDelta cfg ch key incr delta).2.view cfg key =
            some ⟨decimal (deltaValue v incr delta), e.flags, e.exptime, cas⟩) ↔
          ∀ p, s.assocFind cfg key = some p →
            (s.items p).KeepsText cfg (decimal (deltaValue v incr delta))) := by
  obtain ⟨p, hfind, hd, hget, rfl⟩ := find_of_view hview
  have honly : ∀ {P : ItemPtr → Prop}, (∀ q, s.assocFind cfg key = some q → P q) ↔ P p := fun {P} =>
    ⟨fun hall => hall p hfind, fun hP q hq => Option.some.inj (hfind.symm.trans hq) ▸ hP⟩
  -- what is found is held while the call runs
  have hsame : ((s.itemAcquireRefcount p).items p).content = (s.items p).content :=
    content_itemAcquireRefcount p p
  have hfind' : (s.itemAcquireRefcount p).assocFind cfg key = some p :=
    (assocFind_itemAcquireRefcount p key).trans hfind
  have hd' : (s.itemAcquireRefcount p).dead p = false := (dead_itemAcquireRefcount p p).trans hd
  have hdated' : (s.itemAcquireRefcount p).Dated := (idles_itemAcquireRefcount p).ages.dated hdated
  have hentry : ((s.items p).entry cfg).flags = ((s.itemAcquireRefcount p).items p).dataflags ∧
      ((s.items p).entry cfg).exptime = ((s.itemAcquireRefcount p).items p).exptime :=
    ⟨(congrArg Content.dataflags hsame).symm, (congrArg Content.exptime hsame).symm⟩
  have hvalue : mcStrtoullLen (((s.itemAcquireRefcount p).items p).value cfg) = some v :=
    (congrArg (mcStrtoullLen ∘ Entry.value) (Item.entry_congr hsame)).trans hv
  have hnbyte : (s.items p).nbyte = ((s.itemAcquireRefcount p).items p).nbyte :=
    (congrArg Content.nbyte hsame).symm
  rw [honly, ← keepsText_congr hsame, hentry.1, hentry.2, length_entry_value, hnbyte]
  unfold itemDelta
  simp only [hget]
  generalize s.itemAcquireRefcount p = u at hfind' hd' hdated' hvalue
  simp only [hvalue]
  generalize decimal (deltaValue v incr delta) = buf
  split_ifs with hlong
  · generalize halloc : u.itemAlloc cfg ch _ _ _ _ _ = r
    obtain ⟨_ | np, t⟩ := r
    · exact .inl ⟨rfl, hlong⟩
    · obtain ⟨it, hfinds, hval, hflags, hexp, -⟩ := finds_deltaGrown hdated' hfind' hd' halloc
      obtain ⟨cas, hview⟩ := hfinds.view
      refine .inr ⟨rfl, iff_of_true ⟨cas, hview.trans ?_⟩ fun _ hlt => by omega⟩
      rw [Item.entry, hval, hflags, hexp]
  · obtain ⟨cas, hview⟩ := (finds_deltaInPlace buf hfind' hd').view
    obtain ⟨hflags, hexp, -⟩ := deltaItem_fields cfg u buf (u.items p)
    rw [Item.entry, hflags, hexp] at hview
    refine .inr ⟨rfl, ?_⟩
    rw [hview, ← value_deltaItem_eq_iff (Nat.le_of_not_lt hlong)]
    constructor
    · rintro ⟨cas', heq⟩
      exact congrArg Entry.value (Option.some.inj heq)
    · intro hvalue
      exact ⟨cas, by rw [hvalue]⟩

/-- The number that `item_delta` returns: numbers wrap at `2^64`, and do not get below zero. -/
theorem deltaValue_eq (v : ℕ) (incr : Bool) (delta : ℕ) :
    deltaValue v incr delta = if incr then (v + delta) % 2 ^ 64 else v - delta := by
  unfold deltaValue
  split_ifs <;> omega

end Store

namespace Server

variable {cfg : Config} {now evictOpt : ℕ} {slabs : ℕ → Slab} {items : ItemPtr → Item}
  {s s' : Server} {a : Answer} {ch : Choice} {key : Key} {e : Entry (List UInt8)} {incr : Bool}
  {delta v : ℕ}

/-- **A number that was changed is what is visible, if and only if its text finds a class, and is
read where it was written**: in every state that is reached without a wrap, `item_delta` on a
visible number answers that there is no memory, or returns the new number, and then a lookup returns
the decimal text of that number with the flags and the expiry time of the key.  This is so unless
the text is longer than the one before and no class has room for it, or the item is aligned to the
right and the text is shorter than the one before. -/
theorem delta_rewrites (hnow : now < 2 ^ 32)
    (h : (server cfg).Reaches NoWrap (init cfg now evictOpt slabs items) s)
    (hview : s.store.view cfg key = some e) (hv : mcStrtoullLen e.value = some v) (r : ℕ)
    (hr : r = if incr then (v + delta) % 2 ^ 64 else v - delta)
    (_hno : ∀ a s', s.step cfg (.delta key incr delta ch) = some (a, s') →
      NoWrap s (.delta key incr delta ch) s') :
    (∃ a s', s.step cfg (.delta key incr delta ch) = some (a, s') ∧
      (a = .delta .eom ∨ a = .delta (.ok r) ∧
        ∃ cas, s'.store.view cfg key = some ⟨decimal r, e.flags, e.exptime, cas⟩)) ↔
    (e.value.length < (decimal r).length →
      itemSlabid cfg key.length (decimal r).length ≠ slabclassInvalidId) ∧
    ∀ p, s.store.assocFind cfg key = some p → (s.store.items p).KeepsText cfg (decimal r) := by
  have hdated := (sound_of_reaches hnow (h.mono fun _ _ _ _ => trivial)).dated
  rw [← Store.deltaValue_eq] at hr
  have hclass : s.store.deltaClass cfg key incr delta ≠ some slabclassInvalidId ↔
      (e.value.length < (decimal r).length →
        itemSlabid cfg key.length (decimal r).length ≠ slabclassInvalidId) := by
    rw [Store.deltaClass_of_view hview hv, ← hr]
    split_ifs with hlong <;> simp [hlong]
  rw [← hclass]
  subst hr
  have hrewrites := Store.view_itemDelta cfg ch incr delta hdated hview hv
  simp only [step]
  constructor
  · rintro ⟨a, s', hs, hgood⟩
    split_ifs at hs with hfits
    obtain ⟨rfl, rfl⟩ := Prod.mk.inj (Option.some.inj hs)
    refine ⟨hfits, ?_⟩
    rcases hrewrites with ⟨heom, hlong⟩ | ⟨hok, hiff⟩
    · -- only a longer text needs memory
      intro p hp _ hshort
      obtain ⟨q, hfind, -, -, rfl⟩ := Store.find_of_view hview
      obtain rfl := Option.some.inj (hfind.symm.trans hp)
      rw [Store.length_entry_value] at hlong
      omega
    · rcases hgood with heom | ⟨-, hvisible⟩
      · rw [hok] at heom
        cases heom
      · exact hiff.1 hvisible
  · rintro ⟨hfits, hkeeps⟩
    rw [if_pos hfits]
    refine ⟨_, _, rfl, ?_⟩
    rcases hrewrites with ⟨heom, -⟩ | ⟨hok, hiff⟩
    · exact .inl (congrArg Answer.delta heom)
    · exact .inr ⟨congrArg Answer.delta hok, hiff.2 hkeeps⟩

/-- The server with three chunks after start-up. -/
def initThree : Server :=
  .init three 2 evictLru (fun _ => ⟨0, 0, 0, 0⟩) fun _ =>
    ⟨0, 0, 0, 0, 0, {}, 0, [], 0, fun _ => 0, 0⟩

/-- `a` is stored with value 10. -/
def tenRun : List Label :=
  [.tick 100, .alloc 0 [97] 0 0 2 {}, .fill 0 0 [49, 48, 13, 10], .set 0 {}, .removeItem 0]

/-- Decrementing 10 that is aligned to the left gives 9. -/
theorem delta_rewrites_ten : ∃ s s' : Server,
    (server three).Reaches NoWrap initThree s ∧
      s.step three (.delta [97] false 1 {}) = some (.delta (.ok 9), s') ∧
      s.store.view three [97] = some ⟨[49, 48], 0, 0, 1⟩ ∧
      ∃ cas, s'.store.view three [97] = some ⟨[57], 0, 0, cas⟩ := by
  have hreach : (server three).Reaches NoWrap initThree
      ((server three).exec (fun s l s' => decide (NoWrap s l s')) initThree tenRun) :=
    (Machine.reaches_exec (by decide +kernel)).mono fun _ _ _ => of_decide_eq_true
  have hview : ((server three).exec (fun s l s' => decide (NoWrap s l s')) initThree
      tenRun).store.view three [97] = some ⟨[49, 48], 0, 0, 1⟩ := by decide +kernel
  have hstep : (((server three).exec (fun s l s' => decide (NoWrap s l s')) initThree tenRun).step
      three (.delta [97] false 1 {})).map (fun x => (x.1, x.2.store.overflow)) =
        some (.delta (.ok 9), false) := by decide +kernel
  have hleft : (((server three).exec (fun s l s' => decide (NoWrap s l s')) initThree
      tenRun).store.assocFind three [97]).map (fun p =>
        (((server three).exec (fun s l s' => decide (NoWrap s l s')) initThree
          tenRun).store.items p).flags.ralign) = some false := by decide +kernel
  generalize (server three).exec (fun s l s' => decide (NoWrap s l s')) initThree tenRun = s
    at hreach hview hstep hleft
  obtain ⟨⟨a, s'⟩, hs, heq⟩ := Option.map_eq_some_iff.1 hstep
  obtain ⟨rfl, hov⟩ := Prod.mk.inj heq
  have hv : mcStrtoullLen [49, 48] = some 10 := by decide +kernel
  have hr : 9 = if (false : Bool) = true then (10 + 1) % 2 ^ 64 else 10 - 1 := by decide
  have hnow : 2 < 2 ^ 32 := by decide
  have hno : ∀ a' t, s.step three (.delta [97] false 1 {}) = some (a', t) →
      NoWrap s (.delta [97] false 1 {}) t := by
    intro a' t ht
    obtain ⟨-, rfl⟩ := Prod.mk.inj (Option.some.inj (hs.symm.trans ht))
    exact hov
  unfold initThree at hreach
  obtain ⟨a, t, ht, hgood⟩ := (delta_rewrites hnow hreach hview hv 9 hr hno).2
    ⟨fun _ => by decide +kernel, fun p hp hright => by
      rw [hp, Option.map_some, Option.some.injEq] at hleft
      rw [hleft] at hright
      cases hright⟩
  obtain ⟨rfl, rfl⟩ := Prod.mk.inj (Option.some.inj (hs.symm.trans ht))
  exact ⟨s, s', hreach, hs, hview, (hgood.resolve_left nofun).2⟩

/-- `a` is stored with value 0, and connection 0 has received 1 for it. -/
def halves : Server := (server three).exec (fun s l s' => decide (NoWrap s l s')) initThree
  [.tick 100, .alloc 0 [97] 0 0 1 {}, .fill 0 0 [48, 13, 10], .set 0 {}, .removeItem 0,
    .alloc 0 [97] 0 0 1 {}, .fill 0 0 [49, 13, 10]]

/-- There is a new item for the combined value. -/
def withRoom :
    Store := ((halves.store.itemAcquireRefcount ⟨0, 0⟩).itemAlloc three {} 1 [97] 0 0 2).2

/-- The combined value has taken the place of the old one. -/
def joined : Store :=
  (((withRoom.itemAnnexFill three true ⟨0, 2⟩ ((withRoom.items ⟨0, 0⟩).value three)
    ((withRoom.items ⟨0, 1⟩).value
    three)).itemRelink three {} ⟨0, 0⟩ ⟨0, 2⟩).itemRemove ⟨0, 0⟩).itemRemove ⟨0, 2⟩

/-- 1 is prepended. -/
theorem step_halves : (server three).step halves (.annex 0 true {}) =
    some (.annex (.ok 2), ⟨joined, markStored 0 halves.refs⟩) := by
  have hgetp : (halves.store.itemGet three [97]).1 = some ⟨0, 0⟩ := by decide +kernel
  have hkey : halves.store.keyOf ⟨0, 1⟩ = [97] := by decide +kernel
  have hget : halves.store.itemGet three (halves.store.keyOf ⟨0, 1⟩) =
      (some ⟨0, 0⟩, halves.store.itemAcquireRefcount ⟨0, 0⟩) := by
    rw [hkey]
    have hview : halves.store.view three [97] = some ((halves.store.items ⟨0, 0⟩).entry three) := by
      rw [Store.view, hgetp, Option.map_some]
    obtain ⟨q, hfind, hd, heq, -⟩ := Store.find_of_view hview
    rw [heq] at hgetp
    rw [heq, Option.some.inj hgetp]
  have hnbyte : ((halves.store.itemAcquireRefcount ⟨0, 0⟩).items ⟨0, 0⟩).nbyte = 1 ∧
      ((halves.store.itemAcquireRefcount ⟨0, 0⟩).items ⟨0, 1⟩).nbyte = 1 := by decide +kernel
  have hfields : ((halves.store.itemAcquireRefcount ⟨0, 0⟩).items ⟨0, 0⟩).dataflags = 0 ∧
      ((halves.store.itemAcquireRefcount ⟨0, 0⟩).items ⟨0, 0⟩).exptime = 0 ∧
      (halves.store.itemAcquireRefcount ⟨0, 0⟩).keyOf ⟨0, 1⟩ = [97] := by decide +kernel
  have halloc : (halves.store.itemAcquireRefcount ⟨0, 0⟩).itemAlloc three {} 1 [97] 0 0 2 =
      (some ⟨0, 2⟩, withRoom) := by
    have hnp : ((halves.store.itemAcquireRefcount ⟨0, 0⟩).itemAlloc three {} 1 [97] 0 0 2).1 =
        some ⟨0, 2⟩ := by
      decide +kernel
    rw [← hnp]
    rfl
  have hid : itemSlabid three ((halves.store.itemAcquireRefcount ⟨0, 0⟩).items ⟨0, 0⟩).key.length
      (((halves.store.itemAcquireRefcount ⟨0, 0⟩).items ⟨0, 0⟩).nbyte +
        ((halves.store.itemAcquireRefcount ⟨0, 0⟩).items ⟨0, 1⟩).nbyte) = 1 := by decide +kernel
  have hplace : ¬ (1 = ((halves.store.itemAcquireRefcount ⟨0, 0⟩).items ⟨0, 0⟩).id ∧
      ((halves.store.itemAcquireRefcount ⟨0, 0⟩).items ⟨0, 0⟩).flags.ralign =
        true) := by decide +kernel
  have hann := Store.itemAnnex_of_alloc hget hid (by decide) hplace
    (by rw [hfields.1, hfields.2.1, hfields.2.2, hnbyte.1, hnbyte.2]; exact halloc)
  rw [hnbyte.1, hnbyte.2] at hann
  have hunstored : halves.unstored 0 = some ⟨0, 1⟩ := by decide +kernel
  have hstep : (server three).step halves (.annex 0 true {}) = halves.step three
      (.annex 0 true {}) := rfl
  have hend : (halves.store.items ⟨0, 1⟩).endsInCrlf three = true := by decide +kernel
  rw [hstep, step, storeItem_of_unstored hunstored hend, hann]
  rfl

/-- Decrementing 10 that is aligned to the right gives 9, but what is visible is 0. -/
theorem delta_garbles : ∃ s s' : Server,
    (server three).Reaches NoWrap initThree s ∧
      s.step three (.delta [97] false 1 {}) = some (.delta (.ok 9), s') ∧
      (∃ cas, s.store.view three [97] = some ⟨[49, 48], 0, 0, cas⟩) ∧
        mcStrtoullLen [49, 48] = some 10 ∧
      (∃ cas, s'.store.view three [97] = some ⟨[48], 0, 0, cas⟩) ∧
      ¬ ∃ cas, s'.store.view three [97] = some ⟨decimal 9, 0, 0, cas⟩ := by
  have hhalves : (server three).Reaches NoWrap initThree halves :=
    (Machine.reaches_exec (by decide +kernel)).mono fun _ _ _ => of_decide_eq_true
  have hno : NoWrap halves (.annex 0 true {}) ⟨joined, markStored 0 halves.refs⟩ := by
    decide +kernel
  have hreach : (server three).Reaches NoWrap initThree ⟨joined, markStored 0 halves.refs⟩ :=
    Machine.Reaches.tail hhalves step_halves hno
  have hview : joined.view three [97] = some ⟨[49, 48], 0, 0, 2⟩ := by decide +kernel
  have hdelta : (joined.itemDelta three {} [97] false 1).1 = .ok 9 := by decide +kernel
  have hview' : (joined.itemDelta three {} [97] false 1).2.view three [97] =
      some ⟨[48], 0, 0, 3⟩ := by
    decide +kernel
  have hfits : joined.deltaClass three [97] false 1 ≠ some slabclassInvalidId := by decide +kernel
  have hten : mcStrtoullLen [49, 48] = some 10 := by decide +kernel
  have hnine : decimal 9 ≠ [48] := by decide +kernel
  generalize joined = st at hreach hview hdelta hview' hfits
  refine ⟨⟨st, markStored 0 halves.refs⟩,
    ⟨(st.itemDelta three {} [97] false 1).2, markStored 0 halves.refs⟩, hreach, ?_, ⟨2, hview⟩,
    hten, ⟨3, hview'⟩, ?_⟩
  · rw [step, if_pos hfits, hdelta]
    rfl
  · rintro ⟨cas, heq⟩
    rw [hview'] at heq
    exact hnine (congrArg Entry.value (Option.some.inj heq)).symm

end Server

end Twemcache
