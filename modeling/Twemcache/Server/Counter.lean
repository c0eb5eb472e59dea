import Twemcache.Server.Delta
import Twemcache.Text.Decimal

/-!
# Counters

A key whose value is a number can be incremented and decremented again: the text that `item_delta`
has written is read back by the next call.  `counter_readable` says that this is so as long as the
numbers stay at or below `UINT64_MAX - 6`, the largest one that `mc_strtoull_len` converts (and the
item is aligned to the left, where `delta_rewrites` finds the text as it was written).  The six
larger numbers are written all the same (`counter_unreadable`).
-/

namespace Twemcache

namespace Store

variable {cfg : Config} {ch : Choice} {s t : Store} {p : ItemPtr} {key : Key} {incr : Bool}
  {delta r v : ℕ}

/-- A lookup finds the text of a number, aligned to the left. -/
def Holds (cfg : Config) (s : Store) (key : Key) (r : ℕ) : Prop :=
  ∃ p, s.assocFind cfg key = some p ∧ s.dead p = false ∧ (s.items p).value cfg = decimal r ∧
    (s.items p).flags.ralign = false

theorem Finds.holds {it : Item} (h : s.Finds cfg key it) (hv : it.value cfg = decimal r)
    (hleft : it.flags.ralign = false) : s.Holds cfg key r := by
  obtain ⟨cas, hview⟩ := h.view
  obtain ⟨p, hfind, hd, hsame⟩ := h
  have hvalue : (s.items p).value cfg = it.value cfg := by
    rw [view_of_find hfind hd] at hview
    exact congrArg Entry.value (Option.some.inj hview)
  exact ⟨p, hfind, hd, hvalue.trans hv, (congrArg Content.ralign hsame).trans hleft⟩

/-- `item_delta` that succeeds has found a number. -/
theorem itemDelta_ok (h : (s.itemDelta cfg ch key incr delta).1 = .ok r) : ∃ p v,
    s.assocFind cfg key = some p ∧ s.dead p = false ∧
      mcStrtoullLen ((s.items p).value cfg) = some v ∧ r = deltaValue v incr delta := by
  cases hview : s.view cfg key with
  | none =>
    have hget : (s.itemGet cfg key).1 = none := Option.map_eq_none_iff.1 hview
    unfold itemDelta at h
    generalize s.itemGet cfg key = x at h hget
    obtain ⟨_ | q, u⟩ := x
    · cases h
    · cases hget
  | some e =>
    obtain ⟨p, hfind, hd, hget, -⟩ := find_of_view hview
    have hvalue : ((s.itemAcquireRefcount p).items p).value cfg = (s.items p).value cfg :=
      congrArg Entry.value (Item.entry_congr (content_itemAcquireRefcount p p))
    unfold itemDelta at h
    simp only [hget, hvalue] at h
    refine ⟨p, ?_⟩
    cases hread : mcStrtoullLen ((s.items p).value cfg) with
    | none =>
      rw [hread] at h
      cases h
    | some v =>
      simp only [hread] at h
      refine ⟨v, hfind, hd, rfl, ?_⟩
      split_ifs at h
      · generalize (s.itemAcquireRefcount p).itemAlloc cfg ch _ _ _ _ _ = x at h
        obtain ⟨_ | np, u⟩ := x
        · cases h
        · exact (DeltaResult.ok.inj h).symm
      · exact (DeltaResult.ok.inj h).symm

/-- `item_delta` on a number that is aligned to the left runs out of memory and leaves what is found
alone, or the new number is found, aligned to the left. -/
theorem holds_itemDelta (cfg : Config) (ch : Choice) (incr : Bool) (delta : ℕ) (hdated : s.Dated)
    (hfind : s.assocFind cfg key = some p) (hd : s.dead p = false)
    (hleft : (s.items p).flags.ralign = false)
    (hv : mcStrtoullLen ((s.items p).value cfg) = some v) :
    (s.itemDelta cfg ch key incr delta).1 = .eom ∧
        (s.itemDelta cfg ch key incr delta).2.Finds cfg key (s.items p) ∨
      (s.itemDelta cfg ch key incr delta).1 = .ok (deltaValue v incr delta) ∧
        (s.itemDelta cfg ch key incr delta).2.Holds cfg key (deltaValue v incr delta) := by
  have hget := itemGet_of_find hfind hd
  have hsame : ((s.itemAcquireRefcount p).items p).content = (s.items p).content :=
    content_itemAcquireRefcount p p
  have hfind' : (s.itemAcquireRefcount p).assocFind cfg key = some p :=
    (assocFind_itemAcquireRefcount p key).trans hfind
  have hd' : (s.itemAcquireRefcount p).dead p = false := (dead_itemAcquireRefcount p p).trans hd
  have hdated' : (s.itemAcquireRefcount p).Dated := (idles_itemAcquireRefcount p).ages.dated hdated
  have hvalue : mcStrtoullLen (((s.itemAcquireRefcount p).items p).value cfg) = some v :=
    (congrArg (mcStrtoullLen ∘ Entry.value) (Item.entry_congr hsame)).trans hv
  have hleft' : ((s.itemAcquireRefcount p).items p).flags.ralign = false :=
    (congrArg Content.ralign hsame).trans hleft
  unfold itemDelta
  simp only [hget]
  generalize s.itemAcquireRefcount p = u at hsame hfind' hd' hdated' hvalue hleft'
  simp only [hvalue]
  split_ifs with hlong
  · generalize halloc : u.itemAlloc cfg ch _ _ _ _ _ = x
    obtain ⟨_ | np, t⟩ := x
    · obtain rfl := itemAlloc_none halloc
      have hfinds : t.Finds cfg key (t.items p) := ⟨p, hfind', hd', rfl⟩
      exact .inl ⟨rfl, (hfinds.congr hsame.symm).itemRemove p⟩
    · obtain ⟨it, hfinds, hval, -, -, hright⟩ := finds_deltaGrown hdated' hfind' hd' halloc
      exact .inr ⟨rfl, hfinds.holds hval hright⟩
  · have hfinds := finds_deltaInPlace (decimal (deltaValue v incr delta)) hfind' hd'
    have hkeeps : (u.deltaItem cfg (decimal (deltaValue v incr delta)) (u.items p)).value cfg =
        decimal (deltaValue v incr delta) := by
      refine (value_deltaItem_eq_iff (Nat.le_of_not_lt hlong)).2 fun hright => ?_
      rw [hleft'] at hright
      cases hright
    exact .inr ⟨rfl, hfinds.holds hkeeps ((deltaItem_fields cfg u _ _).2.2.trans hleft')⟩

end Store

namespace Server

variable {cfg : Config} {now evictOpt : ℕ} {slabs : ℕ → Slab} {items : ItemPtr → Item}
  {s s' : Server} {l : Label} {a : Answer} {ch : Choice} {key : Key} {incr : Bool} {delta r : ℕ}

/-- The step increments or decrements the key, to a number that can be read, and no count of
references wraps. -/
def Counting (cfg : Config) (key : Key) (s : Server) (l : Label) (s' : Server) : Prop :=
  (∃ incr delta ch, l = .delta key incr delta ch) ∧
    (∀ r, s.step cfg l = some (.delta (.ok r), s') → r ≤ strtoullMax) ∧ NoWrap s l s'

/-- The key holds a number that can be read. -/
structure Counter (cfg : Config) (key : Key) (s : Server) : Prop where
  /-- The state is sound. -/
  sound : s.Sound
  /-- The number is there. -/
  holds : ∃ r ≤ strtoullMax, s.store.Holds cfg key r

/-- A number that can be read is changed, or there is no memory. -/
theorem Counter.answer (h : s.Counter cfg key)
    (hs : s.step cfg (.delta key incr delta ch) = some (a, s')) :
    (a = .delta .eom ∧ ∃ r ≤ strtoullMax, s'.store.Holds cfg key r) ∨
      ∃ r, a = .delta (.ok r) ∧ s'.store.Holds cfg key r := by
  obtain ⟨v, hle, p, hfind, hd, hvalue, hleft⟩ := h.holds
  have hread : mcStrtoullLen ((s.store.items p).value cfg) = some v := by
    rw [hvalue, mcStrtoullLen_decimal, if_pos hle]
  simp only [step] at hs
  split_ifs at hs with hfits
  obtain ⟨rfl, rfl⟩ := Prod.mk.inj (Option.some.inj hs)
  rcases Store.holds_itemDelta cfg ch incr delta h.sound.dated hfind hd hleft
    hread with ⟨heq, hfinds⟩ | ⟨heq, hnew⟩
  · exact .inl ⟨congrArg Answer.delta heq, v, hle, hfinds.holds hvalue hleft⟩
  · exact .inr ⟨_, congrArg Answer.delta heq, hnew⟩

/-- The key goes on holding a number that can be read. -/
theorem Counter.step (h : s.Counter cfg key) (hs : s.step cfg l = some (a, s'))
    (hc : Counting cfg key s l s') :
    s'.Counter cfg key := by
  obtain ⟨⟨incr, delta, ch, rfl⟩, hsmall, -⟩ := hc
  refine ⟨(h.sound.step hs).2, ?_⟩
  rcases h.answer hs with ⟨-, hholds⟩ | ⟨r, rfl, hholds⟩
  · exact hholds
  · exact ⟨r, hsmall r hs, hholds⟩

/-- **The text of a number is read back up to `UINT64_MAX - 6`**, so that a number that was changed
can be changed again: in every run without a wrap, after a call on an item that is aligned to the
left, in every run of further calls for the key whose results stay that small, every call answers
with a number or that there is no memory. -/
theorem counter_readable (hnow : now < 2 ^ 32)
    (h : (server cfg).Reaches NoWrap (init cfg now evictOpt slabs items) s) :
    (∀ r < 2 ^ 64, mcStrtoullLen (decimal r) = if r ≤ strtoullMax then some r else none) ∧
      ∀ s₁ s₂ s₃ incr' delta' ch',
        s.step cfg (.delta key incr delta ch) = some (.delta (.ok r), s₁) →
        NoWrap s (.delta key incr delta ch) s₁ →
        (∀ p, s.store.assocFind cfg key = some p → (s.store.items p).flags.ralign = false) →
        r ≤ strtoullMax → (server cfg).Reaches (Counting cfg key) s₁ s₂ →
        s₂.step cfg (.delta key incr' delta' ch') = some (a, s₃) →
        NoWrap s₂ (.delta key incr' delta' ch') s₃ → a ≠ .delta .nonNumeric := by
  refine ⟨fun r _ => mcStrtoullLen_decimal r,
    fun s₁ s₂ s₃ incr' delta' ch' hs _ hleft hr hrun hs₃ _ => ?_⟩
  have hsound := sound_of_reaches hnow (h.mono fun _ _ _ _ => trivial)
  have hstart : s₁.Counter cfg key := by
    refine ⟨(hsound.step hs).2, r, hr, ?_⟩
    simp only [step] at hs
    split_ifs at hs with hfits
    obtain ⟨hok, rfl⟩ := Prod.mk.inj (Option.some.inj hs)
    have hok' := Answer.delta.inj hok
    obtain ⟨p, v, hfind, hd, hread, heq⟩ := Store.itemDelta_ok hok'
    rcases Store.holds_itemDelta cfg ch incr delta hsound.dated hfind hd (hleft p hfind) hread with
      ⟨heom, -⟩ | ⟨-, hnew⟩
    · rw [heom] at hok'
      cases hok'
    · exact heq ▸ hnew
  have hcounter : s₂.Counter cfg key :=
    hrun.invariant hstart fun _ _ _ _ hI hst hC => hI.step hst hC
  rcases hcounter.answer hs₃ with ⟨rfl, -⟩ | ⟨r', rfl, -⟩ <;> simp

/-- 10 is incremented to 11, which can be decremented. -/
theorem counter_readable_ten : ∃ s s₁ s₃ : Server, ∃ a,
    (server three).Reaches NoWrap initThree s ∧
      s.step three (.delta [97] true 1 {}) = some (.delta (.ok 11), s₁) ∧
      s₁.step three (.delta [97] false 2 {}) = some (a, s₃) ∧ a ≠ .delta .nonNumeric := by
  have hreach : (server three).Reaches NoWrap initThree
      ((server three).exec (fun s l s' => decide (NoWrap s l s')) initThree tenRun) :=
    (Machine.reaches_exec (by decide +kernel)).mono fun _ _ _ => of_decide_eq_true
  have hstep : (((server three).exec (fun s l s' => decide (NoWrap s l s')) initThree tenRun).step
      three (.delta [97] true 1 {})).map (fun x => (x.1, x.2.store.overflow)) =
        some (.delta (.ok 11), false) := by decide +kernel
  have hnext : ((((server three).exec (fun s l s' => decide (NoWrap s l s')) initThree tenRun).step
      three (.delta [97] true 1 {})).bind fun x => (x.2.step three (.delta [97] false 2 {})).map
        fun y => y.2.store.overflow) = some false := by
    decide +kernel
  have hleft : (((server three).exec (fun s l s' => decide (NoWrap s l s')) initThree
      tenRun).store.assocFind three [97]).map (fun p =>
        (((server three).exec (fun s l s' => decide (NoWrap s l s')) initThree
          tenRun).store.items p).flags.ralign) = some false := by decide +kernel
  generalize (server three).exec (fun s l s' => decide (NoWrap s l s')) initThree tenRun = s
    at hreach hstep hnext hleft
  obtain ⟨⟨a, s₁⟩, hs, heq⟩ := Option.map_eq_some_iff.1 hstep
  obtain ⟨rfl, hov₁⟩ := Prod.mk.inj heq
  rw [hs, Option.bind_some] at hnext
  obtain ⟨⟨a, s₃⟩, hs₃, hov₃⟩ := Option.map_eq_some_iff.1 hnext
  have hnow : 2 < 2 ^ 32 := by decide
  have hsmall : 11 ≤ strtoullMax := by decide
  refine ⟨s, s₁, s₃, a, hreach, hs, hs₃, ?_⟩
  unfold initThree at hreach
  refine (counter_readable hnow hreach).2 s₁ s₁ s₃ false 2 {} hs hov₁ (fun p hp => ?_) hsmall .refl
    hs₃ hov₃
  rw [hp, Option.map_some, Option.some.injEq] at hleft
  exact hleft

/-- `a` is stored with value `UINT64_MAX - 6`. -/
def topRun : List Label :=
  [.tick 100, .alloc 0 [97] 0 0 20 {},
    .fill 0 0 [49, 56, 52, 52, 54, 55, 52, 52, 48, 55, 51, 55, 48, 57, 53, 53, 49, 54,
      48, 57, 13, 10],
    .set 0 {}, .removeItem 0]

/-- Incremented to `UINT64_MAX`, the value is not a number any more. -/
theorem counter_unreadable : ∃ s s₁ s₂ : Server,
    (server three).Reaches NoWrap initThree s ∧
      s.step three (.delta [97] true 6 {}) = some (.delta (.ok (2 ^ 64 - 1)), s₁) ∧
      s₁.step three (.delta [97] true 0 {}) = some (.delta .nonNumeric, s₂) ∧
      mcStrtoullLen (decimal (2 ^ 64 - 1)) = none := by
  have hreach : (server three).Reaches NoWrap initThree
      ((server three).exec (fun s l s' => decide (NoWrap s l s')) initThree topRun) :=
    (Machine.reaches_exec (by decide +kernel)).mono fun _ _ _ => of_decide_eq_true
  have hstep :
      (((server three).exec (fun s l s' => decide (NoWrap s l s')) initThree topRun).step three
      (.delta [97] true 6 {})).map Prod.fst = some (.delta (.ok (2 ^ 64 - 1))) := by decide +kernel
  have hnext :
      ((((server three).exec (fun s l s' => decide (NoWrap s l s')) initThree topRun).step three
      (.delta [97] true 6 {})).bind fun x => x.2.step three (.delta [97] true 0 {})).map Prod.fst =
        some (.delta .nonNumeric) := by decide +kernel
  generalize (server three).exec (fun s l s' => decide (NoWrap s l s')) initThree topRun = s
    at hreach hstep hnext
  obtain ⟨⟨a, s₁⟩, hs, heq⟩ := Option.map_eq_some_iff.1 hstep
  obtain rfl : a = .delta (.ok (2 ^ 64 - 1)) := heq
  rw [hs, Option.bind_some] at hnext
  obtain ⟨⟨a, s₂⟩, hs₂, heq⟩ := Option.map_eq_some_iff.1 hnext
  obtain rfl : a = .delta .nonNumeric := heq
  have hmax : mcStrtoullLen (decimal (2 ^ 64 - 1)) = none := by
    rw [mcStrtoullLen_decimal]
    decide
  exact ⟨s, s₁, s₂, hreach, hs, hs₂, hmax⟩

end Server

end Twemcache
