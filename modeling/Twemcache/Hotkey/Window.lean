import Twemcache.Hotkey.Ledger
import Mathlib.Data.List.Forall2

/-!
# The counts of the keys

An entry of the table is emptied when the last sample of its key leaves the window.  An entry of
another key, further on the way that begins at the same place, is then no longer found: its key is
entered a second time, and counted from one on.  Keys that agree up to a zero byte are taken for
one.

## Main definitions

* `KcMap.Clear` : neither happens to the key.

## Main results

* `Hotkey.counts_exact` : `key_window_push` returns the number of samples of the key in the window,
  in every run in which the way of each key that is sampled is clear.
* `Hotkey.counts_lost` : two keys with the same first place.
-/

namespace Twemcache

/-! ### Entries -/

namespace KcEntry

variable {e : KcEntry} {key key' : Key}

/-- The entry counts exactly this key. -/
def Holds (e : KcEntry) (key : Key) :
    Prop := e.count ≠ 0 ∧ e.klen = key.length ∧ e.key.take key.length = key

instance : Decidable (e.Holds key) := inferInstanceAs (Decidable (_ ∧ _))

theorem Holds.unique (h : e.Holds key) (h' : e.Holds key') : key = key' := by
  have hlen : key.length = key'.length := h.2.1.symm.trans h'.2.1
  rw [← h.2.2, ← h'.2.2, hlen]

theorem strncmpEq_of_take {as bs : List UInt8} (h : as.take bs.length = bs) :
    strncmpEq as bs bs.length = true := by
  induction bs generalizing as with
  | nil => cases as <;> rfl
  | cons b bs ih =>
    cases as with
    | nil => cases h
    | cons a as =>
      obtain ⟨rfl, htake⟩ := List.cons.inj h
      rw [List.length_cons, strncmpEq, ih htake]
      simp

/-- An entry is found by its key. -/
theorem Holds.kcMapMatch (h : e.Holds key) : kcMapMatch e key = true := by
  rw [Twemcache.kcMapMatch, h.2.1, strncmpEq_of_take h.2.2]
  simp

/-- An empty entry is given to a key. -/
theorem holds_incr_empty (h : e.count = 0) : (e.incr key).Holds key' ↔ key = key' := by
  have hincr : (e.incr key).Holds key := by
    rw [KcEntry.incr, if_pos h]
    exact ⟨(by decide : (1 : UInt64) ≠ 0), rfl, List.take_left⟩
  exact ⟨hincr.unique, fun heq => heq ▸ hincr⟩

theorem holds_incr (h : e.count ≠ 0) (hlt : e.count.toNat + 1 < 2 ^ 64) :
    (e.incr key).Holds key' ↔ e.Holds key' := by
  have hcount := toNat_count_incr key hlt
  have hne : (e.incr key).count ≠ 0 := fun hz => by
    rw [hz] at hcount
    cases hcount
  have hrest : (e.incr key).klen = e.klen ∧ (e.incr key).key = e.key := by
    rw [KcEntry.incr, if_neg h]
    exact ⟨rfl, rfl⟩
  rw [Holds, Holds, hrest.1, hrest.2]
  exact and_congr_left fun _ => iff_of_true hne h

/-- An entry that is counted down still holds its key, unless it is emptied. -/
theorem holds_decr (h : e.count ≠ 0) : e.decr.Holds key ↔ e.Holds key ∧ e.count ≠ 1 := by
  rw [KcEntry.decr]
  split
  · rename_i hone
    exact iff_of_false (fun hh => hh.1 rfl) fun hh => hh.2 hone
  · rename_i hone
    have hne : e.count - 1 ≠ 0 :=
      fun hz => hone (by rw [← UInt64.sub_add_cancel e.count 1, hz, UInt64.zero_add])
    exact ⟨fun hh => ⟨⟨h, hh.2⟩, hone⟩, fun hh => ⟨hne, hh.1.2⟩⟩

end KcEntry

/-! ### The way of a key -/

namespace KcMap

variable {m m' : KcMap} {hash : Key → UInt32} {key key' : Key} {e i j : ℕ}

/-- The way of a key passes every entry. -/
theorem exists_way (m : KcMap) (hash : Key → UInt32) (key : Key) (hj : j < m.size) :
    ∃ n < m.size, m.way hash key n = j :=
  Probing.exists_add_mod (Nat.mod_lt _ (Nat.zero_lt_of_lt hj)) hj

/-- The way of a key is clear: no entry before the one that holds it is empty, and the first entry
in use that compares equal to it holds it. -/
structure Clear (m : KcMap) (hash : Key → UInt32) (key : Key) : Prop where
  /-- No entry before its own is empty. -/
  gap : ∀ n < m.size, (m.table (m.way hash key n)).Holds key →
    ∀ n' < n, (m.table (m.way hash key n')).count ≠ 0
  /-- No other key is taken for it. -/
  own : ∀ n < m.size, (m.table (m.way hash key n)).count ≠ 0 →
    kcMapMatch (m.table (m.way hash key n)) key = true →
    (∀ n' < n, kcMapMatch (m.table (m.way hash key n')) key = false) →
      (m.table (m.way hash key n)).Holds key

instance : Decidable (m.Clear hash key) :=
  decidable_of_iff
    ((∀ n < m.size, (m.table (m.way hash key n)).Holds key →
      ∀ n' < n, (m.table (m.way hash key n')).count ≠ 0) ∧
      ∀ n < m.size, (m.table (m.way hash key n)).count ≠ 0 →
        kcMapMatch (m.table (m.way hash key n)) key = true →
        (∀ n' < n, kcMapMatch (m.table (m.way hash key n')) key = false) →
          (m.table (m.way hash key n)).Holds key)
    ⟨fun h => ⟨h.1, h.2⟩, fun h => ⟨h.gap, h.own⟩⟩

/-- What `kc_map_incr` finds on a clear way: an entry that holds the key, or an empty one if no
entry holds it. -/
theorem Clear.found (hc : m.Clear hash key) (hincr : m.incr hash key = .ok (e, m')) :
    (m.table e).Holds key ∨ (m.table e).count = 0 ∧ ∀ i < m.size, ¬ (m.table i).Holds key := by
  obtain ⟨-, n, hn, rfl, hmatch, hfirst⟩ := incr_eq hincr
  by_cases hz : (m.table (m.way hash key n)).count = 0
  · refine .inr ⟨hz, fun i hi hholds => ?_⟩
    obtain ⟨n', hn', rfl⟩ := m.exists_way hash key hi
    rcases Nat.lt_trichotomy n n' with hlt | rfl | hlt
    · exact hc.gap n' hn' hholds n hlt hz
    · exact hholds.1 hz
    · exact absurd hholds.kcMapMatch (by rw [hfirst n' hlt]; decide)
  · exact .inl (hc.own n hn hz hmatch hfirst)

end KcMap

/-! ### The window and the record -/

/-- Related lists have as many of the one as of the other. -/
theorem count_map_of_forall₂ {α β γ δ : Type*} [BEq γ] [LawfulBEq γ] [BEq δ] [LawfulBEq δ]
    {f : α → γ} {g : β → δ} {c : γ} {b : δ} {R : α → β → Prop} {xs : List α} {ys : List β}
    (h : List.Forall₂ R xs ys) (hR : ∀ x y, R x y → (f x = c ↔ g y = b)) :
    (xs.map f).count c = (ys.map g).count b := by
  induction h with
  | nil => rfl
  | @cons x y xs ys hxy _ ih =>
    have hbeq : (f x == c) = (g y == b) := by
      rw [Bool.eq_iff_iff, beq_iff_eq, beq_iff_eq]
      exact hR x y hxy
    rw [List.map_cons, List.map_cons, List.count_cons, List.count_cons, ih, hbeq]

/-- The table counts the keys of the record. -/
structure Keyed (m : KcMap) (ks : List KwEntry) (g : List HkSample) : Prop where
  /-- Each sample points to an entry that holds its key. -/
  held : List.Forall₂ (fun k s => k.kcme < m.size ∧ (m.table k.kcme).Holds s.key) ks g
  /-- No key is held twice. -/
  inj : ∀ i < m.size, ∀ j < m.size, ∀ key, (m.table i).Holds key → (m.table j).Holds key → i = j

namespace Keyed

variable {m m' : KcMap} {ks : List KwEntry} {g : List HkSample} {hash : Key → UInt32} {key : Key}
  {e : ℕ}

/-- The samples of a key are those that point to its entry. -/
theorem count_eq (h : Keyed m ks g) (he : e < m.size) (hh : (m.table e).Holds key) :
    (ks.map KwEntry.kcme).count e = (g.map HkSample.key).count key := by
  refine count_map_of_forall₂ (f := KwEntry.kcme) (g := HkSample.key) h.held fun k s hks => ⟨?_, ?_⟩
  · rintro rfl
    exact hks.2.unique hh
  · rintro rfl
    exact h.inj _ hks.1 _ he _ hks.2 hh

/-- A key that no entry holds is not in the window. -/
theorem count_eq_zero (h : Keyed m ks g) (hno : ∀ i < m.size, ¬ (m.table i).Holds key) :
    (g.map HkSample.key).count key = 0 := by
  have hcount := count_map_of_forall₂ (f := fun _ => true) (c := false) (g := HkSample.key)
    (b := key) h.held
    fun k s hks => iff_of_false (by decide) fun heq => hno _ hks.1 (heq ▸ hks.2)
  rw [← hcount, List.count_eq_zero]
  simp

/-- What the entries hold after a push. -/
theorem holds_push (hc : m.Clear hash key) (hincr : m.incr hash key = .ok (e, m'))
    (hlt : (m.table e).count.toNat + 1 < 2 ^ 64) (i : ℕ) (key' : Key) :
    (m'.table i).Holds key' ↔ (m.table i).Holds key' ∨ i = e ∧ key = key' := by
  have hm' : m'.table = Function.update m.table e ((m.table e).incr key) := by
    rw [(KcMap.incr_eq hincr).1]
  rw [hm']
  by_cases hie : i = e
  · subst hie
    rw [Function.update_self]
    rcases hc.found hincr with hholds | ⟨hz, -⟩
    · rw [KcEntry.holds_incr hholds.1 hlt]
      exact ⟨.inl, fun h => h.elim id fun h => h.2 ▸ hholds⟩
    · rw [KcEntry.holds_incr_empty hz]
      exact ⟨fun heq => .inr ⟨rfl, heq⟩, fun h => h.elim (fun h => absurd hz h.1) And.right⟩
  · rw [Function.update_of_ne hie]
    exact ⟨.inl, fun h => h.elim id fun h => absurd h.1 hie⟩

/-- A push keeps the table and the record together. -/
theorem push (h : Keyed m ks g) (hc : m.Clear hash key) (hincr : m.incr hash key = .ok (e, m'))
    (hlt : (m.table e).count.toNat + 1 < 2 ^ 64) (t : UInt64) (time : ℕ) :
    Keyed m' (ks ++ [⟨e, t⟩]) (g ++ [⟨key, time⟩]) := by
  obtain ⟨hm', n, hn, he, -⟩ := KcMap.incr_eq hincr
  have hsize : m'.size = m.size := by rw [hm']
  have hholds := holds_push hc hincr hlt
  have hlt' : e < m.size := he ▸ KcMap.way_lt (Nat.zero_lt_of_lt hn) n
  refine ⟨List.rel_append (h.held.imp fun k s hks => ?_)
    (.cons ⟨hsize ▸ hlt', (hholds e key).2 (.inr ⟨rfl, rfl⟩)⟩ .nil), fun i hi j hj key' h1 h2 => ?_⟩
  · exact ⟨hsize ▸ hks.1, (hholds _ _).2 (.inl hks.2)⟩
  -- an entry that holds the key after the push is the one found, or held it before
  rw [hsize] at hi hj
  have hother : ∀ i < m.size, (m.table i).Holds key → i = e := fun i hi hh => by
    rcases hc.found hincr with hfound | ⟨-, hno⟩
    · exact h.inj i hi e hlt' key hh hfound
    · exact absurd hh (hno i hi)
  rcases (hholds i key').1 h1 with h1 | ⟨hie, hkey⟩ <;>
    rcases (hholds j key').1 h2 with h2 | ⟨hje, hkey'⟩
  · exact h.inj i hi j hj key' h1 h2
  · exact (hother i hi (hkey' ▸ h1)).trans hje.symm
  · exact hie.trans (hother j hj (hkey ▸ h2)).symm
  · exact hie.trans hje.symm

/-- A pop keeps them together. -/
theorem pop {k : KwEntry} {s : HkSample} (h : Keyed m (k :: ks) (s :: g))
    (hcount : (m.table k.kcme).count.toNat = ((k :: ks).map KwEntry.kcme).count k.kcme) :
    Keyed (m.decr k.kcme) ks g := by
  obtain ⟨hhead, htail⟩ := List.forall₂_cons.1 h.held
  have hne : (m.table k.kcme).count ≠ 0 := hhead.2.1
  rw [List.map_cons, List.count_cons_self] at hcount
  have hholds : ∀ i key, ((m.decr k.kcme).table i).Holds key ↔
      (m.table i).Holds key ∧ (i = k.kcme → (m.table k.kcme).count ≠ 1) := by
    intro i key
    have htable : (m.decr k.kcme).table = Function.update m.table k.kcme (m.table k.kcme).decr :=
      rfl
    rw [htable]
    by_cases hik : i = k.kcme
    · subst hik
      rw [Function.update_self, KcEntry.holds_decr hne]
      simp
    · rw [Function.update_of_ne hik]
      simp [hik]
  refine ⟨?_, fun i hi j hj key h1 h2 => h.inj i hi j hj key ((hholds i key).1 h1).1
    ((hholds j key).1 h2).1⟩
  -- an entry that another sample points to counts more than one
  have hmore : ∀ k' ∈ ks, k'.kcme = k.kcme → (m.table k.kcme).count ≠ 1 := by
    intro k' hk' heq hone
    have hpos : 0 < (ks.map KwEntry.kcme).count k.kcme :=
      List.count_pos_iff.2 (heq ▸ List.mem_map_of_mem hk')
    rw [hone, UInt64.toNat_one] at hcount
    omega
  refine ((List.forall₂_and_left _ _).2 ⟨hmore, htail⟩).imp fun k' s' hk' => ⟨hk'.2.1, ?_⟩
  exact (hholds _ _).2 ⟨hk'.2.2, hk'.1⟩

end Keyed

/-! ### Runs -/

namespace Hotkey

variable {hash : Key → UInt32} {x y : Hotkey × List HkSample} {l : HkLabel} {r : Option HkAnswer}

/-- The way of a key that is sampled is clear, and the index of `kc_map_init` has reached all
entries. -/
def WayClear (hash : Key → UInt32) (h : Hotkey) : HkLabel → Prop
  | .sample key _ => (h.counter + 1) % h.sampleRate = 0 →
    h.windowSize.toNat ≤ 2 ^ 30 ∧ ∀ d, h.detector = some d → d.map.Clear hash key
  | _ => True

/-- The invariant of the counts. -/
structure Counting (x : Hotkey × List HkSample) : Prop where
  /-- The invariant of the detector. -/
  sound : x.1.Sound
  /-- The table counts the keys of the record. -/
  keyed : ∀ d, x.1.detector = some d → d.map.size ≤ 2 ^ 31 → Keyed d.map d.queue.elems x.2

/-- Nothing is counted in a table that was set up. -/
theorem keyed_init {size : UInt64} {mem : HkMemory} {d : Detector}
    (hd : Detector.init size mem = some d) (hsize : d.map.size ≤ 2 ^ 31) :
    Keyed d.map d.queue.elems [] := by
  obtain rfl := Detector.init_eq_some hd
  refine ⟨by rw [Ring.elems_create]; exact .nil, fun i hi j hj key h1 => ?_⟩
  have hentry : (KcMap.init size mem.entries).table i = kcMapEntryReset (mem.entries i) :=
    if_pos (hi.trans_le hsize)
  have hholds : ((KcMap.init size mem.entries).table i).Holds key := h1
  rw [hentry] at hholds
  exact absurd rfl hholds.1

/-- A sample whose way is clear is counted right, and the table and the record stay together. -/
theorem Counting.sampled (hx : Counting x) {key : Key} {nbyte : UInt32} {d d' : Detector} {e : ℕ}
    {map : KcMap} {a : HkAnswer} (hdet : x.1.detector = some d) (hwf : d.Wf)
    (hmax : d.max = x.1.windowSize) (hincr : d.map.incr hash key = .ok (e, map))
    (hsam : Sampled x.1 d key nbyte.toUInt64 e map a d') (hsize : x.1.windowSize.toNat ≤ 2 ^ 30)
    (hclear : d.map.Clear hash key) :
    Keyed d'.map d'.queue.elems (slide x.1.windowSize.toNat (pushed x key)) ∧
      a.count = some (map.table e).count ∧
        (map.table e).count.toNat = ((pushed x key).map HkSample.key).count key := by
  obtain ⟨d₁, -, hcore, hmax₁, -, rfl, helems⟩ := hwf.push x.1.clock.curTime hincr
  obtain ⟨hmap, n, hn, he, -⟩ := KcMap.incr_eq hincr
  have hlt : e < d.map.size := he ▸ KcMap.way_lt (Nat.zero_lt_of_lt hn) n
  have hsize₁ : d₁.map.size = d.map.size := by rw [hmap]
  have hle : d.map.size ≤ 2 ^ 31 := by
    rw [hwf.table, hmax]
    omega
  -- the table is set back as a whole, as it has at most 2^31 entries
  have hreset : ∀ i < d₁.map.size, i < d₁.resetSize :=
    fun i hi => lt_min hi (hi.trans_le (hsize₁ ▸ hle))
  have hcount : (d.map.table e).count.toNat + 1 < 2 ^ 64 := by
    have hle' := List.count_le_length (l := d.kcmes) (a := e)
    rw [Detector.length_kcmes] at hle'
    have hnelem := hwf.nelem_lt
    rw [hwf.counted e (lt_min hlt (hlt.trans_le hle))]
    omega
  have hk := hx.keyed d hdet hle
  have hpush : Keyed d₁.map d₁.queue.elems (pushed x key) :=
    helems ▸ hk.push hclear hincr hcount _ _
  have hnew : (d₁.map.table e).Holds key :=
    (Keyed.holds_push hclear hincr hcount e key).2 (.inr ⟨rfl, rfl⟩)
  have hnumber : (d₁.map.table e).count.toNat = ((pushed x key).map HkSample.key).count key := by
    rw [hcore.counted e (hreset e (hsize₁ ▸ hlt))]
    exact hpush.count_eq (hsize₁ ▸ hlt) hnew
  have hlen : (pushed x key).length = d.queue.nelem + 1 := by
    rw [← hpush.held.length_eq, helems, List.length_append, Ring.length_elems,
      List.length_singleton]
  rw [slide, hlen, ← hmax]
  cases hsam with
  | filling _ _ _ hmap' helems' hroom =>
    rw [if_neg hroom.ne, hmap', helems', ← helems]
    exact ⟨hpush, rfl, hnumber⟩
  | @full _ k ks s _ _ _ hmap' hall helems' heq =>
    rw [if_pos heq, hmap', helems']
    refine ⟨?_, rfl, hnumber⟩
    -- the oldest sample leaves the window, and its key is counted down
    have hks : d₁.queue.elems = k :: ks := helems.trans hall
    rw [hks] at hpush
    cases hg : pushed x key with
    | nil =>
      rw [hg] at hlen
      cases hlen
    | cons s' g' =>
      rw [hg] at hpush
      have hinside := (List.forall₂_cons.1 hpush.held).1.1
      have hcounted := hcore.counted k.kcme (hreset _ hinside)
      rw [Detector.kcmes, hks] at hcounted
      exact hpush.pop hcounted

/-- Every step on a clear way keeps the invariant. -/
theorem Counting.step (hx : Counting x) (hst : (recordingMachine hash).step x l = some (r, y))
    (hclear : WayClear hash x.1 l) : Counting y := by
  have hs := sound_step hx.sound hst
  cases trace_of_step hx.sound hst with
  | quiet hdet hg _ _ => exact ⟨hs, fun d hd hsize => hg ▸ hx.keyed d (hdet ▸ hd) hsize⟩
  | reset size hdet hg _ => exact ⟨hs, fun d hd hsize => hg ▸ keyed_init (hdet.symm.trans hd) hsize⟩
  | sampled hturn _ hdet hwf hmax hincr hsam hdet' _ hg =>
    obtain ⟨hsize, hway⟩ := hclear hturn
    refine ⟨hs, fun d hd _ => ?_⟩
    obtain rfl := Option.some.inj (hdet'.symm.trans hd)
    exact hg ▸ (hx.sampled hdet hwf hmax hincr hsam hsize (hway _ hdet)).1

theorem Counting.of_reaches {o : HkOptions} {h₀ : Hotkey} (hst : Starts o h₀)
    (hr : (recordingMachine hash).Reaches (fun x l _ => WayClear hash x.1 l) (h₀, []) x) :
    Counting x := by
  refine hr.invariant (I := Counting) ⟨hst.sound, fun d hd hsize => ?_⟩
      fun _ _ _ _ hx hstep hclear =>
    hx.step hstep hclear
  obtain ⟨⟨clock, mem, rfl⟩, -⟩ := hst
  exact keyed_init hd hsize

/-- **The counts are exact** in every run in which the way of each key that is sampled is clear:
`key_window_push` returns the number of samples of exactly that key in the window, the one pushed
included. -/
theorem counts_exact (hash : Key → UInt32) (o : HkOptions) (h₀ : Hotkey)
    (x y : Hotkey × List HkSample) (key : Key) (nbyte : UInt32) (a : HkAnswer) (count : UInt64)
    (hst : Starts o h₀)
    (hr : (recordingMachine hash).Reaches (fun x l _ => WayClear hash x.1 l) (h₀, []) x)
    (hstep : (recordingMachine hash).step x (.sample key nbyte) = some (some a, y))
    (hclear : WayClear hash x.1 (.sample key nbyte)) (hcount : a.count = some count) :
    count.toNat = ((pushed x key).map HkSample.key).count key := by
  have hx := Counting.of_reaches hst hr
  cases trace_of_step hx.sound hstep with
  | quiet _ _ _ hnone =>
    obtain rfl := hnone _ rfl
    cases hcount
  | sampled hturn _ hdet hwf hmax hincr hsam _ _ _ =>
    obtain ⟨hsize, hway⟩ := hclear hturn
    obtain ⟨-, hanswer, hnumber⟩ := hx.sampled hdet hwf hmax hincr hsam hsize (hway _ hdet)
    obtain rfl := Option.some.inj (hanswer.symm.trans hcount)
    exact hnumber

/-- The way of a key that is sampled is clear. -/
def wayClear (h : Hotkey) : HkLabel → Bool
  | .sample key _ =>
    decide (h.windowSize.toNat ≤ 2 ^ 30) && h.detector.all fun d => decide (d.map.Clear keyHash key)
  | _ => true

theorem wayClear_iff {h : Hotkey} (hc : wayClear h l = true) : WayClear keyHash h l := by
  cases l with
  | sample key nbyte =>
    obtain ⟨hsize, hall⟩ := (Bool.and_eq_true _ _).mp hc
    refine fun _ => ⟨of_decide_eq_true hsize, fun d hd => ?_⟩
    rw [hd] at hall
    exact of_decide_eq_true hall
  | timeUpdate c => exact trivial
  | configure s mem => exact trivial

/-- The detector with a window of three elements and a table of six. -/
def threeStart : Hotkey := init oddOptions.settings ⟨2, 0, HkClock.zero_usec⟩ zeroMemory

/-- The state after samples of some keys, whose ways are clear. -/
def threeClear (keys : List Key) : Hotkey × List HkSample :=
  (recordingMachine keyHash).exec (fun x l _ => wayClear x.1 l) (threeStart, [])
    (keys.map fun key => .sample key 10)

/-- The ways of `a` and `k` begin at the same place.  The second sample of `k`, while that of `a` is
in the window. -/
theorem counts_exact_two : (2 : UInt64).toNat =
    ((pushed (threeClear [ascii "a", ascii "k"]) (ascii "k")).map HkSample.key).count
        (ascii "k") := by
  have hr : (recordingMachine keyHash).Reaches (fun x l _ => wayClear x.1 l = true) (threeStart, [])
      (threeClear [ascii "a", ascii "k"]) := Machine.reaches_exec (by decide +kernel)
  have hans : ((recordingMachine keyHash).step (threeClear [ascii "a", ascii "k"])
      (.sample (ascii "k") 10)).map Prod.fst =
          some (some ⟨.qps, some 2, some ⟨1, 3000000, 22000000⟩⟩) := by
    decide +kernel
  have hclear : wayClear (threeClear [ascii "a", ascii "k"]).1 (.sample (ascii "k") 10) = true := by
    decide +kernel
  obtain ⟨⟨a, y⟩, hstep, ha⟩ := Option.map_eq_some_iff.1 hans
  obtain rfl : a = _ := ha
  exact counts_exact keyHash oddOptions threeStart (threeClear [ascii "a", ascii "k"]) y
    (ascii "k") 10 _ 2
    ⟨⟨_, _, rfl⟩, rfl⟩ (hr.mono fun _ _ _ hc => wayClear_iff hc) hstep (wayClear_iff hclear) rfl

/-- The state after samples of `a`, `k` and `k`: that of `a` has left the window. -/
def threeGap : Hotkey × List HkSample :=
  (recordingMachine keyHash).exec (fun _ _ _ => true) (threeStart, [])
    [.sample (ascii "a") 10, .sample (ascii "k") 10, .sample (ascii "k") 10]

/-- The third sample of `k` in the window is counted as the first. -/
theorem counts_lost :
    ¬ ∀ (hash : Key → UInt32) (o : HkOptions) (h₀ : Hotkey) (x y : Hotkey × List HkSample)
      (key : Key)
    (nbyte : UInt32) (a : HkAnswer) (count : UInt64), Starts o h₀ →
    (recordingMachine hash).Reaches Machine.Unguarded (h₀, []) x →
    (recordingMachine hash).step x (.sample key nbyte) = some (some a, y) → a.count = some count →
      count.toNat = ((pushed x key).map HkSample.key).count key := by
  intro hall
  have hr : (recordingMachine keyHash).Reaches (fun _ _ _ => true = true)
      (threeStart, []) threeGap :=
    Machine.reaches_exec (by decide +kernel)
  have hans : ((recordingMachine keyHash).step threeGap (.sample (ascii "k") 10)).map Prod.fst =
      some (some ⟨.qps, some 1, some ⟨1, 3000000, 11000000⟩⟩) := by decide +kernel
  obtain ⟨⟨a, y⟩, hstep, ha⟩ := Option.map_eq_some_iff.1 hans
  obtain rfl : a = _ := ha
  have hcount := hall keyHash oddOptions threeStart threeGap y (ascii "k") 10 _ 1 ⟨⟨_, _, rfl⟩, rfl⟩
    (hr.mono fun _ _ _ _ => trivial) hstep rfl
  revert hcount
  decide +kernel

end Hotkey

end Twemcache
