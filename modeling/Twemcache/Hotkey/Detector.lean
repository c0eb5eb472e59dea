import Twemcache.Hotkey.Basic
import Mathlib.Data.List.Perm.Subperm
import Mathlib.Data.List.Range

/-!
# The detector at work

The number of entries in use is less than the size of the window, and the table is twice that size,
so that the loop of `kc_map_incr` comes upon an empty entry.  This needs a window that is not empty,
and no larger than the part of the table that `kc_map_init` resets.

## Main results

* `Hotkey.sampleKey_ok` : what a sample does.
* `Hotkey.Sound.of_reaches` : the invariant of the detector.
* `Hotkey.samples_succeed` : samples do not go wrong while the window has between `1` and `2 ^ 31`
  elements.
-/

namespace Twemcache

/-! ### The loop -/

namespace KcMap

variable {m m' : KcMap} {hash : Key → UInt32} {key : Key} {j e : ℕ}

/-- The entry at the distance `n` on the way of a key. -/
def way (m : KcMap) (hash : Key → UInt32) (key : Key) (n : ℕ) :
    ℕ := ((hash key).toNat % m.size + n) % m.size

theorem way_lt (h : 0 < m.size) (n : ℕ) : m.way hash key n < m.size := Nat.mod_lt _ h

/-- **The loop ends** if some entry is empty. -/
theorem incr_ok (hash : Key → UInt32) (key : Key) (hj : j < m.size)
    (hempty : (m.table j).count = 0) :
    ∃ e m', m.incr hash key = .ok (e, m') := by
  have hpos := Nat.zero_lt_of_lt hj
  obtain ⟨e, he⟩ := Probing.exists_find (p := fun i => kcMapMatch (m.table i) key)
    (Nat.mod_lt (hash key).toNat hpos) hj (by simp [kcMapMatch, hempty])
  refine ⟨e, { m with table := Function.update m.table e ((m.table e).incr key) }, ?_⟩
  rw [incr, if_neg hpos.ne', show m.probe hash key = some e from he]

/-- What `kc_map_incr` does. -/
theorem incr_eq (h : m.incr hash key = .ok (e, m')) :
    m' = { m with table := Function.update m.table e ((m.table e).incr key) } ∧
      ∃ n < m.size, e = m.way hash key n ∧ kcMapMatch (m.table e) key = true ∧
        ∀ n' < n, kcMapMatch (m.table (m.way hash key n')) key = false := by
  rw [incr] at h
  split at h
  · cases h
  · rename_i hpos
    generalize hprobe : m.probe hash key = r at h
    cases r with
    | none => cases h
    | some i =>
      obtain ⟨rfl, rfl⟩ := Prod.mk.inj (Except.ok.inj h)
      exact ⟨rfl, Probing.find_some (Nat.mod_lt _ (Nat.pos_of_ne_zero hpos)) hprobe⟩

end KcMap

namespace KcEntry

variable {e : KcEntry}

theorem toNat_count_incr (key : Key) (h : e.count.toNat + 1 < 2 ^ 64) :
    (e.incr key).count.toNat = e.count.toNat + 1 := by
  rw [KcEntry.incr]
  split
  · rename_i hz
    rw [hz]
    rfl
  · change (e.count + 1).toNat = _
    rw [UInt64.toNat_add, UInt64.toNat_one, Nat.mod_eq_of_lt h]

theorem toNat_count_decr (h : 0 < e.count.toNat) : e.decr.count.toNat = e.count.toNat - 1 := by
  rw [KcEntry.decr]
  split
  · rename_i hone
    rw [hone]
    rfl
  · change (e.count - 1).toNat = _
    exact UInt64.toNat_sub_of_le _ _ (UInt64.le_iff_toNat_le.2 h)

end KcEntry

/-! ### The window -/

namespace Detector

variable {d : Detector} {e : ℕ} {map : KcMap} {hash : Key → UInt32} {key : Key}

/-- The entries that the samples in the window point to. -/
def kcmes (d : Detector) : List ℕ := d.queue.elems.map KwEntry.kcme

/-- The number of entries that `kc_map_init` has reset. -/
def resetSize (d : Detector) : ℕ := min d.map.size (2 ^ 31)

/-- The detector of a window that can be used, also between a push and a pop. -/
structure Core (d : Detector) : Prop where
  /-- The queue is a queue. -/
  queue : d.queue.Wf
  /-- The queue can hold the window. -/
  cap : d.queue.cap.toNat = d.max.toNat
  /-- The number of samples. -/
  size : d.size.toNat = d.queue.nelem
  /-- The size of the table. -/
  table : d.map.size = 2 * d.max.toNat
  /-- The samples point into the table. -/
  inside : ∀ e ∈ d.kcmes, e < d.map.size
  /-- The counts are those of the samples. -/
  counted : ∀ e < d.resetSize, (d.map.table e).count.toNat = d.kcmes.count e

/-- The detector between two samples: the window is not full. -/
structure Wf (d : Detector) : Prop extends d.Core where
  /-- There is room for a sample. -/
  room : d.queue.nelem < d.max.toNat

theorem length_kcmes :
    d.kcmes.length = d.queue.nelem := by rw [kcmes, List.length_map, Ring.length_elems]

theorem Core.full_iff (h : d.Core) : keyWindowFull d = true ↔ d.queue.nelem = d.max.toNat := by
  rw [keyWindowFull, beq_iff_eq, ← UInt64.toNat_inj, h.size]

theorem Core.nelem_lt (h : d.Core) : d.queue.nelem + 1 < 2 ^ 32 :=
  Nat.lt_of_le_of_lt (Nat.succ_le_succ h.queue.nelem_le) h.queue.cells

/-- There is an empty entry. -/
theorem Wf.exists_empty (h : d.Wf) (hmax : d.max.toNat ≤ 2 ^ 31) :
    ∃ e < d.map.size, (d.map.table e).count = 0 := by
  by_contra hno
  simp only [not_exists, not_and] at hno
  -- each entry that was reset would belong to a sample
  have hsub : List.range d.resetSize ⊆ d.kcmes := fun e he => by
    have hlt := List.mem_range.1 he
    have hne := hno e (hlt.trans_le (Nat.min_le_left _ _))
    rw [← List.count_pos_iff, ← h.counted e hlt]
    exact Nat.pos_of_ne_zero fun hz => hne (UInt64.toNat_inj.1 hz)
  have hle := (List.nodup_range.subperm hsub).length_le
  rw [List.length_range, length_kcmes, resetSize, h.table] at hle
  have hroom := h.room
  omega

/-- A sample is pushed. -/
theorem Wf.push (h : d.Wf) (time : UInt64) (hincr : d.map.incr hash key = .ok (e, map)) :
    ∃ d', keyWindowPush hash d key time = .ok ((map.table e).count, d') ∧ d'.Core ∧ d'.max = d.max ∧
      d'.queue.cap = d.queue.cap ∧ d'.map = map ∧
          d'.queue.elems = d.queue.elems ++ [⟨e, time⟩] := by
  obtain ⟨q, hpush, hq, hcap, helems⟩ := Ring.push_elems (x := ⟨e, time⟩) h.queue (h.cap ▸ h.room)
  obtain ⟨hmap, n, hn, he, -⟩ := KcMap.incr_eq hincr
  have hkcmes : (q.elems.map KwEntry.kcme) = d.kcmes ++ [e] := by rw [helems, List.map_append]; rfl
  have hlen : q.nelem = d.queue.nelem + 1 := by
    rw [← Ring.length_elems, helems, List.length_append, Ring.length_elems, List.length_singleton]
  have hsize : map.size = d.map.size := by rw [hmap]
  refine ⟨{ d with size := d.size + 1, queue := q, map := map }, ?_, ?_, rfl, hcap, rfl, helems⟩
  · rw [keyWindowPush, hincr]
    change (liftRing (d.queue.push ⟨e, time⟩)).bind _ = _
    rw [hpush]
    rfl
  refine ⟨hq, (congrArg UInt32.toNat hcap).trans h.cap, ?_, hsize.trans h.table, ?_, ?_⟩
  · have hlt := h.nelem_lt
    change (d.size + 1).toNat = q.nelem
    rw [UInt64.toNat_add, h.size, hlen, UInt64.toNat_one, Nat.mod_eq_of_lt (by omega)]
  · intro i hi
    change i ∈ q.elems.map KwEntry.kcme at hi
    rw [hkcmes, List.mem_append, List.mem_singleton] at hi
    change i < map.size
    rw [hsize]
    -- the new sample refers to the way that `incr` has found or claimed
    rcases hi with hi | rfl
    · exact h.inside i hi
    · exact he ▸ KcMap.way_lt (Nat.zero_lt_of_lt hn) n
  · intro i hi
    have hi' : i < d.resetSize := by rwa [resetSize, ← hsize]
    change (map.table i).count.toNat = (q.elems.map KwEntry.kcme).count i
    rw [hkcmes, List.count_append, hmap]
    -- the counter of that way goes up by one, like the number of samples that refer to it
    by_cases hie : i = e
    · subst hie
      have hlt := h.nelem_lt
      have hle := List.count_le_length (l := d.kcmes) (a := i)
      rw [length_kcmes] at hle
      have hcount := h.counted i hi'
      simp only [Function.update_self]
      rw [KcEntry.toNat_count_incr _ (by omega), hcount, List.count_singleton_self]
    · simp only [Function.update_of_ne hie]
      rw [h.counted i hi', List.count_singleton, if_neg (by simpa using Ne.symm hie), Nat.add_zero]

/-- The oldest sample is popped. -/
theorem Core.pop (h : d.Core) {k : KwEntry} {ks : List KwEntry} (helems : d.queue.elems = k :: ks) :
    ∃ d', keyWindowPop d = .ok (k.timestampUs, d') ∧ d'.Core ∧ d'.max = d.max ∧
      d'.queue.cap = d.queue.cap ∧ d'.map = d.map.decr k.kcme ∧ d'.queue.elems = ks := by
  obtain ⟨q, hpop, hq, hcap, hks⟩ := Ring.pop_elems h.queue helems
  have hlen : d.queue.nelem = q.nelem + 1 := by
    rw [← Ring.length_elems, helems, ← Ring.length_elems, hks, List.length_cons]
  have hkcmes : d.kcmes = k.kcme :: ks.map KwEntry.kcme := by rw [kcmes, helems, List.map_cons]
  refine ⟨{ d with size := d.size - 1, queue := q, map := d.map.decr k.kcme }, ?_, ?_, rfl,
    hcap, rfl, hks⟩
  · rw [keyWindowPop, hpop]
    rfl
  refine ⟨hq, (congrArg UInt32.toNat hcap).trans h.cap, ?_, h.table, ?_, ?_⟩
  · have hsize := h.size
    change (d.size - 1).toNat = q.nelem
    rw [UInt64.toNat_sub_of_le _ _ (UInt64.le_iff_toNat_le.2 (by rw [UInt64.toNat_one]; omega)),
      hsize, hlen, UInt64.toNat_one, Nat.add_sub_cancel]
  · intro i hi
    change i ∈ q.elems.map KwEntry.kcme at hi
    rw [hks] at hi
    exact h.inside i (hkcmes ▸ List.mem_cons_of_mem _ hi)
  · intro i hi
    have hcount := h.counted i hi
    rw [hkcmes, List.count_cons] at hcount
    change ((d.map.decr k.kcme).table i).count.toNat = (q.elems.map KwEntry.kcme).count i
    rw [hks, KcMap.decr]
    by_cases hie : i = k.kcme
    · subst hie
      rw [if_pos (by simp)] at hcount
      simp only [Function.update_self]
      rw [KcEntry.toNat_count_decr (by omega), hcount, Nat.add_sub_cancel]
    · rw [if_neg (by simpa using Ne.symm hie), Nat.add_zero] at hcount
      simpa only [Function.update_of_ne hie] using hcount

/-- What holds of every detector that was set up, for any size of the window. -/
structure Good (d : Detector) : Prop where
  /-- `key_window_init` hands the size on as a `uint32_t`. -/
  cap : d.queue.cap = d.max.toUInt32
  /-- No sample ever enters an empty window. -/
  idle : d.max = 0 → d.size = 0
  /-- A window that can be used. -/
  wf : 0 < d.max.toNat → d.max.toNat < 2 ^ 32 - 1 → d.Wf

theorem Wf.good (h : d.Wf) (hcap : d.queue.cap = d.max.toUInt32) : d.Good where
  cap := hcap
  idle hz := absurd (hz ▸ h.room) (Nat.not_lt_zero _)
  wf _ _ := h

theorem init_eq_some {size : UInt64} {mem : HkMemory} (h : init size mem = some d) :
    d = ⟨0, size, .create size.toUInt32 mem.cells, .init size mem.entries⟩ := by
  rw [init] at h
  split at h
  · exact (Option.some.inj h).symm
  · cases h

/-- A detector is set up. -/
theorem good_init {size : UInt64} {mem : HkMemory} (h : init size mem = some d) :
    d.Good ∧ d.max = size := by
  obtain rfl := init_eq_some h
  refine ⟨⟨rfl, fun _ => rfl, fun hpos hlt => ?_⟩, rfl⟩
  change 0 < size.toNat at hpos
  change size.toNat < 2 ^ 32 - 1 at hlt
  have hcap : size.toUInt32.toNat = size.toNat := by
    rw [UInt64.toNat_toUInt32, Nat.mod_eq_of_lt (hlt.trans (by decide))]
  have hwf : (Ring.create size.toUInt32 mem.cells).Wf := Ring.wf_create (by omega)
  have hkcmes : (Ring.create size.toUInt32 mem.cells).elems.map KwEntry.kcme = [] := by
    rw [Ring.elems_create]; rfl
  have hnelem : (Ring.create size.toUInt32 mem.cells).nelem = 0 := by
    rw [← Ring.length_elems, Ring.elems_create]; rfl
  have htable : (2 * size).toNat = 2 * size.toNat := by
    rw [UInt64.toNat_mul, show (2 : UInt64).toNat = 2 from rfl, Nat.mod_eq_of_lt (by omega)]
  refine ⟨⟨hwf, hcap, hnelem.symm, htable, ?_, fun e he => ?_⟩, hnelem ▸ hpos⟩
  · intro e he
    change e ∈ (Ring.create size.toUInt32 mem.cells).elems.map KwEntry.kcme at he
    rw [hkcmes] at he
    cases he
  · change (if e < 2 ^ 31 then kcMapEntryReset (mem.entries e) else mem.entries e).count.toNat =
      ((Ring.create size.toUInt32 mem.cells).elems.map KwEntry.kcme).count e
    rw [hkcmes, if_pos (he.trans_le (Nat.min_le_right _ _))]
    rfl

end Detector

/-! ### Samples -/

namespace Hotkey

variable {h h' : Hotkey} {d d' : Detector} {hash : Key → UInt32} {key : Key} {vlen : UInt64}
  {a : HkAnswer} {e : ℕ} {map : KcMap}

/-- What is derived from a full window, given the time of its oldest sample. -/
def readingOf (h : Hotkey) (count oldest size : UInt64) : HkReading :=
  ⟨timeDiffOf h.clock.curTime oldest, h.qpsNumerator / timeDiffOf h.clock.curTime oldest,
    count * size * h.sampleRate * 1000000 / timeDiffOf h.clock.curTime oldest⟩

theorem readingOf_eq (h : Hotkey) (count oldest size : UInt64) : h.readingOf count oldest size =
    ⟨timeDiffOf h.clock.curTime oldest, h.qpsNumerator / timeDiffOf h.clock.curTime oldest,
      count * size * h.sampleRate * 1000000 / timeDiffOf h.clock.curTime oldest⟩ := by
  rw [readingOf]

/-- What a sample does, once `kc_map_incr` has found the entry `e` and left behind `map`. -/
inductive Sampled (h : Hotkey) (d : Detector) (key : Key) (vlen : UInt64) (e : ℕ) (map : KcMap) :
    HkAnswer → Detector → Prop
  /-- The window is still being filled. -/
  | filling {d' : Detector} (hwf : d'.Wf) (hmax : d'.max = d.max)
      (hcap : d'.queue.cap = d.queue.cap)
      (hmap : d'.map = map) (helems : d'.queue.elems = d.queue.elems ++ [⟨e, h.clock.curTime⟩])
      (hlt : d.queue.nelem + 1 < d.max.toNat) :
      Sampled h d key vlen e map ⟨.none, some (map.table e).count, none⟩ d'
  /-- The window is full, and its oldest sample is taken out. -/
  | full {d' : Detector} {k : KwEntry} {ks : List KwEntry} {s : HkSignal} (hwf : d'.Wf)
      (hmax : d'.max = d.max)
      (hcap : d'.queue.cap = d.queue.cap) (hmap : d'.map = map.decr k.kcme)
      (hall : d.queue.elems ++ [⟨e, h.clock.curTime⟩] = k :: ks) (helems : d'.queue.elems = ks)
      (heq : d.queue.nelem + 1 = d.max.toNat) :
      Sampled h d key vlen e map ⟨s, some (map.table e).count,
        some (h.readingOf (map.table e).count k.timestampUs (.ofNat key.length + vlen))⟩ d'

theorem timeDiffOf_ne_zero (a b : UInt64) : timeDiffOf a b ≠ 0 := by
  rw [timeDiffOf]
  split
  · rename_i hpos
    intro hz
    rw [hz] at hpos
    exact UInt64.lt_irrefl _ hpos
  · exact (by decide : (1 : UInt64) ≠ 0)

theorem udiv_ok {a b : UInt64} (h : b ≠ 0) : udiv a b = .ok (a / b) := if_neg h

theorem ok_bind {α β : Type} (a : α) (f : α → Except HkFault β) : (Except.ok a >>= f) = f a := rfl

theorem read_ok (h : Hotkey) (count size : UInt64) {td : UInt64} (hne : td ≠ 0) :
    h.read count size td =
    .ok ⟨td, h.qpsNumerator / td, count * size * h.sampleRate * 1000000 / td⟩ := by
  rw [read, getBandwidth, udiv_ok hne, udiv_ok hne, ok_bind, ok_bind]
  rfl

/-- What is derived from a full window. -/
theorem readFull_ok (h : Hotkey) {d₁ d₂ : Detector} {oldest : UInt64} (key : Key)
    (vlen count : UInt64) (hpop : keyWindowPop d₁ = .ok (oldest, d₂)) :
    ∃ s, h.readFull d₁ key vlen count =
      .ok (⟨s, some count, some (h.readingOf count oldest (.ofNat key.length + vlen))⟩, d₂) := by
  have hread :=
    h.read_ok count (.ofNat key.length + vlen) (timeDiffOf_ne_zero h.clock.curTime oldest)
  rw [← readingOf_eq] at hread
  rw [readFull, hpop, ok_bind]
  dsimp only
  rw [hread, ok_bind]
  exact ⟨_, rfl⟩

/-- **What a sample does.** -/
theorem sampleKey_ok (h : Hotkey) (vlen : UInt64) (hd : d.Wf)
    (hincr : d.map.incr hash key = .ok (e, map)) :
    ∃ a d', h.sampleKey hash d key vlen = .ok (a, d') ∧ Sampled h d key vlen e map a d' := by
  obtain ⟨d₁, hpush, hcore, hmax, hcap, hmap, helems⟩ := hd.push h.clock.curTime hincr
  have hlen : d₁.queue.nelem = d.queue.nelem + 1 := by
    rw [← Ring.length_elems, helems, List.length_append, Ring.length_elems, List.length_singleton]
  have hroom := hd.room
  have hnot : keyWindowFull d = false := by
    rw [← Bool.not_eq_true, hd.full_iff]
    exact hroom.ne
  simp only [sampleKey, hnot, hpush, bind, Except.bind, pure, Except.pure,
    Bool.false_eq_true, if_false]
  by_cases hfull : keyWindowFull d₁ = true
  · have heq := hcore.full_iff.1 hfull
    rw [hlen, hmax] at heq
    cases hall : d.queue.elems ++ [⟨e, h.clock.curTime⟩] with
    | nil => cases List.append_eq_nil_iff.1 hall with | intro _ hnil => cases hnil
    | cons k ks =>
      obtain ⟨d₂, hpop, hcore₂, hmax₂, hcap₂, hmap₂, helems₂⟩ := hcore.pop (helems.trans hall)
      have hlen₂ : d₂.queue.nelem + 1 = d₁.queue.nelem := by
        rw [← Ring.length_elems, helems₂, ← Ring.length_elems, helems, hall, List.length_cons]
      have hroom₂ : d₂.queue.nelem < d₂.max.toNat := by rw [hmax₂, hmax]; omega
      obtain ⟨s, hread⟩ := h.readFull_ok key vlen (map.table e).count hpop
      rw [if_pos hfull, hread]
      exact ⟨_, _, rfl, .full ⟨hcore₂, hroom₂⟩ (hmax₂.trans hmax) (hcap₂.trans hcap)
        (hmap ▸ hmap₂) hall helems₂ heq⟩
  · have hne := mt hcore.full_iff.2 hfull
    rw [hlen, hmax] at hne
    have hlt : d.queue.nelem + 1 < d.max.toNat := by omega
    have hroom₁ : d₁.queue.nelem < d₁.max.toNat := by rw [hlen, hmax]; exact hlt
    rw [if_neg hfull]
    exact ⟨_, _, rfl, .filling ⟨hcore, hroom₁⟩ hmax hcap hmap helems hlt⟩

/-- A sample that goes well has found its entry and its cell. -/
theorem sampleKey_inv (hok : h.sampleKey hash d key vlen = .ok (a, d')) :
    keyWindowFull d = false ∧ ∃ e map q, d.map.incr hash key = .ok (e, map) ∧
      d.queue.push ⟨e, h.clock.curTime⟩ = .ok q := by
  unfold sampleKey at hok
  cases hfull : keyWindowFull d with
  | true =>
    rw [hfull] at hok
    cases hok
  | false =>
    refine ⟨rfl, ?_⟩
    cases hincr : d.map.incr hash key with
    | error f =>
      simp only [hfull, keyWindowPush, hincr, bind, Except.bind] at hok
      cases hok
    | ok x =>
      cases hpush : d.queue.push ⟨x.1, h.clock.curTime⟩ with
      | error f =>
        simp only [hfull, keyWindowPush, hincr, hpush, bind, Except.bind] at hok
        cases f <;> cases hok
      | ok q => exact ⟨x.1, x.2, q, rfl, hpush⟩

/-- A sample that goes well, from a detector that was set up. -/
theorem sampleKey_sampled (hd : d.Good) (hmax : d.max.toNat < 2 ^ 32)
    (hok : h.sampleKey hash d key vlen = .ok (a, d')) :
    d.Wf ∧ ∃ e map, d.map.incr hash key = .ok (e, map) ∧ Sampled h d key vlen e map a d' := by
  obtain ⟨hfull, e, map, q, hincr, hpush⟩ := sampleKey_inv hok
  have hwf : d.Wf := by
    refine hd.wf (Nat.pos_of_ne_zero fun hz => ?_)
      (Nat.lt_of_le_of_ne (Nat.le_sub_one_of_lt hmax) fun heq => ?_)
    · -- a window without elements is full
      have hz' : d.max = 0 := UInt64.toNat_inj.1 hz
      rw [keyWindowFull, hd.idle hz', hz'] at hfull
      exact absurd hfull (by decide)
    · -- the largest window has a ring whose number of cells is zero
      have hwrap : d.queue.cap + 1 = 0 := by
        rw [hd.cap, show d.max = 4294967295 from UInt64.toNat_inj.1 heq]
        decide
      exact absurd hpush (Ring.push_ne_ok hwrap)
  obtain ⟨a', d'', hok', hs⟩ := sampleKey_ok h vlen hwf hincr
  obtain ⟨rfl, rfl⟩ := Prod.mk.inj (Except.ok.inj (hok.symm.trans hok'))
  exact ⟨hwf, e, map, hincr, hs⟩

theorem Sampled.good (hs : Sampled h d key vlen e map a d') (hcap : d.queue.cap = d.max.toUInt32) :
    d'.Good ∧ d'.max = d.max := by
  cases hs with
  | filling hwf hmax hcap' _ _ _ => exact ⟨hwf.good (by rw [hcap', hcap, hmax]), hmax⟩
  | full hwf hmax hcap' _ _ _ _ => exact ⟨hwf.good (by rw [hcap', hcap, hmax]), hmax⟩

/-- The cases of `hotkey_sample`. -/
theorem sample_cases (hok : h.sample hash key vlen = .ok (a, h')) :
    ((h.counter + 1) % h.sampleRate ≠ 0 ∧ a = .skipped ∧ h' = { h with counter := h.counter + 1 }) ∨
    ∃ d d', (h.counter + 1) % h.sampleRate = 0 ∧ h.detector = some d ∧
      h.sampleKey hash d key vlen = .ok (a, d') ∧
      h' = { h with counter := h.counter + 1, detector := some d' } := by
  unfold sample at hok
  simp only [umod, bind, Except.bind] at hok
  split at hok
  · cases hok
  · rename_i hr
    split at hr
    · cases hr
    obtain rfl := Except.ok.inj hr
    split at hok
    · rename_i hne
      obtain ⟨rfl, rfl⟩ := Prod.mk.inj (Except.ok.inj hok)
      exact .inl ⟨hne, rfl, rfl⟩
    · rename_i hz
      cases hdet : h.detector with
      | none =>
        simp only [hdet] at hok
        cases hok
      | some d =>
        simp only [hdet] at hok
        split at hok
        · cases hok
        · rename_i x hx
          obtain ⟨rfl, rfl⟩ := Prod.mk.inj (Except.ok.inj hok)
          exact .inr ⟨d, x.2, not_not.1 hz, rfl, hx, rfl⟩

/-- A key that is sampled. -/
theorem sample_eq (hrate : h.sampleRate ≠ 0) (hturn : (h.counter + 1) % h.sampleRate = 0)
    (hdet : h.detector = some d) :
    h.sample hash key vlen = (h.sampleKey hash d key vlen).map fun x =>
      (x.1, { h with counter := h.counter + 1, detector := some x.2 }) := by
  unfold sample
  simp only [umod, if_neg hrate, bind, Except.bind, hturn, ne_eq, not_true, if_false, hdet]
  have hsame : sampleKey hash { h with counter := h.counter + 1, detector := some d } d key vlen =
      h.sampleKey hash d key vlen := rfl
  rw [hsame]
  cases h.sampleKey hash d key vlen <;> rfl

/-! ### Steps -/

theorem ok_of_toOption {α : Type} {x : Except HkFault α} {b : α} (h : x.toOption = some b) :
    x = .ok b := by
  cases x with
  | error f => cases h
  | ok c => exact congrArg Except.ok (Option.some.inj h)

/-- What an accepted command does. -/
inductive Configured (h : Hotkey) (mem : HkMemory) : Setting → Hotkey → Prop
  /-- The detection is enabled. -/
  | enable (hrealloc : h.realloc = false) : Configured h mem
      (.hkEnable true) { h with settings.enable := true }
  /-- The detection is disabled. -/
  | disable : Configured h mem (.hkEnable false) { h with settings.enable := false }
  /-- The redline stays. -/
  | sameRedline {qps : ℕ} (hlt : qps < 2 ^ 32) (heq : h.redlineQps = .ofNat qps) : Configured h mem
      (.hkRedline qps) h
  /-- The redline is changed. -/
  | redline {qps : ℕ} (hen : h.settings.enable = false) (hlt : qps < 2 ^ 32)
      (hne : h.redlineQps ≠ .ofNat qps) :
      Configured h mem (.hkRedline qps)
        (reallocate { h with redlineQps := .ofNat qps, settings.redlineQps := .ofNat qps } mem)
  /-- The sampling rate stays. -/
  | sameSampleRate {rate : ℕ} (hlt : rate < 2 ^ 32) (heq : h.sampleRate = .ofNat rate) :
      Configured h mem (.hkSampleRate rate) h
  /-- The sampling rate is changed. -/
  | sampleRate {rate : ℕ} (hen : h.settings.enable = false) (hpos : 0 < rate) (hlt : rate < 2 ^ 32)
      (hne : h.sampleRate ≠ .ofNat rate) : Configured h mem (.hkSampleRate rate)
        (reallocate { h with sampleRate := .ofNat rate, settings.sampleRate := .ofNat rate } mem)
  /-- The share of the window stays. -/
  | sameQpsThreshold {q : ℚ} (heq : h.settings.qpsThreshold = q) : Configured h mem
      (.hkQpsThreshold q) h
  /-- The share of the window is changed. -/
  | qpsThreshold {q : ℚ} (h0 : 0 < q) (h1 : q ≤ 1) : Configured h mem (.hkQpsThreshold q)
      { h with settings.qpsThreshold := q, threshold := hotkeyThreshold q h.windowSize }
  /-- The bandwidth stays. -/
  | sameBwThreshold {n : ℕ} (heq : h.settings.bwThreshold = .ofNat n) : Configured h mem
      (.hkBwThreshold n) h
  /-- The bandwidth is changed. -/
  | bwThreshold {n : ℕ} : Configured h mem (.hkBwThreshold n)
      { h with settings.bwThreshold := .ofNat n, bwThreshold := .ofNat n }

/-- The cases of a command. -/
theorem configured {s : Setting} {mem : HkMemory} (hc : h.configure mem s = some h') :
    Configured h mem s h' := by
  cases s with
  | hkEnable enable =>
    cases enable with
    | true =>
      simp only [configure] at hc
      split at hc
      · cases hc
      · rename_i hrealloc
        obtain rfl := Option.some.inj hc
        exact .enable (Bool.not_eq_true _ ▸ hrealloc)
    | false =>
      obtain rfl := Option.some.inj hc
      exact .disable
  | hkRedline qps =>
    simp only [configure] at hc
    split at hc
    · cases hc
    · rename_i hno
      simp only [not_or, not_le, Bool.not_eq_true] at hno
      obtain rfl := Option.some.inj hc
      -- a redline that is the same as before changes nothing
      rw [updateRedline]
      split
      · rename_i heq
        exact .sameRedline hno.2.2 heq
      · rename_i hne
        exact .redline hno.1 hno.2.2 hne
  | hkSampleRate rate =>
    simp only [configure] at hc
    split at hc
    · cases hc
    · rename_i hno
      simp only [not_or, not_le, Bool.not_eq_true] at hno
      obtain rfl := Option.some.inj hc
      -- nor does such a sample rate
      rw [updateSampleRate]
      split
      · rename_i heq
        exact .sameSampleRate hno.2.2 heq
      · rename_i hne
        exact .sampleRate hno.1 (Nat.pos_of_ne_zero hno.2.1) hno.2.2 hne
  | hkQpsThreshold q =>
    simp only [configure] at hc
    split at hc
    · rename_i hq
      obtain rfl := Option.some.inj hc
      rw [updateQpsThreshold]
      split
      · rename_i heq
        exact .sameQpsThreshold heq
      · exact .qpsThreshold hq.1 hq.2
    · cases hc
  | hkBwThreshold n =>
    simp only [configure] at hc
    split at hc
    · obtain rfl := Option.some.inj hc
      rw [updateBwThreshold]
      split
      · rename_i heq
        exact .sameBwThreshold heq
      · exact .bwThreshold
    · cases hc
  | verbosity _ => cases hc
  | statsInterval _ => cases hc
  | klogRunning _ => cases hc
  | klogSampling _ => cases hc
  | evict _ => cases hc
  | maxbytes _ => cases hc

/-- What a step does. -/
inductive Stepped (hash : Key → UInt32) (h : Hotkey) : HkLabel → Option HkAnswer → Hotkey → Prop
  /-- The clock is read. -/
  | timeUpdate {c : HkClock} (hle : h.clock.micros ≤ c.micros) :
      Stepped hash h (.timeUpdate c) none { h with clock := c }
  /-- It is not the turn of this key. -/
  | skip {key : Key} {nbyte : UInt32} (hturn : (h.counter + 1) % h.sampleRate ≠ 0) :
      Stepped hash h (.sample key nbyte) (some .skipped) { h with counter := h.counter + 1 }
  /-- The key is sampled. -/
  | sample {key : Key} {nbyte : UInt32} {d d' : Detector} {a : HkAnswer}
      (hturn : (h.counter + 1) % h.sampleRate = 0)
      (hlen : key.length ≤ maxKeyLen) (hdet : h.detector = some d)
      (hkey : h.sampleKey hash d key nbyte.toUInt64 = .ok (a, d')) :
      Stepped hash h (.sample key nbyte)
        (some a) { h with counter := h.counter + 1, detector := some d' }
  /-- A command is accepted. -/
  | configure {s : Setting} {mem : HkMemory} {h' : Hotkey} (hc : Configured h mem s h') :
      Stepped hash h (.configure s mem) none h'

/-- **The cases of a step.** -/
theorem stepped {l : HkLabel} {r : Option HkAnswer}
    (hst : (hotkeyMachine hash).step h l = some (r, h')) :
    Stepped hash h l r h' := by
  cases l with
  | timeUpdate c =>
    simp only [hotkeyMachine] at hst
    split at hst
    · rename_i hle
      obtain ⟨rfl, rfl⟩ := Prod.mk.inj (Option.some.inj hst)
      exact .timeUpdate hle
    · cases hst
  | sample key nbyte =>
    simp only [hotkeyMachine] at hst
    split at hst
    · rename_i hen
      obtain ⟨x, hx, heq⟩ := Option.map_eq_some_iff.1 hst
      obtain ⟨rfl, rfl⟩ := Prod.mk.inj heq
      rcases sample_cases
        (ok_of_toOption hx) with ⟨hturn, ha, hx'⟩ | ⟨d, d', hturn, hdet, hkey, hx'⟩
      · rw [ha, hx']
        exact .skip hturn
      · rw [hx']
        exact .sample hturn hen.2 hdet hkey
    · cases hst
  | configure s mem =>
    obtain ⟨h'', hc, heq⟩ := Option.map_eq_some_iff.1 hst
    obtain ⟨rfl, rfl⟩ := Prod.mk.inj heq
    exact .configure (configured hc)

/-! ### The invariant -/

/-- The window size that the settings give. -/
def sizeOf (redlineQps sampleRate : UInt64) :
    UInt64 := redlineQps * hotkeyTimeframe / 1000 / sampleRate

theorem toNat_sizeOf {redlineQps sampleRate : UInt64} (h : redlineQps.toNat < 2 ^ 32) :
    (sizeOf redlineQps sampleRate).toNat = redlineQps.toNat / sampleRate.toNat := by
  rw [sizeOf, UInt64.toNat_div, UInt64.toNat_div, UInt64.toNat_mul, show hotkeyTimeframe.toNat =
    1000 from rfl,
    show (1000 : UInt64).toNat = 1000 from rfl, Nat.mod_eq_of_lt (by omega),
        Nat.mul_div_cancel _ (by decide)]

/-- The invariant of the detector. -/
structure Sound (h : Hotkey) : Prop where
  /-- The sampling rate can be divided by. -/
  rate_pos : 0 < h.sampleRate.toNat
  /-- The redline is an `uint32_t`. -/
  redline_lt : h.redlineQps.toNat < 2 ^ 32
  /-- The redline is that of the settings. -/
  redline_eq : h.settings.redlineQps = h.redlineQps
  /-- The sampling rate is that of the settings. -/
  rate_eq : h.settings.sampleRate = h.sampleRate
  /-- The bandwidth threshold is that of the settings. -/
  bw_eq : h.settings.bwThreshold = h.bwThreshold
  /-- The size of the window. -/
  window : h.windowSize = sizeOf h.redlineQps h.sampleRate
  /-- The numerator. -/
  numerator : h.qpsNumerator = h.windowSize * h.sampleRate * 1000000
  /-- Nothing is sampled while `hotkey_realloc` is set. -/
  enabled : h.settings.enable = true → h.realloc = false
  /-- `hotkey_realloc` stays set after an allocation has failed. -/
  allocated : h.realloc = h.detector.isNone
  /-- The detector was set up for the window. -/
  good : ∀ d, h.detector = some d → d.Good ∧ d.max = h.windowSize

namespace Sound

theorem toNat_window (hs : h.Sound) :
    h.windowSize.toNat = h.redlineQps.toNat / h.sampleRate.toNat := by
  rw [hs.window, toNat_sizeOf hs.redline_lt]

theorem window_lt (hs : h.Sound) : h.windowSize.toNat < 2 ^ 32 :=
  hs.toNat_window ▸ Nat.lt_of_le_of_lt (Nat.div_le_self _ _) hs.redline_lt

theorem rate_ne (hs : h.Sound) :
    h.sampleRate ≠ 0 := fun hz => absurd (hz ▸ hs.rate_pos) (Nat.lt_irrefl _)

/-- While the detection is enabled there is a detector. -/
theorem exists_detector (hs : h.Sound) (hen : h.settings.enable = true) :
    ∃ d, h.detector = some d ∧ d.Good ∧ d.max = h.windowSize := by
  cases hdet : h.detector with
  | none =>
    have hall := hs.allocated
    rw [hdet, hs.enabled hen] at hall
    cases hall
  | some d => exact ⟨d, rfl, hs.good d hdet⟩

end Sound

/-- The detector at start-up. -/
theorem Starts.sound {o : HkOptions} (hst : Starts o h) : h.Sound := by
  obtain ⟨⟨clock, mem, rfl⟩, hall⟩ := hst
  have hrate : (UInt64.ofNat o.sampleRate).toNat = o.sampleRate := by
    have hlt := o.sampleRate_mem.2
    rw [UInt64.toNat_ofNat', Nat.mod_eq_of_lt (by omega)]
  have hredline : (UInt64.ofNat o.redlineQps).toNat = o.redlineQps := by
    have hlt := o.redlineQps_lt
    rw [UInt64.toNat_ofNat', Nat.mod_eq_of_lt (by omega)]
  constructor
  case rate_pos => exact hrate.symm ▸ o.sampleRate_mem.1
  case redline_lt => exact hredline.symm ▸ o.redlineQps_lt.trans (by decide)
  case enabled => exact fun _ => rfl
  case allocated =>
    rw [← Option.not_isSome, hall]
    rfl
  case good => exact fun d hd => Detector.good_init hd
  all_goals rfl

/-- The window and the table are set up again. -/
theorem sound_reallocate {mem : HkMemory} (hpos : 0 < h.sampleRate.toNat)
    (hlt : h.redlineQps.toNat < 2 ^ 32) (hredline : h.settings.redlineQps = h.redlineQps)
    (hrate : h.settings.sampleRate = h.sampleRate) (hbw : h.settings.bwThreshold = h.bwThreshold)
    (hen : h.settings.enable = false) : (h.reallocate mem).Sound where
  rate_pos := hpos
  redline_lt := hlt
  redline_eq := hredline
  rate_eq := hrate
  bw_eq := hbw
  window := rfl
  numerator := rfl
  enabled h' := absurd (hen.symm.trans h') (by decide)
  allocated := rfl
  good _ hd := Detector.good_init hd

theorem toNat_ofNat_of_lt {n : ℕ} (h : n < 2 ^ 32) : (UInt64.ofNat n).toNat = n := by
  rw [UInt64.toNat_ofNat', Nat.mod_eq_of_lt (by omega)]

/-- A command keeps the invariant. -/
theorem Sound.configure (hs : h.Sound) {s : Setting} {mem : HkMemory} (hc : Configured h mem s h') :
    h'.Sound := by
  cases hc with
  | enable hrealloc => exact { hs with enabled := fun _ => hrealloc }
  | disable => exact { hs with enabled := fun hen => nomatch hen }
  | sameRedline _ _ => exact hs
  | redline hen hlt _ =>
    exact sound_reallocate hs.rate_pos (by simpa only [toNat_ofNat_of_lt hlt] using hlt)
      rfl hs.rate_eq hs.bw_eq hen
  | sameSampleRate _ _ => exact hs
  | sampleRate hen hpos hlt _ =>
    exact sound_reallocate (by simpa only [toNat_ofNat_of_lt hlt] using hpos) hs.redline_lt
      hs.redline_eq rfl hs.bw_eq
      hen
  | sameQpsThreshold _ => exact hs
  | qpsThreshold _ _ => exact { hs with }
  | sameBwThreshold _ => exact hs
  | bwThreshold => exact { hs with bw_eq := rfl }

/-- Every step keeps the invariant. -/
theorem Sound.step (hs : h.Sound) {l : HkLabel} {r : Option HkAnswer}
    (hst : (hotkeyMachine hash).step h l = some (r, h')) : h'.Sound := by
  cases stepped hst with
  | timeUpdate _ => exact { hs with }
  | skip _ => exact { hs with }
  | @sample key nbyte d d' a _ _ hdet hkey =>
    obtain ⟨hgood, hmax⟩ := hs.good d hdet
    obtain ⟨-, e, map, -, hsam⟩ := sampleKey_sampled hgood (hmax ▸ hs.window_lt) hkey
    refine { hs with allocated := ?_, good := ?_ }
    · rw [hs.allocated, hdet]
      rfl
    · intro d'' hd''
      obtain rfl := Option.some.inj hd''
      obtain ⟨hgood', hmax'⟩ := hsam.good hgood.cap
      exact ⟨hgood', hmax'.trans hmax⟩
  | configure hc => exact hs.configure hc

/-- **The invariant holds in every run.** -/
theorem Sound.of_reaches {o : HkOptions} {h₀ : Hotkey} {C : Hotkey → HkLabel → Hotkey → Prop}
    (hst : Starts o h₀) (hr : (hotkeyMachine hash).Reaches C h₀ h) : h.Sound :=
  hr.invariant hst.sound fun _ _ _ _ hs hst _ => hs.step hst

/-! ### Samples do not go wrong -/

/-- The windows that the detector can work with: not empty, and in a table all of whose entries that
can be needed are reset. -/
def Workable (h : Hotkey) : Prop := 1 ≤ h.windowSize.toNat ∧ h.windowSize.toNat ≤ 2 ^ 31

/-- The windows that it cannot work with: empty ones, and those whose number of cells wraps. -/
def Broken (h : Hotkey) : Prop := h.windowSize.toNat = 0 ∨ h.windowSize.toNat = 2 ^ 32 - 1

theorem Sound.sample_ok (hs : h.Sound) (hen : h.settings.enable = true) (hw : h.Workable) :
    ∃ x, h.sample hash key vlen = .ok x := by
  by_cases hturn : (h.counter + 1) % h.sampleRate = 0
  · obtain ⟨d, hd, hgood, hmax⟩ := hs.exists_detector hen
    have hwf : d.Wf := hgood.wf (hmax ▸ hw.1) (hmax ▸ Nat.lt_of_le_of_lt hw.2 (by decide))
    obtain ⟨e, hlt, hempty⟩ := hwf.exists_empty (hmax ▸ hw.2)
    obtain ⟨e', map, hincr⟩ := KcMap.incr_ok hash key hlt hempty
    obtain ⟨a, d', hok, -⟩ := sampleKey_ok h vlen hwf hincr
    rw [sample_eq hs.rate_ne hturn hd, hok]
    exact ⟨_, rfl⟩
  · refine ⟨(.skipped, { h with counter := h.counter + 1 }), ?_⟩
    unfold Hotkey.sample
    simp only [umod, if_neg hs.rate_ne, bind, Except.bind, ne_eq, hturn, not_false_eq_true, if_true]
    rfl

theorem Sound.sample_error (hs : h.Sound) (hen : h.settings.enable = true) (hb : h.Broken)
    (hturn : (h.counter + 1) % h.sampleRate = 0) : ∃ f, h.sample hash key vlen = .error f := by
  cases hres : h.sample hash key vlen with
  | error f => exact ⟨f, rfl⟩
  | ok x =>
    obtain ⟨d, hd, hgood, hmax⟩ := hs.exists_detector hen
    rcases sample_cases hres with ⟨hne, -⟩ | ⟨d', d'', -, hd', hkey, -⟩
    · exact absurd hturn hne
    · obtain rfl := Option.some.inj (hd.symm.trans hd')
      have hwf := (sampleKey_sampled hgood (hmax ▸ hs.window_lt) hkey).1
      have hpos := Nat.zero_lt_of_lt hwf.room
      have hcells := hwf.queue.cells
      rw [Ring.cells, hwf.cap] at hcells
      rw [hmax] at hpos hcells
      rcases hb with hz | hz
      · exact absurd hz hpos.ne'
      · rw [hz] at hcells
        exact absurd hcells (by decide)

/-- **Samples do not go wrong** while the window has between `1` and `2 ^ 31` elements: nothing is
divided by zero, the window is not full on entry, push and pop succeed, and the loop of
`kc_map_incr` ends.  With an empty window, or one of `2 ^ 32 - 1` elements, each key that is sampled
goes wrong. -/
theorem samples_succeed (hash : Key → UInt32) (o : HkOptions) (h₀ h : Hotkey) (hst : Starts o h₀)
    (hr : (hotkeyMachine hash).Reaches Machine.Unguarded h₀ h) (hen : h.settings.enable = true) :
    (h.Workable → ∀ key vlen, ∃ x, h.sample hash key vlen = .ok x) ∧
      (h.Broken → (h.counter + 1) % h.sampleRate = 0 →
          ∀ key vlen, ∃ f, h.sample hash key vlen = .error f) := by
  have hs := Sound.of_reaches hst hr
  exact ⟨fun hw _ _ => hs.sample_ok hen hw, fun hb hturn _ _ => hs.sample_error hen hb hturn⟩

/-- Memory full of zeros. -/
def zeroMemory : HkMemory := ⟨true, true, fun _ => ⟨0, 0⟩, fun _ => ⟨[], 0, 0⟩⟩

/-- The options `-H -q 3 -Y 1`. -/
def oddOptions : HkOptions where
  enable := true
  redlineQps := 3
  sampleRate := 1
  sampleRate_mem := HkOptions.one_rate
  qpsThreshold_mem := HkOptions.default_qps
  bwThreshold_mem := HkOptions.default_bw

/-- A window of three elements. -/
theorem samples_succeed_three :
    ∃ x, (Hotkey.init oddOptions.settings ⟨2, 0, by decide⟩ zeroMemory).sample keyHash
        (ascii "k") 1 = .ok x :=
  (samples_succeed keyHash oddOptions _
    (Hotkey.init oddOptions.settings ⟨2, 0, by decide⟩ zeroMemory)
    ⟨⟨_, _, rfl⟩, rfl⟩ Relation.ReflTransGen.refl rfl).1 ⟨by decide +kernel, by decide +kernel⟩
      (ascii "k") 1

/-- The options `-H -q 1 -Y 2`. -/
def smallOptions : HkOptions where
  enable := true
  redlineQps := 1
  sampleRate := 2
  qpsThreshold_mem := HkOptions.default_qps
  bwThreshold_mem := HkOptions.default_bw

/-- One key sampled of two, at a redline of one get per second: the window is empty, and the second
get goes wrong. -/
theorem samples_small_window :
    ¬ ∀ (hash : Key → UInt32) (o : HkOptions) (h₀ h : Hotkey), Starts o h₀ →
    (hotkeyMachine hash).Reaches (fun _ l _ => l.Granted) h₀ h → h.settings.enable = true →
      ∀ key vlen, ∃ x, h.sample hash key vlen = .ok x := by
  intro hall
  let h₀ := Hotkey.init smallOptions.settings ⟨2, 0, by decide⟩ zeroMemory
  let h : Hotkey := { h₀ with counter := 1 }
  have hstep : (hotkeyMachine keyHash).step h₀ (.sample (ascii "k") 0) = some (some .skipped, h) :=
    rfl
  have hr : (hotkeyMachine keyHash).Reaches (fun _ l _ => l.Granted) h₀ h :=
    Relation.ReflTransGen.single ⟨_, _, hstep, trivial⟩
  have hst : Starts smallOptions h₀ := ⟨⟨_, _, rfl⟩, rfl⟩
  have hs : h.Sound := Sound.of_reaches hst hr
  obtain ⟨x, hx⟩ := hall keyHash smallOptions h₀ h hst hr rfl (ascii "k") 0
  obtain ⟨f, hf⟩ := hs.sample_error rfl
    (.inl (by decide +kernel)) (by decide +kernel)
  rw [hf] at hx
  cases hx

end Hotkey

end Twemcache
