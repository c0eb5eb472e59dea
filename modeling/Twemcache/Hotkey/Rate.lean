import Twemcache.Hotkey.Ledger

/-!
# Rates and bandwidths

`hotkey_sample` puts together its time from two `uint32_t`, before it is widened: it is the true
time modulo `2 ^ 32` microseconds, a bit more than an hour.  The bandwidth is a product of four
factors in a `size_t`.

## Main results

* `Hotkey.rate_exact` : what is derived from a full window is exact if and only if the time has not
  wrapped since the oldest sample was taken, and the product fits.
* `Hotkey.rate_wraps` : a window that is filled in twenty microseconds, at the end of a block of `2
  ^ 32` microseconds.
-/

namespace Twemcache

namespace HkClock

/-- The time of a sample is the true time modulo `2 ^ 32`. -/
theorem toNat_curTime (c : HkClock) : c.curTime.toNat = c.micros % 2 ^ 32 := by
  have hlt := c.usec_lt
  rw [curTime, timeNow, timeNowUsec, micros, UInt32.toNat_toUInt64, UInt32.toNat_add,
    UInt32.toNat_mul,
    UInt32.toNat_ofNat', UInt32.toNat_ofNat', show (1000000 : UInt32).toNat = 1000000 from rfl]
  omega

end HkClock

namespace Hotkey

variable {h : Hotkey} {hash : Key → UInt32} {x y : Hotkey × List HkSample} {l : HkLabel}
  {r : Option HkAnswer}

/-- The times are in one block of `2 ^ 32` microseconds, or in blocks exactly `2 ^ 32` apart, of
which the difference in 64 bits makes up for the wrap. -/
def SameBlock (oldest present : ℕ) : Prop :=
  present / 2 ^ 32 = oldest / 2 ^ 32 ∨
    (present / 2 ^ 32 = oldest / 2 ^ 32 + 2 ^ 32 ∧ present % 2 ^ 32 < oldest % 2 ^ 32)

/-- What is derived is exact: the elapsed time is that of the clock, and the quotients are those of
integers. -/
structure Exact (rd : HkReading) (window rate elapsed count size : ℕ) : Prop where
  /-- `time_diff`, one if the times coincide. -/
  timeDiff : rd.timeDiff.toNat = max 1 elapsed
  /-- `qps`. -/
  qps : rd.qps.toNat = window * rate * 1000000 / max 1 elapsed
  /-- `bw`. -/
  bw : rd.bw.toNat = count * size * rate * 1000000 / max 1 elapsed

/-! ### Arithmetic -/

/-- A quotient does not show a wrap only if there is none. -/
theorem mod_div_eq_iff {n d : ℕ} (hpos : 0 < d) (hd : d < 2 ^ 64) :
    n % 2 ^ 64 / d = n / d ↔ n < 2 ^ 64 := by
  constructor
  · intro heq
    by_contra hge
    rw [not_lt] at hge
    -- the multiple of `2 ^ 64` that is lost would have added to the quotient
    have hle : n % 2 ^ 64 + d ≤ n := by
      have hmod := Nat.mod_add_div n (2 ^ 64)
      have hq : 1 ≤ n / 2 ^ 64 := (Nat.one_le_div_iff (by decide)).2 hge
      have hmul : 2 ^ 64 * 1 ≤ 2 ^ 64 * (n / 2 ^ 64) := Nat.mul_le_mul_left _ hq
      omega
    have hquot : (n % 2 ^ 64 + d) / d ≤ n / d := Nat.div_le_div_right hle
    rw [Nat.add_div_right _ hpos, heq] at hquot
    exact absurd hquot (Nat.not_succ_le_self _)
  · intro hlt
    rw [Nat.mod_eq_of_lt hlt]

theorem toNat_timeDiffOf {a b : UInt64} : (timeDiffOf a b).toNat = max 1 (a - b).toNat := by
  rw [timeDiffOf]
  split
  · rename_i hpos
    have hlt : 0 < (a - b).toNat := UInt64.lt_iff_toNat_lt.1 hpos
    rw [Nat.max_eq_right hlt]
  · rename_i hpos
    have hle : ¬ 0 < (a - b).toNat := fun hlt => hpos (UInt64.lt_iff_toNat_lt.2 hlt)
    rw [Nat.max_eq_left (by omega), UInt64.toNat_one]

/-- The elapsed time is right if the blocks are. -/
theorem elapsed_iff {oldest present : ℕ} (hle : oldest ≤ present) :
    max 1 ((2 ^ 64 - oldest % 2 ^ 32 + present % 2 ^ 32) % 2 ^ 64) = max 1 (present - oldest) ↔
      SameBlock oldest present := by
  unfold SameBlock
  omega

theorem toNat_bandwidth (count size rate : UInt64) : (count * size * rate * 1000000).toNat =
    count.toNat * size.toNat * rate.toNat * 1000000 % 2 ^ 64 := by
  simp only [UInt64.toNat_mul, Nat.mod_mul_mod, show (1000000 : UInt64).toNat = 1000000 from rfl]

theorem Sound.toNat_numerator (hs : h.Sound) :
    h.qpsNumerator.toNat = h.windowSize.toNat * h.sampleRate.toNat * 1000000 := by
  have hle : h.windowSize.toNat * h.sampleRate.toNat ≤ h.redlineQps.toNat := by
    rw [hs.toNat_window]
    exact Nat.div_mul_le_self _ _
  have hlt := hs.redline_lt
  rw [hs.numerator, UInt64.toNat_mul, UInt64.toNat_mul, show (1000000 : UInt64).toNat =
    1000000 from rfl, Nat.mod_mul_mod, Nat.mod_eq_of_lt (by omega)]

/-- The three parts of an exact reading. -/
theorem exact_readingOf {count oldest size : UInt64} {window rate elapsed c n : ℕ} :
    Exact (h.readingOf count oldest size) window rate elapsed c n ↔
      (timeDiffOf h.clock.curTime oldest).toNat = max 1 elapsed ∧
      (h.qpsNumerator / timeDiffOf h.clock.curTime oldest).toNat = window * rate * 1000000 /
        max 1 elapsed ∧
      (count * size * h.sampleRate * 1000000 / timeDiffOf h.clock.curTime oldest).toNat =
        c * n * rate * 1000000 / max 1 elapsed := by
  rw [readingOf_eq]
  exact ⟨fun hex => ⟨hex.timeDiff, hex.qps, hex.bw⟩, fun hex => ⟨hex.1, hex.2.1, hex.2.2⟩⟩

/-- **A reading is exact** if and only if the time has not wrapped and the product fits. -/
theorem Sound.reading_exact (hs : h.Sound) (count size : UInt64) {oldest : UInt64} {t : ℕ}
    (ht : oldest.toNat = t % 2 ^ 32) (hle : t ≤ h.clock.micros) :
    Exact (h.readingOf count oldest size) h.windowSize.toNat h.sampleRate.toNat
        (h.clock.micros - t) count.toNat
        size.toNat ↔
      SameBlock t h.clock.micros ∧ count.toNat * size.toNat * h.sampleRate.toNat *
          1000000 < 2 ^ 64 := by
  have htd : (timeDiffOf h.clock.curTime oldest).toNat =
      max 1 ((2 ^ 64 - t % 2 ^ 32 + h.clock.micros % 2 ^ 32) % 2 ^ 64) := by
    rw [toNat_timeDiffOf, UInt64.toNat_sub, ht, h.clock.toNat_curTime]
  have hblock := elapsed_iff hle
  rw [← htd] at hblock
  rw [exact_readingOf, ← hblock]
  generalize timeDiffOf h.clock.curTime oldest = td
  refine and_congr_right fun heq => ?_
  have hpos : 0 < td.toNat := heq ▸ Nat.le_max_left 1 _
  rw [UInt64.toNat_div, UInt64.toNat_div, hs.toNat_numerator, toNat_bandwidth, ← heq,
    mod_div_eq_iff hpos td.toNat_lt]
  exact and_iff_right rfl

/-! ### Runs -/

/-- The invariant of the times: the window has those of the record, modulo `2 ^ 32`. -/
structure Timed (x : Hotkey × List HkSample) : Prop where
  /-- The invariant of the detector. -/
  sound : x.1.Sound
  /-- The times in the window. -/
  times : ∀ d, x.1.detector = some d →
    d.queue.elems.map (fun k => k.timestampUs.toNat) = x.2.map fun s => s.time % 2 ^ 32
  /-- No sample is of the future. -/
  past : ∀ s ∈ x.2, s.time ≤ x.1.clock.micros

theorem Timed.past_pushed (hx : Timed x) (key : Key) :
    ∀ s ∈ pushed x key, s.time ≤ x.1.clock.micros := by
  intro s hs
  rcases List.mem_append.1 hs with hs | hs
  · exact hx.past s hs
  · rw [List.mem_singleton.1 hs]

/-- The window and the record after a push. -/
theorem Timed.times_pushed (hx : Timed x) {d : Detector} (hdet : x.1.detector = some d) (key : Key)
    (e : ℕ) :
    (d.queue.elems ++ [(⟨e, x.1.clock.curTime⟩ : KwEntry)]).map (fun k => k.timestampUs.toNat) =
      (pushed x key).map fun s => s.time % 2 ^ 32 := by
  rw [pushed, List.map_append, List.map_append, hx.times d hdet, List.map_singleton,
    List.map_singleton, HkClock.toNat_curTime]

theorem Timed.length_pushed (hx : Timed x) {d : Detector} (hdet : x.1.detector = some d)
    (key : Key) :
    (pushed x key).length = d.queue.nelem + 1 := by
  have hlen := congrArg List.length (hx.times d hdet)
  rw [List.length_map, List.length_map, Ring.length_elems] at hlen
  rw [pushed, List.length_append, List.length_singleton, hlen]

/-- Every step keeps the invariant. -/
theorem Timed.step (hx : Timed x) (hst : (recordingMachine hash).step x l = some (r, y)) :
    Timed y := by
  have hs := sound_step hx.sound hst
  cases trace_of_step hx.sound hst with
  | quiet hdet hg hclock _ =>
    refine ⟨hs, fun d hd => ?_, fun s hs' => ?_⟩
    · rw [hg]
      exact hx.times d (hdet ▸ hd)
    · exact (hx.past s (hg ▸ hs')).trans hclock
  | reset size hdet hg hclock =>
    refine ⟨hs, fun d hd => ?_, fun s hs' => by rw [hg] at hs'; cases hs'⟩
    obtain rfl := Detector.init_eq_some (hdet.symm.trans hd)
    rw [hg, Ring.elems_create]
    rfl
  | @sampled key nbyte d d' e map a _ _ hdet _ hmax _ hsam hdet' hclock hg =>
    have hpast := hx.past_pushed key
    have htimes := hx.times_pushed hdet key e
    have hlen := hx.length_pushed hdet key
    rw [slide, hlen, ← hmax] at hg
    cases hsam with
    | filling _ _ _ _ helems hlt =>
      rw [if_neg hlt.ne] at hg
      refine ⟨hs, fun d'' hd'' => ?_, fun s hs' => ?_⟩
      · obtain rfl := Option.some.inj (hdet'.symm.trans hd'')
        rw [helems, hg, htimes]
      · rw [hclock]
        exact hpast s (hg ▸ hs')
    | @full _ k ks s _ _ _ _ hall helems heq =>
      rw [if_pos heq] at hg
      rw [hall, List.map_cons] at htimes
      refine ⟨hs, fun d'' hd'' => ?_, fun s hs' => ?_⟩
      · obtain rfl := Option.some.inj (hdet'.symm.trans hd'')
        rw [helems, hg, List.map_tail, ← htimes, List.tail_cons]
      · rw [hclock]
        exact hpast s (List.mem_of_mem_tail (hg ▸ hs'))

theorem Timed.of_reaches {o : HkOptions} {h₀ : Hotkey} (hst : Starts o h₀)
    (hr : (recordingMachine hash).Reaches Machine.Unguarded (h₀, []) x) : Timed x := by
  refine hr.invariant (I := Timed) ⟨hst.sound, fun d hd => ?_, fun s hs => nomatch hs⟩
      fun _ _ _ _ hx hstep _ =>
    hx.step hstep
  obtain ⟨⟨clock, mem, rfl⟩, -⟩ := hst
  obtain rfl := Detector.init_eq_some hd
  rw [Ring.elems_create]
  rfl

/-- **Rates and bandwidths are exact** if and only if the oldest sample of the window and the
present one were taken in the same block of `2 ^ 32` microseconds, and the product of the four
factors of the bandwidth is less than `2 ^ 64`. -/
theorem rate_exact (hash : Key → UInt32) (o : HkOptions) (h₀ : Hotkey)
    (x y : Hotkey × List HkSample) (key : Key) (nbyte : UInt32) (s : HkSignal) (count : UInt64)
    (rd : HkReading) (hst : Starts o h₀)
    (hr : (recordingMachine hash).Reaches Machine.Unguarded (h₀, []) x)
    (hstep : (recordingMachine hash).step x (.sample key nbyte) =
      some (some ⟨s, some count, some rd⟩, y)) :
    let oldest := (x.2.headD ⟨key, x.1.clock.micros⟩).time
    let present := x.1.clock.micros
    let size := key.length + nbyte.toNat
    Exact rd x.1.windowSize.toNat x.1.sampleRate.toNat (present - oldest) count.toNat size ↔
      SameBlock oldest present ∧ count.toNat * size * x.1.sampleRate.toNat * 1000000 < 2 ^ 64 := by
  have hx := Timed.of_reaches hst hr
  cases trace_of_step hx.sound hstep with
  | quiet _ _ _ hnone => cases hnone _ rfl
  | @sampled _ _ d d' e map a _ hlen hdet _ _ _ hsam _ _ _ =>
    cases hsam with
    | @full _ k ks s _ _ _ _ hall _ _ =>
      have htimes := hx.times_pushed hdet key e
      have hpast := hx.past_pushed key
      rw [hall, List.map_cons] at htimes
      have hsize : (UInt64.ofNat key.length + nbyte.toUInt64).toNat = key.length + nbyte.toNat := by
        have hlt := nbyte.toNat_lt
        rw [maxKeyLen] at hlen
        rw [UInt64.toNat_add, UInt64.toNat_ofNat', UInt32.toNat_toUInt64,
          Nat.mod_eq_of_lt (by omega), Nat.mod_eq_of_lt (by omega)]
      have hhead : (pushed x key).head? = some (x.2.headD ⟨key, x.1.clock.micros⟩) := by
        rw [pushed]
        cases x.2 <;> rfl
      have hmem := hpast _ (List.mem_of_head? hhead)
      have holdest : k.timestampUs.toNat = (x.2.headD ⟨key, x.1.clock.micros⟩).time % 2 ^ 32 := by
        have hmap := congrArg List.head? htimes
        rw [List.head?_cons, List.head?_map, hhead] at hmap
        exact Option.some.inj hmap
      have hexact :=
        hx.sound.reading_exact (map.table e).count (.ofNat key.length + nbyte.toUInt64) holdest hmem
      rw [hsize] at hexact
      exact hexact

/-- The options `-H -q 2 -Y 1`. -/
def twoOptions : HkOptions where
  enable := true
  redlineQps := 2
  sampleRate := 1
  sampleRate_mem := HkOptions.one_rate
  qpsThreshold_mem := HkOptions.default_qps
  bwThreshold_mem := HkOptions.default_bw

/-- The detector at start-up, `usec` microseconds after second 4294. -/
def twoStart (usec : ℕ) (hlt : usec < 1000000) :
    Hotkey := init twoOptions.settings ⟨4294, usec, hlt⟩ zeroMemory

/-- A get, and twenty microseconds later the clock is read. -/
def twoLabels (usec : ℕ) (hlt : usec + 20 < 1000000) : List HkLabel :=
  [.sample (ascii "k") 10, .timeUpdate ⟨4294, usec + 20, hlt⟩]

/-- The state after that. -/
def twoRun (usec : ℕ) (hlt : usec + 20 < 1000000) : Hotkey × List HkSample :=
  (recordingMachine keyHash).exec (fun _ _ _ => true) (twoStart usec (by omega), [])
    (twoLabels usec hlt)

/-- A window of two elements that is filled in twenty microseconds. -/
theorem rate_exact_twenty :
    Exact ⟨20, 100000, 1100000⟩ (twoRun 0 (by decide)).1.windowSize.toNat
      (twoRun 0 (by decide)).1.sampleRate.toNat
      ((twoRun 0 (by decide)).1.clock.micros - ((twoRun 0 (by decide)).2.headD
        ⟨ascii "k", (twoRun 0 (by decide)).1.clock.micros⟩).time)
      (2 : UInt64).toNat ((ascii "k").length + (10 : UInt32).toNat) := by
  have hr : (recordingMachine keyHash).Reaches (fun _ _ _ => true = true)
      (twoStart 0 (by decide), [])
      (twoRun 0 (by decide)) := Machine.reaches_exec (by decide +kernel)
  have hans :
      ((recordingMachine keyHash).step (twoRun 0 (by decide)) (.sample (ascii "k") 10)).map
      Prod.fst =
      some (some ⟨.qps, some 2, some ⟨20, 100000, 1100000⟩⟩) := by decide +kernel
  obtain ⟨⟨a, y⟩, hstep, ha⟩ := Option.map_eq_some_iff.1 hans
  obtain rfl : a = _ := ha
  exact (rate_exact keyHash twoOptions (twoStart 0 (by decide)) (twoRun 0 (by decide)) y
    (ascii "k") 10 .qps 2
    ⟨20, 100000, 1100000⟩ ⟨⟨_, _, rfl⟩, rfl⟩ (hr.mono fun _ _ _ _ => trivial) hstep).2
    ⟨.inl (by decide +kernel), by decide +kernel⟩

/-- The same window, but the end of a block comes six microseconds after the first get. -/
theorem rate_wraps :
    ¬ ∀ (hash : Key → UInt32) (o : HkOptions) (h₀ : Hotkey) (x y : Hotkey × List HkSample)
      (key : Key)
    (nbyte : UInt32) (s : HkSignal) (count : UInt64) (rd : HkReading), Starts o h₀ →
    (recordingMachine hash).Reaches Machine.Unguarded (h₀, []) x →
    (recordingMachine hash).step x (.sample key nbyte) = some (some ⟨s, some count, some rd⟩, y) →
      Exact rd x.1.windowSize.toNat x.1.sampleRate.toNat
        (x.1.clock.micros - (x.2.headD ⟨key, x.1.clock.micros⟩).time) count.toNat
            (key.length + nbyte.toNat) := by
  intro hall
  have hr : (recordingMachine keyHash).Reaches (fun _ _ _ => true = true)
      (twoStart 967290 (by decide), [])
      (twoRun 967290 (by decide)) := Machine.reaches_exec (by decide +kernel)
  have hans :
      ((recordingMachine keyHash).step (twoRun 967290 (by decide)) (.sample (ascii "k") 10)).map
      Prod.fst =
      some (some ⟨.none, some 2, some ⟨18446744069414584340, 0, 0⟩⟩) := by decide +kernel
  obtain ⟨⟨a, y⟩, hstep, ha⟩ := Option.map_eq_some_iff.1 hans
  obtain rfl : a = _ := ha
  have hexact := hall keyHash twoOptions (twoStart 967290 (by decide)) (twoRun 967290 (by decide)) y
    (ascii "k") 10
    .none 2 ⟨18446744069414584340, 0, 0⟩ ⟨⟨_, _, rfl⟩, rfl⟩ (hr.mono fun _ _ _ _ => trivial) hstep
  have htime : (twoRun 967290 (by decide)).1.clock.micros - ((twoRun 967290 (by decide)).2.headD
      ⟨ascii "k", (twoRun 967290 (by decide)).1.clock.micros⟩).time = 20 := by decide +kernel
  have htd := hexact.timeDiff
  rw [htime] at htd
  exact absurd htd (by decide)

end Hotkey

end Twemcache
