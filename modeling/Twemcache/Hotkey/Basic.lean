import Twemcache.Ascii.Request
import Twemcache.Hash.Basic
import Twemcache.Machine.Basic
import Twemcache.Probing.Basic
import Twemcache.Ring.Basic
import Mathlib.Algebra.Order.Floor.Ring
import Mathlib.Data.Rat.Floor

/-!
# Hot keys

One in every `hotkey_sample_rate` gets is sampled.  The samples are kept in a sliding window
(`mc_key_window.c`), and how often each key is in the window is counted in a hash table with open
addressing (`mc_kc_map.c`).  Whenever the window is full its oldest sample is taken out, and the
rate of gets and the bandwidth of the key are estimated from the time that it took to fill the
window (`mc_hotkey.c`).

## Main definitions

* `KcMap.incr`, `KcMap.decr` : the counters.
* `keyWindowPush`, `keyWindowPop` : the window.
* `Hotkey.sample` : `hotkey_sample`.
* `Hotkey.init`, `Hotkey.configure` : `hotkey_init`, and the functions behind `config hotkey`.
* `hotkeyMachine` : the detector, with the labels `HkLabel`.

The function `hash` is a parameter; it depends on the bytes of the key only (`hash_of_bytes`), and
`keyHash` is that of a little-endian build.  An `ASSERT` is a failure (`HkFault`).  The statistics
(`hotkey_sampled`, `hotkey_qps`, `hotkey_bw`) are left out.
-/

namespace Twemcache

/-- `MAX_KEY_LEN`. -/
def maxKeyLen : ℕ := 255

/-- `hash(key, klen, 0)`. -/
def keyHash (key : Key) : UInt32 := hashLittle false (fun i => key.getD i 0) 0 key.length 0

/-! ### The counters -/

/-- `struct kc_map_entry`. -/
structure KcEntry where
  /-- `key`, an array of `MAX_KEY_LEN` bytes. -/
  key : List UInt8
  /-- `klen`. -/
  klen : ℕ
  /-- `count`. -/
  count : UInt64
  deriving DecidableEq, Repr

/-- The table of `mc_kc_map.c`.  Its `table_nkey` is never changed. -/
structure KcMap where
  /-- `table_size`. -/
  size : ℕ
  /-- `table`. -/
  table : ℕ → KcEntry

/-- What goes wrong in `hotkey_sample`. -/
inductive HkFault where
  /-- A division by zero. -/
  | divByZero
  /-- The loop of `kc_map_incr` has no end. -/
  | endlessLoop
  /-- `ASSERT(!key_window_full())`. -/
  | windowFull
  /-- `ASSERT(status == MC_OK)` in `key_window_push` and in `key_window_pop`. -/
  | ring (e : RingError)
  /-- The window or the table is not there, since an allocation has failed. -/
  | notAllocated
  deriving DecidableEq, Repr

/-- `kc_map_entry_reset`. -/
def kcMapEntryReset (kcme : KcEntry) : KcEntry := { kcme with klen := 0, count := 0 }

/-- `strncmp(a, b, n) == 0` for arrays of at least `n` bytes: they agree up to the end, or up to a
zero byte. -/
def strncmpEq : List UInt8 → List UInt8 → ℕ → Bool
  | a :: as, b :: bs, n + 1 => a == b && (a == 0 || strncmpEq as bs n)
  | _, _, _ => true

/-- `kc_map_match`. -/
def kcMapMatch (kcme : KcEntry) (key : Key) : Bool :=
  kcme.count == 0 || (kcme.klen == key.length && strncmpEq kcme.key key key.length)

/-- `memcpy(dst, src, n)` for `n` the length of `src`. -/
def memcpy (dst src : List UInt8) : List UInt8 := src ++ dst.drop src.length

/-- What `kc_map_incr` does to the entry that it has found. -/
def KcEntry.incr (kcme : KcEntry) (key : Key) : KcEntry :=
  if kcme.count = 0 then ⟨memcpy kcme.key key, key.length, 1⟩ else
    { kcme with count := kcme.count + 1 }

/-- What `kc_map_decr` does to its entry. -/
def KcEntry.decr (kcme : KcEntry) : KcEntry :=
  if kcme.count = 1 then kcMapEntryReset kcme else { kcme with count := kcme.count - 1 }

namespace KcMap

/-- `kc_map_init` on memory that holds `entries`.  The index of its loop is an `int`, so that no
entries are reset from `2 ^ 31` on. -/
def init (size : UInt64) (entries : ℕ → KcEntry) : KcMap where
  size := (2 * size).toNat
  table i := if i < 2 ^ 31 then kcMapEntryReset (entries i) else entries i

/-- The loop of `kc_map_incr`; `none` if it has no end. -/
def probe (hash : Key → UInt32) (m : KcMap) (key : Key) : Option ℕ :=
  Probing.find m.size (fun i => kcMapMatch (m.table i) key) m.size ((hash key).toNat % m.size)

/-- `kc_map_incr`. -/
def incr (hash : Key → UInt32) (m : KcMap) (key : Key) : Except HkFault (ℕ × KcMap) :=
  if m.size = 0 then .error .divByZero
  else match m.probe hash key with
    | none => .error .endlessLoop
    | some i => .ok (i, { m with table := Function.update m.table i ((m.table i).incr key) })

/-- `kc_map_decr`. -/
def decr (m : KcMap) (i : ℕ) :
    KcMap := { m with table := Function.update m.table i (m.table i).decr }

end KcMap

/-! ### The window -/

/-- `struct kw_entry`. -/
structure KwEntry where
  /-- `kcme`. -/
  kcme : ℕ
  /-- `timestamp_us`. -/
  timestampUs : UInt64
  deriving DecidableEq, Repr

/-- What `_hotkey_realloc` sets up: the state of `mc_key_window.c` and that of `mc_kc_map.c`. -/
structure Detector where
  /-- `key_window_size`. -/
  size : UInt64
  /-- `key_window_max`. -/
  max : UInt64
  /-- `queue`. -/
  queue : Ring KwEntry
  /-- The counters. -/
  map : KcMap

/-- What the allocator answers to `ring_array_create` and to `kc_map_init`. -/
structure HkMemory where
  /-- There is memory for the window. -/
  ring : Bool
  /-- There is memory for the table. -/
  table : Bool
  /-- What the memory for the window holds. -/
  cells : ℕ → KwEntry
  /-- What the memory for the table holds. -/
  entries : ℕ → KcEntry

/-- `key_window_init` and `kc_map_init`; `none` if an allocation fails. -/
def Detector.init (size : UInt64) (mem : HkMemory) : Option Detector :=
  if mem.ring ∧ mem.table then
    some ⟨0, size, .create size.toUInt32 mem.cells, .init size mem.entries⟩
  else none

/-- A fault of the ring. -/
def liftRing {α : Type} : Except RingError α → Except HkFault α
  | .ok a => .ok a
  | .error .divByZero => .error .divByZero
  | .error e => .error (.ring e)

/-- `key_window_push`. -/
def keyWindowPush (hash : Key → UInt32) (d : Detector) (key : Key) (time : UInt64) :
    Except HkFault (UInt64 × Detector) := do
  let (kcme, map) ← d.map.incr hash key
  let queue ← liftRing (d.queue.push ⟨kcme, time⟩)
  return ((map.table kcme).count, { d with size := d.size + 1, queue := queue, map := map })

/-- `key_window_pop`. -/
def keyWindowPop (d : Detector) : Except HkFault (UInt64 × Detector) := do
  let (kwe, queue) ← liftRing d.queue.pop
  return (kwe.timestampUs,
    { d with size := d.size - 1, queue := queue, map := d.map.decr kwe.kcme })

/-- `key_window_full`. -/
def keyWindowFull (d : Detector) : Bool := d.size == d.max

/-! ### The detector -/

/-- The settings that `mc_hotkey.c` reads. -/
structure HkSettings where
  /-- `settings.hotkey_enable`. -/
  enable : Bool
  /-- `settings.hotkey_redline_qps`. -/
  redlineQps : UInt64
  /-- `settings.hotkey_sample_rate`. -/
  sampleRate : UInt64
  /-- `settings.hotkey_qps_threshold`. -/
  qpsThreshold : ℚ
  /-- `settings.hotkey_bw_threshold`. -/
  bwThreshold : UInt64
  deriving DecidableEq, Repr

/-- What `time_update` has read from the clock last. -/
structure HkClock where
  /-- The seconds since the start of the process. -/
  sec : ℕ
  /-- The microseconds of the current second. -/
  usec : ℕ
  /-- A second has a million microseconds. -/
  usec_lt : usec < 1000000
  deriving DecidableEq, Repr

namespace HkClock

/-- `time_now`. -/
def timeNow (c : HkClock) : UInt32 := .ofNat c.sec

/-- `time_now_usec`. -/
def timeNowUsec (c : HkClock) : UInt32 := .ofNat c.usec

/-- The microseconds since the start of the process. -/
def micros (c : HkClock) : ℕ := c.sec * 1000000 + c.usec

/-- `cur_time` of `hotkey_sample`. -/
def curTime (c : HkClock) : UInt64 := (c.timeNow * 1000000 + c.timeNowUsec).toUInt64

end HkClock

/-- The state of `mc_hotkey.c`. -/
structure Hotkey where
  /-- The settings. -/
  settings : HkSettings
  /-- `hotkey_realloc`. -/
  realloc : Bool
  /-- `hotkey_counter`. -/
  counter : UInt64
  /-- `hotkey_redline_qps`. -/
  redlineQps : UInt64
  /-- `hotkey_sample_rate`. -/
  sampleRate : UInt64
  /-- `hotkey_window_size`. -/
  windowSize : UInt64
  /-- `hotkey_threshold`. -/
  threshold : UInt64
  /-- `hotkey_bw_threshold`. -/
  bwThreshold : UInt64
  /-- `hotkey_qps_numerator`. -/
  qpsNumerator : UInt64
  /-- The window and the table, `none` after an allocation has failed. -/
  detector : Option Detector
  /-- The clock. -/
  clock : HkClock

/-- `ITEM_HOT_QPS`, `ITEM_HOT_BW`, or neither. -/
inductive HkSignal where
  | none
  | qps
  | bw
  deriving DecidableEq, Repr

/-- What is derived from a full window. -/
structure HkReading where
  /-- `time_diff`. -/
  timeDiff : UInt64
  /-- `qps`. -/
  qps : UInt64
  /-- `bw`. -/
  bw : UInt64
  deriving DecidableEq, Repr

/-- What `hotkey_sample` returns, and what it has found on the way. -/
structure HkAnswer where
  /-- The flag returned. -/
  signal : HkSignal
  /-- `count`, if the key was sampled. -/
  count : Option UInt64
  /-- What was derived, if the window was full. -/
  reading : Option HkReading
  deriving DecidableEq, Repr

/-- The key was not sampled. -/
def HkAnswer.skipped : HkAnswer := ⟨.none, none, none⟩

/-- `a / b`. -/
def udiv (a b : UInt64) : Except HkFault UInt64 := if b = 0 then .error .divByZero else .ok (a / b)

/-- `a % b`. -/
def umod (a b : UInt64) : Except HkFault UInt64 := if b = 0 then .error .divByZero else .ok (a % b)

/-- `time_diff`. -/
def timeDiffOf (curTime oldestTime : UInt64) : UInt64 :=
  if curTime - oldestTime > 0 then curTime - oldestTime else 1

/-- `hotkey_timeframe`. -/
def hotkeyTimeframe : UInt64 := 1000

/-- `(size_t)(qps_threshold * window_size)`. -/
def hotkeyThreshold (qpsThreshold : ℚ) (windowSize : UInt64) : UInt64 :=
  .ofNat ⌊qpsThreshold * windowSize.toNat⌋.toNat

namespace Hotkey

/-- `_get_bandwidth`. -/
def getBandwidth (h : Hotkey) (count size usec : UInt64) : Except HkFault UInt64 :=
  udiv (count * size * h.sampleRate * 1000000) usec

/-- The signal that `hotkey_sample` gives. -/
def signal (h : Hotkey) (count qps bw : UInt64) : HkSignal :=
  if qps ≥ h.redlineQps ∧ count ≥ h.threshold then .qps
  else if bw ≥ h.bwThreshold then .bw
  else .none

/-- The rates that `hotkey_sample` derives. -/
def read (h : Hotkey) (count size timeDiff : UInt64) : Except HkFault HkReading := do
  let qps ← udiv h.qpsNumerator timeDiff
  let bw ← h.getBandwidth count size timeDiff
  return ⟨timeDiff, qps, bw⟩

/-- The part of `hotkey_sample` for a full window. -/
def readFull (h : Hotkey) (d : Detector) (key : Key) (vlen count : UInt64) :
    Except HkFault (HkAnswer × Detector) := do
  let (oldestTime, d) ← keyWindowPop d
  let rd ← h.read count (.ofNat key.length + vlen) (timeDiffOf h.clock.curTime oldestTime)
  return (⟨h.signal count rd.qps rd.bw, some count, some rd⟩, d)

/-- The part of `hotkey_sample` for a key that is sampled. -/
def sampleKey (hash : Key → UInt32) (h : Hotkey) (d : Detector) (key : Key) (vlen : UInt64) :
    Except HkFault (HkAnswer × Detector) := do
  if keyWindowFull d then throw .windowFull
  let (count, d) ← keyWindowPush hash d key h.clock.curTime
  if keyWindowFull d then h.readFull d key vlen count else return (⟨.none, some count, none⟩, d)

/-- `hotkey_sample`. -/
def sample (hash : Key → UInt32) (h : Hotkey) (key : Key) (vlen : UInt64) :
    Except HkFault (HkAnswer × Hotkey) := do
  let h := { h with counter := h.counter + 1 }
  let r ← umod h.counter h.sampleRate
  if r ≠ 0 then return (.skipped, h)
  match h.detector with
  | none => throw .notAllocated
  | some d =>
    let (a, d) ← h.sampleKey hash d key vlen
    return (a, { h with detector := some d })

/-- `hotkey_init`. -/
def init (settings : HkSettings) (clock : HkClock) (mem : HkMemory) : Hotkey :=
  let windowSize := settings.redlineQps * hotkeyTimeframe / 1000 / settings.sampleRate
  { settings := settings
    realloc := false
    counter := 0
    redlineQps := settings.redlineQps
    sampleRate := settings.sampleRate
    windowSize := windowSize
    threshold := hotkeyThreshold settings.qpsThreshold windowSize
    bwThreshold := settings.bwThreshold
    qpsNumerator := windowSize * settings.sampleRate * 1000000
    detector := Detector.init windowSize mem
    clock := clock }

/-- `_hotkey_realloc`, with the changes of `hotkey_realloc` around it. -/
def reallocate (h : Hotkey) (mem : HkMemory) : Hotkey :=
  let windowSize := h.redlineQps * hotkeyTimeframe / 1000 / h.sampleRate
  let detector := Detector.init windowSize mem
  { h with
    windowSize := windowSize
    qpsNumerator := windowSize * h.sampleRate * 1000000
    detector := detector
    realloc := detector.isNone }

/-- `hotkey_update_redline`. -/
def updateRedline (h : Hotkey) (redline : UInt64) (mem : HkMemory) : Hotkey :=
  if h.redlineQps = redline then h
  else reallocate { h with redlineQps := redline, settings.redlineQps := redline } mem

/-- `hotkey_update_sample_rate`. -/
def updateSampleRate (h : Hotkey) (sampleRate : UInt64) (mem : HkMemory) : Hotkey :=
  if h.sampleRate = sampleRate then h
  else reallocate { h with sampleRate := sampleRate, settings.sampleRate := sampleRate } mem

/-- `hotkey_update_qps_threshold`. -/
def updateQpsThreshold (h : Hotkey) (qpsThreshold : ℚ) : Hotkey :=
  if h.settings.qpsThreshold = qpsThreshold then h
  else
    { h with
      settings.qpsThreshold := qpsThreshold
      threshold := hotkeyThreshold qpsThreshold h.windowSize }

/-- `hotkey_update_bw_threshold`. -/
def updateBwThreshold (h : Hotkey) (bwThreshold : UInt64) : Hotkey :=
  if h.settings.bwThreshold = bwThreshold then h
  else { h with settings.bwThreshold := bwThreshold, bwThreshold := bwThreshold }

/-- An accepted `config hotkey` command; `none` if it is refused. -/
def configure (h : Hotkey) (mem : HkMemory) : Setting → Option Hotkey
  | .hkEnable true => if h.realloc then none else some { h with settings.enable := true }
  | .hkEnable false => some { h with settings.enable := false }
  | .hkRedline qps =>
    if h.settings.enable ∨ qps = 0 ∨
      2 ^ 32 ≤ qps then none else some (h.updateRedline (.ofNat qps) mem)
  | .hkSampleRate rate =>
    if h.settings.enable ∨ rate = 0 ∨
      2 ^ 32 ≤ rate then none else some (h.updateSampleRate (.ofNat rate) mem)
  | .hkQpsThreshold threshold =>
    if 0 < threshold ∧ threshold ≤ 1 then some (h.updateQpsThreshold threshold) else none
  | .hkBwThreshold threshold => if threshold < 2 ^ 32 then some
      (h.updateBwThreshold (.ofNat threshold)) else none
  | _ => none

end Hotkey

/-- The options `-H`, `-q`, `-Y`, `-T` and `-j`, as `mc_get_options` accepts them. -/
structure HkOptions where
  /-- `-H`. -/
  enable : Bool := false
  /-- `-q`. -/
  redlineQps : ℕ := 80000
  /-- `-Y`. -/
  sampleRate : ℕ := 100
  /-- `-T`. -/
  qpsThreshold : ℚ := 1 / 100
  /-- `-j`. -/
  bwThreshold : ℕ := 200000
  /-- `-q` is an `int` that is not negative. -/
  redlineQps_lt : redlineQps < 2 ^ 31 := by decide
  /-- `-Y` is an `int` that is positive. -/
  sampleRate_mem : 0 < sampleRate ∧ sampleRate < 2 ^ 31 := by decide
  /-- `-T` is a number between 0 and 1. -/
  qpsThreshold_mem : 0 < qpsThreshold ∧ qpsThreshold ≤ 1 := by decide +kernel
  /-- `-j` is an `int` that is positive. -/
  bwThreshold_mem : 0 < bwThreshold ∧ bwThreshold < 2 ^ 31 := by decide

theorem HkOptions.one_rate : 0 < 1 ∧ 1 < 2 ^ 31 := by decide

theorem HkOptions.default_redline : 80000 < 2 ^ 31 := by decide

theorem HkOptions.default_rate : 0 < 100 ∧ 100 < 2 ^ 31 := by decide

theorem HkOptions.default_qps : (0 : ℚ) < 1 / 100 ∧ (1 / 100 : ℚ) ≤ 1 := by decide +kernel

theorem HkOptions.default_bw : 0 < 200000 ∧ 200000 < 2 ^ 31 := by decide

theorem HkClock.zero_usec : 0 < 1000000 := by decide

/-- The settings at start-up. -/
def HkOptions.settings (o : HkOptions) : HkSettings :=
  ⟨o.enable, .ofNat o.redlineQps, .ofNat o.sampleRate, o.qpsThreshold, .ofNat o.bwThreshold⟩

/-- The detector at start-up; the server does not start if `hotkey_init` fails. -/
structure Hotkey.Starts (o : HkOptions) (h : Hotkey) : Prop where
  /-- The state that `hotkey_init` leaves behind. -/
  init : ∃ clock mem, h = Hotkey.init o.settings clock mem
  /-- Its allocations have succeeded. -/
  allocated : h.detector.isSome = true

/-- What happens to the detector. -/
inductive HkLabel where
  /-- `time_update`. -/
  | timeUpdate (c : HkClock)
  /-- `hotkey_sample`, as `item_get` calls it for the item that it has found. -/
  | sample (key : Key) (nbyte : UInt32)
  /-- A `config hotkey` command. -/
  | configure (s : Setting) (mem : HkMemory)

/-- The allocations of the step succeed. -/
def HkLabel.Granted : HkLabel → Prop
  | .configure _ mem => mem.ring = true ∧ mem.table = true
  | _ => True

/-- The detector.  `item_get` samples while the detection is enabled; a sample that goes wrong has
no next state.  The time does not go back. -/
def hotkeyMachine (hash : Key → UInt32) : Machine Hotkey HkLabel (Option HkAnswer) where
  step h
    | .timeUpdate c => if h.clock.micros ≤ c.micros then some
        (none, { h with clock := c }) else none
    | .sample key nbyte =>
      if h.settings.enable ∧ key.length ≤ maxKeyLen then
        (h.sample hash key nbyte.toUInt64).toOption.map fun x => (some x.1, x.2)
      else none
    | .configure s mem => (h.configure mem s).map fun h' => (none, h')

end Twemcache
