import Twemcache.Hotkey.Detector

/-!
# The samples in the window

What is in the sliding window, written down apart from the program's own data: the keys sampled
since the window was set up, but only the last of them, one less than the window has elements.

## Main definitions

* `Hotkey.record` : how the record is kept.
* `Hotkey.Trace` : what a step does to the detector and to the record.
-/

namespace Twemcache

/-- A sample that was taken. -/
structure HkSample where
  /-- The key. -/
  key : Key
  /-- The time at which it was taken, in microseconds. -/
  time : ℕ
  deriving DecidableEq, Repr

namespace Hotkey

variable {hash : Key → UInt32} {x y : Hotkey × List HkSample} {l : HkLabel} {r : Option HkAnswer}

/-- A window of `n` elements loses its oldest sample once it is full. -/
def slide (n : ℕ) (g : List HkSample) : List HkSample := if g.length = n then g.tail else g

/-- The record of the samples in the window, the oldest first. -/
def record (h : Hotkey) (l : HkLabel) (h' : Hotkey) (g : List HkSample) : List HkSample :=
  match l with
  | .timeUpdate _ => g
  | .sample key _ =>
    if (h.counter + 1) % h.sampleRate = 0 then slide h.windowSize.toNat
      (g ++ [⟨key, h.clock.micros⟩]) else g
  | .configure _ _ => if h'.redlineQps = h.redlineQps ∧ h'.sampleRate = h.sampleRate then g else []

/-- The detector with the record of its window. -/
def recordingMachine (hash : Key → UInt32) :
    Machine (Hotkey × List HkSample) HkLabel (Option HkAnswer) :=
  (hotkeyMachine hash).traced record

/-- The record after a push. -/
def pushed (x : Hotkey × List HkSample) (key : Key) :
    List HkSample := x.2 ++ [⟨key, x.1.clock.micros⟩]

/-- What a step does to the detector and to the record. -/
inductive Trace (hash : Key → UInt32) (x y : Hotkey × List HkSample) :
    HkLabel → Option HkAnswer → Prop
  /-- No key is sampled, and the window stays. -/
  | quiet {l : HkLabel} {r : Option HkAnswer} (hdet : y.1.detector = x.1.detector) (hg : y.2 = x.2)
      (hclock : x.1.clock.micros ≤ y.1.clock.micros) (hnone : ∀ a, r = some a → a = .skipped) :
        Trace hash x y l r
  /-- The window is set up anew. -/
  | reset {s : Setting} {mem : HkMemory} (size : UInt64)
      (hdet : y.1.detector = Detector.init size mem)
      (hg : y.2 = []) (hclock : y.1.clock = x.1.clock) : Trace hash x y (.configure s mem) none
  /-- A key is sampled. -/
  | sampled {key : Key} {nbyte : UInt32} {d d' : Detector} {e : ℕ} {map : KcMap} {a : HkAnswer}
      (hturn : (x.1.counter + 1) % x.1.sampleRate = 0) (hlen : key.length ≤ maxKeyLen)
      (hdet : x.1.detector = some d) (hwf : d.Wf) (hmax : d.max = x.1.windowSize)
      (hincr : d.map.incr hash key = .ok (e, map))
        (hsam : Sampled x.1 d key nbyte.toUInt64 e map a d')
      (hdet' : y.1.detector = some d') (hclock : y.1.clock = x.1.clock)
      (hg : y.2 = slide x.1.windowSize.toNat (pushed x key)) :
      Trace hash x y (.sample key nbyte) (some a)

/-- **The cases of a step.** -/
theorem trace_of_step (hs : x.1.Sound) (hst : (recordingMachine hash).step x l = some (r, y)) :
    Trace hash x y l r := by
  obtain ⟨hst, hg⟩ := Machine.traced_step hst
  generalize hy : y.1 = h' at hst hg
  cases stepped hst with
  | timeUpdate hle => exact .quiet (by rw [hy]) hg (by rw [hy]; exact hle) fun _ ha => nomatch ha
  | skip hturn =>
    refine .quiet (by rw [hy]) (hg.trans (if_neg hturn)) (by rw [hy]) fun a ha =>
      (Option.some.inj ha).symm
  | @sample key nbyte d d' a hturn hlen hdet hkey =>
    obtain ⟨hgood, hmax⟩ := hs.good d hdet
    obtain ⟨hwf, e, map, hincr, hsam⟩ := sampleKey_sampled hgood (hmax ▸ hs.window_lt) hkey
    exact .sampled hturn hlen hdet hwf hmax hincr hsam (by rw [hy]) (by rw [hy])
      (hg.trans (if_pos hturn))
  | configure hc =>
    cases hc with
    | redline _ _ hne =>
      exact .reset _ (by rw [hy]; rfl) (hg.trans (if_neg fun heq => hne heq.1.symm))
        (by rw [hy]; rfl)
    | sampleRate _ _ _ hne =>
      exact .reset _ (by rw [hy]; rfl) (hg.trans (if_neg fun heq => hne heq.2.symm))
        (by rw [hy]; rfl)
    | _ =>
      exact .quiet (by rw [hy]) (hg.trans (if_pos ⟨rfl, rfl⟩)) (by rw [hy]) fun _ ha => nomatch ha

/-- The invariant of the detector, in a run with a record. -/
theorem sound_step (hs : x.1.Sound) (hst : (recordingMachine hash).step x l = some (r, y)) :
    y.1.Sound :=
  hs.step (Machine.traced_step hst).1

end Hotkey

end Twemcache
