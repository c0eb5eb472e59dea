import Twemcache.Hotkey.Detector
import Mathlib.Tactic.Linarith
import Mathlib.Tactic.Positivity

/-!
# The derived parameters

`hotkey_init` derives the size of the window, the numerator of the rate and the thresholds from the
settings. `_hotkey_realloc` derives the size of the window and the numerator anew, and leaves
`hotkey_threshold`, a share of the window, as it is.

## Main results

* `Hotkey.derived_exact` : the parameters are those of `hotkey_init` as long as no change of the
  window changes its share.
* `Hotkey.derived_stale` : after a change of the redline they are not.
-/

namespace Twemcache

namespace Hotkey

variable {h h' : Hotkey} {hash : Key → UInt32} {q : ℚ} {w w' : UInt64} {l : HkLabel}
  {r : Option HkAnswer}

/-- The derived parameters are those that `hotkey_init` computes from the current settings. -/
def Agrees (h : Hotkey) : Prop :=
  ∀ clock mem, h.windowSize = (init h.settings clock mem).windowSize ∧
    h.qpsNumerator = (init h.settings clock mem).qpsNumerator ∧
    h.threshold = (init h.settings clock mem).threshold ∧
    h.bwThreshold = (init h.settings clock mem).bwThreshold

/-- The share of the window that a threshold stands for. -/
def shareOf (q : ℚ) (redlineQps sampleRate : ℕ) : ℤ := ⌊q * (redlineQps / sampleRate : ℕ)⌋

/-- The step does not change the share of the window that the threshold stands for. -/
def KeepsShare (h : Hotkey) : HkLabel → Prop
  | .configure (.hkRedline qps) _ =>
    shareOf h.settings.qpsThreshold qps h.settings.sampleRate.toNat =
      shareOf h.settings.qpsThreshold h.settings.redlineQps.toNat h.settings.sampleRate.toNat
  | .configure (.hkSampleRate rate) _ =>
    shareOf h.settings.qpsThreshold h.settings.redlineQps.toNat rate =
      shareOf h.settings.qpsThreshold h.settings.redlineQps.toNat h.settings.sampleRate.toNat
  | _ => True

/-! ### Thresholds -/

theorem toNat_hotkeyThreshold (h0 : 0 < q) (h1 : q ≤ 1) :
    ((hotkeyThreshold q w).toNat : ℤ) = ⌊q * w.toNat⌋ := by
  have hnonneg : 0 ≤ ⌊q * w.toNat⌋ := Int.floor_nonneg.2 (by positivity)
  have hle : ⌊q * w.toNat⌋ ≤ w.toNat := by
    have hmul : q * w.toNat ≤ w.toNat := mul_le_of_le_one_left (Nat.cast_nonneg _) h1
    exact_mod_cast (Int.floor_le _).trans hmul
  have hlt := w.toNat_lt
  rw [hotkeyThreshold, UInt64.toNat_ofNat', Nat.mod_eq_of_lt (by omega),
    Int.toNat_of_nonneg hnonneg]

/-- Thresholds are equal if the shares are. -/
theorem hotkeyThreshold_inj (h0 : 0 < q) (h1 : q ≤ 1) :
    hotkeyThreshold q w = hotkeyThreshold q w' ↔ ⌊q * w.toNat⌋ = ⌊q * w'.toNat⌋ := by
  rw [← toNat_hotkeyThreshold h0 h1, ← toNat_hotkeyThreshold h0 h1, Int.natCast_inj,
    UInt64.toNat_inj]

/-- What is derived is right if the threshold is. -/
theorem Sound.agrees_iff (hs : h.Sound) :
    h.Agrees ↔ h.threshold = hotkeyThreshold h.settings.qpsThreshold h.windowSize := by
  have hwindow : h.windowSize = sizeOf h.settings.redlineQps h.settings.sampleRate := by
    rw [hs.redline_eq, hs.rate_eq, hs.window]
  have hnumerator : h.qpsNumerator = h.windowSize * h.settings.sampleRate * 1000000 := by
    rw [hs.rate_eq, hs.numerator]
  constructor
  · intro hag
    obtain ⟨-, -, hth, -⟩ := hag h.clock zeroMemory
    rw [hth, hwindow]
    rfl
  · intro hth clock mem
    refine ⟨hwindow, ?_, ?_, hs.bw_eq.symm⟩
    · rw [hnumerator, hwindow]
      rfl
    · rw [hth, hwindow]
      rfl

/-! ### Steps -/

/-- The invariant of the threshold. -/
structure Shared (h : Hotkey) : Prop extends h.Sound where
  /-- The threshold is a share. -/
  pos : 0 < h.settings.qpsThreshold
  /-- The share is no more than the whole. -/
  le_one : h.settings.qpsThreshold ≤ 1

theorem Starts.shared {o : HkOptions} (hst : Starts o h) : h.Shared := by
  have hs := hst.sound
  obtain ⟨⟨clock, mem, rfl⟩, -⟩ := hst
  exact ⟨hs, o.qpsThreshold_mem.1, o.qpsThreshold_mem.2⟩

theorem Starts.agrees {o : HkOptions} (hst : Starts o h) : h.Agrees := by
  have hs := hst.sound
  rw [hs.agrees_iff]
  obtain ⟨⟨clock, mem, rfl⟩, -⟩ := hst
  rfl

/-- The parts of the state that the threshold depends on are unchanged. -/
def SameShare (h h' : Hotkey) : Prop :=
  h'.settings.qpsThreshold = h.settings.qpsThreshold ∧ h'.windowSize = h.windowSize ∧
    h'.threshold = h.threshold

theorem SameShare.agrees (hsame : SameShare h h') (hs : h.Sound) (hs' : h'.Sound) :
    h'.Agrees ↔ h.Agrees := by
  rw [hs.agrees_iff, hs'.agrees_iff, hsame.1, hsame.2.1, hsame.2.2]

/-- What a step does to the threshold and to what it depends on. -/
inductive ShareStep (h h' : Hotkey) : HkLabel → Prop
  /-- Nothing, and the window is not to change. -/
  | same {l : HkLabel} (hsame : SameShare h h') (hkeeps : h.KeepsShare l) : ShareStep h h' l
  /-- The redline is changed. -/
  | redline {qps : ℕ} {mem : HkMemory} (hlt : qps < 2 ^ 32)
      (hq : h'.settings.qpsThreshold = h.settings.qpsThreshold)
      (hth : h'.threshold = h.threshold) (hw : h'.windowSize = sizeOf (.ofNat qps) h.sampleRate) :
      ShareStep h h' (.configure (.hkRedline qps) mem)
  /-- The sampling rate is changed. -/
  | sampleRate {rate : ℕ} {mem : HkMemory} (hlt : rate < 2 ^ 32)
      (hq : h'.settings.qpsThreshold = h.settings.qpsThreshold) (hth : h'.threshold = h.threshold)
      (hw : h'.windowSize = sizeOf h.redlineQps (.ofNat rate)) : ShareStep h h'
        (.configure (.hkSampleRate rate) mem)
  /-- The share is changed, and the threshold with it. -/
  | threshold {q : ℚ} {mem : HkMemory} (h0 : 0 < q) (h1 : q ≤ 1) (hq : h'.settings.qpsThreshold = q)
      (hth : h'.threshold = hotkeyThreshold q h'.windowSize) : ShareStep h h'
        (.configure (.hkQpsThreshold q) mem)

theorem shareStep_of_step (hs : h.Sound) (hst : (hotkeyMachine hash).step h l = some (r, h')) :
    ShareStep h h' l := by
  cases stepped hst with
  | timeUpdate _ => exact .same ⟨rfl, rfl, rfl⟩ trivial
  | skip _ => exact .same ⟨rfl, rfl, rfl⟩ trivial
  | sample _ _ _ _ => exact .same ⟨rfl, rfl, rfl⟩ trivial
  | configure hc =>
    cases hc with
    | enable _ => exact .same ⟨rfl, rfl, rfl⟩ trivial
    | disable => exact .same ⟨rfl, rfl, rfl⟩ trivial
    | sameRedline hlt heq =>
      refine .same ⟨rfl, rfl, rfl⟩ ?_
      rw [KeepsShare, hs.redline_eq, heq, toNat_ofNat_of_lt hlt]
    | redline _ hlt _ => exact .redline hlt rfl rfl rfl
    | sameSampleRate hlt heq =>
      refine .same ⟨rfl, rfl, rfl⟩ ?_
      rw [KeepsShare, hs.rate_eq, heq, toNat_ofNat_of_lt hlt]
    | sampleRate _ _ hlt _ => exact .sampleRate hlt rfl rfl rfl
    | sameQpsThreshold _ => exact .same ⟨rfl, rfl, rfl⟩ trivial
    | qpsThreshold h0 h1 => exact .threshold h0 h1 rfl rfl
    | sameBwThreshold _ => exact .same ⟨rfl, rfl, rfl⟩ trivial
    | bwThreshold => exact .same ⟨rfl, rfl, rfl⟩ trivial

/-- The threshold of a window of another size. -/
theorem Shared.agrees_window (hsh : h.Shared) (hs' : h'.Sound) (hag : h.Agrees)
    (hq : h'.settings.qpsThreshold = h.settings.qpsThreshold) (hth : h'.threshold = h.threshold) :
    h'.Agrees ↔ ⌊h.settings.qpsThreshold * h'.windowSize.toNat⌋ = ⌊h.settings.qpsThreshold *
        h.windowSize.toNat⌋ := by
  rw [hs'.agrees_iff, hq, hth, hsh.agrees_iff.1 hag, hotkeyThreshold_inj hsh.pos hsh.le_one,
    eq_comm]

/-- **A step** keeps what is derived right exactly if it does not change the share. -/
theorem Shared.step (hsh : h.Shared) (hst : (hotkeyMachine hash).step h l = some (r, h'))
    (hag : h.Agrees) :
    h'.Shared ∧ (h'.Agrees ↔ h.KeepsShare l) := by
  have hs' := hsh.toSound.step hst
  cases shareStep_of_step hsh.toSound hst with
  | same hsame hkeeps =>
    exact ⟨⟨hs', hsame.1 ▸ hsh.pos, hsame.1 ▸ hsh.le_one⟩,
      iff_of_true ((hsame.agrees hsh.toSound hs').2 hag) hkeeps⟩
  | @redline qps mem hlt hq hth hw =>
    refine ⟨⟨hs', hq ▸ hsh.pos, hq ▸ hsh.le_one⟩, ?_⟩
    have hnat := toNat_ofNat_of_lt hlt
    have hsize : (sizeOf (.ofNat qps) h.sampleRate).toNat = qps / h.sampleRate.toNat := by
      rw [toNat_sizeOf (hnat.trans_lt hlt), hnat]
    rw [hsh.agrees_window hs' hag hq hth, KeepsShare, shareOf, shareOf, hsh.rate_eq,
      hsh.redline_eq, hw, hsize, hsh.toNat_window]
  | @sampleRate rate mem hlt hq hth hw =>
    refine ⟨⟨hs', hq ▸ hsh.pos, hq ▸ hsh.le_one⟩, ?_⟩
    have hsize : (sizeOf h.redlineQps (.ofNat rate)).toNat = h.redlineQps.toNat / rate := by
      rw [toNat_sizeOf hsh.redline_lt, toNat_ofNat_of_lt hlt]
    rw [hsh.agrees_window hs' hag hq hth, KeepsShare, shareOf, shareOf, hsh.rate_eq,
      hsh.redline_eq, hw, hsize, hsh.toNat_window]
  | threshold h0 h1 hq hth =>
    refine ⟨⟨hs', hq ▸ h0, hq ▸ h1⟩, iff_of_true ?_ trivial⟩
    rw [hs'.agrees_iff, hq, hth]

/-- **The derived parameters** are those of `hotkey_init` in every run in which no command changes
the share of the window that the threshold stands for; a command that changes it leaves them wrong.
-/
theorem derived_exact (hash : Key → UInt32) (o : HkOptions) (h₀ h : Hotkey) (hst : Starts o h₀)
    (hr : (hotkeyMachine hash).Reaches (fun h l _ => h.KeepsShare l) h₀ h) :
    h.Agrees ∧ ∀ l r h', (hotkeyMachine hash).step h l = some (r, h') →
        (h'.Agrees ↔ h.KeepsShare l) := by
  have hinv : h.Shared ∧ h.Agrees := by
    refine hr.invariant (I := fun h => h.Shared ∧ h.Agrees) ⟨hst.shared, hst.agrees⟩ ?_
    intro h l r h' hh hstep hkeeps
    obtain ⟨hsh, hiff⟩ := hh.1.step hstep hh.2
    exact ⟨hsh, hiff.2 hkeeps⟩
  exact ⟨hinv.2, fun l r h' hstep => (hinv.1.step hstep hinv.2).2⟩

/-- The detector with the default settings. -/
def defaultHotkey : Hotkey :=
  let options : HkOptions := {
    redlineQps_lt := HkOptions.default_redline
    sampleRate_mem := HkOptions.default_rate
    qpsThreshold_mem := HkOptions.default_qps
    bwThreshold_mem := HkOptions.default_bw }
  init options.settings ⟨2, 0, HkClock.zero_usec⟩ zeroMemory

/-- `config hotkey redline 80050`: the window keeps its eight hundred elements. -/
theorem derived_exact_default :
    ((defaultHotkey.configure zeroMemory (.hkRedline 80050)).getD defaultHotkey).Agrees := by
  have hstep :
      (hotkeyMachine keyHash).step defaultHotkey (.configure (.hkRedline 80050) zeroMemory) =
      some (none, (defaultHotkey.configure zeroMemory (.hkRedline 80050)).getD defaultHotkey) := rfl
  have hkeeps : defaultHotkey.KeepsShare (.configure (.hkRedline 80050) zeroMemory) := by
    rw [KeepsShare]
    decide +kernel
  exact (derived_exact keyHash {} defaultHotkey _ ⟨⟨_, _, rfl⟩, rfl⟩
    (Relation.ReflTransGen.single ⟨_, _, hstep, hkeeps⟩)).1

/-- `config hotkey redline 160000`: the window has twice as many elements, and the threshold is
still eight. -/
theorem derived_stale : ¬ ∀ (hash : Key → UInt32) (o : HkOptions) (h₀ h : Hotkey), Starts o h₀ →
    (hotkeyMachine hash).Reaches (fun _ l _ => l.Granted) h₀ h → h.Agrees := by
  intro hall
  have hstep :
      (hotkeyMachine keyHash).step defaultHotkey (.configure (.hkRedline 160000) zeroMemory) =
      some (none, (defaultHotkey.configure zeroMemory (.hkRedline 160000)).getD defaultHotkey) :=
        rfl
  have hag := hall keyHash {} defaultHotkey _ ⟨⟨_, _, rfl⟩, rfl⟩
    (Relation.ReflTransGen.single ⟨_, _, hstep, rfl, rfl⟩)
  have hth := (hag ⟨2, 0, by decide⟩ zeroMemory).2.2.1
  revert hth
  decide +kernel

end Hotkey

end Twemcache
