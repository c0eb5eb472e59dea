import Twemcache.Server.Basic
import Twemcache.Store.Rewrite

/-!
# Deadlines

The expiry time of a storage command is a number of seconds from now, or a unix time if it is above
30 days. `time_reltime` makes it relative to the start of the server, in 32 unsigned bits of which 0
means never. `deadline_exact` says for which arguments `_item_get` refuses the item exactly when the
deadline is reached: those for which the relative time is positive, or a unix time before the start
of the server.  A negative number of seconds that reaches back to the start or further is not seen
to be in the past (`never_expires`).
-/

namespace Twemcache

/-- `TIME_MAXDELTA`, 30 days. -/
def timeMaxdelta : ℤ := 60 * 60 * 24 * 30

namespace Store

variable (cfg : Config) (s : Store)

/-- The unix time at which an item expires that is stored now with the argument `e`. -/
def deadline (e : ℤ) : ℤ := if e > timeMaxdelta then e else cfg.processStarted + s.now + e

/-- The low 32 bits of a time `d`, as an expiry time, are reached at `now` if and only if `d` is:
the time fits, or it has passed and the bits have been reached too, or neither has. -/
def TimeFits (d : ℤ) (now : ℕ) : Prop :=
  0 < d ∧ d < 2 ^ 32 ∨ d ≤ 0 ∧ 0 < d % 2 ^ 32 ∧ d % 2 ^ 32 ≤ now ∨
    2 ^ 32 ≤ d ∧ (d % 2 ^ 32 = 0 ∨ now < d % 2 ^ 32)

variable {cfg s} {t : Store} {p : ItemPtr} {key : Key} {e d : ℤ}

/-- An item that was not flushed is refused if it has expired. -/
theorem itemGet_eq_none_iff (hfind : t.assocFind cfg key = some p) (hfl : t.flushed p = false) :
    (t.itemGet cfg key).1 = none ↔ (t.items p).exptime ≠ 0 ∧ (t.items p).exptime ≤ t.now := by
  simp only [itemGet, hfind, hfl, expired, decide_eq_true_eq, Bool.false_eq_true, if_false]
  split_ifs with hexp
  · exact ⟨fun _ => hexp, fun _ => rfl⟩
  · exact ⟨fun h => (by cases h), fun h => absurd h hexp⟩

/-- The bits that are kept are reached when the time is if and only if it fits. -/
theorem timeFits_iff {now : ℕ} (hnow : now < 2 ^ 32) :
    (((d % 2 ^ 32).toNat ≠ 0 ∧ (d % 2 ^ 32).toNat ≤ now) ↔ d ≤ now) ↔ TimeFits d now := by
  have hlow : 0 ≤ d % 2 ^ 32 := Int.emod_nonneg _ (by decide)
  have hhigh : d % 2 ^ 32 < 2 ^ 32 := Int.emod_lt_of_pos _ (by decide)
  have hcast : ((d % 2 ^ 32).toNat : ℤ) = d % 2 ^ 32 := Int.toNat_of_nonneg hlow
  have hsame : 0 ≤ d → d < 2 ^ 32 → d % 2 ^ 32 = d := Int.emod_eq_of_lt
  have hkept : ((d % 2 ^ 32).toNat ≠ 0 ∧ (d % 2 ^ 32).toNat ≤ now) ↔ 0 < d % 2 ^ 32 ∧
      d % 2 ^ 32 ≤ now := by
    omega
  rw [hkept, TimeFits]
  generalize d % 2 ^ 32 = k at hlow hhigh hsame
  rcases lt_trichotomy d 0 with hneg | rfl | hpos
  · omega
  · omega
  · by_cases hfit : d < 2 ^ 32
    · obtain rfl := hsame hpos.le hfit
      omega
    · omega

/-- **An item is refused exactly when its deadline is reached**, if and only if its argument is 0,
or a unix time that is not after the start of the server, or the relative time of the deadline fits
into 32 bits and is not 0. -/
theorem deadline_exact (hnow : 2 ≤ s.now) (hle : s.now ≤ t.now) (ht : t.now < 2 ^ 32)
    (hfind : t.assocFind cfg key = some p) (hexp : (t.items p).exptime = s.timeReltime cfg e)
    (hfl : t.flushed p = false) :
    ((t.itemGet cfg key).1 = none ↔ e ≠ 0 ∧ s.deadline cfg e ≤ cfg.processStarted + t.now) ↔
      e = 0 ∨ e > timeMaxdelta ∧ e ≤ cfg.processStarted ∨
        TimeFits (s.deadline cfg e - cfg.processStarted) t.now := by
  rw [itemGet_eq_none_iff hfind hfl, hexp]
  by_cases hzero : e = 0
  · have hrel : s.timeReltime cfg e = 0 := by simp [timeReltime, hzero]
    rw [hrel]
    exact iff_of_true (iff_of_false (by simp) (by simp [hzero])) (.inl hzero)
  have hreached : e ≠ 0 ∧ s.deadline cfg e ≤ cfg.processStarted + t.now ↔
      s.deadline cfg e - cfg.processStarted ≤ t.now := by
    constructor
    · rintro ⟨-, h⟩
      omega
    · exact fun h => ⟨hzero, by omega⟩
  rw [hreached]
  by_cases habs : e > timeMaxdelta
  · have hdead : s.deadline cfg e = e := if_pos habs
    have hmax : e > 60 * 60 * 24 * 30 := habs
    rw [hdead]
    by_cases hpast : e ≤ cfg.processStarted
    · have hrel : s.timeReltime cfg e = 1 := by
        simp only [timeReltime, if_neg hzero, if_pos hmax, if_pos hpast]
      rw [hrel]
      exact iff_of_true (iff_of_true (by omega) (by omega)) (.inr (.inl ⟨habs, hpast⟩))
    · have hrel : s.timeReltime cfg e = ((e - cfg.processStarted) % 2 ^ 32).toNat := by
        simp only [timeReltime, if_neg hzero, if_pos hmax, if_neg hpast]
      rw [hrel, timeFits_iff ht]
      simp [hzero, hpast]
  · have hdead : s.deadline cfg e - cfg.processStarted = e + s.now := by
      rw [deadline, if_neg habs]
      omega
    have hmax : ¬ e > 60 * 60 * 24 * 30 := habs
    have hrel : s.timeReltime cfg e = ((e + s.now) % 2 ^ 32).toNat := by
      simp only [timeReltime, if_neg hzero, if_neg hmax]
    rw [hrel, hdead, timeFits_iff ht]
    simp [hzero, habs]

end Store

namespace Server

/-- An item is stored at time 100 with the argument `e`, and the clock runs on. -/
def expireRun (e : ℤ) : Server :=
  (server .tiny).exec (fun _ _ _ => true) (.tiny evictLru)
    [.tick 100,
      .alloc 0 [97] 0 ({ (Server.tiny evictLru).store with now := 100 }.timeReltime .tiny e) 1 {},
      .fill 0 0 [120, 13, 10], .set 0 {}, .tick 1000000]

end Server

namespace Store

/-- An item for 10 seconds is refused later. -/
theorem deadline_exact_ten : ((Server.expireRun 10).store.itemGet .tiny [97]).1 = none := by
  have hfind : (Server.expireRun 10).store.assocFind .tiny [97] = some ⟨0, 0⟩ := by decide +kernel
  have hexp : ((Server.expireRun 10).store.items ⟨0, 0⟩).exptime =
      { (Server.tiny evictLru).store with now := 100 }.timeReltime .tiny 10 := by decide +kernel
  have hfl : (Server.expireRun 10).store.flushed ⟨0, 0⟩ = false := by decide +kernel
  have hnow : (Server.expireRun 10).store.now = 1000000 := by decide +kernel
  generalize (Server.expireRun 10).store = t at hfind hexp hfl hnow ⊢
  have hiff := deadline_exact (s := { (Server.tiny evictLru).store with now := 100 }) (by decide)
    (by rw [hnow]; decide) (by rw [hnow]; decide) hfind hexp hfl
  have hfits : TimeFits ({ (Server.tiny evictLru).store with now := 100 }.deadline .tiny 10 -
      Config.tiny.processStarted) t.now := .inl (by decide +kernel)
  refine (hiff.2 (.inr (.inr hfits))).2 ⟨by decide, ?_⟩
  rw [hnow]
  decide +kernel

/-- An item that expires 100 seconds ago, when the server is 100 seconds old, never expires. -/
theorem never_expires : { (Server.tiny evictLru).store with now := 100 }.deadline .tiny (-100) ≤
      Config.tiny.processStarted + (Server.expireRun (-100)).store.now ∧
    ((Server.expireRun (-100)).store.itemGet .tiny [97]).1 = some ⟨0, 0⟩ := by
  decide +kernel

end Store

end Twemcache
