import Mathlib.Data.Nat.Notation
import Mathlib.Tactic.Common

/-!
# Linear probing

A table of `size` cells is searched from a cell on, going round the end, for the first cell that is
accepted.  The search is given as many steps as there are cells: it changes nothing, so one that has
gone round finds nothing.
-/

namespace Twemcache

namespace Probing

variable {size : ℕ} {p : ℕ → Bool} {fuel i j : ℕ}

/-- The first cell from `i` on that `p` accepts, in `fuel` steps. -/
def find (size : ℕ) (p : ℕ → Bool) : ℕ → ℕ → Option ℕ
  | 0, _ => none
  | fuel + 1, i => if p i then some i else find size p fuel ((i + 1) % size)

/-- What is found is the first cell that is accepted. -/
theorem find_some (hi : i < size) (h : find size p fuel i = some j) :
    ∃ n < fuel, j = (i + n) % size ∧ p j = true ∧ ∀ n' < n, p ((i + n') % size) = false := by
  induction fuel generalizing i with
  | zero => cases h
  | succ fuel ih =>
    rw [find] at h
    split at h
    · rename_i hp
      obtain rfl := Option.some.inj h
      exact ⟨0, Nat.succ_pos _, (Nat.mod_eq_of_lt hi).symm, hp,
        fun n' hn' => absurd hn' (Nat.not_lt_zero _)⟩
    · rename_i hp
      obtain ⟨n, hn, hj, hpj, hfirst⟩ := ih (Nat.mod_lt _ (Nat.zero_lt_of_lt hi)) h
      refine ⟨n + 1, Nat.succ_lt_succ hn, ?_, hpj, fun n' hn' => ?_⟩
      · rw [hj, Nat.mod_add_mod, Nat.add_assoc, Nat.add_comm 1]
      · cases n' with
        | zero => simpa [Nat.mod_eq_of_lt hi] using hp
        | succ n' =>
          have hne := hfirst n' (Nat.lt_of_succ_lt_succ hn')
          rwa [Nat.mod_add_mod, Nat.add_assoc, Nat.add_comm 1] at hne

/-- If nothing is found, no cell passed is accepted. -/
theorem find_none (hi : i < size) (h : find size p fuel i = none) :
    ∀ n < fuel, p ((i + n) % size) = false := by
  induction fuel generalizing i with
  | zero => exact fun n hn => absurd hn (Nat.not_lt_zero _)
  | succ fuel ih =>
    rw [find] at h
    split at h
    · cases h
    · rename_i hp
      intro n hn
      cases n with
      | zero => simpa [Nat.mod_eq_of_lt hi] using hp
      | succ n =>
        have hne := ih (Nat.mod_lt _ (Nat.zero_lt_of_lt hi)) h n (Nat.lt_of_succ_lt_succ hn)
        rwa [Nat.mod_add_mod, Nat.add_assoc, Nat.add_comm 1] at hne

/-- Every cell is passed on the way round. -/
theorem exists_add_mod (hi : i < size) (hj : j < size) : ∃ n < size, (i + n) % size = j := by
  rcases Nat.lt_or_ge j i with hlt | hge
  · refine ⟨j + size - i, by omega, ?_⟩
    rw [show i + (j + size - i) = j + size by omega, Nat.add_mod_right, Nat.mod_eq_of_lt hj]
  · exact ⟨j - i, by omega, by rw [Nat.add_sub_cancel' hge, Nat.mod_eq_of_lt hj]⟩

/-- **The search ends** at a cell that is accepted, if there is one. -/
theorem exists_find (hi : i < size) (hj : j < size) (hp : p j = true) :
    ∃ k, find size p size i = some k := by
  cases hfind : find size p size i with
  | some k => exact ⟨k, rfl⟩
  | none =>
    obtain ⟨n, hn, rfl⟩ := exists_add_mod hi hj
    exact absurd (find_none hi hfind n hn) (by simp [hp])

end Probing

end Twemcache
