import Mathlib.Data.Nat.Notation
import Mathlib.Tactic.SplitIfs

/-!
# Words

A line is a list of words that are separated by one or more occurrences of a separator, which may
also stand before the first word and after the last one.

## Main definitions

* `words sep line` : the words of a line.
-/

namespace Twemcache

variable {α : Type*} [DecidableEq α]

/-- The words of a line. -/
def words (sep : α) (line : List α) : List (List α) := (line.splitOn sep).filter (· ≠ [])

variable {sep : α} {line w : List α}

@[simp] theorem words_nil : words sep ([] : List α) = [] := by
  simp [words, List.splitOn_eq_splitOnP, List.splitOnP_nil]

@[simp] theorem words_sep_cons : words sep (sep :: line) = words sep line := by
  simp [words, List.splitOn_eq_splitOnP, List.splitOnP_cons_eq_if_modifyHead]

/-- A word up to the end of the line. -/
theorem words_self (hw : w ≠ []) (hsep : sep ∉ w) : words sep w = [w] := by
  have hfree : ∀ x ∈ w, (x == sep) = false := fun x hx => beq_false_of_ne fun h => hsep (h ▸ hx)
  simp [words, List.splitOn_eq_splitOnP, List.splitOnP_eq_singleton hfree, hw]

/-- A word up to a separator. -/
theorem words_append (hw : w ≠ []) (hsep : sep ∉ w) :
    words sep (w ++ sep :: line) = w :: words sep line := by
  have hfree : ∀ x ∈ w, (x == sep) = false := fun x hx => beq_false_of_ne fun h => hsep (h ▸ hx)
  simp [words, List.splitOn_eq_splitOnP,
    List.splitOnP_append_cons_of_forall_mem hfree sep (by simp), hw]

theorem ne_nil_of_mem_words (h : w ∈ words sep line) : w ≠ [] := by
  simpa using (List.mem_filter.1 h).2

/-- What is not a separator belongs to a word. -/
theorem exists_mem_words {b : α} (hb : b ∈ line) (hsep : b ≠ sep) :
    ∃ w ∈ words sep line, b ∈ w := by
  suffices h : ∃ w ∈ line.splitOn sep, b ∈ w by
    obtain ⟨w, hw, hmem⟩ := h
    exact ⟨w, List.mem_filter.2 ⟨hw, by simpa using List.ne_nil_of_mem hmem⟩, hmem⟩
  simp only [List.splitOn_eq_splitOnP]
  induction line with
  | nil => cases hb
  | cons a line ih =>
    rw [List.splitOnP_cons_eq_if_modifyHead]
    rcases List.mem_cons.1 hb with rfl | hb
    · rw [if_neg (by simpa using hsep)]
      cases hl : line.splitOnP (· == sep) with
      | nil => exact absurd hl (List.splitOnP_ne_nil _ _)
      | cons p ps => exact ⟨b :: p, by simp, by simp⟩
    · obtain ⟨w, hw, hmem⟩ := ih hb
      split_ifs
      · exact ⟨w, List.mem_cons_of_mem _ hw, hmem⟩
      · cases hl : line.splitOnP (· == sep) with
        | nil => exact absurd hl (List.splitOnP_ne_nil _ _)
        | cons p ps =>
          rw [hl] at hw
          rcases List.mem_cons.1 hw with rfl | hw
          · exact ⟨a :: w, by simp, List.mem_cons_of_mem _ hmem⟩
          · exact ⟨w, by simp [hw], hmem⟩

end Twemcache
