import Mathlib.Data.List.Infix

/-!
# Cutting a stream into pieces

A receiver cuts a stream into pieces: its *mode* says what it expects, and as soon as enough has
been received the first piece is cut off and there is a next mode.  What has been received may be
any prefix of the stream, so a piece must not depend on what comes behind it.  Then it does not
matter how the stream arrives: what has been cut off after one part of the stream is a prefix of
what is cut off after a longer part.

## Main definitions

* `Framer M α P` : a receiver with modes `M`, of streams over `α`, that cuts pieces `P`.
* `Framer.Cuts` : several pieces are cut off one after another.

## Main results

* `Framer.Cuts.append` : what comes behind does not matter.
* `Framer.Cuts.split` : pieces can be cut off in two goes.
* `Framer.Cuts.prefix_or` : two lists of pieces of one stream, one goes on where the other ends.
* `Framer.Cuts.of_stuck` : who cannot cut another piece has cut off all there are.
-/

namespace Twemcache

/-- A receiver: in the mode `m`, the first piece of what was received, the next mode and the rest;
`none` if more has to be received. -/
structure Framer (M α P : Type*) where
  /-- Cut off a piece. -/
  cut : M → List α → Option (P × M × List α)
  /-- A piece does not depend on what comes behind it. -/
  cut_append : ∀ {m s p m' r}, cut m s = some (p, m', r) →
    ∀ t, cut m (s ++ t) = some (p, m', r ++ t)

namespace Framer

variable {M α P : Type*} (F : Framer M α P)

/-- The pieces `ps` are cut off one after another, which takes the receiver from mode `m` to `m'`,
and leaves `r` of the stream. -/
inductive Cuts : M → List α → List P → M → List α → Prop
  | nil (m : M) (s : List α) : Cuts m s [] m s
  | cons {m m' m'' : M} {s s' r : List α} {p : P} {ps : List P} :
      F.cut m s = some (p, m', s') → Cuts m' s' ps m'' r → Cuts m s (p :: ps) m'' r

namespace Cuts

variable {F} {m m' m₁ m₂ : M} {s r r₁ r₂ t : List α} {p : P} {ps qs : List P}

/-- What comes behind does not matter. -/
theorem append (h : F.Cuts m s ps m' r) (t : List α) : F.Cuts m (s ++ t) ps m' (r ++ t) := by
  induction h with
  | nil => exact nil _ _
  | cons hcut _ ih => exact cons (F.cut_append hcut t) ih

theorem trans (h : F.Cuts m s ps m₁ r₁) (h' : F.Cuts m₁ r₁ qs m' r) :
    F.Cuts m s (ps ++ qs) m' r := by
  induction h with
  | nil => exact h'
  | cons hcut _ ih => exact cons hcut (ih h')

/-- Another piece is cut off. -/
theorem snoc (h : F.Cuts m s ps m₁ r₁) (hcut : F.cut m₁ r₁ = some (p, m', r)) :
    F.Cuts m s (ps ++ [p]) m' r :=
  h.trans (cons hcut (nil _ _))

/-- Pieces can be cut off in two goes. -/
theorem split (h : F.Cuts m s (ps ++ qs) m' r) :
    ∃ m₁ r₁, F.Cuts m s ps m₁ r₁ ∧ F.Cuts m₁ r₁ qs m' r := by
  induction ps generalizing m s with
  | nil => exact ⟨m, s, nil _ _, h⟩
  | cons p ps ih =>
    cases h with
    | cons hcut hrest =>
      obtain ⟨m₁, r₁, hps, hqs⟩ := ih hrest
      exact ⟨m₁, r₁, cons hcut hps, hqs⟩

/-- Where the receiver is after the pieces is determined. -/
theorem unique (h : F.Cuts m s ps m₁ r₁) (h' : F.Cuts m s ps m₂ r₂) : m₁ = m₂ ∧ r₁ = r₂ := by
  induction h with
  | nil =>
    cases h'
    exact ⟨rfl, rfl⟩
  | cons hcut _ ih =>
    cases h' with
    | cons hcut' hrest =>
      rw [hcut] at hcut'
      obtain ⟨-, rfl, rfl⟩ := Prod.mk.inj (Option.some.inj hcut') |>.imp_right Prod.mk.inj
      exact ih hrest

/-- Of two lists of pieces of one stream, one goes on where the other ends. -/
theorem prefix_or (h : F.Cuts m s ps m₁ r₁) (h' : F.Cuts m s qs m₂ r₂) :
    (∃ ts, qs = ps ++ ts ∧ F.Cuts m₁ r₁ ts m₂ r₂) ∨ ∃ ts, ps = qs ++ ts ∧
        F.Cuts m₂ r₂ ts m₁ r₁ := by
  induction h generalizing qs with
  | nil => exact .inl ⟨qs, rfl, h'⟩
  | @cons m m' m'' s s' r p ps hcut hps ih =>
    cases h' with
    | nil => exact .inr ⟨p :: ps, rfl, cons hcut hps⟩
    | cons hcut' hqs =>
      rw [hcut] at hcut'
      obtain ⟨rfl, rfl, rfl⟩ := Prod.mk.inj (Option.some.inj hcut') |>.imp_right Prod.mk.inj
      rcases ih hqs with ⟨ts, rfl, hts⟩ | ⟨ts, rfl, hts⟩
      · exact .inl ⟨ts, rfl, hts⟩
      · exact .inr ⟨ts, rfl, hts⟩

/-- Who cannot cut off another piece has cut off all there are. -/
theorem of_stuck (h : F.Cuts m s ps m₁ r₁) (hstuck : F.cut m₁ r₁ = none)
    (h' : F.Cuts m s qs m₂ r₂) :
    ∃ ts, ps = qs ++ ts ∧ F.Cuts m₂ r₂ ts m₁ r₁ := by
  rcases h.prefix_or h' with ⟨ts, rfl, hts⟩ | hts
  · cases hts with
    | nil => exact ⟨[], by rw [List.append_nil, List.append_nil], nil _ _⟩
    | cons hcut _ =>
      rw [hstuck] at hcut
      cases hcut
  · exact hts

/-- Two receivers of one stream that cannot cut off another piece have cut off the same ones. -/
theorem eq_of_stuck (h : F.Cuts m s ps m₁ r₁) (hstuck : F.cut m₁ r₁ = none)
    (h' : F.Cuts m s qs m₂ r₂) (hstuck' : F.cut m₂ r₂ = none) : ps = qs ∧ m₁ = m₂ ∧ r₁ = r₂ := by
  obtain ⟨ts, rfl, hts⟩ := h.of_stuck hstuck h'
  cases hts with
  | nil => exact ⟨List.append_nil _, rfl, rfl⟩
  | cons hcut _ =>
    rw [hstuck'] at hcut
    cases hcut

end Cuts

end Framer

end Twemcache
