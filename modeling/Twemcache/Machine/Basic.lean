import Mathlib.Logic.Relation

/-!
# Machines

Every part of the server is given a semantics as a *machine*: a partial function that takes
a state and a label to an answer and the next state.  A label fixes all that the environment
decides (who calls, with which arguments, which allocations fail, what `rand` returns), so
runs can be evaluated; a property that quantifies over all labels quantifies over all of it.

## Main definitions

* `Machine S L R` : states `S`, labels `L`, answers `R`.
* `Machine.Next C` : one step allowed by the guard `C`.
* `Machine.Reaches C s s'` : a run from `s` to `s'` all of whose steps are allowed by `C`.
* `Machine.traced f` : the machine with a record of its past.
* `Machine.run` : executable runs, used to *exhibit* states.
-/

namespace Twemcache

/-- A machine with states `S`, labels `L` and answers `R`; `none` means that the label is not
enabled. -/
structure Machine (S L R : Type*) where
  /-- The answer to `l` in `s`, and the state after it. -/
  step : S → L → Option (R × S)

namespace Machine

variable {S L R : Type*} (M : Machine S L R)

/-- One step that the guard `C` allows. -/
def Next (C : S → L → S → Prop) (s s' : S) : Prop :=
  ∃ l r, M.step s l = some (r, s') ∧ C s l s'

/-- There is a run from `s` to `s'` in which every step is allowed by `C`. -/
def Reaches (C : S → L → S → Prop) (s s' : S) : Prop := Relation.ReflTransGen (M.Next C) s s'

/-- The guard that allows every step. -/
def Unguarded (_ : S) (_ : L) (_ : S) : Prop := True

/-- The state after a list of labels, `none` if one of them is not enabled or not allowed. -/
def run (C : S → L → S → Bool) : S → List L → Option S
  | s, [] => some s
  | s, l :: ls => (M.step s l).bind fun x => if C s l x.2 then run C x.2 ls else none

/-- The state that `run` leads to, if it leads anywhere. -/
def exec (C : S → L → S → Bool) (s : S) (ls : List L) : S := (M.run C s ls).getD s

/-- The machine with a record of its past, which the steps write and do not read. -/
def traced {G : Type*} (f : S → L → S → G → G) : Machine (S × G) L R where
  step x l := (M.step x.1 l).map fun y => (y.1, y.2, f x.1 l y.2 x.2)

variable {M} {C D : S → L → S → Prop} {s s' s'' : S}

theorem traced_step {G : Type*} {f : S → L → S → G → G} {x y : S × G} {l : L} {r : R}
    (h : (M.traced f).step x l = some (r, y)) :
    M.step x.1 l = some (r, y.1) ∧ y.2 = f x.1 l y.1 x.2 := by
  obtain ⟨z, hz, heq⟩ := Option.map_eq_some_iff.1 h
  obtain ⟨rfl, rfl⟩ := Prod.mk.inj heq
  exact ⟨hz, rfl⟩

namespace Reaches

theorem trans (h : M.Reaches C s s') (h' : M.Reaches C s' s'') : M.Reaches C s s'' :=
  Relation.ReflTransGen.trans h h'

theorem tail {l : L} {r : R} (h : M.Reaches C s s') (hst : M.step s' l = some (r, s''))
    (hC : C s' l s'') : M.Reaches C s s'' :=
  Relation.ReflTransGen.tail h ⟨l, r, hst, hC⟩

theorem mono (hCD : ∀ s l s', C s l s' → D s l s') (h : M.Reaches C s s') :
    M.Reaches D s s' :=
  Relation.ReflTransGen.mono (fun _ _ ⟨l, r, hst, hC⟩ => ⟨l, r, hst, hCD _ _ _ hC⟩) _ _ h

/-- **Invariant rule.**  A predicate that holds at the start of a run and is kept by every
allowed step holds at its end. -/
theorem invariant {I : S → Prop} (h : M.Reaches C s s') (h₀ : I s)
    (hstep : ∀ s l r s', I s → M.step s l = some (r, s') → C s l s' → I s') : I s' := by
  induction h with
  | refl => exact h₀
  | tail _ hnext ih =>
    obtain ⟨l, r, hst, hC⟩ := hnext
    exact hstep _ l r _ ih hst hC

/-- A run can be recorded. -/
theorem to_traced {G : Type*} (f : S → L → S → G → G) (h : M.Reaches C s s') (g : G) :
    ∃ g', (M.traced f).Reaches (fun x l y => C x.1 l y.1) (s, g) (s', g') := by
  induction h with
  | refl => exact ⟨g, Relation.ReflTransGen.refl⟩
  | @tail t u _ hnext ih =>
    obtain ⟨g', hg⟩ := ih
    obtain ⟨l, r, hst, hC⟩ := hnext
    have hstep : (M.traced f).step (t, g') l = some (r, (u, f t l u g')) := by
      simp only [traced, hst, Option.map_some]
    exact ⟨_, Reaches.tail hg hstep hC⟩

end Reaches

/-- An executed run is a run. -/
theorem reaches_of_run {G : S → L → S → Bool} {ls : List L} (h : M.run G s ls = some s') :
    M.Reaches (fun s l s' => G s l s' = true) s s' := by
  induction ls generalizing s with
  | nil =>
    obtain rfl := Option.some.inj h
    exact Relation.ReflTransGen.refl
  | cons l ls ih =>
    obtain ⟨x, hst, hrun⟩ := Option.bind_eq_some_iff.1 h
    split at hrun
    · rename_i hG
      exact Relation.ReflTransGen.head ⟨l, x.1, hst, hG⟩ (ih hrun)
    · cases hrun

theorem run_eq_exec {G : S → L → S → Bool} {ls : List L} (h : (M.run G s ls).isSome = true) :
    M.run G s ls = some (M.exec G s ls) := by
  obtain ⟨s', hs'⟩ := Option.isSome_iff_exists.1 h
  rw [exec, hs', Option.getD_some]

theorem reaches_exec {G : S → L → S → Bool} {ls : List L} (h : (M.run G s ls).isSome = true) :
    M.Reaches (fun s l s' => G s l s' = true) s (M.exec G s ls) :=
  reaches_of_run (run_eq_exec h)

end Machine

end Twemcache
