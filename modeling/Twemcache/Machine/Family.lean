import Mathlib.Data.Set.Finite.Basic
import Mathlib.Logic.Function.Basic
import Twemcache.Machine.Basic

/-!
# Families of machines

A server is a family of members, each with a state of its own, over a state that they share.  A
member is a machine over both; the family moves one member at a time, new members enter, and the
shared state also moves on its own.

A machine *matches* another one if every step of it is matched by a run of the other one, from every
related state. So that a family matches a machine it is enough to look at one member at a time: the
state of the machine is taken apart into what every member *owns* of it, and the calls of one member
must leave alone what the others own.

In the other direction, a run of the family is a run of each of its members, in which the shared
state changes between the steps of the member.

## Main definitions

* `Machine.Matches` : every step is matched by a run.
* `Machine.Path` : a run with its labels.
* `Machine.family` : a family of members over a shared state.
* `Family.Allows` : which steps of members, and of the shared state, are allowed.
* `FamilyLabel.name` : the member that a step is about.

## Main results

* `Machine.Matches.reaches` : every run is matched by a run.
* `Machine.family_frame` : a step leaves the other members alone.
* `Machine.Matches.family` : a family matches a machine if every member does, and leaves alone what
  the others own.
* `Machine.family_member` : a run of the family is a run of each of its members.
-/

namespace Twemcache

namespace Machine

variable {S T L K R Q : Type*}

/-- Every step of `M` that `C` allows, from a state that is related to one of `N`, is matched by a
run of `N` whose steps `D` allows. -/
def Matches (M : Machine S L R) (C : S → L → S → Prop) (N : Machine T K Q) (D : T → K → T → Prop)
    (Rel : S → T → Prop) : Prop :=
  ∀ s l r s' t, Rel s t → M.step s l = some (r, s') → C s l s' → ∃ t', N.Reaches D t t' ∧ Rel s' t'

/-- **Every run is matched by a run.** -/
theorem Matches.reaches {M : Machine S L R} {C : S → L → S → Prop} {N : Machine T K Q}
    {D : T → K → T → Prop} {Rel : S → T → Prop} (h : M.Matches C N D Rel) {s s' : S} {t : T}
    (hr : M.Reaches C s s') (hst : Rel s t) :
    ∃ t', N.Reaches D t t' ∧ Rel s' t' := by
  induction hr with
  | refl => exact ⟨t, .refl, hst⟩
  | tail _ hnext ih =>
    obtain ⟨u, hu, hrel⟩ := ih
    obtain ⟨l, r, hstep, hC⟩ := hnext
    obtain ⟨t', ht', hrel'⟩ := h _ l r _ u hrel hstep hC
    exact ⟨t', hu.trans ht', hrel'⟩

/-- A run with the labels `ls`, all of whose steps are allowed by `C`. -/
inductive Path (M : Machine S L R) (C : S → L → S → Prop) : S → List L → S → Prop
  | nil (s : S) : Path M C s [] s
  | snoc {s s' s'' : S} {ls : List L} {l : L} {r : R} :
      Path M C s ls s' → M.step s' l = some (r, s'') → C s' l s'' → Path M C s (ls ++ [l]) s''

theorem Path.reaches {M : Machine S L R} {C : S → L → S → Prop} {s s' : S} {ls : List L}
    (h : M.Path C s ls s') :
    M.Reaches C s s' := by
  induction h with
  | nil => exact .refl
  | snoc _ hstep hC ih => exact ih.tail hstep hC

theorem Path.mono {M : Machine S L R} {C D : S → L → S → Prop} {s s' : S} {ls : List L}
    (h : M.Path C s ls s') (hCD : ∀ s l s', C s l s' → D s l s') : M.Path D s ls s' := by
  induction h with
  | nil => exact .nil _
  | snoc _ hstep hC ih => exact ih.snoc hstep (hCD _ _ _ hC)

theorem Path.append {M : Machine S L R} {C : S → L → S → Prop} {s s' s'' : S} {ls ls' : List L}
    (h : M.Path C s ls s') (h' : M.Path C s' ls' s'') : M.Path C s (ls ++ ls') s'' := by
  induction h' with
  | nil =>
    rw [List.append_nil]
    exact h
  | snoc _ hstep hC ih =>
    rw [← List.append_assoc]
    exact ih.snoc hstep hC

/-- What `run` has gone through is a path. -/
theorem path_of_run {M : Machine S L R} {G : S → L → S → Bool} {ls : List L} {s s' : S}
    (h : M.run G s ls = some s') :
    M.Path (fun s l s' => G s l s' = true) s ls s' := by
  induction ls generalizing s with
  | nil =>
    obtain rfl := Option.some.inj h
    exact .nil s
  | cons l ls ih =>
    obtain ⟨⟨r, t⟩, hstep, hrest⟩ := Option.bind_eq_some_iff.1 h
    obtain ⟨hG, hrun⟩ := Option.ite_none_right_eq_some.1 hrest
    have hfirst : M.Path (fun s l s' => G s l s' = true) s [l] t := (Path.nil s).snoc hstep hG
    exact hfirst.append (ih hrun)

end Machine

/-- The state of a family of members over a shared state. -/
structure Family (I L G : Type*) where
  /-- The states of the members; `none` if there is no member of this name yet. -/
  member : I → Option L
  /-- The shared state. -/
  shared : G

/-- The steps of a family. -/
inductive FamilyLabel (I B A E : Type*) where
  /-- A member enters. -/
  | enter (i : I) (b : B)
  /-- A member acts. -/
  | act (i : I) (a : A)
  /-- The shared state moves on its own. -/
  | env (e : E)

/-- The steps in which members do what `Ca` allows, and the shared state does what `Ce` allows. -/
def Family.Allows {I L G B A E : Type*} (Ca : L × G → A → L × G → Prop) (Ce : G → E → G → Prop)
    (x : Family I L G) :
    FamilyLabel I B A E → Family I L G → Prop
  | .enter _ _, _ => True
  | .act i a, y =>
    ∀ l l', x.member i = some l → y.member i = some l' → Ca (l, x.shared) a (l', y.shared)
  | .env e, y => Ce x.shared e y.shared

theorem forall_some_iff {L : Type*} {P : L → L → Prop} {o o' : Option L} :
    (∀ l ∈ o, ∀ l' ∈ o', P l l') ↔ ∀ l l', o = some l → o' = some l' → P l l' :=
  ⟨fun h l l' ho ho' => h l ho l' ho', fun h l ho l' ho' => h l l' ho ho'⟩

instance decidableForallSome {L : Type*} {P : L → L → Prop} [∀ l l', Decidable (P l l')]
    (o o' : Option L) :
    Decidable (∀ l l', o = some l → o' = some l' → P l l') := decidable_of_iff _ forall_some_iff

instance Family.decidableAllows {I L G B A E : Type*} {Ca : L × G → A → L × G → Prop}
    {Ce : G → E → G → Prop} [∀ x a y, Decidable (Ca x a y)] [∀ g e g', Decidable (Ce g e g')]
    (x : Family I L G) :
    (l : FamilyLabel I B A E) → (y : Family I L G) → Decidable (Family.Allows Ca Ce x l y)
  | .enter _ _, _ => isTrue trivial
  | .act i _, y => decidableForallSome (x.member i) (y.member i)
  | .env e, y => inferInstanceAs (Decidable (Ce x.shared e y.shared))

/-- The member that a step is about. -/
def FamilyLabel.name {I B A E : Type*} : FamilyLabel I B A E → Option I
  | .enter i _ => some i
  | .act i _ => some i
  | .env _ => none

namespace Machine

variable {I L G A B E R Q S T K P : Type*} [DecidableEq I]

/-- A family: `birth` says how a member starts, `act` what members do, and `env` what the shared
state does on its own. -/
def family (birth : B → L) (act : Machine (L × G) A R) (env : Machine G E Q) :
    Machine (Family I L G) (FamilyLabel I B A E) Unit where
  step x
    | .enter i b =>
      if (x.member i).isNone then some
        ((), { x with member := Function.update x.member i (some (birth b)) })
      else none
    | .act i a => (x.member i).bind fun l =>
      (act.step (l, x.shared) a).map fun r => ((), ⟨Function.update x.member i (some r.2.1), r.2.2⟩)
    | .env e => (env.step x.shared e).map fun r => ((), { x with shared := r.2 })

variable {birth : B → L} {act : Machine (L × G) A R} {env : Machine G E Q}
  {Ca : L × G → A → L × G → Prop} {Ce : G → E → G → Prop} {x y : Family I L G} {i : I}

/-- What a step of a family is. -/
theorem family_cases {l : FamilyLabel I B A E} {u : Unit}
    (h : (family birth act env).step x l = some (u, y)) :
    (∃ i b, l = .enter i b ∧ x.member i = none ∧
      y = ⟨Function.update x.member i (some (birth b)), x.shared⟩) ∨
    (∃ i a o r o' g', l = .act i a ∧ x.member i = some o ∧
      act.step (o, x.shared) a = some (r, (o', g')) ∧
      y = ⟨Function.update x.member i (some o'), g'⟩) ∨
    ∃ e r g', l = .env e ∧ env.step x.shared e = some (r, g') ∧ y = ⟨x.member, g'⟩ := by
  cases l with
  | enter i b =>
    obtain ⟨hnone, heq⟩ := Option.ite_none_right_eq_some.1 h
    obtain ⟨-, rfl⟩ := Prod.mk.inj (Option.some.inj heq)
    exact .inl ⟨i, b, rfl, Option.isNone_iff_eq_none.1 hnone, rfl⟩
  | act i a =>
    obtain ⟨o, ho, hmap⟩ := Option.bind_eq_some_iff.1 h
    obtain ⟨⟨r, o', g'⟩, hact, heq⟩ := Option.map_eq_some_iff.1 hmap
    obtain ⟨-, rfl⟩ := Prod.mk.inj heq
    exact .inr (.inl ⟨i, a, o, r, o', g', rfl, ho, hact, rfl⟩)
  | env e =>
    obtain ⟨⟨r, g'⟩, henv, heq⟩ := Option.map_eq_some_iff.1 h
    obtain ⟨-, rfl⟩ := Prod.mk.inj heq
    exact .inr (.inr ⟨e, r, g', rfl, henv, rfl⟩)

/-- The guard of a step of a member. -/
theorem allows_act {a : A} {o o' : L} {g' : G} (ho : x.member i = some o)
    (h : Family.Allows Ca Ce x (.act i a : FamilyLabel I B A E)
      ⟨Function.update x.member i (some o'), g'⟩) :
    Ca (o, x.shared) a (o', g') :=
  h o o' ho (Function.update_self ..)

/-- A step leaves the other members alone. -/
theorem family_frame {l : FamilyLabel I B A E} {u : Unit}
    (h : (family birth act env).step x l = some (u, y)) (hl : l.name ≠ some i) :
    y.member i = x.member i := by
  rcases family_cases h with ⟨j, b, rfl, -, rfl⟩ | ⟨j, a, o, r, o', g', rfl, -, -, rfl⟩ | ⟨e, r,
    g', rfl, -, rfl⟩
  · exact Function.update_of_ne (fun hj => hl (congrArg some hj.symm)) _ _
  · exact Function.update_of_ne (fun hj => hl (congrArg some hj.symm)) _ _
  · rfl

/-- So does a run. -/
theorem family_run_frame {C : Family I L G → FamilyLabel I B A E → Family I L G → Bool}
    {ls : List (FamilyLabel I B A E)} (h : (family birth act env).run C x ls = some y)
    (hl : ∀ l ∈ ls, l.name ≠ some i) : y.member i = x.member i := by
  induction ls generalizing x with
  | nil => exact congrArg (fun z => z.member i) (Option.some.inj h).symm
  | cons l ls ih =>
    obtain ⟨⟨u, z⟩, hz, hrest⟩ := Option.bind_eq_some_iff.1 h
    obtain ⟨-, hrun⟩ := Option.ite_none_right_eq_some.1 hrest
    have hrest := ih hrun fun l' hl' => hl l' (List.mem_cons_of_mem _ hl')
    exact hrest.trans (family_frame hz (hl l List.mem_cons_self))

section

variable {N : Machine T K P} {D : T → K → T → Prop} {Rel : G → T → Prop}
  {Own : I → Option L → T → Prop}

/-- One member has moved. -/
theorem own_update {o : Option L} {m : I → Option L} {t : T} (hself : Own i o t)
    (hother : ∀ j, j ≠ i → Own j (m j) t) (j : I) : Own j (Function.update m i o j) t := by
  by_cases hj : j = i
  · subst hj
    rw [Function.update_self]
    exact hself
  · rw [Function.update_of_ne hj]
    exact hother j hj

/-- **A family matches a machine** if every member does, whatever the others own. -/
theorem Matches.family (hbirth : ∀ i b t, Own i none t → Own i (some (birth b)) t)
    (hact : ∀ i a l g r l' g' t, Rel g t → Own i (some l) t →
      act.step (l, g) a = some (r, (l', g')) → Ca (l, g) a (l', g') → ∃ t', N.Reaches D t t' ∧
      Rel g' t' ∧ Own i (some l') t' ∧ ∀ j, j ≠ i → ∀ o, Own j o t → Own j o t')
    (henv : ∀ e g r g' t, Rel g t → env.step g e = some (r, g') → Ce g e g' →
      ∃ t', N.Reaches D t t' ∧ Rel g' t' ∧ ∀ j o, Own j o t → Own j o t') :
    (family birth act env).Matches (Family.Allows Ca Ce) N D
      fun x t => Rel x.shared t ∧ ∀ i, Own i (x.member i) t := by
  rintro x l u y t ⟨hrel, hown⟩ hstep hC
  -- a member enters, a member acts, or the shared state moves
  rcases family_cases hstep with ⟨i, b, rfl, hnone, rfl⟩ | ⟨i, a, o, r, o', g', rfl, ho, hst, rfl⟩ |
    ⟨e, r, g', rfl, hst, rfl⟩
  · have hself := hbirth i b t (hnone ▸ hown i)
    exact ⟨t, .refl, hrel, own_update hself fun j _ => hown j⟩
  · obtain ⟨t', ht', hrel', hself, hother⟩ :=
      hact i a o x.shared r o' g' t hrel (ho ▸ hown i) hst (allows_act ho hC)
    exact ⟨t', ht', hrel', own_update hself fun j hj => hother j hj _ (hown j)⟩
  · obtain ⟨t', ht', hrel', hother⟩ := henv e x.shared r g' t hrel hst hC
    exact ⟨t', ht', hrel', fun j => hother j _ (hown j)⟩

end

/-- Members stay. -/
theorem family_keeps {C : Family I L G → FamilyLabel I B A E → Family I L G → Prop}
    (hr : (family birth act env).Reaches C x y) (hx : x.member i ≠ none) : y.member i ≠ none := by
  refine hr.invariant (I := fun y => y.member i ≠ none) hx fun y c u z ih hstep _ => ?_
  rcases family_cases hstep with ⟨j, b, -, -, rfl⟩ | ⟨j, a, o, r, o', g', -, -, -, rfl⟩ | ⟨e, r,
    g', -, -, rfl⟩
  · by_cases hj : i = j
    · subst hj
      simp
    · exact (Function.update_of_ne hj _ _).trans_ne ih
  · by_cases hj : i = j
    · subst hj
      simp
    · exact (Function.update_of_ne hj _ _).trans_ne ih
  · exact ih

/-- In every run finitely many members enter. -/
theorem family_finite {C : Family I L G → FamilyLabel I B A E → Family I L G → Prop}
    (hr : (family birth act env).Reaches C x y) (hx : {i | x.member i ≠ none}.Finite) :
    {i | y.member i ≠ none}.Finite := by
  refine hr.invariant (I := fun y => {i | y.member i ≠ none}.Finite) hx fun y c u z ih hstep _ => ?_
  have hone : ∀ j o, {i | Function.update y.member j o i ≠ none}.Finite := by
    refine fun j o => (ih.insert j).subset fun i hi => ?_
    by_cases hj : i = j
    · exact .inl hj
    · exact .inr ((Function.update_of_ne hj _ _).symm.trans_ne hi)
  rcases family_cases hstep with ⟨j, b, -, -, rfl⟩ | ⟨j, a, o, r, o', g', -, -, -, rfl⟩ | ⟨e, r,
    g', -, -, rfl⟩
  · exact hone j _
  · exact hone j _
  · exact ih

section

variable {M : Machine S K P} {F : S → K → S → Prop} {view : L → G → S}

/-- **A run of a family is a run of each of its members**: of one that was there at its start, or of
one that has entered on the way.  The shared state changes before a step of the member, whatever the
others have done. -/
theorem family_member
    (hact : ∀ l g₀ g a r l' g', act.step (l, g) a = some (r, (l', g')) → Ca (l, g) a (l', g') →
      M.Reaches F (view l g₀) (view l' g'))
    {ls : List (FamilyLabel I B A E)}
    (hr : (family birth act env).Path (Family.Allows Ca Ce) x ls y) {l : L}
    (hl : y.member i = some l) :
    (∃ l₀ g, x.member i = some l₀ ∧ M.Reaches F (view l₀ x.shared) (view l g)) ∨
      x.member i = none ∧ ∃ b g₀ g, .enter i b ∈ ls ∧
          M.Reaches F (view (birth b) g₀) (view l g) := by
  induction hr generalizing l with
  | nil => exact .inl ⟨l, _, hl, .refl⟩
  | @snoc y z ls c u hxy hstep hC ih =>
    -- who has entered before has entered
    have hlater : ∀ {b}, .enter i b ∈ ls → .enter i b ∈ ls ++ [c] := List.mem_append_left [c]
    rcases family_cases hstep with ⟨j, b, rfl, hnone, rfl⟩ | ⟨j, a, o, r, o', g', rfl,
      ho, hst, rfl⟩ |
      ⟨e, r, g', rfl, hst, rfl⟩
    · by_cases hj : i = j
      · subst hj
        dsimp only at hl
        rw [Function.update_self] at hl
        obtain rfl := Option.some.inj hl
        -- members do not leave, so it was not there at the start
        have habsent : x.member i = none := by
          by_contra hne
          exact family_keeps hxy.reaches hne hnone
        exact .inr
          ⟨habsent, b, y.shared, y.shared, List.mem_append_right ls (List.mem_singleton_self _),
          .refl⟩
      · exact (ih ((Function.update_of_ne hj _ _).symm.trans hl)).imp_right
            fun ⟨h₀, b, g₀, g, hb, hr⟩ =>
          ⟨h₀, b, g₀, g, hlater hb, hr⟩
    · by_cases hj : i = j
      · subst hj
        dsimp only at hl
        rw [Function.update_self] at hl
        obtain rfl := Option.some.inj hl
        -- whatever has become of the shared state since its last step
        have hnext : ∀ g, M.Reaches F (view o g) (view o' g') := fun g =>
          hact o g y.shared a r o' g' hst (allows_act ho hC)
        exact (ih ho).imp (fun ⟨l₀, g, h₀, hr⟩ => ⟨l₀, g', h₀, hr.trans (hnext g)⟩)
          fun ⟨h₀, b, g₀, g, hb, hr⟩ => ⟨h₀, b, g₀, g', hlater hb, hr.trans (hnext g)⟩
      · exact (ih ((Function.update_of_ne hj _ _).symm.trans hl)).imp_right
            fun ⟨h₀, b, g₀, g, hb, hr⟩ =>
          ⟨h₀, b, g₀, g, hlater hb, hr⟩
    · exact (ih hl).imp_right fun ⟨h₀, b, g₀, g, hb, hr⟩ => ⟨h₀, b, g₀, g, hlater hb, hr⟩

end

end Machine

end Twemcache
