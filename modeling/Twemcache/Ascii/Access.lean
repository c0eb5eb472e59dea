import Twemcache.Ascii.Grammar

/-!
# Accesses to the token array

The token array is uninitialised memory on the stack of `asc_dispatch`; `asc_tokenize` fills its
first elements, and the last one of these is no word.  An access is proper if the element was
filled and, where its value is used as a word, is not the last one.  All handlers but
`asc_process_config` and `asc_process_klog` check the number of tokens before they read any.

## Main definitions

* `Use.Proper` : a proper access.
* `Reads` : the accesses of a handler are all proper exactly if a condition holds.
* `Misread` : the requests on which the handler of `config` goes wrong.

## Main results

* `uses_ascDispatch` : the accesses are proper exactly if the request is none of these.
-/

namespace Twemcache

open Handler

/-- The element was filled, and is not the terminal one if it is used as a word. -/
def Use.Proper (u : Use) : Prop := u.index < u.ntoken ∧ (u.word = true → u.index + 1 < u.ntoken)

instance (u : Use) : Decidable u.Proper := inferInstanceAs (Decidable (_ ∧ _))

/-- A handler only adds to the record of accesses, and what it adds is proper exactly if `p`
holds. -/
def Reads {α : Type} (x : Handler α) (a : Asc) (p : Prop) : Prop :=
  ∃ l, (x.on a).2.uses = a.uses ++ l ∧ ((∀ u ∈ l, u.Proper) ↔ p)

namespace Reads

variable {α β : Type} {x : Handler α} {g : α → Handler β} {a : Asc} {p q : Prop} {f : Frame}

theorem congr (h : Reads x a p) (hpq : p ↔ q) : Reads x a q := by
  obtain ⟨l, hl, hp⟩ := h
  exact ⟨l, hl, hp.trans hpq⟩

theorem pure (v : α) : Reads (pure v : Handler α) a True := ⟨[], by simp, by simp⟩

theorem throw (r : Rsp) : Reads (throw r : Handler α) a True := ⟨[], by simp, by simp⟩

/-- After a part that reads nothing. -/
theorem quiet {a' : Asc} {v : α} (hx : x.on a = (.ok v, a')) (huses : a'.uses = a.uses)
    (hg : Reads (g v) a' p) : Reads (x >>= g) a p := by
  obtain ⟨l, hl, hp⟩ := hg
  exact ⟨l, by rw [on_bind_ok hx, hl, huses], hp⟩

/-- After a part that reads one token. -/
theorem after {a' : Asc} {v : Except Rsp α} {i : ℕ} (hx : x.on a = (v, a'))
    (huses : a'.uses = a.uses ++ [⟨i, f.ntoken, true⟩])
    (hg : ∀ y, v = .ok y → Reads (g y) a' p) (hp : (∃ r, v = .error r) → p) :
    Reads (x >>= g) a (i + 1 < f.ntoken ∧ p) := by
  have hproper : (⟨i, f.ntoken, true⟩ : Use).Proper ↔ i + 1 < f.ntoken := by
    simp only [Use.Proper, forall_const]
    omega
  cases v with
  | error r =>
    refine ⟨_, by rw [on_bind_error hx]; exact huses, ?_⟩
    rw [List.forall_mem_singleton, hproper, and_iff_left (hp ⟨r, rfl⟩)]
  | ok y =>
    obtain ⟨l, hl, hg⟩ := hg y rfl
    refine ⟨⟨i, f.ntoken, true⟩ :: l, ?_, ?_⟩
    · rw [on_bind_ok hx, hl, huses, List.append_assoc, List.singleton_append]
    · rw [List.forall_mem_cons, hproper, hg]

theorem word {g : Token → Handler β} {i : ℕ} (hg : ∀ a, Reads (g (f.elem i)) a p) :
    Reads (f.word i >>= g) a (i + 1 < f.ntoken ∧ p) :=
  after (on_word i) rfl (fun _ h => Except.ok.inj h ▸ hg _) (by rintro ⟨r, ⟨⟩⟩)

/-- A token that is there is read. -/
theorem within {g : Token → Handler β} {i : ℕ} (hg : ∀ a, Reads (g (f.elem i)) a True)
    (hi : i + 1 < f.ntoken) : Reads (f.word i >>= g) a True :=
  (word hg).congr (by simp [hi])

theorem field {i : ℕ} {parse : List UInt8 → Option α} {g : α → Handler β}
    (hg : ∀ y a, Reads (g y) a True) (hi : i + 1 < f.ntoken) :
    Reads (ascGetField f i parse >>= g) a True :=
  (after (on_ascGetField i parse) rfl (fun y _ => hg y _) fun _ => trivial).congr (by simp [hi])

theorem key {g : Key → Handler β} (hg : ∀ y a, Reads (g y) a True) (hi : tokenKey + 1 < f.ntoken) :
    Reads (ascGetKey f >>= g) a True :=
  (after (on_ascGetKey) rfl (fun y _ => hg y _) fun _ => trivial).congr (by simp [hi])

theorem ite {c : Prop} [Decidable c] {x y : Handler α} (hx : c → Reads x a p)
    (hy : ¬ c → Reads y a q) :
    Reads (if c then x else y) a (if c then p else q) := by
  split_ifs with h
  · exact hx h
  · exact hy h

/-- A choice between two ways that read properly. -/
theorem choice {c : Prop} [Decidable c] {x y : Handler α} (hx : c → Reads x a True)
    (hy : ¬ c → Reads y a True) : Reads (if c then x else y) a True := by
  simpa using ite hx hy

/-- A handler that ends early. -/
theorem stop (r : Rsp) : Reads ((MonadExcept.throw r : Handler α) >>= g) a True :=
  ⟨[], by rw [on_bind_error (on_throw r a), List.append_nil], by simp⟩

theorem validate {type : ReqType} {g : Unit → Handler β}
    (hg : f.Bounded type a.noreply → Reads (g ()) a p) :
    Reads (ascValidateNtoken type f >>= g) a (f.Bounded type a.noreply → p) := by
  have hon : (ascValidateNtoken type f).on a = _ := on_ascValidateNtoken
  by_cases h : f.Bounded type a.noreply
  · rw [if_pos h] at hon
    exact (quiet hon rfl (hg h)).congr (by simp [h])
  · rw [if_neg h] at hon
    exact ⟨[], by rw [on_bind_error hon, List.append_nil], by simp [h]⟩

/-- Nothing is read before the number of tokens is checked. -/
theorem validated {type : ReqType} {g : Unit → Handler β}
    (hg : f.Bounded type a.noreply → Reads (g ()) a True) :
    Reads (ascValidateNtoken type f >>= g) a True :=
  (validate hg).congr (by simp)

theorem noreplyMaybe {g : Unit → Handler β} (h : 2 ≤ f.ntoken) (hg : ∀ a, Reads (g ()) a True) :
    Reads (ascSetNoreplyMaybe f >>= g) a True := by
  refine (after (on_ascSetNoreplyMaybe h) rfl (fun y _ => hg _) fun _ => trivial).congr ?_
  simp only [and_true, iff_true]
  omega

theorem slabid {cfg : Config} {nkey vlen : ℕ} {g : Unit → Handler β} (hg : Reads (g ()) a True) :
    Reads (ascGetSlabid cfg nkey vlen >>= g) a True := by
  have hon : (ascGetSlabid cfg nkey vlen).on a = _ := on_ascGetSlabid nkey vlen
  split_ifs at hon
  · exact ⟨[], by rw [on_bind_error hon, List.append_nil], by simp⟩
  · exact quiet hon rfl hg

end Reads

section

variable {cfg : Config} {set : Settings} {type : ReqType} {f : Frame} {a : Asc}

/-- The checks at the start of a handler. -/
theorem Reads.checks {α : Type} {x : Handler α} (h : 2 ≤ f.ntoken)
    (hx : ∀ a, f.Bounded type a.noreply → Reads x a True) :
    Reads (do ascSetNoreplyMaybe f; ascValidateNtoken type f; x) a True :=
  .noreplyMaybe h fun _ => .validated (hx _)

theorem reads_ascGetCas {α : Type} {g : Option ℕ → Handler α} (hg : ∀ y a, Reads (g y) a True)
    (hi : type = .cas → tokenCas + 1 < f.ntoken) : Reads (ascGetCas type f >>= g) a True := by
  unfold ascGetCas
  split_ifs with h
  · have hon := on_map some (ascGetField f tokenCas mcStrtoull) a
    rw [on_ascGetField] at hon
    exact (Reads.after hon rfl (fun y _ => hg y _) fun _ => trivial).congr (by simp [hi h])
  · exact .quiet (on_pure none a) rfl (hg _ _)

theorem reads_update (hb : ∀ nr, f.Bounded type nr → tokenVlen + 1 < f.ntoken ∧
    (type = .cas → tokenCas + 1 < f.ntoken)) (h : 2 ≤ f.ntoken) :
    Reads (ascProcessUpdate cfg set type f) a True := by
  unfold ascProcessUpdate ascGetFlags ascGetExpiry ascGetVlen
  refine .checks h fun a hbound => ?_
  have hi := hb _ hbound
  simp only [tokenVlen] at hi
  refine .key (fun key a => ?_) (by rw [tokenKey]; omega)
  refine .field (fun flags a => ?_) (by rw [tokenFlags]; omega)
  refine .field (fun exptime a => ?_) (by rw [tokenExpiry]; omega)
  refine .field (fun vlen a => .slabid ?_) hi.1
  exact reads_ascGetCas (fun casId a => .pure _) hi.2

theorem reads_annex (hb : ∀ nr, f.Bounded type nr → tokenVlen + 1 < f.ntoken) (h : 2 ≤ f.ntoken) :
    Reads (ascProcessAnnex cfg type f) a True := by
  unfold ascProcessAnnex ascGetVlen
  refine .checks h fun a hbound => ?_
  have hi := hb _ hbound
  simp only [tokenVlen] at hi
  refine .key (fun key a => ?_) (by rw [tokenKey]; omega)
  exact .field (fun vlen a => .slabid (.pure _)) hi

theorem reads_delta (hb : ∀ nr, f.Bounded type nr → tokenDelta + 1 < f.ntoken) (h : 2 ≤ f.ntoken) :
    Reads (ascProcessDelta type f) a True := by
  unfold ascProcessDelta ascGetDelta
  refine .checks h fun a hbound => ?_
  have hi := hb _ hbound
  simp only [tokenDelta] at hi
  refine .key (fun key a => ?_) (by rw [tokenKey]; omega)
  exact .field (fun vlen a => .pure _) hi

theorem reads_delete (hb : ∀ nr, f.Bounded type nr → tokenKey + 1 < f.ntoken) (h : 2 ≤ f.ntoken) :
    Reads (ascProcessDelete type f) a True := by
  unfold ascProcessDelete
  refine .checks h fun a hbound => .key (fun key a => .pure _) (hb _ hbound)

theorem reads_read : Reads (ascProcessRead type f) a True := by
  unfold ascProcessRead
  exact .validated fun _ => .pure _

theorem reads_stats (h : 2 ≤ f.ntoken) : Reads (ascProcessStats set type f) a True := by
  unfold ascProcessStats
  refine .choice (fun _ => .stop _) fun _ => .validated fun hb => ?_
  refine .choice (fun _ => .pure _) fun hn => .within (fun a => ?_) (by rw [tokenSubcommand]; omega)
  refine .choice (fun _ => .throw _) fun _ => .choice (fun _ => .pure _) fun _ => ?_
  refine .choice (fun _ => .choice (fun _ => .stop _) fun hlt => ?_) fun _ => ?_
  · refine .field (fun id a => ?_) (by rw [tokenCachedumpId]; omega)
    refine .field (fun limit a => ?_) (by rw [tokenCachedumpLimit]; omega)
    exact .choice (fun _ => .stop _) fun _ => .pure _
  · refine .choice (fun _ => .pure _) fun _ => .choice (fun _ => .pure _) fun _ => .throw _

theorem reads_flushall (h : 2 ≤ f.ntoken) : Reads (ascProcessFlushall .flushall f) a True := by
  unfold ascProcessFlushall
  refine .checks h fun a hb => .quiet (on_get a) rfl ?_
  refine .choice (fun _ => .pure _) fun hne => .field (fun exptime a => .pure _) ?_
  have hlt : (ntokenBound .flushall a.noreply).1 < f.ntoken := lt_of_le_of_ne hb.1 (Ne.symm hne)
  have htwo : 2 ≤ (ntokenBound .flushall a.noreply).1 := by
    cases a.noreply <;> decide
  rw [tokenSubcommand]
  omega

theorem reads_verbosity (h : 2 ≤ f.ntoken) : Reads (ascProcessVerbosity f) a True := by
  unfold ascProcessVerbosity
  refine .noreplyMaybe h fun a => .choice (fun _ => .stop _) fun hn => ?_
  exact .field (fun level a => .pure _) (by rw [tokenSubcommand]; omega)

theorem reads_aggregate : Reads (ascProcessAggregate f) a True := by
  unfold ascProcessAggregate
  refine .choice (fun _ => .stop _) fun hn => ?_
  refine .field (fun interval a => ?_) (by rw [tokenAggrCommand]; omega)
  exact .choice (fun _ => .pure _) fun _ => .choice (fun _ => .pure _) fun _ => .pure _

theorem reads_evict : Reads (ascProcessEvict f) a True := by
  unfold ascProcessEvict
  refine .choice (fun _ => .stop _) fun hn => ?_
  refine .field (fun option a => ?_) (by rw [tokenEvictCommand]; omega)
  exact .choice (fun _ => .pure _) fun _ => .throw _

theorem reads_maxbytes : Reads (ascProcessMaxbytes set f) a True := by
  unfold ascProcessMaxbytes
  refine .choice (fun _ => .stop _) fun hn => ?_
  refine .field (fun option a => ?_) (by rw [tokenMaxbytesCommand]; omega)
  exact .choice (fun _ => .pure _) fun _ => .throw _

/-- The subcommands of `config hotkey` read one token, the fourth. -/
theorem reads_hotkey : Reads (ascProcessHotkey set type f) a True := by
  unfold ascProcessHotkey
  refine .validated fun _ => .choice (fun _ => .stop _) fun hn => ?_
  have hsub : tokenHkSubcommand + 1 < f.ntoken := by
    rw [tokenHkSubcommand]
    omega
  refine .within (fun a => ?_) (by rw [tokenHkCommand]; omega)
  refine .choice (fun _ => .within (fun a => ?_) hsub) fun _ => ?_
  · exact .choice (fun _ => .choice (fun _ => .stop _) fun _ => .pure _) fun _ =>
      .choice (fun _ => .pure _) fun _ => .throw _
  refine .choice (fun _ => .choice (fun _ => .stop _) fun _ => .field (fun y a => ?_) hsub) fun _ =>
    ?_
  · exact .choice (fun _ => .pure _) fun _ => .throw _
  refine .choice (fun _ => .choice (fun _ => .stop _) fun _ => .field (fun y a => ?_) hsub) fun _ =>
    ?_
  · exact .choice (fun _ => .pure _) fun _ => .throw _
  refine .choice (fun _ => .within (fun a => ?_) hsub) fun _ => ?_
  · exact .choice (fun _ => .pure _) fun _ => .throw _
  exact .choice (fun _ => .field (fun y a => .pure _) hsub) fun _ => .throw _

/-- `asc_process_klog` goes on to the subcommand. -/
def KlogSubcommand (set : Settings) (t : Token) : Prop :=
  (t.strncmp "run" = true ∧ set.klogName = true) ∨
    (t.strncmp "run" = false ∧ (t.strncmp "interval" = true ∨ t.strncmp "sampling" = true))

theorem reads_klog : Reads (ascProcessKlog set type f) a (f.Bounded type a.noreply →
    tokenKlogCommand + 1 < f.ntoken ∧
      (KlogSubcommand set (f.elem tokenKlogCommand) → tokenKlogSubcommand + 1 < f.ntoken)) := by
  unfold ascProcessKlog
  refine .validate fun _ => .word fun a => ?_
  unfold KlogSubcommand
  cases hrun : (f.elem tokenKlogCommand).strncmp "run" with
  | true =>
    rw [if_pos rfl]
    cases set.klogName with
    | false => exact (Reads.stop _).congr (by simp)
    | true =>
      refine (Reads.word (p := True) fun a => ?_).congr (by simp)
      exact .choice (fun _ => .pure _) fun _ => .choice (fun _ => .pure _) fun _ => .throw _
  | false =>
    rw [if_neg (by simp)]
    -- the two subcommands with a number
    have hsub : ∀ {lit : String} {g h : Token → Handler Command},
        (∀ a, Reads (g (f.elem tokenKlogSubcommand)) a True) →
        (∀ a, Reads (h (f.elem tokenKlogSubcommand)) a True) →
        Reads (f.word tokenKlogSubcommand >>= fun t => if t.strncmp lit then g t else h t) a
          (tokenKlogSubcommand + 1 < f.ntoken) :=
      fun hg hh => (Reads.word (p := True) fun a => .choice (fun _ => hg a) fun _ => hh a).congr
        (by simp)
    cases hinterval : (f.elem tokenKlogCommand).strncmp "interval" with
    | true =>
      rw [if_pos rfl]
      refine (hsub (fun a => .pure _) fun a => ?_).congr (by simp)
      cases mcStrtol (f.elem tokenKlogSubcommand).str with
      | none => exact .throw _
      | some n => exact .choice (fun _ => .throw _) fun _ => .pure _
    | false =>
      rw [if_neg (by simp)]
      cases hsampling : (f.elem tokenKlogCommand).strncmp "sampling" with
      | true =>
        rw [if_pos rfl]
        refine (hsub (fun a => .pure _) fun a => ?_).congr (by simp)
        cases mcStrtol (f.elem tokenKlogSubcommand).str with
        | none => exact .throw _
        | some n => exact .choice (fun _ => .throw _) fun _ => .pure _
      | false =>
        rw [if_neg (by simp)]
        exact (Reads.throw _).congr (by simp)

/-- `asc_process_config` reads the subcommand without a check, and `asc_process_klog` relies on one.
-/
theorem reads_config : Reads (ascProcessConfig set .config f) a (2 < f.ntoken ∧
    ((f.elem tokenSubcommand).strncmp "aggregate" = false →
      (f.elem tokenSubcommand).strncmp "klog" = true → f.ntoken ≤ 5 →
      3 < f.ntoken ∧ (KlogSubcommand set (f.elem tokenKlogCommand) → 4 < f.ntoken))) := by
  have hbound : ∀ nr, f.Bounded .config nr ↔ 3 ≤ f.ntoken ∧ f.ntoken ≤ 5 := fun nr => Iff.rfl
  unfold ascProcessConfig
  refine (Reads.word (p := (f.elem tokenSubcommand).strncmp "aggregate" = false →
      (f.elem tokenSubcommand).strncmp "klog" = true → 3 ≤ f.ntoken ∧ f.ntoken ≤ 5 →
      3 < f.ntoken ∧ (KlogSubcommand set (f.elem tokenKlogCommand) → 4 < f.ntoken))
        fun a => ?_).congr ?_
  · cases (f.elem tokenSubcommand).strncmp "aggregate" with
    | true =>
      rw [if_pos rfl]
      exact reads_aggregate.congr (by simp)
    | false =>
      rw [if_neg (by simp)]
      cases (f.elem tokenSubcommand).strncmp "klog" with
      | true =>
        rw [if_pos rfl]
        exact reads_klog.congr (by simp [hbound, tokenKlogCommand, tokenKlogSubcommand])
      | false =>
        rw [if_neg (by simp)]
        refine (Reads.choice (fun _ => reads_evict) fun _ => .choice (fun _ => reads_maxbytes)
          fun _ => .choice (fun _ => reads_hotkey) fun _ => .throw _).congr (by simp)
  · simp only [tokenSubcommand]
    constructor
    · rintro ⟨h2, h⟩
      exact ⟨h2, fun hagg hklog h5 => h hagg hklog ⟨h2, h5⟩⟩
    · rintro ⟨h2, h⟩
      exact ⟨h2, fun hagg hklog h5 => h hagg hklog h5.2⟩

/-- All other handlers check the number of tokens. -/
theorem reads_ascHandler (h : 2 ≤ f.ntoken) (ht : type ≠ .config) :
    Reads (ascHandler cfg set f type) a True := by
  have hb : ∀ {type : ReqType} {nr : Bool} {n : ℕ}, f.Bounded type nr →
      n ≤ (ntokenBound type nr).1 → n ≤ f.ntoken := fun hb hn => hn.trans hb.1
  cases type with
  | set | add | replace =>
    exact reads_update (fun nr hbound => ⟨hb hbound (by cases nr <;> decide), nofun⟩) h
  | cas =>
    exact reads_update (fun nr hbound => ⟨hb hbound (by cases nr <;> decide),
      fun _ => hb hbound (by cases nr <;> decide)⟩) h
  | append | prepend | appendrl | prependrl =>
    exact reads_annex (fun nr hbound => hb hbound (by cases nr <;> decide)) h
  | incr | decr => exact reads_delta (fun nr hbound => hb hbound (by cases nr <;> decide)) h
  | delete => exact reads_delete (fun nr hbound => hb hbound (by cases nr <;> decide)) h
  | get | gets => exact reads_read
  | stats => exact reads_stats h
  | flushall => exact reads_flushall h
  | verbosity => exact reads_verbosity h
  | version | quit => exact .pure _
  | unknown => exact .throw _
  | config => exact absurd rfl ht

end

/-! ### Requests -/

/-- The requests on which `asc_process_config` and `asc_process_klog` read too much: `config`
without a subcommand, `config klog` without a command, and `config klog` with one of its commands
but without what this needs.  An initial part of a word counts for the word. -/
def Misread (set : Settings) (req : List UInt8) : Prop :=
  ∃ ws, words 32 req = ascii "config" :: ws ∧
    (ws = [] ∨
      (∃ w, ws = [w] ∧ w <+: ascii "klog") ∨
      ∃ w v, ws = [w, v] ∧ w <+: ascii "klog" ∧
        ((v <+: ascii "run" ∧ set.klogName = true) ∨ v <+: ascii "interval" ∨
          v <+: ascii "sampling"))

theorem Token.strncmp_word {w rest : List UInt8} (lit : String) :
    (Token.mk (some (w ++ rest)) w.length).strncmp lit = true ↔ w <+: ascii lit := by
  rw [strncmp, text_word, List.isPrefixOf_iff_prefix]

theorem ascParseType_config {w rest : List UInt8} :
    ascParseType ⟨some (w ++ rest), w.length⟩ = .config ↔ w = ascii "config" := by
  constructor
  · by_cases hlen : w.length = 6
    · have htake : (w ++ rest).take 6 = w := by simp [← hlen]
      simp only [ascParseType, hlen, Token.str, Option.getD_some, htake]
      split_ifs with happend hdelete hconfig
      · exact fun h => by cases h
      · exact fun h => by cases h
      · exact fun _ => hconfig
      · exact fun h => by cases h
    · unfold ascParseType
      dsimp only
      split <;> (repeat' split) <;> intro h <;>
        first | exact absurd ‹w.length = 6› hlen | cases h
  · rintro rfl
    rfl

/-- A word does not start two texts with different first letters. -/
theorem head_eq_of_starts {w : List UInt8} {a b : UInt8} {as bs : List UInt8} (hw : w ≠ [])
    (h : w <+: a :: as) (h' : w <+: b :: bs) : a = b := by
  obtain ⟨c, w, rfl⟩ := List.exists_cons_of_ne_nil hw
  exact (List.cons_prefix_cons.1 h).1.symm.trans (List.cons_prefix_cons.1 h').1

section

variable {cfg : Config} {set : Settings} {stack : ℕ → Token} {req : List UInt8} {noreply : Bool}

theorem klogSubcommand_word {v rest : List UInt8} (hv : v ≠ []) :
    KlogSubcommand set ⟨some (v ++ rest), v.length⟩ ↔
      (v <+: ascii "run" ∧ set.klogName = true) ∨ v <+: ascii "interval" ∨
          v <+: ascii "sampling" := by
  have hother : v <+: ascii "interval" ∨ v <+: ascii "sampling" → ¬ v <+: ascii "run" := by
    rintro (h | h) hrun <;> exact absurd (head_eq_of_starts hv h hrun) (by decide)
  rw [KlogSubcommand, ← Bool.not_eq_true, Token.strncmp_word, Token.strncmp_word,
    Token.strncmp_word]
  refine or_congr_right ⟨And.right, fun h => ⟨hother h, h⟩⟩

/-- What `config` reads, in terms of the words of the line. -/
theorem config_proper_iff {ws : List (List UInt8)} (hws : words 32 req = ascii "config" :: ws) :
    (2 < (Frame.ofReq stack req).ntoken ∧
      (((Frame.ofReq stack req).elem tokenSubcommand).strncmp "aggregate" = false →
        ((Frame.ofReq stack req).elem tokenSubcommand).strncmp "klog" = true →
        (Frame.ofReq stack req).ntoken ≤ 5 → 3 < (Frame.ofReq stack req).ntoken ∧
        (KlogSubcommand set ((Frame.ofReq stack req).elem tokenKlogCommand) →
          4 < (Frame.ofReq stack req).ntoken))) ↔ ¬ Misread set req := by
  have hmis : Misread set req ↔ ws = [] ∨ (∃ w, ws = [w] ∧ w <+: ascii "klog") ∨
      ∃ w v, ws = [w, v] ∧ w <+: ascii "klog" ∧ ((v <+: ascii "run" ∧ set.klogName = true) ∨
        v <+: ascii "interval" ∨ v <+: ascii "sampling") := by
    simp only [Misread, hws, List.cons.injEq, true_and, exists_eq_left']
  have hlen := ntoken_ofReq stack hws
  have hmem : ∀ w ∈ ws, w ≠ [] := fun w hw => ne_nil_of_mem_words (hws ▸ List.mem_cons_of_mem _ hw)
  -- a prefix of klog is no prefix of aggregate
  have hagg : ∀ {w : List UInt8}, w ≠ [] → w <+: ascii "klog" → ¬ w <+: ascii "aggregate" :=
    fun hw h h' => absurd (head_eq_of_starts hw h h') (by decide)
  rw [hmis]
  match ws with
  | [] => simp [hlen]
  | [w] =>
    obtain ⟨rest, helem, -, -⟩ := elem_ofReq stack hws (i := 1) (by omega) rfl
    have hw := hmem w (by simp)
    rw [tokenSubcommand, helem, hlen, ← Bool.not_eq_true, Token.strncmp_word, Token.strncmp_word]
    constructor
    · rintro ⟨-, h⟩ (⟨⟨⟩⟩ | ⟨w', hw', hklog⟩ | ⟨w', v', hw', -⟩)
      · obtain rfl : w = w' := by simpa using hw'
        simpa using (h (hagg hw hklog) hklog (by simp)).1
      · simp at hw'
    · exact fun h => ⟨by simp, fun _ hklog _ => absurd (.inr (.inl ⟨w, rfl, hklog⟩)) h⟩
  | [w, v] =>
    obtain ⟨rest, helem, -, -⟩ := elem_ofReq stack hws (i := 1) (by omega) rfl
    obtain ⟨rest', helem', -, -⟩ := elem_ofReq stack hws (i := 2) (by omega) rfl
    have hw := hmem w (by simp)
    have hv := hmem v (by simp)
    rw [tokenSubcommand, tokenKlogCommand, helem, helem', hlen, ← Bool.not_eq_true,
      Token.strncmp_word, Token.strncmp_word, klogSubcommand_word hv]
    constructor
    · rintro ⟨-, h⟩ (⟨⟨⟩⟩ | ⟨w', hw', -⟩ | ⟨w', v', hw', hklog, hsub⟩)
      · simp at hw'
      · obtain ⟨rfl, rfl⟩ : w = w' ∧ v = v' := by simpa using hw'
        simpa using (h (hagg hw hklog) hklog (by simp)).2 hsub
    · refine fun h => ⟨by simp, fun _ hklog _ => ⟨by simp, fun hsub => ?_⟩⟩
      exact absurd (.inr (.inr ⟨w, v, rfl, hklog, hsub⟩)) h
  | w :: v :: x :: ws =>
    rw [hlen]
    simp only [List.length_cons]
    constructor
    · rintro - (⟨⟨⟩⟩ | ⟨w', hw', -⟩ | ⟨w', v', hw', -⟩) <;> simp at hw'
    · exact fun _ => ⟨by omega, fun _ _ _ => ⟨by omega, fun _ => by omega⟩⟩

theorem Misread.reqTypeOf_eq (h : Misread set req) : reqTypeOf req = .config := by
  obtain ⟨ws, hws, -⟩ := h
  -- the memory of the array does not matter, so it may hold anything
  let stack : ℕ → Token := fun _ => ⟨none, 0⟩
  have hlen := ntoken_ofReq stack hws
  obtain ⟨rest, helem, -, -⟩ := elem_ofReq stack hws (i := 0) (by omega) rfl
  obtain ⟨uses, htype⟩ := on_reqTypeOf stack req ⟨false, []⟩
  rw [on_ascType stack req (by rw [hlen, List.length_cons]; omega), tokenCommand, helem] at htype
  rw [← ascParseType_config.2 rfl]
  exact (Except.ok.inj (Prod.mk.inj htype).1).symm

/-- **The accesses of the handlers are proper** exactly if the request is none of a few malformed
`config` commands. -/
theorem uses_ascDispatch (cfg : Config) (set : Settings) (stack : ℕ → Token) (req : List UInt8)
    (noreply : Bool) : (∀ u ∈ (ascDispatch cfg set stack req noreply).2.uses, u.Proper) ↔
    ¬ Misread set req := by
  suffices h : Reads (do ascHandler cfg set (.ofReq stack req) (← ascType (.ofReq stack req)))
      ⟨noreply, []⟩ (¬ Misread set req) by
    obtain ⟨l, hl, hp⟩ := h
    have huses : (ascDispatch cfg set stack req noreply).2.uses = l := by
      rw [ascDispatch_eq]
      generalize Handler.on _ _ = r at hl ⊢
      obtain ⟨_ | _, a⟩ := r <;> exact hl
    rw [huses, hp]
  cases hws : words 32 req with
  | nil =>
    have hlen := ntoken_ofReq stack hws
    have htype : (ascType (.ofReq stack req)).on ⟨noreply, []⟩ = (.ok .unknown, ⟨noreply, []⟩) := by
      rw [ascType, if_pos (by rw [hlen]; simp)]
      rfl
    refine .quiet htype rfl ((Reads.throw _).congr ?_)
    simp [Misread, hws]
  | cons w ws =>
    have hlen := ntoken_ofReq stack hws
    obtain ⟨rest, helem, -, -⟩ := elem_ofReq stack hws (i := 0) (by omega) rfl
    have hn : 2 ≤ (Frame.ofReq stack req).ntoken := by
      rw [hlen, List.length_cons]
      omega
    have htype := on_ascType stack req hn ⟨noreply, []⟩
    refine (Reads.after htype rfl (p := ¬ Misread set req) (fun type ht => ?_)
      (by rintro ⟨r, ⟨⟩⟩)).congr (by rw [tokenCommand]; simp; omega)
    obtain rfl := Except.ok.inj ht
    rw [tokenCommand, helem]
    by_cases hw : w = ascii "config"
    · rw [ascParseType_config.2 hw]
      exact reads_config.congr (config_proper_iff (hw ▸ hws))
    · refine (reads_ascHandler hn (mt ascParseType_config.1 hw)).congr ?_
      simp [Misread, hws, hw]

end

end Twemcache
