import Twemcache.Ascii.Grammar

/-!
# Requests with a data block

A storage command is followed by a data block.  Whether a request is one that its handler accepts,
and how long its data block is, is decided by the tokens of the request alone: neither the settings
nor what the memory of the token array held before matter.

## Main definitions

* `ReqType.storing` : the types of the storage commands.
* `blockOf` : the length of the value that follows a request, if its handler goes on to allocate an
  item.
* `Announces` : a request that is a storage command and says how long its value is.
* `Stores` : nothing else in the request keeps its handler from going on.

## Main results

* `blockOf_eq` : whatever the settings are, these are the requests for which the handler goes on.
* `blockOf_of_announces` : the requests that say how long their value is and are yet rejected.
-/

namespace Twemcache

/-- The types of the storage commands. -/
def ReqType.storing :
    List ReqType := [.set, .add, .replace, .cas, .append, .prepend, .appendrl, .prependrl]

/-- The types of the storage commands that `asc_process_update` handles. -/
def ReqType.updating : List ReqType := [.set, .add, .replace, .cas]

/-- The length of the value for which an item is to be allocated. -/
def Command.vlen : Command → Option ℕ
  | .update _ _ _ _ vlen _ => some vlen
  | .annex _ _ vlen => some vlen
  | _ => none

/-- The length of the value that follows a request, and whether the client wants no reply, if the
handler of the request goes on to allocate an item.  (The settings are those of a server without
options.) -/
def blockOf (cfg : Config) (req : List UInt8) : Option (ℕ × Bool) :=
  let d := ascDispatch cfg (.initial fun _ => 0) (fun _ => ⟨none, 0⟩) req false
  d.1.vlen.map fun vlen => (vlen, d.2.noreply)

/-- The request is a storage command with the right number of tokens, and the length of its value
can be read, and its flags and its expiry if its handler reads them. -/
def Announces (req : List UInt8) (vlen : ℕ) : Prop :=
  let f := Frame.ofReq (fun _ => ⟨none, 0⟩) req
  reqTypeOf req ∈ ReqType.storing ∧ f.Bounded (reqTypeOf req) f.lastIsNoreply ∧
    mcStrtoul (f.elem tokenVlen).str = some vlen ∧
    (reqTypeOf req ∈ ReqType.updating →
      (mcStrtoul (f.elem tokenFlags).str).isSome ∧ (mcStrtol (f.elem tokenExpiry).str).isSome)

/-- The key of the request is not too long, there is a slab class for the item, and the cas id can
be read if there is one. -/
def Stores (cfg : Config) (req : List UInt8) (vlen : ℕ) : Prop :=
  let f := Frame.ofReq (fun _ => ⟨none, 0⟩) req
  (∃ key, f.keyField = some key ∧ itemSlabid cfg key.length vlen ≠ slabclassInvalidId) ∧
    (f.casField (reqTypeOf req)).isSome

instance (req : List UInt8) (vlen : ℕ) :
    Decidable (Announces req vlen) := inferInstanceAs (Decidable (_ ∧ _))

section

variable {cfg : Config} {set : Settings} {stack stack' : ℕ → Token} {req : List UInt8}
  {noreply : Bool} {i vlen : ℕ}

theorem documented_of_storing {type : ReqType} (h : type ∈ ReqType.storing) :
    type ∈ ReqType.documented := by
  revert h
  cases type <;> decide

/-- The tokens of the request do not depend on the memory of the array. -/
theorem elem_stack (h : i < (Frame.ofReq stack req).ntoken) :
    (Frame.ofReq stack req).elem i = (Frame.ofReq stack' req).elem i := by
  have hlt : i < (ascTokenize req tokenMax).length := h
  simp only [Frame.elem, Frame.ofReq, List.getElem?_eq_getElem hlt, Option.getD_some]

/-- What a storage command with the right number of tokens says does not depend on the memory of the
array. -/
theorem fields_stack {type : ReqType} (ht : type ∈ ReqType.storing) {nr : Bool}
    (hb : (Frame.ofReq stack req).Bounded type nr) :
    (Frame.ofReq stack req).updateFields cfg type = (Frame.ofReq stack' req).updateFields cfg type ∧
      (Frame.ofReq stack req).annexFields cfg = (Frame.ofReq stack' req).annexFields cfg := by
  rw [Frame.Bounded, ntokenBound_documented (documented_of_storing ht)] at hb
  have hsix : 6 ≤ (Frame.ofReq stack req).ntoken := by
    have hn : 5 ≤ type.nword := by
      revert ht
      cases type <;> decide
    omega
  have hcas : (Frame.ofReq stack req).casField type = (Frame.ofReq stack' req).casField type := by
    unfold Frame.casField
    split_ifs with htype
    · have hn : type.nword = 6 := by rw [htype]; rfl
      rw [elem_stack (by rw [tokenCas]; omega)]
    · rfl
  have hkey : (Frame.ofReq stack req).keyField = (Frame.ofReq stack' req).keyField := by
    unfold Frame.keyField
    rw [elem_stack (by rw [tokenKey]; omega)]
  have hvlen : (Frame.ofReq stack req).elem tokenVlen = (Frame.ofReq stack' req).elem tokenVlen :=
    elem_stack (by rw [tokenVlen]; omega)
  have hflags : (Frame.ofReq stack req).elem tokenFlags =
      (Frame.ofReq stack' req).elem tokenFlags :=
    elem_stack (by rw [tokenFlags]; omega)
  have hexpiry : (Frame.ofReq stack req).elem tokenExpiry =
      (Frame.ofReq stack' req).elem tokenExpiry :=
    elem_stack (by rw [tokenExpiry]; omega)
  constructor
  · unfold Frame.updateFields
    rw [hkey, hflags, hexpiry, hvlen, hcas]
  · unfold Frame.annexFields
    rw [hkey, hvlen]

/-- The length of the value, as the handler reads it with all other fields. -/
def Frame.vlenField (cfg : Config) (f : Frame) (type : ReqType) : Option ℕ :=
  if type ∈ ReqType.updating then (f.updateFields cfg type).map fun x => x.2.2.2.1
  else (f.annexFields cfg).map Prod.snd

theorem vlen_command (cfg : Config) (set : Settings) (f : Frame) {type : ReqType}
    (ht : type ∈ ReqType.storing) :
    (f.command cfg set type).bind Command.vlen = f.vlenField cfg type := by
  have hcases : type ∈ ReqType.updating ∧ f.command cfg set type = (f.updateFields cfg type).map
        (fun x => .update type x.1 (if set.hotkeyEnable then 0 else x.2.1) x.2.2.1
          x.2.2.2.1 x.2.2.2.2) ∨
      type ∉ ReqType.updating ∧ f.command cfg set type =
        (f.annexFields cfg).map fun x => .annex type x.1 x.2 := by
    cases type
    case set | add | replace | cas => exact .inl ⟨by decide, rfl⟩
    case append | prepend | appendrl | prependrl => exact .inr ⟨by decide, rfl⟩
    all_goals exact absurd ht (by decide)
  unfold Frame.vlenField
  rcases hcases with ⟨hup, heq⟩ | ⟨hup, heq⟩
  · rw [heq, if_pos hup]
    cases f.updateFields cfg type <;> rfl
  · rw [heq, if_neg hup]
    cases f.annexFields cfg <;> rfl

/-- The length of the value that follows a storage command. -/
theorem vlen_ascDispatch (set : Settings) (stack : ℕ → Token)
    (ht : reqTypeOf req ∈ ReqType.storing) :
    (ascDispatch cfg set stack req noreply).1.vlen =
      if (Frame.ofReq stack req).Bounded (reqTypeOf req)
          (noreply || (Frame.ofReq stack req).lastIsNoreply) then
        (Frame.ofReq stack req).vlenField cfg (reqTypeOf req) else none := by
  rw [(ascDispatch_fields cfg set stack noreply (documented_of_storing ht)).1]
  split_ifs
  · rw [← vlen_command cfg set _ ht]
    cases (Frame.ofReq stack req).command cfg set (reqTypeOf req) <;> rfl
  · rfl

/-- Who is neither stored nor read nor quit is carried out at once. -/
theorem plain_ascDispatch (set : Settings) (stack : ℕ → Token)
    (ht : reqTypeOf req ∉ ReqType.storing)
    (hread : ¬ (reqTypeOf req = .get ∨ reqTypeOf req = .gets)) (hquit : reqTypeOf req ≠ .quit) :
    (ascDispatch cfg set stack req noreply).1.plain = true := by
  refine ascDispatch_plain fun hmem => ?_
  simp only [ReqType.storing, List.mem_cons, List.not_mem_nil, or_false, not_or] at hmem ht hread
  tauto

/-- No other request is followed by a value. -/
theorem vlen_of_not_storing (set : Settings) (stack : ℕ → Token)
    (ht : reqTypeOf req ∉ ReqType.storing) :
    (ascDispatch cfg set stack req noreply).1.vlen = none := by
  by_cases hread : reqTypeOf req = .get ∨ reqTypeOf req = .gets
  · rw [(ascDispatch_read hread).1]
    split_ifs <;> rfl
  · by_cases hquit : reqTypeOf req = .quit
    · rw [(ascDispatch_quit hquit).1]
      rfl
    · have hplain : (ascDispatch cfg set stack req noreply).1.plain = true :=
        plain_ascDispatch set stack ht hread hquit
      generalize (ascDispatch cfg set stack req noreply).1 = cmd at hplain
      cases cmd <;> first | rfl | cases hplain

/-- A storage command is refused, or it is followed by a value. -/
theorem stores_ascDispatch (set : Settings) (stack : ℕ → Token)
    (ht : reqTypeOf req ∈ ReqType.storing) :
    (∃ r, (ascDispatch cfg set stack req noreply).1 = .respond r) ∨
      (ascDispatch cfg set stack req noreply).1.vlen.isSome := by
  rw [(ascDispatch_fields cfg set stack noreply (documented_of_storing ht)).1]
  split_ifs
  · cases hcmd : (Frame.ofReq stack req).command cfg set (reqTypeOf req) with
    | none => exact .inl ⟨_, rfl⟩
    | some cmd =>
      have hvlen := vlen_command cfg set (Frame.ofReq stack req) ht
      rw [hcmd, Option.bind_some] at hvlen
      rw [Option.getD_some, hvlen]
      unfold Frame.command at hcmd
      unfold Frame.vlenField
      generalize Frame.ofReq stack req = f at hcmd
      generalize reqTypeOf req = type at ht hcmd
      cases type
      case set | add | replace | cas =>
        obtain ⟨x, hx, -⟩ := Option.map_eq_some_iff.1 hcmd
        rw [if_pos (by decide), hx]
        exact .inr rfl
      case append | prepend | appendrl | prependrl =>
        obtain ⟨x, hx, -⟩ := Option.map_eq_some_iff.1 hcmd
        rw [if_neg (by decide), hx]
        exact .inr rfl
      all_goals exact absurd ht (by decide)
  · exact .inl ⟨_, rfl⟩

/-- What the handler of a command has checked about its key, and about the size of the item. -/
def Command.Checked (cfg : Config) : Command → Prop
  | .update _ key _ _ vlen _ | .annex _ key vlen =>
    key.length ≤ keyMaxLen ∧ itemSlabid cfg key.length vlen ≠ slabclassInvalidId
  | .delta _ key _ | .delete key => key.length ≤ keyMaxLen
  | _ => True

theorem keyField_le {f : Frame} {key : Key} (h : f.keyField = some key) :
    key.length ≤ keyMaxLen := by
  unfold Frame.keyField at h
  obtain ⟨hlen, heq⟩ := Option.ite_none_left_eq_some.1 h
  rw [← Option.some.inj heq]
  exact (List.length_take_le _ _).trans (Nat.le_of_not_lt hlen)

theorem slabField_ne {nkey vlen : ℕ} {u : Unit} (h : slabField cfg nkey vlen = some u) :
    itemSlabid cfg nkey vlen ≠ slabclassInvalidId :=
  (Option.ite_none_left_eq_some.1 h).1

/-- A storage command, `incr`, `decr` or `delete` is run with fields that were checked. -/
theorem checked_command {f : Frame} {type : ReqType} {cmd : Command}
    (h : f.command cfg set type = some cmd) :
    cmd.Checked cfg := by
  have hannex : ∀ {x : Key × ℕ}, f.annexFields cfg = some x →
      x.1.length ≤ keyMaxLen ∧ itemSlabid cfg x.1.length x.2 ≠ slabclassInvalidId := by
    intro x hx
    obtain ⟨key, hkey, hx⟩ := Option.bind_eq_some_iff.1 hx
    obtain ⟨vlen, -, hx⟩ := Option.bind_eq_some_iff.1 hx
    obtain ⟨u, hu, rfl⟩ := Option.map_eq_some_iff.1 hx
    exact ⟨keyField_le hkey, slabField_ne hu⟩
  have hupdate : ∀ {x : Key × ℕ × ℤ × ℕ × Option ℕ}, f.updateFields cfg type = some x →
      x.1.length ≤ keyMaxLen ∧ itemSlabid cfg x.1.length x.2.2.2.1 ≠ slabclassInvalidId := by
    intro x hx
    obtain ⟨key, hkey, hx⟩ := Option.bind_eq_some_iff.1 hx
    obtain ⟨flags, -, hx⟩ := Option.bind_eq_some_iff.1 hx
    obtain ⟨exptime, -, hx⟩ := Option.bind_eq_some_iff.1 hx
    obtain ⟨vlen, -, hx⟩ := Option.bind_eq_some_iff.1 hx
    obtain ⟨u, hu, hx⟩ := Option.bind_eq_some_iff.1 hx
    obtain ⟨casId, -, rfl⟩ := Option.map_eq_some_iff.1 hx
    exact ⟨keyField_le hkey, slabField_ne hu⟩
  unfold Frame.command at h
  cases type with
  | append | prepend | appendrl | prependrl =>
    obtain ⟨x, hx, rfl⟩ := Option.map_eq_some_iff.1 h
    exact hannex hx
  | incr | decr =>
    obtain ⟨key, hkey, h⟩ := Option.bind_eq_some_iff.1 h
    obtain ⟨delta, -, h⟩ := Option.bind_eq_some_iff.1 h
    rw [← Option.some.inj h]
    exact keyField_le hkey
  | delete =>
    obtain ⟨key, hkey, h⟩ := Option.bind_eq_some_iff.1 h
    rw [← Option.some.inj h]
    exact keyField_le hkey
  | _ =>
    obtain ⟨x, hx, rfl⟩ := Option.map_eq_some_iff.1 h
    exact hupdate hx

/-- **A command that names a key is run only if its checks have been passed.** -/
theorem checked_ascDispatch : (ascDispatch cfg set stack req noreply).1.Checked cfg := by
  by_cases ht : reqTypeOf req ∈ ReqType.documented
  · rw [(ascDispatch_fields cfg set stack noreply ht).1]
    split_ifs
    · cases hcmd : (Frame.ofReq stack req).command cfg set (reqTypeOf req) with
      | none => trivial
      | some cmd => exact checked_command hcmd
    · trivial
  by_cases hread : reqTypeOf req = .get ∨ reqTypeOf req = .gets
  · rw [(ascDispatch_read hread).1]
    split_ifs <;> trivial
  by_cases hquit : reqTypeOf req = .quit
  · rw [(ascDispatch_quit hquit).1]
    trivial
  obtain ⟨uses, hd⟩ := ascDispatch_type cfg set stack req noreply
  have hkeyless : Yields (ascHandler cfg set (Frame.ofReq stack req) (reqTypeOf req))
      (Command.Checked cfg) := by
    refine yields_keyless ?_ (fun _ => trivial) (fun _ => trivial) (fun _ => trivial)
      fun _ => trivial
    revert ht hread hquit
    cases reqTypeOf req <;> decide
  rw [hd]
  generalize hon : (ascHandler cfg set (Frame.ofReq stack req) (reqTypeOf req)).on
    ⟨noreply, uses⟩ = r
  obtain ⟨_ | cmd, a⟩ := r
  · trivial
  · exact hkeyless _ _ _ hon

/-- Only `quit` ends the connection. -/
theorem quit_of_ascDispatch {set : Settings} {stack : ℕ → Token}
    (h : (ascDispatch cfg set stack req noreply).1 = .quit) : reqTypeOf req = .quit := by
  by_contra hquit
  by_cases ht : reqTypeOf req ∈ ReqType.storing
  · have hstores : (∃ r, (ascDispatch cfg set stack req noreply).1 = .respond r) ∨
        (ascDispatch cfg set stack req noreply).1.vlen.isSome := stores_ascDispatch set stack ht
    rcases hstores with ⟨r, hr⟩ | hvlen
    · rw [h] at hr
      cases hr
    · rw [h] at hvlen
      cases hvlen
  · by_cases hread : reqTypeOf req = .get ∨ reqTypeOf req = .gets
    · rw [(ascDispatch_read hread).1] at h
      split_ifs at h
    · have hplain : (ascDispatch cfg set stack req noreply).1.plain = true :=
        plain_ascDispatch set stack ht hread hquit
      rw [h] at hplain
      cases hplain

/-- Reading is what `get` and `gets` do. -/
theorem type_of_read {set : Settings} {stack : ℕ → Token} {returnCas : Bool}
    (h : (ascDispatch cfg set stack req noreply).1 = .read returnCas) :
    reqTypeOf req = .get ∨ reqTypeOf req = .gets := by
  by_contra hread
  by_cases ht : reqTypeOf req ∈ ReqType.storing
  · have hstores : (∃ r, (ascDispatch cfg set stack req noreply).1 = .respond r) ∨
        (ascDispatch cfg set stack req noreply).1.vlen.isSome := stores_ascDispatch set stack ht
    rcases hstores with ⟨r, hr⟩ | hvlen
    · rw [h] at hr
      cases hr
    · rw [h] at hvlen
      cases hvlen
  · by_cases hquit : reqTypeOf req = .quit
    · rw [(ascDispatch_quit hquit).1] at h
      cases h
    · have hplain : (ascDispatch cfg set stack req noreply).1.plain = true :=
        plain_ascDispatch set stack ht hread hquit
      rw [h] at hplain
      cases hplain

/-- Reading is never without a reply. -/
theorem noreply_of_read {set : Settings} {stack : ℕ → Token} {returnCas : Bool}
    (h : (ascDispatch cfg set stack req noreply).1 = .read returnCas) :
    (ascDispatch cfg set stack req noreply).2.noreply = noreply :=
  (ascDispatch_read (type_of_read h)).2

/-- Statistics are never without a reply. -/
theorem noreply_of_stats {set : Settings} {stack : ℕ → Token} {sub : StatsCommand}
    (h : (ascDispatch cfg set stack req noreply).1 = .stats sub) :
    (ascDispatch cfg set stack req noreply).2.noreply = noreply := by
  obtain ⟨uses, hd⟩ := ascDispatch_type cfg set stack req noreply
  rw [hd] at h ⊢
  by_cases ht : reqTypeOf req = .stats
  · rw [ht] at h ⊢
    have hkeeps : Keeps (ascHandler cfg set (Frame.ofReq stack req) .stats) := keeps_stats
    generalize hon : (ascHandler cfg set (Frame.ofReq stack req) .stats).on ⟨noreply, uses⟩ = r
      at h ⊢
    obtain ⟨_ | cmd, a⟩ := r
    · cases h
    · exact hkeeps _ _ _ hon
  · exfalso
    rw [← hd] at h
    by_cases hstore : reqTypeOf req ∈ ReqType.storing
    · have hstores : (∃ r, (ascDispatch cfg set stack req noreply).1 = .respond r) ∨
          (ascDispatch cfg set stack req noreply).1.vlen.isSome :=
            stores_ascDispatch set stack hstore
      rcases hstores with ⟨r, hr⟩ | hvlen
      · rw [h] at hr
        cases hr
      · rw [h] at hvlen
        cases hvlen
    by_cases hread : reqTypeOf req = .get ∨ reqTypeOf req = .gets
    · rw [(ascDispatch_read hread).1] at h
      split_ifs at h
    by_cases hquit : reqTypeOf req = .quit
    · rw [(ascDispatch_quit hquit).1] at h
      cases h
    have hprompt : Yields (ascHandler cfg set (Frame.ofReq stack req) (reqTypeOf req))
        (·.prompt = true) := by
      refine yields_prompt fun hmem => ?_
      simp only [ReqType.storing, List.mem_cons, List.not_mem_nil, or_false, not_or]
        at hmem hstore hread
      tauto
    rw [hd] at h
    generalize hon : (ascHandler cfg set (Frame.ofReq stack req) (reqTypeOf req)).on
      ⟨noreply, uses⟩ = r at h
    obtain ⟨_ | cmd, a⟩ := r
    · cases h
    · have hcmd := hprompt _ _ _ hon
      rw [show cmd = .stats sub from h] at hcmd
      cases hcmd

/-- A storage command has a word, and the empty token after it. -/
theorem ntoken_of_storing (stack : ℕ → Token) (ht : reqTypeOf req ∈ ReqType.storing) :
    2 ≤ (Frame.ofReq stack req).ntoken := by
  unfold reqTypeOf at ht
  unfold Frame.ntoken Frame.ofReq
  generalize ascTokenize req tokenMax = ts at ht ⊢
  rcases ts with _ | ⟨t, _ | ⟨t', ts⟩⟩
  · exact absurd (show ReqType.unknown ∈ ReqType.storing from ht) (by decide)
  · exact absurd (show ReqType.unknown ∈ ReqType.storing from ht) (by decide)
  · simp

/-- Whether the last word is `noreply` does not depend on the memory of the array. -/
theorem lastIsNoreply_stack (h : 2 ≤ (Frame.ofReq stack req).ntoken) :
    (Frame.ofReq stack req).lastIsNoreply = (Frame.ofReq stack' req).lastIsNoreply := by
  have hidx : (Frame.ofReq stack req).ntoken - 2 < (Frame.ofReq stack req).ntoken := by omega
  unfold Frame.lastIsNoreply
  rw [elem_stack hidx]
  rfl

/-- The fields of a storage command do not depend on the memory of the array. -/
theorem vlenField_stack {type : ReqType} (ht : type ∈ ReqType.storing) {nr : Bool}
    (hb : (Frame.ofReq stack req).Bounded type nr) :
    (Frame.ofReq stack req).vlenField cfg type = (Frame.ofReq stack' req).vlenField cfg type := by
  have hfields : (Frame.ofReq stack req).updateFields cfg type =
      (Frame.ofReq stack' req).updateFields cfg type ∧
      (Frame.ofReq stack req).annexFields cfg = (Frame.ofReq stack' req).annexFields cfg :=
        fields_stack ht hb
  unfold Frame.vlenField
  rw [hfields.1, hfields.2]

/-- **Which requests are followed by a data block is decided by their tokens alone.** -/
theorem blockOf_eq (cfg : Config) (set : Settings) (stack : ℕ → Token) (req : List UInt8) :
    blockOf cfg req =
    (ascDispatch cfg set stack req false).1.vlen.map fun vlen =>
      (vlen, (ascDispatch cfg set stack req false).2.noreply) := by
  unfold blockOf
  dsimp only
  by_cases ht : reqTypeOf req ∈ ReqType.storing
  · have hdoc := documented_of_storing ht
    have hlast : (Frame.ofReq stack req).lastIsNoreply =
        (Frame.ofReq (fun _ => ⟨none, 0⟩) req).lastIsNoreply :=
      lastIsNoreply_stack (ntoken_of_storing stack ht)
    have hfield :
        (Frame.ofReq stack req).Bounded (reqTypeOf req) (Frame.ofReq stack req).lastIsNoreply →
        (Frame.ofReq stack req).vlenField cfg (reqTypeOf req) =
          (Frame.ofReq (fun _ => ⟨none, 0⟩) req).vlenField cfg (reqTypeOf req) :=
            fun hb => vlenField_stack ht hb
    rw [vlen_ascDispatch set stack ht,
      vlen_ascDispatch (.initial fun _ => 0) (fun _ => ⟨none, 0⟩) ht,
      (ascDispatch_fields cfg set stack false hdoc).2,
      (ascDispatch_fields cfg (.initial fun _ => 0) (fun _ => ⟨none, 0⟩) false hdoc).2,
        Bool.false_or, Bool.false_or,
      ← hlast]
    by_cases hb : (Frame.ofReq stack req).Bounded (reqTypeOf req)
      (Frame.ofReq stack req).lastIsNoreply
    · rw [if_pos hb, if_pos (show (Frame.ofReq (fun _ => ⟨none, 0⟩) req).Bounded _ _ from hb),
        hfield hb]
    · rw [if_neg hb, if_neg (show ¬ (Frame.ofReq (fun _ => ⟨none, 0⟩) req).Bounded _ _ from hb),
        Option.map_none]
  · rw [vlen_of_not_storing set stack ht, vlen_of_not_storing (.initial fun _ => 0)
      (fun _ => ⟨none, 0⟩) ht, Option.map_none, Option.map_none]

/-- A request with a data block does not end the connection. -/
theorem not_quit_of_blockOf {x : ℕ × Bool} (h : blockOf cfg req = some x) :
    reqTypeOf req ≠ .quit := by
  intro hquit
  rw [blockOf_eq cfg (.initial fun _ => 0) (fun _ => ⟨none, 0⟩), (ascDispatch_quit hquit).1] at h
  cases h

/-- **A storage command that says how long its value is gets no further** if its key is too long, or
there is no slab class for the item, or it is a `cas` whose cas id cannot be read. -/
theorem blockOf_of_announces (cfg : Config) (h : Announces req vlen) :
    Stores cfg req vlen ∧
      blockOf cfg req = some (vlen, (Frame.ofReq (fun _ => ⟨none, 0⟩) req).lastIsNoreply) ∨
      ¬ Stores cfg req vlen ∧ blockOf cfg req = none := by
  obtain ⟨ht, hb, hvlen, hfields⟩ := h
  unfold Stores
  rw [blockOf_eq cfg (.initial fun _ => 0) (fun _ => ⟨none, 0⟩), vlen_ascDispatch _ _ ht,
    (ascDispatch_fields cfg _ _ false (documented_of_storing ht)).2, Bool.false_or, if_pos hb]
  generalize Frame.ofReq (fun _ => ⟨none, 0⟩) req = f at hvlen hfields ⊢
  have hslab : ∀ nkey, slabField cfg nkey vlen =
      if itemSlabid cfg nkey vlen = slabclassInvalidId then none else some () := fun _ => rfl
  unfold Frame.vlenField
  by_cases hup : reqTypeOf req ∈ ReqType.updating
  · obtain ⟨hflags, hexpiry⟩ := hfields hup
    obtain ⟨flags, hflags⟩ := Option.isSome_iff_exists.1 hflags
    obtain ⟨exptime, hexpiry⟩ := Option.isSome_iff_exists.1 hexpiry
    rw [if_pos hup]
    unfold Frame.updateFields
    rw [hflags, hexpiry, hvlen]
    cases hkey : f.keyField with
    | none => simp [hkey]
    | some key =>
      cases hcas : f.casField (reqTypeOf req) with
      | none => simp [hcas]
      | some cas =>
        by_cases hid : itemSlabid cfg key.length vlen = slabclassInvalidId <;>
          simp [hslab, hkey, hcas, hid]
  · have hcas : f.casField (reqTypeOf req) = some none := if_neg fun hc => hup (by rw [hc]; decide)
    dsimp only
    rw [if_neg hup, hcas]
    unfold Frame.annexFields
    rw [hvlen]
    cases hkey : f.keyField with
    | none => simp
    | some key =>
      by_cases hid : itemSlabid cfg key.length vlen = slabclassInvalidId <;> simp [hslab, hid]

end

end Twemcache
