import Twemcache.Ascii.Run

/-!
# The documented grammar

The comment at the head of `mc_ascii.c` gives the forms that requests have.  For the storage
commands, `incr`, `decr` and `delete` the handlers run a request of such a form with exactly its
fields, and reject a line with any other number of words, with two exceptions: the tokenizer stops
after seven words, so it does not see what follows the `noreply` of a `cas`; and the key `noreply`
of a `delete` is taken for the optional last word.

## Main definitions

* `Form` : the documented forms, with their words and the command that each of them stands for.
* `Miscounted` : a line that starts with one of the command words and has a wrong number of words.
* `Overrun` : an overlong `cas`.

## Main results

* `Form.Spells.runs`, `Miscounted.rejected`, `Overrun.accepted` : what becomes of such lines.
-/

namespace Twemcache

open Handler

/-! ### The words of a request -/

/-- The token array for a request. -/
def Frame.ofReq (stack : ℕ → Token) (req : List UInt8) : Frame := ⟨ascTokenize req tokenMax, stack⟩

section

variable (stack : ℕ → Token) {req w : List UInt8} {ws : List (List UInt8)} {i : ℕ}

theorem ntoken_ofReq (hws : words 32 req = ws) :
    (Frame.ofReq stack req).ntoken = min 7 ws.length + 1 := by
  rw [← hws]
  exact (filled_ascTokenize req).length

/-- The token of a word. -/
theorem elem_ofReq (hws : words 32 req = ws) (hi : i < 7) (hw : ws[i]? = some w) :
    ∃ rest, (Frame.ofReq stack req).elem i = ⟨some (w ++ rest), w.length⟩ ∧ Separated rest ∧
      words 32 (w ++ rest) = ws.drop i := by
  have hlen := (filled_ascTokenize req).length
  have hlt := (List.getElem?_eq_some_iff.1 hw).1
  rw [hws] at hlen
  obtain ⟨w', rest, hw', hts, -, -, hsep, hrest⟩ := (filled_ascTokenize req).get (i := i)
    (by rw [hlen, tokenMax]; omega)
  rw [hws, hw] at hw'
  obtain rfl := Option.some.inj hw'
  refine ⟨rest, ?_, hsep, hws ▸ hrest⟩
  simp only [Frame.elem, Frame.ofReq, hts, Option.getD_some]

end

namespace Token

variable {w rest : List UInt8}

@[simp] theorem text_word : (Token.mk (some (w ++ rest)) w.length).text = w := by
  simp [text, str]

@[simp] theorem str_word : (Token.mk (some (w ++ rest)) w.length).str = w ++ rest := rfl

theorem equals_word (lit : String) :
    (Token.mk (some (w ++ rest)) w.length).equals lit = decide (w = ascii lit) := by
  have htake : (Token.mk (some (w ++ rest)) w.length).str.take w.length = w := by simp
  rw [equals, htake]
  by_cases h : w = ascii lit
  · simp [h]
  · simp [h]

end Token

/-! ### Command words -/

/-- The commands of the grammar. -/
def ReqType.documented : List ReqType :=
  [.set, .add, .replace, .append, .prepend, .appendrl, .prependrl, .cas, .incr, .decr, .delete]

/-- Their words. -/
def ReqType.commandWord : ReqType → List UInt8
  | .set => ascii "set"
  | .add => ascii "add"
  | .replace => ascii "replace"
  | .append => ascii "append"
  | .prepend => ascii "prepend"
  | .appendrl => ascii "appendrl"
  | .prependrl => ascii "prependrl"
  | .cas => ascii "cas"
  | .incr => ascii "incr"
  | .decr => ascii "decr"
  | .delete => ascii "delete"
  | _ => []

/-- The number of their words, without `noreply`. -/
def ReqType.nword : ReqType → ℕ
  | .cas => 6
  | .incr | .decr => 3
  | .delete => 2
  | _ => 5

/-- The first token decides the type; a command of three letters needs a space after it. -/
theorem ascParseType_word {type : ReqType} {rest : List UInt8} (ht : type ∈ ReqType.documented)
    (hsep : Separated rest) :
    ascParseType ⟨some (type.commandWord ++ rest), type.commandWord.length⟩ =
      if rest = [] ∧ type.commandWord.length = 3 then .unknown else type := by
  cases rest with
  | nil => revert ht; cases type <;> decide
  | cons b r =>
    obtain rfl : b = 32 := hsep b rfl
    simp only [ReqType.documented, List.mem_cons, List.not_mem_nil, or_false] at ht
    rcases ht with rfl | rfl | rfl | rfl | rfl | rfl | rfl | rfl | rfl | rfl | rfl <;> rfl

/-- The bounds of the table are those of the grammar. -/
theorem ntokenBound_documented {type : ReqType} (ht : type ∈ ReqType.documented) (noreply : Bool) :
    ntokenBound type noreply =
      (type.nword + 1 + noreply.toNat, type.nword + 1 + noreply.toNat) := by
  revert ht noreply
  cases type <;> decide

/-- What the handler makes of the fields. -/
def Frame.command (cfg : Config) (set : Settings) (f : Frame) : ReqType → Option Command
  | .append => (f.annexFields cfg).map fun (key, vlen) => .annex .append key vlen
  | .prepend => (f.annexFields cfg).map fun (key, vlen) => .annex .prepend key vlen
  | .appendrl => (f.annexFields cfg).map fun (key, vlen) => .annex .appendrl key vlen
  | .prependrl => (f.annexFields cfg).map fun (key, vlen) => .annex .prependrl key vlen
  | .incr => f.keyField.bind fun key =>
    (mcStrtoull (f.elem tokenDelta).str).bind fun delta => some (.delta true key delta)
  | .decr => f.keyField.bind fun key =>
    (mcStrtoull (f.elem tokenDelta).str).bind fun delta => some (.delta false key delta)
  | .delete => f.keyField.bind fun key => some (.delete key)
  | type => (f.updateFields cfg type).map fun (key, flags, exptime, vlen, casId) =>
    .update type key (if set.hotkeyEnable then 0 else flags) exptime vlen casId

section

variable {cfg : Config} {set : Settings} {stack : ℕ → Token} {req : List UInt8} {type : ReqType}
  {ws : List (List UInt8)} {noreply : Bool}

theorem gives_command (cfg : Config) (set : Settings) {f : Frame} {a : Asc}
    (ht : type ∈ ReqType.documented) (h : 2 ≤ f.ntoken) :
    Gives (ascHandler cfg set f type) a (a.noreply || f.lastIsNoreply)
      (if f.Bounded type (a.noreply || f.lastIsNoreply) then f.command cfg set type else none) := by
  simp only [ReqType.documented, List.mem_cons, List.not_mem_nil, or_false] at ht
  rcases ht with rfl | rfl | rfl | rfl | rfl | rfl | rfl | rfl | rfl | rfl | rfl
  · exact gives_update h
  · exact gives_update h
  · exact gives_update h
  · exact gives_annex h
  · exact gives_annex h
  · exact gives_annex h
  · exact gives_annex h
  · exact gives_update h
  · exact gives_delta h
  · exact gives_delta h
  · exact gives_delete h

theorem ascDispatch_eq : ascDispatch cfg set stack req noreply =
    match (do ascHandler cfg set (.ofReq stack req) (← ascType (.ofReq stack req)) :
      Handler Command).on
      ⟨noreply, []⟩ with
    | (.ok cmd, a) => (cmd, a)
    | (.error r, a) => (.respond r, a) := rfl

/-- A handler's answer is that of `asc_dispatch`. -/
theorem ascDispatch_of_gives {nr : Bool} {cmd : Option Command} {a : Asc}
    (ht : (ascType (.ofReq stack req)).on ⟨noreply, []⟩ = (.ok type, a))
    (hg : Gives (ascHandler cfg set (.ofReq stack req) type) a nr cmd) :
    (ascDispatch cfg set stack req noreply).1 = cmd.getD (.respond .clientError) ∧
      (ascDispatch cfg set stack req noreply).2.noreply = nr := by
  obtain ⟨uses, hg⟩ := hg
  have hrun :
      (do ascHandler cfg set (.ofReq stack req) (← ascType (.ofReq stack req)) : Handler Command).on
      ⟨noreply, []⟩ = (cmd.elim (.error .clientError) .ok, ⟨nr, uses⟩) := by
    rw [on_bind_ok ht, hg]
  rw [ascDispatch_eq, hrun]
  cases cmd <;> exact ⟨rfl, rfl⟩

theorem on_ascType (stack : ℕ → Token) (req : List UInt8) (h : 2 ≤ (Frame.ofReq stack req).ntoken)
    (a : Asc) :
    (ascType (.ofReq stack req)).on a =
      (.ok (ascParseType ((Frame.ofReq stack req).elem tokenCommand)),
        a.used (.ofReq stack req) tokenCommand) := by
  unfold ascType
  rw [if_neg (by omega), on_bind_ok (on_word _)]
  rfl

/-- **A line that starts with a documented command word, and has another word, goes to the handler
of that command.** -/
theorem ascDispatch_documented (cfg : Config) (set : Settings) (stack : ℕ → Token) (noreply : Bool)
    (ht : type ∈ ReqType.documented) (hws : words 32 req = type.commandWord :: ws) (hne : ws ≠ []) :
    (ascDispatch cfg set stack req noreply).1 =
        (if (Frame.ofReq stack req).Bounded type
            (noreply || (Frame.ofReq stack req).lastIsNoreply) then
          (Frame.ofReq stack req).command cfg set type else none).getD (.respond .clientError) ∧
      (ascDispatch cfg set stack req noreply).2.noreply =
        (noreply || (Frame.ofReq stack req).lastIsNoreply) := by
  have hlen := ntoken_ofReq stack hws
  rw [List.length_cons] at hlen
  obtain ⟨rest, helem, hsep, hrest⟩ := elem_ofReq stack hws (i := 0) (by omega) rfl
  have hword : type.commandWord ≠ [] := ne_nil_of_mem_words (hws ▸ List.mem_cons_self)
  have hspace : 32 ∉ type.commandWord := by
    revert ht
    cases type <;> decide
  have hcont : rest ≠ [] := by
    rintro rfl
    rw [List.append_nil, words_self hword hspace] at hrest
    exact hne (List.cons.inj hrest).2.symm
  have htype := on_ascType stack req (by omega) ⟨noreply, []⟩
  rw [tokenCommand, helem, ascParseType_word ht hsep, if_neg (fun h => hcont h.1)] at htype
  exact ascDispatch_of_gives htype (gives_command cfg set ht (by omega))

/-- A command word alone is rejected. -/
theorem ascDispatch_bare (ht : type ∈ ReqType.documented)
    (hws : words 32 req = [type.commandWord]) :
    (ascDispatch cfg set stack req noreply).1 = .respond .clientError := by
  have hlen := ntoken_ofReq stack hws
  obtain ⟨rest, helem, hsep, -⟩ := elem_ofReq stack hws (i := 0) (by omega) rfl
  have htype := on_ascType stack req (by rw [hlen]; simp) ⟨noreply, []⟩
  rw [tokenCommand, helem, ascParseType_word ht hsep] at htype
  split_ifs at htype with hcut
  · have hunknown : Gives (ascHandler cfg set (.ofReq stack req) .unknown)
        (Asc.used ⟨noreply, []⟩ (.ofReq stack req) 0) noreply none := ⟨_, rfl⟩
    exact (ascDispatch_of_gives htype hunknown).1
  · have hgives := ascDispatch_of_gives htype (gives_command cfg set ht (by rw [hlen]; simp))
    rw [if_neg] at hgives
    · exact hgives.1
    · rw [Frame.Bounded, ntokenBound_documented ht, hlen]
      have hn : 2 ≤ type.nword := by
        cases type <;> decide
      simp only [List.length_singleton]
      omega

/-- The type that the handler is chosen by. -/
theorem on_reqTypeOf (stack : ℕ → Token) (req : List UInt8) (a : Asc) :
    ∃ uses, (ascType (.ofReq stack req)).on a = (.ok (reqTypeOf req), ⟨a.noreply, uses⟩) := by
  unfold ascType reqTypeOf Frame.ntoken Frame.ofReq
  match hts : ascTokenize req tokenMax with
  | [] => exact ⟨a.uses, rfl⟩
  | [t] => exact ⟨a.uses, rfl⟩
  | t :: t' :: ts =>
    rw [if_neg (by simp)]
    exact ⟨_, rfl⟩

/-- The handler for the type of the request decides. -/
theorem ascDispatch_type (cfg : Config) (set : Settings) (stack : ℕ → Token) (req : List UInt8)
    (noreply : Bool) : ∃ uses, ascDispatch cfg set stack req noreply =
      match (ascHandler cfg set (.ofReq stack req) (reqTypeOf req)).on ⟨noreply, uses⟩ with
      | (.ok cmd, a) => (cmd, a)
      | (.error r, a) => (.respond r, a) := by
  obtain ⟨uses, htype⟩ := on_reqTypeOf stack req ⟨noreply, []⟩
  exact ⟨uses, by rw [ascDispatch_eq, on_bind_ok htype]⟩

/-- A `get` or `gets` is served if it has a key. -/
theorem ascDispatch_read (ht : reqTypeOf req = .get ∨ reqTypeOf req = .gets) :
    (ascDispatch cfg set stack req noreply).1 =
        (if 3 ≤ (Frame.ofReq stack req).ntoken then .read (reqTypeOf req = .gets)
          else .respond .clientError) ∧
      (ascDispatch cfg set stack req noreply).2.noreply = noreply := by
  obtain ⟨uses, hd⟩ := ascDispatch_type cfg set stack req noreply
  have hb : (Frame.ofReq stack req).Bounded (reqTypeOf req) noreply ↔
      3 ≤ (Frame.ofReq stack req).ntoken := by
    have hle : (Frame.ofReq stack req).ntoken ≤ intMax := by
      rw [ntoken_ofReq stack rfl, intMax]
      omega
    rcases ht with ht | ht <;> rw [ht] <;> exact and_iff_left hle
  have hon : (ascHandler cfg set (.ofReq stack req) (reqTypeOf req)).on ⟨noreply, uses⟩ =
      if 3 ≤ (Frame.ofReq stack req).ntoken then
        (.ok (.read (reqTypeOf req = .gets)), ⟨noreply, uses⟩)
      else (.error .clientError, ⟨noreply, uses⟩) := by
    have hread : ascHandler cfg set (.ofReq stack req) (reqTypeOf req) =
        ascProcessRead (reqTypeOf req) (.ofReq stack req) := by
      rcases ht with ht | ht <;> rw [ht] <;> rfl
    have hval : (ascValidateNtoken (reqTypeOf req) (.ofReq stack req)).on ⟨noreply, uses⟩ = _ :=
      on_ascValidateNtoken
    rw [hread, ascProcessRead]
    split_ifs with h3
    · rw [if_pos (hb.2 h3)] at hval
      rw [on_bind_ok hval]
      rfl
    · rw [if_neg (mt hb.1 h3)] at hval
      rw [on_bind_error hval]
  rw [hd, hon]
  split_ifs <;> exact ⟨rfl, rfl⟩

/-- `quit` closes the connection. -/
theorem ascDispatch_quit (ht : reqTypeOf req = .quit) :
    (ascDispatch cfg set stack req noreply).1 = .quit ∧
      (ascDispatch cfg set stack req noreply).2.noreply = noreply := by
  obtain ⟨uses, hd⟩ := ascDispatch_type cfg set stack req noreply
  rw [hd, ht]
  exact ⟨rfl, rfl⟩

/-- The other requests, except storage commands, are carried out at once. -/
theorem ascDispatch_plain
    (ht : reqTypeOf req ∉
      [.get, .gets, .quit, .set, .add, .replace, .cas, .append, .prepend, .appendrl, .prependrl]) :
    (ascDispatch cfg set stack req noreply).1.plain = true := by
  obtain ⟨uses, hd⟩ := ascDispatch_type cfg set stack req noreply
  have hy : Yields (ascHandler cfg set (.ofReq stack req) (reqTypeOf req)) (·.plain = true) :=
    yields_ascHandler ht
  specialize hy ⟨noreply, uses⟩
  rw [hd]
  generalize Handler.on _ _ = r at hy ⊢
  obtain ⟨_ | cmd, a⟩ := r
  · rfl
  · exact hy cmd a rfl

/-- A storage command, `incr`, `decr` or `delete` is run with the fields that its handler finds. -/
theorem ascDispatch_fields (cfg : Config) (set : Settings) (stack : ℕ → Token) (noreply : Bool)
    (ht : reqTypeOf req ∈ ReqType.documented) :
    (ascDispatch cfg set stack req noreply).1 =
        (if (Frame.ofReq stack req).Bounded (reqTypeOf req)
            (noreply || (Frame.ofReq stack req).lastIsNoreply) then
          (Frame.ofReq stack req).command cfg set (reqTypeOf req) else none).getD
          (.respond .clientError) ∧
      (ascDispatch cfg set stack req noreply).2.noreply =
        (noreply || (Frame.ofReq stack req).lastIsNoreply) := by
  obtain ⟨uses, htype⟩ := on_reqTypeOf stack req ⟨noreply, []⟩
  have h2 : 2 ≤ (Frame.ofReq stack req).ntoken := by
    unfold reqTypeOf at ht
    unfold Frame.ntoken Frame.ofReq
    match hts : ascTokenize req tokenMax with
    | [] | [t] =>
      rw [hts] at ht
      exact absurd (show ReqType.unknown ∈ ReqType.documented from ht) (by decide)
    | t :: t' :: ts => simp
  exact ascDispatch_of_gives htype (gives_command cfg set ht h2)

end

/-! ### Documented forms -/

/-- The word of the last, optional field. -/
def noreplyWord : List UInt8 := ascii "noreply"

/-- A documented request, without `noreply`.  Numeric fields are numerals; an expiry may have a
minus sign. -/
inductive Form where
  /-- The storage commands except `cas`. -/
  | storage (type : ReqType) (key flags : List UInt8) (neg : Bool) (expiry vlen : List UInt8)
  /-- `cas`. -/
  | cas (key flags : List UInt8) (neg : Bool) (expiry vlen casId : List UInt8)
  /-- `incr` and `decr`. -/
  | delta (type : ReqType) (key value : List UInt8)
  /-- `delete`. -/
  | delete (key : List UInt8)

/-- An expiry as it is written. -/
def expiryWord (neg : Bool) (expiry : List UInt8) :
    List UInt8 := if neg then 45 :: expiry else expiry

/-- A numeral below a bound. -/
def InRange (bound : ℕ) (w : List UInt8) : Prop := IsNumeral w ∧ numeral w < bound

/-- A signed numeral of 32 bits. -/
def ExpiryInRange (neg : Bool) (w : List UInt8) : Prop :=
  IsNumeral w ∧ -2 ^ 31 ≤ signedNumeral neg w ∧ signedNumeral neg w < 2 ^ 31

namespace Form

/-- The words of a request. -/
def words : Form → List (List UInt8)
  | storage type key flags neg expiry vlen =>
    [type.commandWord, key, flags, expiryWord neg expiry, vlen]
  | cas key flags neg expiry vlen casId =>
    [ReqType.cas.commandWord, key, flags, expiryWord neg expiry, vlen, casId]
  | delta type key value => [type.commandWord, key, value]
  | delete key => [ReqType.delete.commandWord, key]

/-- The command is one of those that have this form, the key is not too long, and the numeric fields
are in range. -/
def Valid : Form → Prop
  | storage type key flags neg expiry vlen =>
    type ∈ [.set, .add, .replace, .append, .prepend, .appendrl, .prependrl] ∧
      key.length ≤ keyMaxLen ∧
      InRange (2 ^ 32) flags ∧ ExpiryInRange neg expiry ∧ InRange (2 ^ 32) vlen
  | cas key flags neg expiry vlen casId =>
    key.length ≤ keyMaxLen ∧ InRange (2 ^ 32) flags ∧ ExpiryInRange neg expiry ∧
      InRange (2 ^ 32) vlen ∧ InRange (2 ^ 64) casId
  | delta type key value =>
    type ∈ [.incr, .decr] ∧ key.length ≤ keyMaxLen ∧ InRange (2 ^ 64) value
  | delete key => key.length ≤ keyMaxLen

/-- What a request asks for.  A storage command whose item has no slab class is answered with an
error; `append` and its relatives ignore the flags and the expiry. -/
def command (cfg : Config) (set : Settings) : Form → Command
  | storage type key flags neg expiry vlen =>
    if itemSlabid cfg key.length (numeral vlen) = slabclassInvalidId then .respond .clientError
    else if type ∈ [.set, .add, .replace] then
      .update type key (if set.hotkeyEnable then 0 else numeral flags) (signedNumeral neg expiry)
        (numeral vlen) none
    else .annex type key (numeral vlen)
  | cas key flags neg expiry vlen casId =>
    if itemSlabid cfg key.length (numeral vlen) = slabclassInvalidId then .respond .clientError
    else .update .cas key (if set.hotkeyEnable then 0 else numeral flags) (signedNumeral neg expiry)
      (numeral vlen) (some (numeral casId))
  | delta type key value => .delta (type = .incr) key (numeral value)
  | delete key => .delete key

/-- A line has the words of a form, and `noreply` after them if the flag says so. -/
def Spells (f : Form) (noreply : Bool) (req : List UInt8) : Prop :=
  Twemcache.words 32 req = f.words ++ if noreply then [noreplyWord] else []

end Form

section

variable (cfg : Config) (set : Settings) (stack : ℕ → Token) {req : List UInt8}

/-- The last token that counts is that of the last of at most seven words. -/
theorem lastIsNoreply_eq (ws : List (List UInt8)) {w : List UInt8} (hws : words 32 req = ws ++ [w])
    (hlen : ws.length < 7) : (Frame.ofReq stack req).lastIsNoreply = decide (w = noreplyWord) := by
  have hn := ntoken_ofReq stack hws
  obtain ⟨rest, helem, -, -⟩ := elem_ofReq stack hws (i := ws.length) hlen (w := w) (by simp)
  have hidx : (Frame.ofReq stack req).ntoken - 2 = ws.length := by
    rw [hn, List.length_append, List.length_singleton]
    omega
  rw [Frame.lastIsNoreply, hidx, helem, Token.equals_word]
  rfl

/-- Numerals are not `noreply`. -/
theorem IsNumeral.ne_noreply {w : List UInt8} (h : IsNumeral w) : w ≠ noreplyWord := by
  rintro rfl
  exact absurd (h.2 _ List.mem_cons_self) (by decide)

variable {f : Form} {noreply : Bool}

/-- The last word of a documented request is `noreply` exactly if it is meant to be, unless a key is
taken for it. -/
theorem Form.Spells.lastIsNoreply (h : f.Spells noreply req) (hf : f.Valid)
    (hkey : f = .delete noreplyWord → noreply = true) :
    (Frame.ofReq stack req).lastIsNoreply = noreply := by
  cases noreply with
  | true =>
    rw [lastIsNoreply_eq stack _ h (by cases f <;> simp [Form.words])]
    simp
  | false =>
    simp only [Form.Spells, Bool.false_eq_true, if_false, List.append_nil] at h
    cases f with
    | storage type key flags neg expiry vlen =>
      rw [lastIsNoreply_eq stack [_, _, _, _] h (by simp)]
      simpa using hf.2.2.2.2.1.ne_noreply
    | cas key flags neg expiry vlen casId =>
      rw [lastIsNoreply_eq stack [_, _, _, _, _] h (by simp)]
      simpa using hf.2.2.2.2.1.ne_noreply
    | delta type key value =>
      rw [lastIsNoreply_eq stack [_, _] h (by simp)]
      simpa using hf.2.2.1.ne_noreply
    | delete key =>
      rw [lastIsNoreply_eq stack [_] h (by simp)]
      simpa using fun hk => Bool.false_ne_true (hkey (by rw [hk]))

/-! ### Fields of documented requests -/

variable {ws : List (List UInt8)} {w : List UInt8}

theorem keyField_eq (hws : words 32 req = ws) (hw : ws[1]? = some w) (hlen : w.length ≤ keyMaxLen) :
    (Frame.ofReq stack req).keyField = some w := by
  obtain ⟨rest, helem, -, -⟩ := elem_ofReq stack hws (by omega) hw
  rw [Frame.keyField, tokenKey, helem, if_neg (not_lt.2 hlen), Token.text_word]

theorem mcStrtoul_field {i : ℕ} (hws : words 32 req = ws) (hi : i < 7) (hw : ws[i]? = some w)
    (hr : InRange (2 ^ 32) w) :
    mcStrtoul ((Frame.ofReq stack req).elem i).str = some (numeral w) := by
  obtain ⟨rest, helem, hsep, -⟩ := elem_ofReq stack hws hi hw
  rw [helem, Token.str_word, mcStrtoul_numeral hr.1 hsep hr.2]

theorem mcStrtol_field {i : ℕ} {neg : Bool} {expiry : List UInt8} (hws : words 32 req = ws)
    (hi : i < 7) (hw : ws[i]? = some (expiryWord neg expiry)) (hr : ExpiryInRange neg expiry) :
    mcStrtol ((Frame.ofReq stack req).elem i).str = some (signedNumeral neg expiry) := by
  obtain ⟨rest, helem, hsep, -⟩ := elem_ofReq stack hws hi hw
  rw [helem, Token.str_word, expiryWord, mcStrtol_numeral hr.1 hsep hr.2.1 hr.2.2]

/-- A number of 64 bits; no minus sign may follow it in the line. -/
theorem mcStrtoull_field {i : ℕ} (hws : words 32 req = ws) (hi : i < 7) (hw : ws[i]? = some w)
    (hr : InRange (2 ^ 64) w) (hminus : ∀ w' ∈ ws.drop i, 45 ∉ w') :
    mcStrtoull ((Frame.ofReq stack req).elem i).str = some (numeral w) := by
  obtain ⟨rest, helem, hsep, hrest⟩ := elem_ofReq stack hws hi hw
  have hfree : 45 ∉ rest := fun h => by
    obtain ⟨w', hw', hmem⟩ :=
      exists_mem_words (List.mem_append_right w h) (show (45 : UInt8) ≠ 32 by decide)
    exact hminus w' (hrest ▸ hw') hmem
  rw [helem, Token.str_word, mcStrtoull_numeral hr.1 hsep hr.2 hfree]

theorem IsNumeral.no_minus (h : IsNumeral w) : 45 ∉ w := fun hm => absurd (h.2 _ hm) (by decide)

theorem noreply_no_minus : ∀ w ∈ (if noreply then [noreplyWord] else []), 45 ∉ w := by
  cases noreply <;> decide

/-- The handler finds the fields of a documented request. -/
theorem Form.Spells.command (h : f.Spells noreply req) (hf : f.Valid) : ∃ type ∈ ReqType.documented,
    ∃ ws, Twemcache.words 32 req = type.commandWord :: ws ∧ ws ≠ [] ∧
      ws.length = type.nword - 1 + noreply.toNat ∧ ws.length < 7 ∧
      ((Frame.ofReq stack req).command cfg set type).getD (.respond .clientError) =
          f.command cfg set := by
  have hlen : (if noreply then [noreplyWord] else []).length = noreply.toNat := by
    cases noreply <;> rfl
  have hle : noreply.toNat ≤ 1 := by cases noreply <;> decide
  cases f with
  | storage type key flags neg expiry vlen =>
    obtain ⟨ht, hkey, hflags, hexpiry, hvlen⟩ := hf
    have h1 := keyField_eq stack h rfl hkey
    have h2 := mcStrtoul_field stack (i := 2) h (by omega) rfl hflags
    have h3 := mcStrtol_field stack (i := 3) h (by omega) rfl hexpiry
    have h4 := mcStrtoul_field stack (i := 4) h (by omega) rfl hvlen
    refine ⟨type, ?_, [key, flags, expiryWord neg expiry, vlen] ++ if noreply then
      [noreplyWord] else [], h, by simp, ?_, ?_, ?_⟩
    · simp only [List.mem_cons, List.not_mem_nil, or_false, ReqType.documented] at ht ⊢
      rcases ht with rfl | rfl | rfl | rfl | rfl | rfl | rfl <;> simp
    · simp only [List.mem_cons, List.not_mem_nil, or_false] at ht
      simp only [List.length_append, List.length_cons, List.length_nil, hlen]
      rcases ht with rfl | rfl | rfl | rfl | rfl | rfl | rfl <;> rfl
    · simp only [List.length_append, List.length_cons, List.length_nil, hlen]
      omega
    · -- all fields are read before the class is looked for
      have hupdate : (Frame.ofReq stack req).updateFields cfg type =
          (slabField cfg key.length (numeral vlen)).bind fun _ =>
            ((Frame.ofReq stack req).casField type).map fun casId =>
              (key, numeral flags, signedNumeral neg expiry, numeral vlen, casId) := by
        simp only [Frame.updateFields, h1, tokenFlags, h2, tokenExpiry, h3, tokenVlen, h4,
          Option.bind_some]
      have hannex : (Frame.ofReq stack req).annexFields cfg =
          (slabField cfg key.length (numeral vlen)).map fun _ => (key, numeral vlen) := by
        simp only [Frame.annexFields, h1, tokenVlen, h4, Option.bind_some]
      simp only [List.mem_cons, List.not_mem_nil, or_false] at ht
      rcases ht with rfl | rfl | rfl | rfl | rfl | rfl | rfl <;>
        simp only [Frame.command, Form.command, hupdate, hannex, slabField, Frame.casField] <;>
        split_ifs <;> first | rfl | simp_all
  | cas key flags neg expiry vlen casId =>
    obtain ⟨hkey, hflags, hexpiry, hvlen, hcas⟩ := hf
    have h1 := keyField_eq stack h rfl hkey
    have h2 := mcStrtoul_field stack (i := 2) h (by omega) rfl hflags
    have h3 := mcStrtol_field stack (i := 3) h (by omega) rfl hexpiry
    have h4 := mcStrtoul_field stack (i := 4) h (by omega) rfl hvlen
    have h5 := mcStrtoull_field stack (i := 5) h (by omega) rfl hcas (fun w' hw' => by
      rcases List.mem_cons.1 hw' with rfl | hw'
      · exact hcas.1.no_minus
      · exact noreply_no_minus w' hw')
    refine ⟨.cas, by decide, [key, flags, expiryWord neg expiry, vlen, casId] ++ if noreply then
      [noreplyWord] else [], h, by simp, ?_, ?_, ?_⟩
    · simp only [List.length_append, List.length_cons, List.length_nil, hlen]
      rfl
    · simp only [List.length_append, List.length_cons, List.length_nil, hlen]
      omega
    · simp only [Frame.command, Form.command, Frame.updateFields, h1, tokenFlags, h2,
        tokenExpiry, h3,
        tokenVlen, h4, Option.bind_some, slabField, Frame.casField, tokenCas, h5, if_true,
          Option.map_some]
      split_ifs <;> rfl
  | delta type key value =>
    obtain ⟨ht, hkey, hvalue⟩ := hf
    have h1 := keyField_eq stack h rfl hkey
    have h2 := mcStrtoull_field stack (i := 2) h (by omega) rfl hvalue (fun w' hw' => by
      rcases List.mem_cons.1 hw' with rfl | hw'
      · exact hvalue.1.no_minus
      · exact noreply_no_minus w' hw')
    simp only [List.mem_cons, List.not_mem_nil, or_false] at ht
    refine ⟨type, ?_, [key, value] ++ if noreply then [noreplyWord] else [], h, by simp, ?_, ?_, ?_⟩
    · rcases ht with rfl | rfl <;> decide
    · simp only [List.length_append, List.length_cons, List.length_nil, hlen]
      rcases ht with rfl | rfl <;> rfl
    · simp only [List.length_append, List.length_cons, List.length_nil, hlen]
      omega
    · rcases ht with rfl | rfl <;>
        simp only [Frame.command, Form.command, h1, tokenDelta, h2, Option.bind_some,
          Option.getD_some] <;> rfl
  | delete key =>
    have h1 := keyField_eq stack h rfl hf
    refine ⟨.delete, by decide, [key] ++ if noreply then [noreplyWord] else [],
      h, by simp, ?_, ?_, ?_⟩
    · simp only [List.length_append, List.length_cons, List.length_nil, hlen]
      rfl
    · simp only [List.length_append, List.length_cons, List.length_nil, hlen]
      omega
    · simp only [Frame.command, Form.command, h1, Option.bind_some, Option.getD_some]

/-- **A documented request is run with exactly its fields**, unless it deletes the key `noreply`. -/
theorem Form.Spells.runs (h : f.Spells noreply req) (hf : f.Valid)
    (hkey : f = .delete noreplyWord → noreply = true) :
    (ascDispatch cfg set stack req false).1 = f.command cfg set ∧
      (ascDispatch cfg set stack req false).2.noreply = noreply := by
  obtain ⟨type, ht, ws, hws, hne, hlen, hlt, hcmd⟩ := h.command cfg set stack hf
  have hd := ascDispatch_documented cfg set stack false ht hws hne
  have hn := ntoken_ofReq stack hws
  rw [h.lastIsNoreply stack hf hkey, Bool.false_or, if_pos] at hd
  · exact ⟨hd.1.trans hcmd, hd.2⟩
  · have hword : 1 ≤ type.nword := by
      cases type <;> decide
    rw [Frame.Bounded, ntokenBound_documented ht, hn, List.length_cons]
    omega

/-! ### Other lines -/

/-- The line starts with one of the command words, and has neither the number of words of that
command nor one more of which the last is `noreply`. -/
def Miscounted (req : List UInt8) : Prop :=
  ∃ type ∈ ReqType.documented, ∃ ws, words 32 req = type.commandWord :: ws ∧
    ws.length + 1 ≠ type.nword ∧ ¬ (ws.length = type.nword ∧ ws.getLast? = some noreplyWord)

/-- The first seven words are a `cas` with `noreply` that the handler accepts, and more follow. -/
def Overrun (req : List UInt8) : Prop :=
  ∃ ws, words 32 req = ReqType.cas.commandWord :: ws ∧ 7 ≤ ws.length ∧ ws[5]? = some noreplyWord ∧
    ((Frame.ofReq stack req).updateFields cfg .cas).isSome

/-- The last token that counts, of a line of more than seven words. -/
theorem lastIsNoreply_long {ws : List (List UInt8)} {w : List UInt8} (hws : words 32 req = ws)
    (hlen : 7 ≤ ws.length) (hw : ws[6]? = some w) :
    (Frame.ofReq stack req).lastIsNoreply = decide (w = noreplyWord) := by
  have hn := ntoken_ofReq stack hws
  obtain ⟨rest, helem, -, -⟩ := elem_ofReq stack hws (by omega) hw
  have hidx : (Frame.ofReq stack req).ntoken - 2 = 6 := by omega
  rw [Frame.lastIsNoreply, hidx, helem, Token.equals_word]
  rfl

/-- **A line with a wrong number of words is rejected**, unless it is an overlong `cas`. -/
theorem Miscounted.rejected (h : Miscounted req) (hover : ¬ Overrun cfg stack req) :
    (ascDispatch cfg set stack req false).1 = .respond .clientError := by
  obtain ⟨type, ht, ws, hws, hcount, hnoreply⟩ := h
  by_cases hne : ws = []
  · subst hne
    exact ascDispatch_bare ht hws
  have hd := (ascDispatch_documented cfg set stack false ht hws hne).1
  have hn := ntoken_ofReq stack hws
  rw [List.length_cons] at hn
  rw [hd, Bool.false_or]
  have hbound : (Frame.ofReq stack req).Bounded type (Frame.ofReq stack req).lastIsNoreply →
      min 7 (ws.length + 1) = type.nword + ((Frame.ofReq stack req).lastIsNoreply).toNat := by
    intro hb
    rw [Frame.Bounded, ntokenBound_documented ht, hn] at hb
    omega
  split_ifs with hb
  · have hmin := hbound hb
    by_cases hshort : ws.length < 7
    · -- all words were seen, so the count is right
      have hlast : (Frame.ofReq stack req).lastIsNoreply = decide (ws.getLast hne = noreplyWord) :=
        lastIsNoreply_eq stack (type.commandWord :: ws.dropLast)
          (by rw [hws, List.cons_append, List.dropLast_concat_getLast])
          (by rw [List.length_cons, List.length_dropLast]; omega)
      rw [hlast] at hmin
      by_cases hw : ws.getLast hne = noreplyWord
      · rw [decide_eq_true hw, Bool.toNat_true] at hmin
        exact absurd ⟨by omega, by rw [List.getLast?_eq_some_getLast hne, hw]⟩ hnoreply
      · rw [decide_eq_false hw, Bool.toNat_false] at hmin
        omega
    · -- seven words were seen, which only a `cas` with `noreply` may have
      have hsix : ws[5]? = some ws[5] := List.getElem?_eq_getElem (by omega)
      have hlast := lastIsNoreply_long stack hws (by rw [List.length_cons]; omega)
        (w := ws[5]) (by rw [List.getElem?_cons_succ]; exact hsix)
      have htype : type = .cas ∧ (Frame.ofReq stack req).lastIsNoreply = true := by
        cases hl : (Frame.ofReq stack req).lastIsNoreply <;> rw [hl] at hmin <;>
          cases type <;> simp [ReqType.nword] at hmin ⊢ <;> omega
      obtain ⟨rfl, hl⟩ := htype
      have hcmd : (Frame.ofReq stack req).updateFields cfg .cas = none := by
        rw [← Option.not_isSome_iff_eq_none]
        intro hsome
        rw [hlast, decide_eq_true_eq] at hl
        exact hover ⟨ws, hws, by omega, by rw [hsix, hl], hsome⟩
      rw [Frame.command, hcmd]
      · rfl
      all_goals exact fun h => by cases h
  · rfl

/-- An overlong `cas` is carried out. -/
theorem Overrun.accepted (h : Overrun cfg stack req) : Miscounted req ∧
    (ascDispatch cfg set stack req false).1 ≠ .respond .clientError := by
  obtain ⟨ws, hws, hlen, hw, hfields⟩ := h
  refine ⟨⟨.cas, by decide, ws, hws, ?_, ?_⟩, ?_⟩
  · simp only [ReqType.nword]
    omega
  · simp only [ReqType.nword]
    omega
  have hne : ws ≠ [] := by
    rintro rfl
    simp at hlen
  have hd := (ascDispatch_documented cfg set stack false (by decide) hws hne).1
  have hn := ntoken_ofReq stack hws
  have hlast := lastIsNoreply_long stack hws (by rw [List.length_cons]; omega) (w := noreplyWord)
    (by rw [List.getElem?_cons_succ]; exact hw)
  rw [decide_eq_true rfl] at hlast
  rw [List.length_cons] at hn
  rw [hlast, Bool.or_true, if_pos] at hd
  · obtain ⟨x, hx⟩ := Option.isSome_iff_exists.1 hfields
    rw [hd, Frame.command, hx]
    · exact nofun
    all_goals exact nofun
  · rw [Frame.Bounded, ntokenBound_documented (by decide), hn]
    simp only [ReqType.nword, Bool.toNat_true]
    omega

end

end Twemcache
