import Twemcache.Text.Basic
import Twemcache.Text.Number
import Twemcache.Text.Words

/-!
# Tokens of a request line

`asc_dispatch` cuts the request, a C string, into at most seven tokens and one terminal token, and
finds the type of the request from the first one (`mc_ascii.c`).

## Main definitions

* `Token`, `ascTokenize` : the structure and the function of these names.
* `ReqType`, `ntokenBound`, `ascParseType` : the request types, the table of the numbers of tokens
  they may have, and the function that finds the type.
* `Filled` : what the tokens are, in terms of the words of the line.

A pointer into the request is the string from there on.
-/

namespace Twemcache

/-- `struct token`; the value is `NULL` or a pointer into the request. -/
structure Token where
  /-- Token value. -/
  val : Option (List UInt8)
  /-- Token length. -/
  len : ℕ
  deriving DecidableEq, Repr

namespace Token

variable (t : Token)

/-- The string at the value pointer. -/
def str : List UInt8 := t.val.getD []

/-- The bytes of the token. -/
def text : List UInt8 := t.str.take t.len

/-- `strncmp(t->val, lit, t->len) == 0`: the token is an initial part of the literal. -/
def strncmp (lit : String) : Bool := t.text.isPrefixOf (ascii lit)

/-- `t->len == sizeof(lit) - 1` and the comparison of that many characters. -/
def equals (lit : String) : Bool := t.len = (ascii lit).length && t.str.take t.len = ascii lit

end Token

/-- `TOKEN_MAX`. -/
def tokenMax : ℕ := 8

/-- The loop of `asc_tokenize`: `left` tokens may still be saved, `s` and `e` are the start and end
markers and `len` is the distance between them. -/
def tokenizeLoop : (left : ℕ) → (s : List UInt8) → (len : ℕ) → (e : List UInt8) → List Token
  | 0, _, _, e => [⟨if e = [] then none else some e, 0⟩]
  | _ + 1, s, len, [] => (if len ≠ 0 then [⟨some s, len⟩] else []) ++ [⟨none, 0⟩]
  | left + 1, s, len, b :: e =>
    if b = 32 then
      if len ≠ 0 then ⟨some s, len⟩ :: tokenizeLoop left e 0 e else tokenizeLoop (left + 1) e 0 e
    else tokenizeLoop (left + 1) s (len + 1) e

/-- `asc_tokenize`: the elements of the token array that it fills. -/
def ascTokenize (command : List UInt8) (ntokenMax : ℕ) : List Token :=
  tokenizeLoop (ntokenMax - 1) command 0 command

/-! ### Request types -/

/-- `req_type_t`. -/
inductive ReqType where
  | unknown
  | set
  | add
  | replace
  | append
  | prepend
  | appendrl
  | prependrl
  | cas
  | get
  | gets
  | incr
  | decr
  | delete
  | quit
  | stats
  | config
  | version
  | flushall
  | verbosity
  deriving DecidableEq, Repr

/-- `INT_MAX`. -/
def intMax : ℕ := 2 ^ 31 - 1

/-- `ntoken_bound[type].b[noreply]`, the least and the greatest number of tokens. -/
def ntokenBound : ReqType → (noreply : Bool) → ℕ × ℕ
  | .unknown, _ => (0, 0)
  | .set, noreply | .add, noreply | .replace, noreply | .append, noreply | .prepend, noreply
  | .appendrl, noreply | .prependrl, noreply => if noreply then (7, 7) else (6, 6)
  | .cas, noreply => if noreply then (8, 8) else (7, 7)
  | .get, _ | .gets, _ => (3, intMax)
  | .incr, noreply | .decr, noreply => if noreply then (5, 5) else (4, 4)
  | .delete, noreply => if noreply then (4, 4) else (3, 3)
  | .quit, _ | .version, _ => (2, 2)
  | .stats, _ => (2, 5)
  | .config, _ => (3, 5)
  | .flushall, noreply => if noreply then (3, 4) else (2, 3)
  | .verbosity, _ => (3, 4)

/-- `asc_parse_type`, given the first token.  For the commands of three letters the comparison takes
in the character after the token. -/
def ascParseType (t : Token) : ReqType :=
  match t.len with
  | 3 =>
    if t.str.take 4 = ascii "get " then .get
    else if t.str.take 4 = ascii "set " then .set
    else if t.str.take 4 = ascii "add " then .add
    else if t.str.take 4 = ascii "cas " then .cas
    else .unknown
  | 4 =>
    if t.str.take 4 = ascii "gets" then .gets
    else if t.str.take 4 = ascii "incr" then .incr
    else if t.str.take 4 = ascii "decr" then .decr
    else if t.str.take 4 = ascii "quit" then .quit
    else .unknown
  | 5 => if t.str.take 5 = ascii "stats" then .stats else .unknown
  | 6 =>
    if t.str.take 6 = ascii "append" then .append
    else if t.str.take 6 = ascii "delete" then .delete
    else if t.str.take 6 = ascii "config" then .config
    else .unknown
  | 7 =>
    if t.str.take 7 = ascii "replace" then .replace
    else if t.str.take 7 = ascii "prepend" then .prepend
    else if t.str.take 7 = ascii "version" then .version
    else .unknown
  | 8 => if t.str.take 8 = ascii "appendrl" then .appendrl else .unknown
  | 9 =>
    if t.str.take 9 = ascii "flush_all" then .flushall
    else if t.str.take 9 = ascii "prependrl" then .prependrl
    else if t.str.take 9 = ascii "verbosity" then .verbosity
    else .unknown
  | _ => .unknown

/-! ### Tokens and words -/

/-- What `asc_tokenize` fills in for a line with the given words, if `left` tokens may be saved: a
token for each word, at which the rest of the line starts, and a terminal token. -/
inductive Filled : (left : ℕ) → (ws : List (List UInt8)) → List Token → Prop where
  /-- The whole line was scanned. -/
  | scanned {left : ℕ} : Filled left [] [⟨none, 0⟩]
  /-- The array is full, and the terminal token points to the rest of the line. -/
  | stopped {ws : List (List UInt8)} {e : List UInt8} (hne : e ≠ []) (hws : words 32 e = ws) :
    Filled 0 ws [⟨some e, 0⟩]
  /-- A word. -/
  | word {left : ℕ} {w rest : List UInt8} {ws : List (List UInt8)} {ts : List Token} (hw : w ≠ [])
    (hspace : 32 ∉ w) (hsep : Separated rest) (hws : words 32 (w ++ rest) = w :: ws)
    (hts : Filled left ws ts) : Filled (left + 1) (w :: ws) (⟨some (w ++ rest), w.length⟩ :: ts)

theorem filled_loop (left : ℕ) (pending e : List UInt8) (hspace : 32 ∉ pending)
    (h0 : left = 0 → pending = []) :
    Filled left (words 32 (pending ++ e)) (tokenizeLoop left (pending ++ e) pending.length e) := by
  induction e generalizing left pending with
  | nil =>
    cases left with
    | zero =>
      rw [h0 rfl]
      exact .scanned
    | succ left =>
      simp only [tokenizeLoop, List.append_nil, ne_eq, List.length_eq_zero_iff]
      split_ifs with hp
      · rw [hp, words_nil]
        exact .scanned
      · rw [words_self hp hspace]
        have := @Filled.word left pending [] _ _ hp hspace (by simp [Separated])
          (by rw [List.append_nil, words_self hp hspace]) .scanned
        simpa using this
  | cons b e ih =>
    cases left with
    | zero =>
      rw [h0 rfl]
      exact .stopped (by simp) rfl
    | succ left =>
      simp only [tokenizeLoop, ne_eq, List.length_eq_zero_iff]
      split_ifs with hb hp
      · subst hb
        rw [hp, List.nil_append, words_sep_cons]
        exact ih _ [] (by simp) fun _ => rfl
      · subst hb
        rw [words_append hp hspace]
        refine .word hp hspace (by simp [Separated]) (words_append hp hspace) ?_
        exact ih _ [] (by simp) fun _ => rfl
      · have := ih (left + 1) (pending ++ [b]) (by simpa using ⟨hspace, Ne.symm hb⟩) (by simp)
        simpa using this

/-- **The tokens of a line are its words.** -/
theorem filled_ascTokenize (command : List UInt8) :
    Filled (tokenMax - 1) (words 32 command) (ascTokenize command tokenMax) := by
  exact filled_loop _ [] command (by simp) (by simp [tokenMax])

namespace Filled

variable {left : ℕ} {ws : List (List UInt8)} {ts : List Token}

/-- The number of tokens. -/
theorem length (h : Filled left ws ts) : ts.length = min left ws.length + 1 := by
  induction h with
  | scanned => simp
  | stopped hne hws => simp
  | word hw hspace hsep hws hts ih => simp [ih]

/-- A token before the terminal one starts with its word. -/
theorem get (h : Filled left ws ts) {i : ℕ} (hi : i + 1 < ts.length) :
    ∃ w rest, ws[i]? = some w ∧ ts[i]? = some ⟨some (w ++ rest), w.length⟩ ∧ w ≠ [] ∧ 32 ∉ w ∧
      Separated rest ∧ words 32 (w ++ rest) = ws.drop i := by
  induction h generalizing i with
  | scanned => simp at hi
  | stopped hne hws => simp at hi
  | @word left w rest ws ts hw hspace hsep hws hts ih =>
    cases i with
    | zero => exact ⟨w, rest, rfl, rfl, hw, hspace, hsep, hws⟩
    | succ i => exact ih (by simpa using hi)

end Filled

end Twemcache
