import Twemcache.Conn.Noreply
import Twemcache.Framer.Basic

/-!
# Which bytes of a stream are commands

The stream of a TCP connection is cut into lines and data blocks, whatever `read` returns at a time:
the bytes go through the read buffer, which is compacted, doubled and made smaller, or from the
socket to the item, and a request or a data block may end anywhere.  What is cut off is what a
framer cuts off that knows nothing but the stream and for which items there was memory.  So it does
not matter how the stream arrives.

## Main definitions

* `Piece`, `Expect` : what is cut off, and what is expected next.
* `framer` : how a stream is cut.
* `Control.Framed` : what was cut off so far, and where the rest of the stream is.

## Main results

* `Session.cuts_stream` : in every run, the lines and data blocks are those of the framer.
* `Session.chunking_irrelevant` : two connections with the same stream go through the same lines and
  data blocks.
* `Session.eof_loses` : what is lost at the end of a stream.
* `Session.block_follows` : when the bytes after a storage command are its data block.
-/

namespace Twemcache

/-- What is cut off the stream of a TCP connection. -/
inductive Piece where
  /-- The line of a request. -/
  | line (line : List UInt8)
  /-- A data block, which goes to an item. -/
  | block (bytes : List UInt8)
  /-- A data block that is swallowed. -/
  | skip (bytes : List UInt8)
  deriving DecidableEq, Repr

/-- What is expected next. -/
inductive Expect where
  /-- A line. -/
  | line
  /-- A data block of `n` bytes. -/
  | block (n : ℕ)
  /-- A data block of `n` bytes that is not wanted. -/
  | skip (n : ℕ)
  /-- The connection is to be closed. -/
  | nothing
  deriving DecidableEq, Repr

/-- The piece that is complete with an event. -/
def Event.piece : Event → Option Piece
  | .line bytes _ => some (.line bytes)
  | .block bytes => some (.block bytes)
  | .skip bytes => some (.skip bytes)
  | _ => none

/-- Whether there was memory for an item. -/
def Event.granted : Event → Option Bool
  | .alloc ok => some ok
  | _ => none

/-- What was cut off. -/
def pieces (log : List Event) : List Piece := log.filterMap Event.piece

/-- For which items there was memory. -/
def grants (log : List Event) : List Bool := log.filterMap Event.granted

/-- What comes after a request, if `k` items were asked for before; `granted` says for which items
there is memory. -/
def afterLine (cfg : Config) (granted : ℕ → Bool) (k : ℕ) (req : List UInt8) : ℕ × Expect :=
  match blockOf cfg req with
  | some (vlen, noreply) =>
    (k + 1, if granted k then .block (vlen + crlfLen) else if noreply then .line else .skip
      (vlen + crlfLen))
  | none => (k, if reqTypeOf req = .quit then .nothing else .line)

/-- The first piece of `s`. -/
def cutPiece (cfg : Config) (granted : ℕ → Bool) (s : List UInt8) :
    ℕ × Expect → Option (Piece × (ℕ × Expect) × List UInt8)
  | (k, .line) =>
    if 10 ∈ s then
      let line := s.takeWhile (· ≠ 10)
      some (.line line, afterLine cfg granted k (Session.request line), s.drop (line.length + 1))
    else none
  | (k, .block n) => if n ≤ s.length then some (.block (s.take n), (k, .line), s.drop n) else none
  | (k, .skip n) => if n ≤ s.length then some (.skip (s.take n), (k, .line), s.drop n) else none
  | (_, .nothing) => none

section

variable {cfg : Config} {granted : ℕ → Bool} {k n : ℕ} {line bytes s rest : List UInt8}
  {m m' : ℕ × Expect} {p : Piece}

theorem afterLine_block {req : List UInt8} {vlen : ℕ} {noreply : Bool}
    (h : blockOf cfg req = some (vlen, noreply)) :
    afterLine cfg granted k req = (k + 1, if granted k then .block (vlen + crlfLen) else
      if noreply then .line else .skip (vlen + crlfLen)) := by
  unfold afterLine
  rw [h]

theorem afterLine_none {req : List UInt8} (h : blockOf cfg req = none) :
    afterLine cfg granted k req = (k, if reqTypeOf req = .quit then .nothing else .line) := by
  unfold afterLine
  rw [h]

theorem cutPiece_line (h : 10 ∉ line) : cutPiece cfg granted (line ++ 10 :: rest) (k, .line) =
    some (.line line, afterLine cfg granted k (Session.request line), rest) := by
  have hmem : 10 ∈ line ++ 10 :: rest := by simp
  have hdrop : (line ++ 10 :: rest).drop (line.length + 1) = rest := by
    rw [← List.drop_drop, List.drop_left, List.drop_succ_cons, List.drop_zero]
  rw [cutPiece, if_pos hmem, takeWhile_line h]
  dsimp only
  rw [hdrop]

theorem cutPiece_block (h : bytes.length = n) : cutPiece cfg granted (bytes ++ rest) (k, .block n) =
    some (.block bytes, (k, .line), rest) := by
  rw [cutPiece, if_pos (by simp [h]), ← h, List.take_left, List.drop_left]

theorem cutPiece_skip (h : bytes.length = n) : cutPiece cfg granted (bytes ++ rest) (k, .skip n) =
    some (.skip bytes, (k, .line), rest) := by
  rw [cutPiece, if_pos (by simp [h]), ← h, List.take_left, List.drop_left]

theorem cutPiece_line_none (cfg : Config) (granted : ℕ → Bool) (h : 10 ∉ s) :
    cutPiece cfg granted s (k, .line) = none := by rw [cutPiece, if_neg h]

theorem cutPiece_block_none (cfg : Config) (granted : ℕ → Bool) (h : s.length < n) :
    cutPiece cfg granted s (k, .block n) = none := by
  rw [cutPiece, if_neg (Nat.not_le.2 h)]

theorem cutPiece_skip_none (cfg : Config) (granted : ℕ → Bool) (h : s.length < n) :
    cutPiece cfg granted s (k, .skip n) = none := by
  rw [cutPiece, if_neg (Nat.not_le.2 h)]

theorem cutPiece_append (h : cutPiece cfg granted s m = some (p, m', rest)) (t : List UInt8) :
    cutPiece cfg granted (s ++ t) m = some (p, m', rest ++ t) := by
  obtain ⟨k, e⟩ := m
  cases e with
  | line =>
    by_cases hmem : 10 ∈ s
    · obtain ⟨line, rest', rfl, hno⟩ := List.eq_append_cons_of_mem hmem
      rw [cutPiece_line hno] at h
      obtain ⟨rfl, rfl, rfl⟩ := Prod.mk.inj (Option.some.inj h) |>.imp_right Prod.mk.inj
      rw [List.append_assoc, List.cons_append, cutPiece_line hno]
    · rw [cutPiece, if_neg hmem] at h
      cases h
  | block n =>
    obtain ⟨hle, heq⟩ := Option.ite_none_right_eq_some.1 h
    obtain ⟨rfl, rfl, rfl⟩ := Prod.mk.inj (Option.some.inj heq) |>.imp_right Prod.mk.inj
    rw [← List.take_append_drop n s, List.append_assoc, cutPiece_block (by simp [hle]),
      List.take_append_drop]
  | skip n =>
    obtain ⟨hle, heq⟩ := Option.ite_none_right_eq_some.1 h
    obtain ⟨rfl, rfl, rfl⟩ := Prod.mk.inj (Option.some.inj heq) |>.imp_right Prod.mk.inj
    rw [← List.take_append_drop n s, List.append_assoc, cutPiece_skip (by simp [hle]),
      List.take_append_drop]
  | nothing => cases h

end

/-- How a stream is cut. -/
def framer (cfg : Config) (granted : ℕ → Bool) : Framer (ℕ × Expect) UInt8 Piece where
  cut m s := cutPiece cfg granted s m
  cut_append := cutPiece_append

/-- There was memory for those items for which `granted` says so. -/
def Agrees (granted : ℕ → Bool) (log : List Event) :
    Prop := ∀ i ok, (grants log)[i]? = some ok → granted i = ok

section

variable {granted : ℕ → Bool} {log es : List Event}

@[simp] theorem pieces_append (log es : List Event) :
    pieces (log ++ es) = pieces log ++ pieces es :=
  List.filterMap_append

@[simp] theorem grants_append (log es : List Event) :
    grants (log ++ es) = grants log ++ grants es :=
  List.filterMap_append

theorem Agrees.of_append (h : Agrees granted (log ++ es)) : Agrees granted log := by
  intro i ok hi
  refine h i ok ?_
  rw [grants_append, List.getElem?_append_left (List.getElem?_eq_some_iff.1 hi).1, hi]

theorem Agrees.of_grant {ok : Bool} (h : Agrees granted (log ++ es)) (hes : grants es = [ok]) :
    granted (grants log).length = ok := by
  refine h _ ok ?_
  rw [grants_append, hes, List.getElem?_concat_length]

theorem agrees_true (h : ∀ ok ∈ grants log, ok = true) : Agrees (fun _ => true) log :=
  fun _ ok hi => (h ok (List.mem_of_getElem? hi)).symm

theorem pieces_tokens (us : List Use) : pieces (us.map .token) = [] := by
  induction us with
  | nil => rfl
  | cons u us ih => exact ih

theorem grants_tokens (us : List Use) : grants (us.map .token) = [] := by
  induction us with
  | nil => rfl
  | cons u us ih => exact ih

/-- An item is asked for. -/
theorem length_grants_line {line : List UInt8} {noreply ok : Bool} (h : grants es = [ok]) :
    (grants (log ++ .line line noreply :: es)).length = (grants log).length + 1 := by
  rw [grants_append, List.length_append, show grants (.line line noreply :: es) =
    grants es from rfl, h]
  rfl

theorem pieces_alloc (us : List Use) (ok : Bool) : pieces (us.map .token ++ [.alloc ok]) = [] := by
  rw [pieces_append, pieces_tokens]
  rfl

theorem grants_alloc (us : List Use) (ok : Bool) :
    grants (us.map .token ++ [.alloc ok]) = [ok] := by
  rw [grants_append, grants_tokens]
  rfl

theorem pieces_replies (h : ∀ e ∈ es, e = .queued ∨ ∃ u, e = .token u) : pieces es = [] := by
  refine List.filterMap_eq_nil_iff.2 fun e he => ?_
  rcases h e he with rfl | ⟨u, rfl⟩ <;> rfl

theorem grants_replies (h : ∀ e ∈ es, e = .queued ∨ ∃ u, e = .token u) : grants es = [] := by
  refine List.filterMap_eq_nil_iff.2 fun e he => ?_
  rcases h e he with rfl | ⟨u, rfl⟩ <;> rfl

end

namespace Control

variable (cfg : Config) (stream : List UInt8) (c : Control)

/-- What a connection expects, and the rest of its stream: part of it may be in the data block, part
of it in the buffer. -/
inductive Expects : Expect → List UInt8 → Prop
  /-- A data block is read. -/
  | block (h : c.state = .nread) :
      Expects (.block (c.rdata.length + c.rlbytes)) (c.rdata ++ c.unread ++ c.input)
  /-- A data block is swallowed. -/
  | skip (h : c.state = .swallow) :
      Expects (.skip (c.rdata.length + c.sbytes)) (c.rdata ++ c.unread ++ c.input)
  /-- A data block will be swallowed when an error has been written. -/
  | toSkip (h : c.state = .write) (hgo : c.writeAndGo = .swallow) (hrdata : c.rdata = []) :
      Expects (.skip c.sbytes) (c.unread ++ c.input)
  /-- A line comes next. -/
  | line (hnread : c.state ≠ .nread) (hswallow : c.state ≠ .swallow) (hclose : c.state ≠ .close)
      (hwrite : c.state = .write → c.writeAndGo = .newCmd) : Expects .line (c.unread ++ c.input)

/-- The connection is closed, or will be when an error has been written. -/
def Closing : Prop := c.state = .close ∨ c.state = .write ∧ c.writeAndGo = .close

/-- `quit` was read. -/
def Quit :
    Prop := ∃ line noreply, Event.line line noreply ∈ c.log ∧
      reqTypeOf (Session.request line) = .quit

/-- The pieces so far leave the framer in the mode `m` with `rest`. -/
def Cut (granted : ℕ → Bool) (m : ℕ × Expect) (rest : List UInt8) : Prop :=
  (framer cfg granted).Cuts (0, .line) stream (pieces c.log) m rest

/-- What was cut off the stream, and where the rest of it is. -/
structure Framed : Prop where
  /-- It is a TCP connection. -/
  udp : c.udp = false
  /-- There is no line in the buffer while the connection waits. -/
  waiting : c.state = .wait ∨ c.state = .read → 10 ∉ c.unread
  /-- The framer is where the connection is. -/
  cut : ∀ granted, Agrees granted c.log →
    (∃ e rest, c.Cut cfg stream granted ((grants c.log).length, e) rest ∧ c.Expects e rest) ∨
      c.Closing ∧ ∃ m rest, c.Cut cfg stream granted m rest
  /-- After `quit`, the connection is closed and nothing is expected. -/
  quit : c.Quit → c.state = .close ∧ ∀ granted, Agrees granted c.log →
    ∃ k rest, c.Cut cfg stream granted (k, .nothing) rest
  /-- After the end of the stream, the connection is closed, and what is left is in the buffer. -/
  eof : Event.eof ∈ c.log → c.state = .close ∧ ∀ granted, Agrees granted c.log →
    ∃ m rest, c.Cut cfg stream granted m rest ∧
      ((framer cfg granted).cut m rest = none ↔ 10 ∉ c.unread)

variable {cfg stream} {c} {d : Control} {granted : ℕ → Bool} {e : Expect} {rest : List UInt8}
  {k : ℕ}

/-- Another piece is cut off. -/
theorem Cut.snoc {m m' : ℕ × Expect} {rest' : List UInt8} {p : Piece}
    (h : c.Cut cfg stream granted m rest) (hcut : cutPiece cfg granted rest m = some (p, m', rest'))
    (hd : pieces d.log = pieces c.log ++ [p]) :
    d.Cut cfg stream granted m' rest' := by
  unfold Cut
  rw [hd]
  exact Framer.Cuts.snoc h hcut

/-- No piece is complete. -/
theorem Cut.of_pieces {m : ℕ × Expect} (h : c.Cut cfg stream granted m rest)
    (hd : pieces d.log = pieces c.log) :
    d.Cut cfg stream granted m rest := by
  unfold Cut
  rwa [hd]

/-- An open connection has neither read `quit` nor the end of its stream. -/
theorem Framed.open (h : c.Framed cfg stream) {s : ConnState} (hs : c.state = s)
    (hclose : s ≠ .close) :
    ¬ c.Quit ∧ Event.eof ∉ c.log :=
  ⟨fun hq => hclose (hs.symm.trans (h.quit hq).1), fun he => hclose (hs.symm.trans (h.eof he).1)⟩

/-- A line is expected. -/
theorem Framed.cut_line (h : c.Framed cfg stream) {s : ConnState} (hs : c.state = s)
    (hnread : s ≠ .nread) (hswallow : s ≠ .swallow) (hclose : s ≠ .close)
    (hwrite : s = .write → c.writeAndGo = .newCmd) (hg : Agrees granted c.log) :
    c.Cut cfg stream granted ((grants c.log).length, .line) (c.unread ++ c.input) := by
  subst hs
  rcases h.cut granted hg with ⟨e, rest, hcut, hexp⟩ | ⟨hclosing | ⟨hw, hgo⟩, -⟩
  · cases hexp with
    | block hs => exact absurd hs hnread
    | skip hs => exact absurd hs hswallow
    | toSkip hs hgo => cases hgo.symm.trans (hwrite hs)
    | line => exact hcut
  · exact absurd hclosing hclose
  · cases hgo.symm.trans (hwrite hw)

/-- A data block is expected. -/
theorem Framed.cut_block (h : c.Framed cfg stream) (hs : c.state = .nread)
    (hg : Agrees granted c.log) :
    c.Cut cfg stream granted ((grants c.log).length, .block (c.rdata.length + c.rlbytes))
      (c.rdata ++ c.unread ++ c.input) := by
  rcases h.cut granted hg with ⟨e, rest, hcut, hexp⟩ | ⟨hclosing | ⟨hw, -⟩, -⟩
  · cases hexp with
    | block => exact hcut
    | skip hs' => cases hs.symm.trans hs'
    | toSkip hs' => cases hs.symm.trans hs'
    | line hnread => exact absurd hs hnread
  · cases hs.symm.trans hclosing
  · cases hs.symm.trans hw

/-- A data block that is not wanted is expected. -/
theorem Framed.cut_skip (h : c.Framed cfg stream) (hs : c.state = .swallow)
    (hg : Agrees granted c.log) :
    c.Cut cfg stream granted ((grants c.log).length, .skip (c.rdata.length + c.sbytes))
      (c.rdata ++ c.unread ++ c.input) := by
  rcases h.cut granted hg with ⟨e, rest, hcut, hexp⟩ | ⟨hclosing | ⟨hw, -⟩, -⟩
  · cases hexp with
    | block hs' => cases hs.symm.trans hs'
    | skip => exact hcut
    | toSkip hs' => cases hs.symm.trans hs'
    | line _ hswallow => exact absurd hs hswallow
  · cases hs.symm.trans hclosing
  · cases hs.symm.trans hw

/-- What was cut off is always what the framer cuts off. -/
theorem Framed.cut_some (h : c.Framed cfg stream) (hg : Agrees granted c.log) :
    ∃ m rest, c.Cut cfg stream granted m rest := by
  rcases h.cut granted hg with ⟨e, rest, hcut, -⟩ | ⟨-, m, rest, hcut⟩
  · exact ⟨_, rest, hcut⟩
  · exact ⟨m, rest, hcut⟩

/-- The connection goes on. -/
theorem Framed.of_open (hudp : d.udp = false)
    (hwaiting : d.state = .wait ∨ d.state = .read → 10 ∉ d.unread)
    (hcut : ∀ granted, Agrees granted d.log →
      ∃ e rest, d.Cut cfg stream granted ((grants d.log).length, e) rest ∧ d.Expects e rest)
    (hopen : ¬ d.Quit ∧ Event.eof ∉ d.log) : d.Framed cfg stream :=
  ⟨hudp, hwaiting, fun granted hg => .inl (hcut granted hg), fun hq => absurd hq hopen.1,
    fun he => absurd he hopen.2⟩

/-- The connection is closed, or about to be. -/
theorem Framed.of_closing (hudp : d.udp = false) (hclosing : d.Closing)
    (hcut : ∀ granted, Agrees granted d.log → ∃ m rest, d.Cut cfg stream granted m rest)
    (hopen : ¬ d.Quit ∧ Event.eof ∉ d.log) : d.Framed cfg stream := by
  refine ⟨hudp, ?_, fun granted hg => .inr ⟨hclosing, hcut granted hg⟩, fun hq => absurd hq hopen.1,
    fun he => absurd he hopen.2⟩
  rintro (hs | hs)
  · rcases hclosing with hc | ⟨hc, -⟩ <;> cases hs.symm.trans hc
  · rcases hclosing with hc | ⟨hc, -⟩ <;> cases hs.symm.trans hc

/-- A failure closes the connection. -/
theorem Framed.close (h : c.Framed cfg stream) : (c.goto .close).Framed cfg stream := by
  refine ⟨h.udp, fun hs => ?_, fun granted hg => .inr ⟨.inl rfl, h.cut_some hg⟩,
    fun hq => ⟨rfl, (h.quit hq).2⟩, fun he => ⟨rfl, (h.eof he).2⟩⟩
  rcases hs with hs | hs <;> cases hs

/-- The state changes while a line is expected. -/
theorem Framed.goto (h : c.Framed cfg stream) {s t : ConnState} (hs : c.state = s)
    (hnread : s ≠ .nread) (hswallow : s ≠ .swallow) (hclose : s ≠ .close)
    (hwrite : s = .write → c.writeAndGo = .newCmd) (ht : t ∉ [.nread, .swallow, .close, .write])
    (hwaiting : t = .wait ∨ t = .read → 10 ∉ c.unread) :
    (c.goto t).Framed cfg stream := by
  simp only [List.mem_cons, List.not_mem_nil, or_false, not_or] at ht
  refine .of_open h.udp hwaiting
    (fun granted hg => ⟨.line, _, h.cut_line hs hnread hswallow hclose hwrite hg, ?_⟩)
    (h.open hs hclose)
  exact .line ht.1 ht.2.1 ht.2.2.1 fun hw => absurd hw ht.2.2.2

/-- **The state changes, and nothing is cut off.** -/
theorem Framed.moves {faulty : Prop} {s : ConnState} (h : c.Framed cfg stream)
    (hfair : c.Fair False) (hm : c.Moves faulty s) : (c.goto s).Framed cfg stream := by
  cases hm with
  | readable hs =>
    exact h.goto hs (by decide) (by decide) (by decide) (fun hw => by cases hw) (by decide) fun _ =>
      h.waiting (.inl hs)
  | nothing hs =>
    exact h.goto hs (by decide) (by decide) (by decide) (fun hw => by cases hw) (by decide) fun _ =>
      h.waiting (.inr hs)
  | incomplete hs hno =>
    exact h.goto hs (by decide) (by decide) (by decide) (fun hw => by cases hw) (by decide) fun _ =>
      hno
  | endless hs => exact h.close
  | written hs =>
    rcases hfair.writeAndGo hs with hgo | hgo | hgo
    · rw [hgo]
      exact h.goto hs (by decide) (by decide) (by decide) (fun _ => hgo) (by decide)
        (by rintro (h' | h') <;> cases h')
    · -- the error was written, and now the data block is swallowed
      rw [hgo]
      refine .of_open h.udp (by rintro (h' | h') <;> cases h') (fun granted hg => ?_)
        (h.open hs (by decide))
      rcases h.cut granted hg with ⟨e, rest, hcut, hexp⟩ | ⟨hclosing | ⟨-, hgo'⟩, -⟩
      · cases hexp with
        | block hs' => cases hs.symm.trans hs'
        | skip hs' => cases hs.symm.trans hs'
        | toSkip _ _ hrdata =>
          refine ⟨_, _, hcut, ?_⟩
          have hskip : (c.goto .swallow).Expects _ _ := .skip rfl
          rwa [show (c.goto .swallow).rdata = [] from hrdata, List.length_nil, Nat.zero_add]
            at hskip
        | line _ _ _ hwrite => cases hgo.symm.trans (hwrite hs)
      · cases hs.symm.trans hclosing
      · cases hgo.symm.trans hgo'
    · rw [hgo]
      exact h.close
  | sent hs =>
    exact h.goto hs (by decide) (by decide) (by decide) (fun hw => by cases hw) (by decide)
      (by rintro (h' | h') <;> cases h')
  | unsent _ hudp => exact absurd (h.udp.symm.trans hudp) Bool.false_ne_true
  | failed => exact h.close

/-- What is recorded is neither `quit` nor the end of the stream. -/
theorem open_append {es : List Event} (h : ¬ c.Quit ∧ Event.eof ∉ c.log) (hd : d.log = c.log ++ es)
    (hline : ∀ line noreply, Event.line line noreply ∈ es →
      reqTypeOf (Session.request line) ≠ .quit)
    (heof : Event.eof ∉ es) : ¬ d.Quit ∧ Event.eof ∉ d.log := by
  constructor
  · rintro ⟨line, noreply, hmem, hquit⟩
    rw [hd] at hmem
    rcases List.mem_append.1 hmem with hmem | hmem
    · exact h.1 ⟨line, noreply, hmem, hquit⟩
    · exact hline line noreply hmem hquit
  · rw [hd]
    intro hmem
    rcases List.mem_append.1 hmem with hmem | hmem
    · exact h.2 hmem
    · exact heof hmem

/-- The record of a reply. -/
theorem log_rsp (c : Control) : ∃ es, c.rsp.log = c.log ++ es ∧ ∀ e ∈ es, e = .queued := by
  cases hn : c.noreply with
  | true =>
    rw [rsp_of_noreply hn]
    exact ⟨[], (List.append_nil _).symm, by simp⟩
  | false =>
    rw [rsp_of_reply hn]
    exact ⟨[.queued], rfl, by simp⟩

theorem pieces_rsp (c : Control) : pieces c.rsp.log = pieces c.log := by
  obtain ⟨es, hlog, hes⟩ := c.log_rsp
  rw [hlog, pieces_append, pieces_replies fun e he => .inl (hes e he), List.append_nil]

theorem grants_rsp (c : Control) : grants c.rsp.log = grants c.log := by
  obtain ⟨es, hlog, hes⟩ := c.log_rsp
  rw [hlog, grants_append, grants_replies fun e he => .inl (hes e he), List.append_nil]

@[simp] theorem rsp_unread (c : Control) : c.rsp.unread = c.unread := by
  unfold rsp
  split_ifs <;> rfl

@[simp] theorem rsp_input (c : Control) : c.rsp.input = c.input := by
  unfold rsp
  split_ifs <;> rfl

@[simp] theorem rsp_udp (c : Control) : c.rsp.udp = c.udp := by
  unfold rsp
  split_ifs <;> rfl

/-- A reply neither reads `quit` nor the end of the stream. -/
theorem open_rsp (h : ¬ c.Quit ∧ Event.eof ∉ c.log) : ¬ c.rsp.Quit ∧ Event.eof ∉ c.rsp.log := by
  obtain ⟨es, hlog, hes⟩ := c.log_rsp
  refine open_append h hlog (fun line noreply hmem => ?_) fun hmem => ?_
  · cases hes _ hmem
  · cases hes _ hmem

/-- A line is cut off, and what is recorded with it says what comes next. -/
theorem Framed.line_cut {line rest : List UInt8} {noreply : Bool} {es : List Event} {m : ℕ × Expect}
    (h : c.Framed cfg stream) (hs : c.state = .parse) (hunread : c.unread = line ++ 10 :: rest)
    (hno : 10 ∉ line) (hd : d.log = c.log ++ .line line noreply :: es) (hes : pieces es = [])
    (hg : Agrees granted d.log)
    (hafter : afterLine cfg granted (grants c.log).length (Session.request line) = m) :
    d.Cut cfg stream granted m (rest ++ c.input) := by
  have hg' : Agrees granted c.log := by
    rw [hd] at hg
    exact hg.of_append
  have hline := h.cut_line hs (by decide) (by decide) (by decide) (fun hw => by cases hw) hg'
  rw [hunread, List.append_assoc, List.cons_append] at hline
  refine hline.snoc (by rw [cutPiece_line hno, hafter]) ?_
  rw [hd, pieces_append, show pieces (.line line noreply :: es) = .line line :: pieces es from rfl,
    hes]

/-- A line is expected in a state that belongs to no data block. -/
theorem Expects.of_state {s : ConnState} (hs : c.state = s) (hnread : s ≠ .nread)
    (hswallow : s ≠ .swallow) (hclose : s ≠ .close) (hwrite : s = .write → c.writeAndGo = .newCmd) :
    c.Expects .line (c.unread ++ c.input) := by
  subst hs
  exact .line hnread hswallow hclose hwrite

/-- A request other than `quit` leaves the connection open. -/
theorem open_line {line : List UInt8} {noreply : Bool} {es : List Event}
    (h : ¬ c.Quit ∧ Event.eof ∉ c.log) (hd : d.log = c.log ++ .line line noreply :: es)
    (hquit : reqTypeOf (Session.request line) ≠ .quit)
    (hes : ∀ e ∈ es, e = .queued ∨ (∃ u, e = .token u) ∨ ∃ ok, e = .alloc ok) :
    ¬ d.Quit ∧ Event.eof ∉ d.log := by
  refine open_append h hd (fun l nr hmem => ?_) fun hmem => ?_
  · rcases List.mem_cons.1 hmem with heq | hmem
    · cases heq
      exact hquit
    · rcases hes _ hmem with heq | ⟨u, heq⟩ | ⟨ok, heq⟩ <;> cases heq
  · rcases List.mem_cons.1 hmem with heq | hmem
    · cases heq
    · rcases hes _ hmem with heq | ⟨u, heq⟩ | ⟨ok, heq⟩ <;> cases heq

/-- What is recorded while memory for an item is asked for. -/
theorem mem_alloc_events {us : List Use} {ok : Bool} {e : Event}
    (he : e ∈ us.map .token ++ [.alloc ok]) :
    e = .queued ∨ (∃ u, e = .token u) ∨ ∃ ok, e = .alloc ok := by
  rcases List.mem_append.1 he with he | he
  · obtain ⟨u, -, rfl⟩ := List.mem_map.1 he
    exact .inr (.inl ⟨u, rfl⟩)
  · exact .inr (.inr ⟨ok, List.mem_singleton.1 he⟩)

section

variable {line : List UInt8} {noreply : Bool} {es : List Event} {us : List Use} {vlen : ℕ}

/-- A request that is answered is followed by a line. -/
theorem Framed.answered {s go : ConnState} (h : c.Framed cfg stream) (hs : c.state = .parse)
    (hunread : c.unread = line ++ 10 :: rest) (hno : 10 ∉ line)
    (hblock : blockOf cfg (Session.request line) = none)
    (hquit : reqTypeOf (Session.request line) ≠ .quit)
    (hes : ∀ e ∈ es, e = .queued ∨ ∃ u, e = .token u)
    (hst : s = .newCmd ∨ s = .mwrite ∨ s = .write ∧ go = .newCmd) :
    Framed cfg stream { c with
      noreply := false, state := s, writeAndGo := go, unread := rest, log :=
        c.log ++ .line line noreply :: es } := by
  have hafter : ∀ granted, afterLine cfg granted (grants c.log).length (Session.request line) =
      ((grants c.log).length, .line) := fun granted => by rw [afterLine_none hblock, if_neg hquit]
  have hgrants : grants (c.log ++ .line line noreply :: es) = grants c.log := by
    rw [grants_append, show grants (.line line noreply :: es) = grants es from rfl,
      grants_replies hes, List.append_nil]
  refine .of_open h.udp ?_ (fun granted hg => ⟨.line, rest ++ c.input, ?_, ?_⟩)
    (open_line (h.open hs (by decide)) rfl hquit fun e he => (hes e he).imp_right .inl)
  · rintro (hw | hw) <;> rcases hst with rfl | rfl | ⟨rfl, -⟩ <;> cases hw
  · rw [show grants ({ c with
      noreply := false, state := s, writeAndGo := go, unread := rest, log := _ } : Control).log =
        _ from hgrants]
    exact h.line_cut hs hunread hno rfl (pieces_replies hes) hg (hafter granted)
  · rcases hst with rfl | rfl | ⟨rfl, rfl⟩
    · exact .of_state (s := .newCmd) rfl (by decide) (by decide) (by decide) (fun hw => by cases hw)
    · exact .of_state (s := .mwrite) rfl (by decide) (by decide) (by decide) (fun hw => by cases hw)
    · exact .of_state (s := .write) rfl (by decide) (by decide) (by decide) (fun _ => rfl)

/-- A request with memory for its item is followed by its data block. -/
theorem Framed.stored (h : c.Framed cfg stream) (hs : c.state = .parse)
    (hunread : c.unread = line ++ 10 :: rest) (hno : 10 ∉ line)
    (hblock : blockOf cfg (Session.request line) = some (vlen, noreply)) :
    Framed cfg stream { c with
      noreply := noreply, hasItem := true, rlbytes := vlen + crlfLen, rdata := [], state :=
        .nread, unread := rest
      log := c.log ++ .line line noreply :: (us.map .token ++ [.alloc true]) } := by
  refine .of_open h.udp (by rintro (hw | hw) <;> cases hw) (fun granted hg => ?_)
    (open_line (h.open hs (by decide)) rfl (not_quit_of_blockOf hblock) fun _ => mem_alloc_events)
  have hok : granted (grants c.log).length = true := hg.of_grant (grants_alloc us true)
  have hlen : (grants (c.log ++ .line line noreply :: (us.map .token ++ [.alloc true]))).length =
      _ :=
    length_grants_line (grants_alloc us true)
  refine ⟨.block (vlen + crlfLen), rest ++ c.input, ?_, ?_⟩
  · refine h.line_cut hs hunread hno rfl (pieces_alloc us true) hg ?_
    rw [afterLine_block hblock, if_pos hok]
    dsimp only
    rw [hlen]
  · have hexp : Expects { c with
        noreply := noreply, hasItem := true, rlbytes := vlen + crlfLen, rdata := [], state :=
          .nread, unread := rest
        log := c.log ++ .line line noreply :: (us.map .token ++ [.alloc true]) } _ _ := .block rfl
    rwa [List.length_nil, Nat.zero_add] at hexp

/-- A request without memory for its item is followed by a data block to swallow, or, if no error is
written, by a line. -/
theorem Framed.unstored (h : c.Framed cfg stream) (hs : c.state = .parse)
    (hunread : c.unread = line ++ 10 :: rest) (hno : 10 ∉ line)
    (hblock : blockOf cfg (Session.request line) = some (vlen, noreply)) :
    Framed cfg stream { ({ c with
        noreply := noreply
        log := c.log ++ .line line noreply :: (us.map .token ++ [.alloc false]) } : Control).rsp
            with
      writeAndGo := .swallow, sbytes := vlen + crlfLen, rdata := [], unread := rest } := by
  generalize hb : ({ c with
    noreply := noreply, log := c.log ++ .line line noreply :: (us.map .token ++ [.alloc false]) } :
      Control) = b
  have hlog : b.log = c.log ++ .line line noreply :: (us.map .token ++ [.alloc false]) := by
    rw [← hb]
  have hlen : (grants b.rsp.log).length = (grants c.log).length + 1 := by
    rw [grants_rsp, hlog]
    exact length_grants_line (grants_alloc us false)
  have hbopen : ¬ b.Quit ∧ Event.eof ∉ b.log :=
    open_line (h.open hs (by decide)) hlog (not_quit_of_blockOf hblock) fun _ => mem_alloc_events
  have hcut : ∀ granted, Agrees granted b.rsp.log →
      b.rsp.Cut cfg stream granted ((grants c.log).length + 1,
      if noreply then .line else .skip (vlen + crlfLen)) (rest ++ c.input) := by
    intro granted hg
    have hgb : Agrees granted b.log := by
      obtain ⟨es, hrsp, -⟩ := b.log_rsp
      rw [hrsp] at hg
      exact hg.of_append
    have hok : granted (grants c.log).length = false := by
      rw [hlog] at hgb
      exact hgb.of_grant (grants_alloc us false)
    refine Cut.of_pieces (c := b) ?_ (pieces_rsp b)
    refine h.line_cut hs hunread hno hlog (pieces_alloc us false) hgb ?_
    rw [afterLine_block hblock, if_neg (by rw [hok]; exact Bool.false_ne_true)]
  have hudp : b.rsp.udp = false := by
    rw [rsp_udp, ← hb]
    exact h.udp
  have hinput : b.rsp.input = c.input := by rw [rsp_input, ← hb]
  rw [← hinput, ← hlen] at hcut
  cases noreply with
  | true =>
    -- no error is written, and the bytes of the data block are taken for the next line
    have hst : b.rsp.state = .newCmd := by rw [rsp_of_noreply (by rw [← hb])]
    refine .of_open hudp ?_ (fun granted hg => ⟨.line, rest ++ b.rsp.input, hcut granted hg, ?_⟩)
      (open_rsp hbopen)
    · rintro (hw | hw) <;> cases hst.symm.trans hw
    · exact .of_state hst (by decide) (by decide) (by decide) (fun hw => by cases hw)
  | false =>
    have hst : b.rsp.state = .write := by rw [rsp_of_reply (by rw [← hb])]
    refine .of_open hudp ?_
      (fun granted hg => ⟨.skip (vlen + crlfLen), rest ++ b.rsp.input, hcut granted hg, ?_⟩)
      (open_rsp hbopen)
    · rintro (hw | hw) <;> cases hst.symm.trans hw
    · exact .toSkip hst rfl rfl

/-- Nothing is expected after `quit`. -/
theorem Framed.quitted (h : c.Framed cfg stream) (hs : c.state = .parse)
    (hunread : c.unread = line ++ 10 :: rest)
    (hno : 10 ∉ line) (hblock : blockOf cfg (Session.request line) = none)
    (hquit : reqTypeOf (Session.request line) = .quit) :
    Framed cfg stream { c with
      state := .close, unread := rest, log := c.log ++ .line line false :: us.map .token } := by
  have hcut : ∀ granted, Agrees granted (c.log ++ .line line false :: us.map .token) →
      Cut cfg stream { c with
        state := .close, unread := rest
        log := c.log ++ .line line false :: us.map .token } granted
        ((grants c.log).length, .nothing) (rest ++ c.input) := fun granted hg =>
    h.line_cut hs hunread hno rfl (pieces_tokens us) hg
      (by rw [afterLine_none hblock, if_pos hquit])
  refine ⟨h.udp, (by rintro (hw | hw) <;> cases hw),
    fun granted hg => .inr ⟨.inl rfl, _, _, hcut granted hg⟩,
    fun _ => ⟨rfl, fun granted hg => ⟨_, _, hcut granted hg⟩⟩, fun heof => ?_⟩
  have hmem : Event.eof ∈ c.log ++ .line line false :: us.map .token := heof
  rcases List.mem_append.1 hmem with hmem | hmem
  · exact absurd hmem (h.open hs (by decide)).2
  · simp at hmem

end

/-- **A request is cut off**, and its handler decides what comes next. -/
theorem Framed.handled {handled : Prop} {line rest : List UInt8} (h : c.Framed cfg stream)
    (hs : c.state = .parse) (hunread : c.unread = line ++ 10 :: rest) (hno : 10 ∉ line)
    (hd : Handled cfg c handled line d) :
    Framed cfg stream { d with unread := rest } := by
  cases hd with
  | answered hblock hquit hes _ _ _ hst => exact h.answered hs hunread hno hblock hquit hes hst
  | stored hblock => exact h.stored hs hunread hno hblock
  | unstored hblock => exact h.unstored hs hunread hno hblock
  | quit hblock hquit => exact h.quitted hs hunread hno hblock hquit

/-- How a data block goes on: its bytes come from the buffer and from the socket. -/
theorem stream_fill {got read unread input : List UInt8} (hudp : c.udp = false)
    (hunread : c.unread = got ++ unread) (hinput : c.Takes read input)
    (hempty : read ≠ [] → unread = []) :
    c.rdata ++ c.unread ++ c.input = c.rdata ++ (got ++ read) ++ unread ++ input := by
  have htaken : c.input = read ++ input := by
    unfold Takes at hinput
    rwa [if_neg (by rw [hudp]; exact Bool.false_ne_true)] at hinput
  rw [hunread, htaken]
  by_cases hread : read = []
  · rw [hread]
    simp
  · rw [hempty hread]
    simp

/-- The end of a stream is found when all of it has been read. -/
theorem Ends.cases {faulty : Prop} {unread input : List UInt8} {es : List Event} {s : ConnState}
    (h : c.Ends faulty unread input es s) (hudp : c.udp = false) :
    es = [] ∧ (s = c.state ∨ s = .close) ∨ es = [.eof] ∧ s = .close ∧ unread = [] ∧ input = [] := by
  rcases h with ⟨hes, hs | ⟨-, hs⟩⟩ | ⟨-, hes, hs, hunread, hudp' | hinput⟩
  · exact .inl ⟨hes, .inl hs⟩
  · exact .inl ⟨hes, .inr hs⟩
  · exact absurd (hudp.symm.trans hudp') Bool.false_ne_true
  · exact .inr ⟨hes, hs, hunread, hinput⟩

/-- A data block goes on, is interrupted, or ends too early. -/
theorem Framed.part {faulty : Prop} {unread input : List UInt8} {es : List Event} {s : ConnState}
    (bytes : List UInt8) (e : Expect) (h : c.Framed cfg stream)
    (hs : c.state = .nread ∨ c.state = .swallow) (hends : c.Ends faulty unread input es s)
    (hd : d.udp = c.udp ∧ d.state = s ∧ d.unread = unread ∧ d.input = input ∧ d.log = c.log ++ es)
    (hcut : ∀ granted, Agrees granted c.log →
      c.Cut cfg stream granted ((grants c.log).length, e) (bytes ++ unread ++ input))
    (hexp : d.state = c.state → d.Expects e (bytes ++ unread ++ input))
    (hstuck : s = .close →
      ∀ granted, cutPiece cfg granted bytes ((grants c.log).length, e) = none) :
    d.Framed cfg stream := by
  obtain ⟨hdudp, hdstate, hdunread, hdinput, hdlog⟩ := hd
  have hopen : ¬ c.Quit ∧ Event.eof ∉ c.log := by
    rcases hs with hs | hs
    · exact h.open hs (by decide)
    · exact h.open hs (by decide)
  rcases hends.cases h.udp with ⟨rfl, hst⟩ | ⟨rfl, rfl, rfl, rfl⟩
  · rw [List.append_nil] at hdlog
    -- the stream has not ended, and the framer stands where it stood
    have hdopen : ¬ d.Quit ∧ Event.eof ∉ d.log := by
      unfold Quit
      rw [hdlog]
      exact hopen
    have hdcut : ∀ granted, Agrees granted d.log →
        d.Cut cfg stream granted ((grants d.log).length, e) (bytes ++ unread ++ input) := by
      unfold Cut
      rw [hdlog]
      exact hcut
    rcases hst with rfl | rfl
    · refine .of_open (hdudp.trans h.udp) ?_
        (fun granted hg => ⟨e, _, hdcut granted hg, hexp hdstate⟩) hdopen
      rintro (hw | hw) <;> rcases hs with hs | hs <;> cases hs.symm.trans (hdstate.symm.trans hw)
    · exact .of_closing (hdudp.trans h.udp) (.inl hdstate)
        (fun granted hg => ⟨_, _, hdcut granted hg⟩) hdopen
  · -- the data block is not complete, so nothing that is complete is left
    have hdcut : ∀ granted, Agrees granted d.log →
        d.Cut cfg stream granted ((grants c.log).length, e) bytes := by
      intro granted hg
      rw [hdlog] at hg
      have hc := hcut granted hg.of_append
      rw [List.append_nil, List.append_nil] at hc
      exact hc.of_pieces (by rw [hdlog, pieces_append]; exact List.append_nil _)
    refine ⟨hdudp.trans h.udp, ?_, fun granted hg => .inr ⟨.inl hdstate, _, _, hdcut granted hg⟩,
      ?_, fun _ => ⟨hdstate, fun granted hg => ⟨_, _, hdcut granted hg, ?_⟩⟩⟩
    · rintro (hw | hw) <;> cases hdstate.symm.trans hw
    · rintro ⟨line, noreply, hmem, hquit⟩
      rw [hdlog] at hmem
      rcases List.mem_append.1 hmem with hmem | hmem
      · exact absurd ⟨line, noreply, hmem, hquit⟩ hopen.1
      · simp at hmem
    · rw [hdunread]
      exact ⟨fun _ => by simp, fun _ => hstuck rfl granted⟩

/-- A data block is complete, and a line is expected. -/
theorem Framed.completed (bytes : List UInt8) {p : Piece} {ev : Event} (h : c.Framed cfg stream)
    {s : ConnState} (hs : c.state = s) (hclose : s ≠ .close)
    (hev : ev = .block bytes ∧ p = .block bytes ∨ ev = .skip bytes ∧ p = .skip bytes)
    (hcut : ∀ granted, Agrees granted c.log → ∃ m rest, c.Cut cfg stream granted m rest ∧
      cutPiece cfg granted rest m = some (p, ((grants c.log).length, .line), c.unread ++ c.input))
    (hd : d.udp = c.udp ∧ d.unread = c.unread ∧ d.input = c.input)
    (hdlog : ∃ es, d.log = c.log ++ ev :: es ∧ ∀ e ∈ es, e = .queued)
    (hdstate : d.state = .newCmd ∨ d.state = .write ∧ d.writeAndGo = .newCmd) :
    d.Framed cfg stream := by
  obtain ⟨hdudp, hdunread, hdinput⟩ := hd
  obtain ⟨es, hdlog, hes⟩ := hdlog
  have hpieces : pieces d.log = pieces c.log ++ [p] := by
    rw [hdlog, pieces_append]
    have hnone : pieces es = [] := pieces_replies fun e he => .inl (hes e he)
    rcases hev with ⟨rfl, rfl⟩ | ⟨rfl, rfl⟩ <;> exact congrArg
      (fun ps => pieces c.log ++ _ :: ps) hnone
  have hgrants : grants d.log = grants c.log := by
    rw [hdlog, grants_append]
    have hnone : grants es = [] := grants_replies fun e he => .inl (hes e he)
    have hcons : grants (ev :: es) = grants es := by rcases hev with ⟨rfl, -⟩ | ⟨rfl, -⟩ <;> rfl
    rw [hcons, hnone, List.append_nil]
  refine .of_open (hdudp.trans h.udp) ?_ (fun granted hg => ⟨.line, d.unread ++ d.input, ?_, ?_⟩) ?_
  · rintro (hw | hw) <;> rcases hdstate with hst | ⟨hst, -⟩ <;> cases hst.symm.trans hw
  · have hgc : Agrees granted c.log := by
      rw [hdlog] at hg
      exact hg.of_append
    obtain ⟨m, rest, hm, hp⟩ := hcut granted hgc
    rw [hgrants, hdunread, hdinput]
    exact hm.snoc hp hpieces
  · rcases hdstate with hst | ⟨hst, hgo⟩
    · exact .of_state hst (by decide) (by decide) (by decide) (fun hw => by cases hw)
    · exact .of_state hst (by decide) (by decide) (by decide) (fun _ => hgo)
  · refine open_append (h.open hs hclose) hdlog (fun l nr hmem => ?_) fun hmem => ?_
    · rcases List.mem_cons.1 hmem with heq | hmem
      · rcases hev with ⟨rfl, -⟩ | ⟨rfl, -⟩ <;> cases heq
      · cases hes _ hmem
    · rcases List.mem_cons.1 hmem with heq | hmem
      · rcases hev with ⟨rfl, -⟩ | ⟨rfl, -⟩ <;> cases heq
      · cases hes _ hmem

/-- A line is expected after a request, whether there is one in the buffer or not. -/
theorem Framed.reset (h : c.Framed cfg stream) (hs : c.state = .newCmd) :
    Framed cfg stream
        { c with hasItem := false, state := if c.unread = [] then .wait else .parse } := by
  have hcut : ∀ granted, Agrees granted c.log →
      c.Cut cfg stream granted ((grants c.log).length, .line) (c.unread ++ c.input) := fun _ =>
    h.cut_line hs (by decide) (by decide) (by decide) (fun hw => by cases hw)
  by_cases hnil : c.unread = []
  · rw [if_pos hnil]
    refine .of_open h.udp (fun _ => ?_) (fun granted hg => ⟨.line, _, hcut granted hg, ?_⟩)
      (h.open hs (by decide))
    · change 10 ∉ c.unread
      rw [hnil]
      exact List.not_mem_nil
    · exact .of_state (s := .wait) rfl (by decide) (by decide) (by decide) (fun hw => by cases hw)
  · rw [if_neg hnil]
    refine .of_open h.udp (by rintro (hw | hw) <;> cases hw)
      (fun granted hg => ⟨.line, _, hcut granted hg, ?_⟩)
      (h.open hs (by decide))
    exact .of_state (s := .parse) rfl (by decide) (by decide) (by decide) (fun hw => by cases hw)

/-- Bytes go from the socket to the buffer. -/
theorem Framed.receive {faulty : Prop} {bytes rest : List UInt8} {s : ConnState}
    (h : c.Framed cfg stream) (hs : c.state = .read) (hinput : c.input = bytes ++ rest)
    (hd : s = .parse ∨ s = .wait ∧ bytes = [] ∨ faulty ∧ s = .close) :
    Framed cfg stream { c with unread := c.unread ++ bytes, input := rest, state := s } := by
  have hopen := h.open hs (by decide)
  have hcut : ∀ granted, Agrees granted c.log →
      c.Cut cfg stream granted ((grants c.log).length, .line) (c.unread ++ bytes ++ rest) := by
    intro granted hg
    have hc := h.cut_line hs (by decide) (by decide) (by decide) (fun hw => by cases hw) hg
    rwa [hinput, ← List.append_assoc] at hc
  rcases hd with rfl | ⟨rfl, hnil⟩ | ⟨-, rfl⟩
  · refine .of_open h.udp (by rintro (hw | hw) <;> cases hw)
      (fun granted hg => ⟨.line, _, hcut granted hg, ?_⟩) hopen
    exact .of_state (s := .parse) rfl (by decide) (by decide) (by decide) (fun hw => by cases hw)
  · refine .of_open h.udp (fun _ => ?_) (fun granted hg => ⟨.line, _, hcut granted hg, ?_⟩) hopen
    · rw [hnil, List.append_nil]
      exact h.waiting (.inr hs)
    · exact .of_state (s := .wait) rfl (by decide) (by decide) (by decide) (fun hw => by cases hw)
  · exact .of_closing h.udp (.inl rfl) (fun granted hg => ⟨_, _, hcut granted hg⟩) hopen

/-- At the end of the stream all of it is in the buffer, and what is left of it is lost. -/
theorem Framed.ended (h : c.Framed cfg stream) (hs : c.state = .read) :
    Framed cfg stream
      { c with unread := c.unread ++ c.input, input := [], state := .close, log := c.log ++
          [.eof] } := by
  have hopen := h.open hs (by decide)
  have hcut : ∀ granted, Agrees granted (c.log ++ [.eof]) → Cut cfg stream
      { c with unread := c.unread ++ c.input, input := [], state := .close, log := c.log ++ [.eof] }
        granted
      ((grants c.log).length, .line) (c.unread ++ c.input) := by
    intro granted hg
    have hc :=
      h.cut_line hs (by decide) (by decide) (by decide) (fun hw => by cases hw) hg.of_append
    exact hc.of_pieces (by rw [pieces_append]; exact List.append_nil _)
  refine ⟨h.udp, (by rintro (hw | hw) <;> cases hw),
    fun granted hg => .inr ⟨.inl rfl, _, _, hcut granted hg⟩, ?_,
    fun _ => ⟨rfl, fun granted hg => ⟨_, _, hcut granted hg, ?_⟩⟩⟩
  · rintro ⟨line, noreply, hmem, hquit⟩
    rcases List.mem_append.1 hmem with hmem | hmem
    · exact absurd ⟨line, noreply, hmem, hquit⟩ hopen.1
    · simp at hmem
  · change cutPiece cfg granted (c.unread ++ c.input) ((grants c.log).length, .line) = none ↔
        10 ∉ c.unread ++ c.input
    rw [cutPiece]
    split_ifs with hmem
    · exact ⟨fun hc => (by cases hc), fun hc => absurd hmem hc⟩
    · exact ⟨fun _ => hmem, fun _ => rfl⟩

/-- What does not fit the buffer is dropped, and the connection is about to be closed. -/
theorem Framed.overflow (h : c.Framed cfg stream) (hfair : c.Fair False) (hs : c.state = .read)
    (rest : List UInt8) :
    Framed cfg stream
      { ({ c with unread := [], input := rest, log := c.log ++ [.dropped] } : Control).rsp with
        writeAndGo := .close } := by
  generalize hb : ({ c with unread := [], input := rest, log := c.log ++ [.dropped] } : Control) = b
  have hlog : b.log = c.log ++ [.dropped] := by rw [← hb]
  have hbn : b.noreply = false := by
    rw [← hb]
    exact hfair.clear hs (by decide) (by decide)
  have hopen :=
    open_append (h.open hs (by decide)) hlog (fun l nr hmem => by simp at hmem) (by simp)
  refine .of_closing (by change b.rsp.udp = false; rw [rsp_udp, ← hb]; exact h.udp)
    (.inr ⟨?_, rfl⟩) ?_ (open_rsp hopen)
  · change b.rsp.state = .write
    rw [rsp_of_reply hbn]
  · intro granted hg
    have hgc : Agrees granted c.log := by
      obtain ⟨es, hrsp, -⟩ := b.log_rsp
      have hg' : Agrees granted b.rsp.log := hg
      rw [hrsp, hlog, List.append_assoc] at hg'
      exact hg'.of_append
    obtain ⟨m, rest', hcut⟩ := h.cut_some hgc
    refine ⟨m, rest', hcut.of_pieces ?_⟩
    change pieces b.rsp.log = _
    rw [pieces_rsp, hlog, pieces_append]
    exact List.append_nil _

section

variable {faulty : Prop} {got read unread input : List UInt8} {es : List Event} {s : ConnState}

/-- Bytes of a data block go to the item. -/
theorem Framed.fill (h : c.Framed cfg stream) (hs : c.state = .nread)
    (hunread : c.unread = got ++ unread) (hinput : c.Takes read input)
    (hempty : read ≠ [] → unread = []) (hlen : got.length + read.length ≤ c.rlbytes)
    (hends : c.Ends faulty unread input es s)
    (hmore : s = .close → got.length + read.length < c.rlbytes) :
    Framed cfg stream { c with
      rlbytes := c.rlbytes - (got ++ read).length, rdata := c.rdata ++ (got ++ read)
      unread := unread, input := input, state := s, log := c.log ++ es } := by
  have hstream := stream_fill h.udp hunread hinput hempty
  have hlen' : (c.rdata ++ (got ++ read)).length + (c.rlbytes - (got ++ read).length) =
      c.rdata.length + c.rlbytes := by
    simp only [List.length_append]
    omega
  refine .part (c.rdata ++ (got ++ read)) (.block (c.rdata.length + c.rlbytes)) h (.inl hs) hends
    ⟨rfl, rfl, rfl, rfl, rfl⟩ (fun granted hg => ?_) (fun hst => ?_) fun hclose granted => ?_
  · rw [← hstream]
    exact h.cut_block hs hg
  · rw [← hlen']
    exact .block (hst.trans hs)
  · have hless := hmore hclose
    refine cutPiece_block_none cfg granted ?_
    simp only [List.length_append]
    omega

/-- Bytes of a data block are swallowed. -/
theorem Framed.swallow (h : c.Framed cfg stream) (hs : c.state = .swallow)
    (hunread : c.unread = got ++ unread) (hinput : c.Takes read input)
    (hempty : read ≠ [] → unread = []) (hlen : got.length + read.length ≤ c.sbytes)
    (hends : c.Ends faulty unread input es s)
    (hmore : s = .close → got.length + read.length < c.sbytes) :
    Framed cfg stream { c with
      sbytes := c.sbytes - (got ++ read).length, rdata := c.rdata ++ (got ++ read)
      unread := unread, input := input, state := s, log := c.log ++ es } := by
  have hstream := stream_fill h.udp hunread hinput hempty
  have hlen' : (c.rdata ++ (got ++ read)).length + (c.sbytes - (got ++ read).length) =
      c.rdata.length + c.sbytes := by
    simp only [List.length_append]
    omega
  refine .part (c.rdata ++ (got ++ read)) (.skip (c.rdata.length + c.sbytes)) h (.inr hs) hends
    ⟨rfl, rfl, rfl, rfl, rfl⟩ (fun granted hg => ?_) (fun hst => ?_) fun hclose granted => ?_
  · rw [← hstream]
    exact h.cut_skip hs hg
  · rw [← hlen']
    exact .skip (hst.trans hs)
  · have hless := hmore hclose
    refine cutPiece_skip_none cfg granted ?_
    simp only [List.length_append]
    omega

end

/-- **Every turn leaves the connection where the framer is.** -/
theorem Framed.turn {faulty handled : Prop} (h : c.Framed cfg stream) (hfair : c.Fair False)
    (ht : c.Turn cfg faulty handled d) : d.Framed cfg stream := by
  have hudp : ¬ c.udp = true := by rw [h.udp]; exact Bool.false_ne_true
  cases ht with
  | idle => exact h
  | move hm => exact h.moves hfair hm
  | reset hs => exact h.reset hs
  | cleanup hs =>
    rw [if_neg hudp]
    have hclosed := h.close
    exact ⟨hclosed.udp, hclosed.waiting, fun granted hg => .inr ⟨.inl rfl, h.cut_some hg⟩,
      hclosed.quit, hclosed.eof⟩
  | receive hs _ hinput hd => exact h.receive hs hinput hd
  | ended hs => exact h.ended hs
  | overflow hs => exact h.overflow hfair hs _
  | datagram _ _ hudp' => exact absurd hudp' hudp
  | part _ hudp' => exact absurd hudp' hudp
  | line hs hunread hno hd => exact h.handled hs hunread hno hd
  | fill hs hunread hinput hempty hlen hends hmore =>
    exact h.fill hs hunread hinput hempty hlen hends hmore
  | complete hs hrl hitem =>
    refine .completed c.rdata h hs (by decide) (.inl ⟨rfl, rfl⟩)
      (fun granted hg => ⟨_, _, h.cut_block hs hg, ?_⟩)
      ⟨rsp_udp _, rsp_unread _, rsp_input _⟩ ?_ (rsp_state _)
    · rw [List.append_assoc, hrl]
      exact cutPiece_block rfl
    · obtain ⟨es, hlog, hes⟩ := (c.record [.block c.rdata]).log_rsp
      exact ⟨es, hlog.trans (List.append_assoc _ _ _), hes⟩
  | swallow hs hunread hinput hempty hlen hends hmore =>
    exact h.swallow hs hunread hinput hempty hlen hends hmore
  | swallowed hs hsb =>
    refine .completed c.rdata h hs (by decide) (.inr ⟨rfl, rfl⟩)
      (fun granted hg => ⟨_, _, h.cut_skip hs hg, ?_⟩)
      ⟨rfl, rfl, rfl⟩ ⟨[], rfl, by simp⟩ (.inl rfl)
    rw [List.append_assoc, hsb]
    exact cutPiece_skip rfl

/-- The end of the stream is not read with a request. -/
theorem Handled.eof {handled : Prop} {line : List UInt8} (hd : Handled cfg c handled line d)
    (h : Event.eof ∈ d.log) : Event.eof ∈ c.log := by
  cases hd with
  | answered hblock hquit hes =>
    rcases List.mem_append.1 h with h | h
    · exact h
    · rcases List.mem_cons.1 h with heq | h
      · cases heq
      · rcases hes _ h with heq | ⟨u, heq⟩ <;> cases heq
  | stored =>
    rcases List.mem_append.1 h with h | h
    · exact h
    · simp at h
  | unstored =>
    obtain ⟨es, hrsp, hes⟩ := log_rsp _
    have h' := hrsp ▸ h
    rcases List.mem_append.1 h' with h' | h'
    · rcases List.mem_append.1 h' with h' | h'
      · exact h'
      · simp at h'
    · cases hes _ h'
  | quit =>
    rcases List.mem_append.1 h with h | h
    · exact h
    · simp at h

/-- **No newline is left at the end of the stream**, if none was read together with the end. -/
theorem Framed.unlost {faulty handled : Prop} (h : c.Framed cfg stream)
    (hc : Event.eof ∈ c.log → 10 ∉ c.unread)
    (hapart : c.state = .read → Event.eof ∈ d.log → 10 ∉ c.input) (ht : c.Turn cfg faulty handled d)
    (heof : Event.eof ∈ d.log) : 10 ∉ d.unread := by
  have hudp : ¬ c.udp = true := by rw [h.udp]; exact Bool.false_ne_true
  -- within a data block the end is found only when the buffer is empty
  have hends : ∀ {unread input : List UInt8} {es : List Event} {s : ConnState},
      c.Ends faulty unread input es s →
      Event.eof ∉ c.log → Event.eof ∈ c.log ++ es → 10 ∉ unread := by
    intro unread input es s hends hopen hmem
    rcases hends.cases h.udp with ⟨rfl, -⟩ | ⟨-, -, hunread, -⟩
    · rw [List.append_nil] at hmem
      exact absurd hmem hopen
    · rw [hunread]
      exact List.not_mem_nil
  cases ht with
  | idle => exact hc heof
  | move => exact hc heof
  | reset => exact hc heof
  | cleanup => exact hc heof
  | receive hs => exact absurd heof (h.open hs (by decide)).2
  | ended hs =>
    intro hmem
    rcases List.mem_append.1 hmem with hmem | hmem
    · exact h.waiting (.inr hs) hmem
    · exact hapart hs heof hmem
  | overflow =>
    change 10 ∉ (rsp _).unread
    rw [rsp_unread]
    exact List.not_mem_nil
  | datagram _ _ hudp' => exact absurd hudp' hudp
  | part _ hudp' => exact absurd hudp' hudp
  | line hs _ _ hd => exact absurd (hd.eof heof) (h.open hs (by decide)).2
  | fill hs _ _ _ _ he => exact hends he (h.open hs (by decide)).2 heof
  | complete hs =>
    obtain ⟨es, hlog, hes⟩ := (c.record [.block c.rdata]).log_rsp
    have hmem : Event.eof ∈ (c.record [.block c.rdata]).rsp.log := heof
    rw [hlog] at hmem
    rcases List.mem_append.1 hmem with hmem | hmem
    · rcases List.mem_append.1 hmem with hmem | hmem
      · exact absurd hmem (h.open hs (by decide)).2
      · simp at hmem
    · cases hes _ hmem
  | swallow hs _ _ _ _ he => exact hends he (h.open hs (by decide)).2 heof
  | swallowed hs =>
    rcases List.mem_append.1 heof with hmem | hmem
    · exact absurd hmem (h.open hs (by decide)).2
    · simp at hmem

theorem framed_init (cfg : Config) (stream : List UInt8) : Framed cfg stream
    ⟨false, .newCmd, .newCmd, false, false, 0, 0, [], [], stream, []⟩ := by
  have hopen : ¬ Quit ⟨false, .newCmd, .newCmd, false, false, 0, 0, [], [], stream, []⟩ ∧
      Event.eof ∉ ([] : List Event) :=
    ⟨(by rintro ⟨line, noreply, hmem, -⟩; cases hmem), List.not_mem_nil⟩
  refine .of_open rfl (by rintro (hw | hw) <;> cases hw)
    (fun granted _ => ⟨.line, stream, .nil _ _, ?_⟩) hopen
  exact .line (fun hw => by cases hw) (fun hw => by cases hw) (fun hw => by cases hw) fun hw => by
    cases hw

/-- There is no other piece in what is left of the stream. -/
theorem Framed.stuck (h : c.Framed cfg stream) (hinput : c.input = []) (hg : Agrees granted c.log)
    (hs : c.state = .wait ∨ c.state = .read ∨ c.state = .nread ∧ c.unread = [] ∧ 0 < c.rlbytes ∨
      c.state = .swallow ∧ c.unread = [] ∧ 0 < c.sbytes) :
    ∃ m rest, c.Cut cfg stream granted m rest ∧ (framer cfg granted).cut m rest = none := by
  rcases hs with hs | hs | ⟨hs, hunread, hrl⟩ | ⟨hs, hunread, hsb⟩
  · refine ⟨_, _, h.cut_line hs (by decide) (by decide) (by decide) (fun hw => by cases hw) hg,
      cutPiece_line_none cfg granted ?_⟩
    rw [hinput, List.append_nil]
    exact h.waiting (.inl hs)
  · refine ⟨_, _, h.cut_line hs (by decide) (by decide) (by decide) (fun hw => by cases hw) hg,
      cutPiece_line_none cfg granted ?_⟩
    rw [hinput, List.append_nil]
    exact h.waiting (.inr hs)
  · refine ⟨_, _, h.cut_block hs hg, cutPiece_block_none cfg granted ?_⟩
    rw [hinput, hunread, List.append_nil, List.append_nil]
    omega
  · refine ⟨_, _, h.cut_skip hs hg, cutPiece_skip_none cfg granted ?_⟩
    rw [hinput, hunread, List.append_nil, List.append_nil]
    omega

end Control

/-! ### Runs -/

/-- The bytes of a piece. -/
def Piece.bytes : Piece → List UInt8
  | .line bytes => bytes ++ [10]
  | .block bytes => bytes
  | .skip bytes => bytes

/-- The piece is the line of a request. -/
def Piece.isLine : Piece → Bool
  | .line _ => true
  | _ => false

/-- The piece is a request for which an item is asked for. -/
def Piece.asks (cfg : Config) : Piece → Bool
  | .line bytes => (blockOf cfg (Session.request bytes)).isSome
  | _ => false

section

variable {cfg : Config} {granted : ℕ → Bool} {m m' : ℕ × Expect} {s r : List UInt8} {p : Piece}
  {ps : List Piece}

/-- A piece is at the front of the stream, and an item is asked for with a storage command. -/
theorem cutPiece_spec (h : cutPiece cfg granted s m = some (p, m', r)) :
    s = p.bytes ++ r ∧ m'.1 = m.1 + if p.asks cfg then 1 else 0 := by
  obtain ⟨k, e⟩ := m
  cases e with
  | line =>
    by_cases hmem : 10 ∈ s
    · obtain ⟨line, rest', rfl, hno⟩ := List.eq_append_cons_of_mem hmem
      rw [cutPiece_line hno] at h
      obtain ⟨rfl, rfl, rfl⟩ := Prod.mk.inj (Option.some.inj h) |>.imp_right Prod.mk.inj
      refine ⟨by simp [Piece.bytes], ?_⟩
      rw [show (Piece.line line).asks cfg = (blockOf cfg (Session.request line)).isSome from rfl]
      cases hblock : blockOf cfg (Session.request line) with
      | none =>
        rw [afterLine_none hblock]
        rfl
      | some x =>
        rw [afterLine_block hblock]
        rfl
    · rw [cutPiece, if_neg hmem] at h
      cases h
  | block n =>
    obtain ⟨-, heq⟩ := Option.ite_none_right_eq_some.1 h
    obtain ⟨rfl, rfl, rfl⟩ := Prod.mk.inj (Option.some.inj heq) |>.imp_right Prod.mk.inj
    exact ⟨(List.take_append_drop n s).symm, rfl⟩
  | skip n =>
    obtain ⟨-, heq⟩ := Option.ite_none_right_eq_some.1 h
    obtain ⟨rfl, rfl, rfl⟩ := Prod.mk.inj (Option.some.inj heq) |>.imp_right Prod.mk.inj
    exact ⟨(List.take_append_drop n s).symm, rfl⟩
  | nothing => cases h

/-- A line is followed by what its request says. -/
theorem cutPiece_after {line : List UInt8}
    (h : cutPiece cfg granted s m = some (.line line, m', r)) :
    m' = afterLine cfg granted m.1 (Session.request line) := by
  obtain ⟨k, e⟩ := m
  cases e with
  | line =>
    obtain ⟨-, heq⟩ := Option.ite_none_right_eq_some.1 h
    obtain ⟨hline, rfl, -⟩ := Prod.mk.inj (Option.some.inj heq) |>.imp_right Prod.mk.inj
    rw [← Piece.line.inj hline]
  | block n =>
    obtain ⟨-, heq⟩ := Option.ite_none_right_eq_some.1 h
    cases (Prod.mk.inj (Option.some.inj heq)).1
  | skip n =>
    obtain ⟨-, heq⟩ := Option.ite_none_right_eq_some.1 h
    cases (Prod.mk.inj (Option.some.inj heq)).1
  | nothing => cases h

/-- What is cut off is what was expected. -/
theorem cutPiece_kind {k : ℕ} {e : Expect} (h : cutPiece cfg granted s (k, e) = some (p, m', r)) :
    e = .line ∧ p.isLine = true ∨ (e = .block p.bytes.length ∨ e = .skip p.bytes.length) ∧
        p.isLine = false := by
  cases e with
  | line =>
    obtain ⟨-, heq⟩ := Option.ite_none_right_eq_some.1 h
    obtain ⟨rfl, -⟩ := Prod.mk.inj (Option.some.inj heq)
    exact .inl ⟨rfl, rfl⟩
  | block n =>
    obtain ⟨hle, heq⟩ := Option.ite_none_right_eq_some.1 h
    obtain ⟨rfl, -⟩ := Prod.mk.inj (Option.some.inj heq)
    exact .inr ⟨.inl (congrArg Expect.block (List.length_take_of_le hle).symm), rfl⟩
  | skip n =>
    obtain ⟨hle, heq⟩ := Option.ite_none_right_eq_some.1 h
    obtain ⟨rfl, -⟩ := Prod.mk.inj (Option.some.inj heq)
    exact .inr ⟨.inr (congrArg Expect.skip (List.length_take_of_le hle).symm), rfl⟩
  | nothing => cases h

/-- What comes after a storage command that says how long its value is. -/
theorem cutPiece_announced {req : List UInt8} {vlen k : ℕ} (hann : Announces req vlen)
    (h : cutPiece cfg granted s (afterLine cfg granted k req) = some (p, m', r)) :
    (p.isLine = false → p.bytes.length = vlen + crlfLen) ∧
      (p.isLine = false ↔ Stores cfg req vlen ∧
        (granted k = true ∨ (Frame.ofReq (fun _ => ⟨none, 0⟩) req).lastIsNoreply = false)) := by
  have hnotquit : reqTypeOf req ≠ .quit := by
    intro hquit
    have hstoring : reqTypeOf req ∈ ReqType.storing := hann.1
    rw [hquit] at hstoring
    exact absurd hstoring (by decide)
  rcases blockOf_of_announces cfg hann with ⟨hstores, hblock⟩ | ⟨hstores, hblock⟩
  · rw [afterLine_block hblock] at h
    cases hok : granted k with
    | true =>
      rw [if_pos hok] at h
      rcases cutPiece_kind h with ⟨heq, -⟩ | ⟨heq | heq, hline⟩
      · cases heq
      · exact ⟨fun _ => (Expect.block.inj heq).symm, fun _ => ⟨hstores, .inl rfl⟩, fun _ => hline⟩
      · cases heq
    | false =>
      rw [if_neg (by rw [hok]; exact Bool.false_ne_true)] at h
      cases hno : (Frame.ofReq (fun _ => ⟨none, 0⟩) req).lastIsNoreply with
      | true =>
        -- no error is written, and the next bytes are taken for a line
        rw [hno, if_pos rfl] at h
        rcases cutPiece_kind h with ⟨-, hline⟩ | ⟨heq | heq, -⟩
        · simp [hline]
        · cases heq
        · cases heq
      | false =>
        rw [hno, if_neg Bool.false_ne_true] at h
        rcases cutPiece_kind h with ⟨heq, -⟩ | ⟨heq | heq, hline⟩
        · cases heq
        · cases heq
        · exact ⟨fun _ => (Expect.skip.inj heq).symm, fun _ => ⟨hstores, .inr rfl⟩, fun _ => hline⟩
  · rw [afterLine_none hblock, if_neg hnotquit] at h
    rcases cutPiece_kind h with ⟨-, hline⟩ | ⟨heq | heq, -⟩
    · simp [hline, hstores]
    · cases heq
    · cases heq

/-- **The pieces are the stream**, in order and without a gap. -/
theorem cuts_spec (h : (framer cfg granted).Cuts m s ps m' r) :
    s = ps.flatMap Piece.bytes ++ r ∧ m'.1 = m.1 + ps.countP (Piece.asks cfg) := by
  induction h with
  | nil => exact ⟨rfl, rfl⟩
  | cons hcut _ ih =>
    obtain ⟨hs, hk⟩ := cutPiece_spec hcut
    refine ⟨by rw [hs, ih.1, List.flatMap_cons, List.append_assoc], ?_⟩
    rw [ih.2, hk, List.countP_cons]
    omega

end

namespace Session

variable {cfg : Config} {stream : List UInt8} {w w₀ : Session}

/-- Every run leaves the connection where the framer is, and what the turns keep then holds at its
end. -/
theorem Opened.framed_and {C : Session → SessionLabel → Session → Prop} {I : Control → Prop}
    (h₀ : w₀.Opened false stream) (h : (session cfg).Reaches C w₀ w) (hI : I w₀.control)
    (hturn : ∀ (v v' : Session) (io : Io), v.control.Framed cfg stream → I v.control →
      C v (.turn io) v' → v.control.Turn cfg (io.Faulty ∨ 0 < v.conn.wire.fails)
      (v.conn.wire.fails ≤ v'.conn.wire.fails) v'.control → I v'.control) :
    w.control.Framed cfg stream ∧ I w.control := by
  have hinv : w.control.Fair False ∧ w.control.Framed cfg stream ∧ I w.control := by
    refine reaches_control (I := fun c => c.Fair False ∧ c.Framed cfg stream ∧ I c) h
      h₀.sized ?_ ?_ ?_
    · refine ⟨?_, ?_, hI⟩
      · rw [h₀.control]
        exact Control.fair_init False false stream
      · rw [h₀.control]
        exact Control.framed_init cfg stream
    · intro c hc hs
      exact hc.1.clear hs (by decide) (by decide)
    · intro v v' io hv hC ht
      obtain ⟨hfair, hframed, hIv⟩ := hv
      have hclose : v.control.state = .close → v.control.udp = true → v.control.noreply = false :=
        fun _ hudp =>
        absurd (hframed.udp.symm.trans hudp) Bool.false_ne_true
      exact ⟨hfair.turn False.elim hclose ht, hframed.turn hfair ht,
        hturn v v' io hframed hIv hC ht⟩
  exact hinv.2

theorem Opened.framed {C : Session → SessionLabel → Session → Prop} (h₀ : w₀.Opened false stream)
    (h : (session cfg).Reaches C w₀ w) : w.control.Framed cfg stream :=
  (h₀.framed_and (I := fun _ => True) h trivial fun _ _ _ _ _ _ _ => trivial).1

/-! ### Three ways for a stream to arrive -/

/-- The session after a run. -/
def after (stream : List UInt8) (ls : List SessionLabel) : Session :=
  (session .tiny).exec (fun _ _ _ => true) (piped stream) ls

theorem reaches_after {ls : List SessionLabel} (stream : List UInt8)
    (h : ((session .tiny).run (fun _ _ _ => true) (piped stream) ls).isSome = true) :
    (session .tiny).Reaches Machine.Unguarded (piped stream) (after stream ls) :=
  (Machine.reaches_exec h).mono fun _ _ _ _ => trivial

/-- The `set` and the `get` arrive together. -/
def wholeRun : List SessionLabel :=
  setAndGetRun ++ [.turn (.send (.sent 21)), .turn (.send (.sent 0)), .turn (.newCmd true)]

/-- They arrive in pieces, and one event allows only one request. -/
def cutRun : List SessionLabel :=
  [.event 20, .turn (.newCmd true), .turn (.wait true), .event 20,
    .turn (.readTcp [.data (ascii "set a 0 0")]),
    .turn (.parse {}), .turn (.wait true), .event 1,
      .turn (.readTcp [.data (ascii " 1 noreply" ++ crlf ++ ascii "X")]),
    .turn (.parse {}), .turn (.nread (some (.data [13])) true {}),
      .turn (.nread (some .eagain) true {}), .event 20,
    .turn (.nread (some (.data [10])) true {}), .turn (.nread none true {}), .turn (.newCmd true),
      .turn (.wait true),
    .event 20, .turn (.readTcp [.data (ascii "get a" ++ crlf)]), .turn (.parse { fuel := 2 }),
    .turn (.send (.sent 21)), .turn (.send (.sent 0)), .turn (.newCmd true), .turn (.wait true)]

/-- A request that fills the buffer. -/
def longGet : List UInt8 := ascii "get a" ++ List.replicate 1017 32 ++ crlf

/-- It is read together with the end of the stream. -/
def lostRun : List SessionLabel :=
  [.event 20, .turn (.newCmd true), .turn (.wait true), .event 20,
    .turn (.readTcp [.data longGet, .eof])]

theorem reaches_wholeRun :
    (session .tiny).Reaches Machine.Unguarded (piped setAndGet) (after setAndGet wholeRun) :=
  reaches_after setAndGet (by decide +kernel)

theorem reaches_cutRun :
    (session .tiny).Reaches Machine.Unguarded (piped setAndGet) (after setAndGet cutRun) :=
  reaches_after setAndGet (by decide +kernel)

/-- **The stream is cut as the framer cuts it**, whatever `read` returns and whatever fails: what
has been dispatched and what has gone to items or been swallowed is a prefix of the stream, in order
and without a gap.  As long as the connection is not closed, the framer expects what the connection
expects, and the rest of the stream is in the data block, in the buffer and in the socket. -/
theorem cuts_stream (cfg : Config) (stream : List UInt8) (w₀ w : Session) (granted : ℕ → Bool)
    (h₀ : w₀.Opened false stream) (h : (session cfg).Reaches Machine.Unguarded w₀ w)
    (hg : Agrees granted w.conn.log) : ∃ k e rest,
    (framer cfg granted).Cuts (0, .line) stream (pieces w.conn.log) (k, e) rest ∧
      stream = (pieces w.conn.log).flatMap Piece.bytes ++ rest ∧
      (w.control.Closing ∨ k = (grants w.conn.log).length ∧ w.control.Expects e rest) := by
  rcases (h₀.framed h).cut granted hg with ⟨e, rest, hcut, hexp⟩ | ⟨hclosing, ⟨k, e⟩, rest, hcut⟩
  · exact ⟨_, e, rest, hcut, (cuts_spec hcut).1, .inr ⟨rfl, hexp⟩⟩
  · exact ⟨k, e, rest, hcut, (cuts_spec hcut).1, .inl hclosing⟩

theorem cuts_stream_cut : ∃ k e rest,
    (framer .tiny fun _ => true).Cuts (0, .line) setAndGet
      (pieces (after setAndGet cutRun).conn.log) (k, e) rest ∧
      setAndGet = (pieces (after setAndGet cutRun).conn.log).flatMap Piece.bytes ++ rest ∧
      ((after setAndGet cutRun).control.Closing ∨
        k = (grants (after setAndGet cutRun).conn.log).length ∧
            (after setAndGet cutRun).control.Expects e rest) :=
  cuts_stream .tiny setAndGet (piped setAndGet) (after setAndGet cutRun) (fun _ => true)
    (opened_piped setAndGet)
    reaches_cutRun (agrees_true (by decide +kernel))

/-- The connection has gone through all of its stream, or was told to quit. -/
def Settled (w : Session) : Prop :=
  w.input = [] ∧ (w.conn.state = .wait ∨ w.conn.state = .read ∨
    w.conn.state = .nread ∧ w.conn.rbuf.unread = [] ∧ 0 < w.conn.rlbytes ∨
    w.conn.state = .swallow ∧ w.conn.rbuf.unread = [] ∧ 0 < w.conn.sbytes) ∨ w.control.Quit

/-- A connection that has gone through its stream leaves no piece. -/
theorem Settled.stuck {granted : ℕ → Bool} (h : w.Settled) (hw : w.control.Framed cfg stream)
    (hg : Agrees granted w.conn.log) :
    ∃ m rest, (framer cfg granted).Cuts (0, .line) stream (pieces w.conn.log) m rest ∧
      (framer cfg granted).cut m rest = none := by
  rcases h with ⟨hinput, hs⟩ | hq
  · exact hw.stuck hinput hg hs
  · obtain ⟨-, hcut⟩ := hw.quit hq
    obtain ⟨k, rest, hcuts⟩ := hcut granted hg
    exact ⟨_, rest, hcuts, rfl⟩

/-- **It does not matter how a stream arrives**: of two connections whose peers send the same
stream, and whose storage commands find memory alike, one has dispatched the lines and taken the
data blocks of the other and perhaps more; and if both have gone through the stream, they are the
same. -/
theorem chunking_irrelevant (cfg : Config) (stream : List UInt8) (w₀ w v₀ v : Session)
    (granted : ℕ → Bool) (hw₀ : w₀.Opened false stream) (hv₀ : v₀.Opened false stream)
    (hw : (session cfg).Reaches Machine.Unguarded w₀ w)
    (hv : (session cfg).Reaches Machine.Unguarded v₀ v) (hgw : Agrees granted w.conn.log)
    (hgv : Agrees granted v.conn.log) :
    (pieces w.conn.log <+: pieces v.conn.log ∨ pieces v.conn.log <+: pieces w.conn.log) ∧
      (w.Settled → pieces v.conn.log <+: pieces w.conn.log) ∧
      (w.Settled → v.Settled → pieces v.conn.log = pieces w.conn.log) := by
  have hfw := hw₀.framed hw
  have hfv := hv₀.framed hv
  obtain ⟨mw, rw, hcw⟩ := hfw.cut_some hgw
  obtain ⟨mv, rv, hcv⟩ := hfv.cut_some hgv
  refine ⟨?_, fun hset => ?_, fun hset hset' => ?_⟩
  · rcases hcw.prefix_or hcv with ⟨ts, hts, -⟩ | ⟨ts, hts, -⟩
    · exact .inl ⟨ts, hts.symm⟩
    · exact .inr ⟨ts, hts.symm⟩
  · obtain ⟨m, rest, hc, hstuck⟩ := hset.stuck hfw hgw
    obtain ⟨ts, hts, -⟩ := hc.of_stuck hstuck hcv
    exact ⟨ts, hts.symm⟩
  · obtain ⟨m, rest, hc, hstuck⟩ := hset.stuck hfw hgw
    obtain ⟨m', rest', hc', hstuck'⟩ := hset'.stuck hfv hgv
    exact (hc'.eq_of_stuck hstuck' hc hstuck).1

theorem chunking_irrelevant_cut :
    pieces (after setAndGet cutRun).conn.log = pieces (after setAndGet wholeRun).conn.log ∧
      (pieces (after setAndGet cutRun).conn.log).length = 3 := by
  obtain ⟨-, -, hboth⟩ :=
    chunking_irrelevant .tiny setAndGet (piped setAndGet) (after setAndGet wholeRun)
    (piped setAndGet) (after setAndGet cutRun) (fun _ => true) (opened_piped setAndGet)
      (opened_piped setAndGet)
    reaches_wholeRun reaches_cutRun (agrees_true (by decide +kernel))
      (agrees_true (by decide +kernel))
  have hwhole : (after setAndGet wholeRun).Settled :=
    .inl ⟨by decide +kernel, .inl (by decide +kernel)⟩
  have hcut : (after setAndGet cutRun).Settled :=
    .inl ⟨by decide +kernel, .inr (.inl (by decide +kernel))⟩
  exact ⟨hboth hwhole hcut, by decide +kernel⟩

/-- **What is lost at the end of a stream**: when the end has been read, everything that is complete
was dispatched or taken if and only if there is no newline left in the buffer. -/
theorem eof_loses (cfg : Config) (stream : List UInt8) (w₀ w : Session) (granted : ℕ → Bool)
    (h₀ : w₀.Opened false stream) (h : (session cfg).Reaches Machine.Unguarded w₀ w)
    (hg : Agrees granted w.conn.log) (heof : Event.eof ∈ w.conn.log) : ∃ m rest,
    (framer cfg granted).Cuts (0, .line) stream (pieces w.conn.log) m rest ∧
      ((framer cfg granted).cut m rest = none ↔ 10 ∉ w.conn.rbuf.unread) :=
  ((h₀.framed h).eof heof).2 granted hg

theorem eof_loses_full : (∃ m rest,
    (framer .tiny fun _ => true).Cuts (0, .line) longGet
      (pieces (after longGet lostRun).conn.log) m rest ∧
      ((framer .tiny fun _ => true).cut m rest = none ↔
        10 ∉ (after longGet lostRun).conn.rbuf.unread)) ∧
    pieces (after longGet lostRun).conn.log = [] :=
  ⟨eof_loses .tiny longGet (piped longGet) (after longGet lostRun) (fun _ => true)
    (opened_piped longGet)
    (reaches_after longGet (by decide +kernel)) (agrees_true (by decide +kernel))
      (by decide +kernel), by decide +kernel⟩

/-- The end of the stream is not found by a call of `core_read_tcp` that has read a newline before.
-/
def Apart (v : Session) (_ : SessionLabel) (v' : Session) : Prop :=
  v.conn.state = .read → Event.eof ∈ v'.conn.log → 10 ∉ v.input

/-- Then no newline is left in the buffer. -/
theorem Opened.unlost (h₀ : w₀.Opened false stream) (h : (session cfg).Reaches Apart w₀ w)
    (heof : Event.eof ∈ w.conn.log) : 10 ∉ w.conn.rbuf.unread := by
  have hstart : Event.eof ∈ w₀.control.log → 10 ∉ w₀.control.unread := by
    rw [h₀.control]
    intro hmem
    cases hmem
  exact (h₀.framed_and (I := fun c => Event.eof ∈ c.log → 10 ∉ c.unread) h hstart
    fun u u' io hu hI hC ht heof => hu.unlost hI (fun hs => hC hs) ht heof).2 heof

/-- **No request is lost at the end of a stream** if it is not read together with a newline: no
connection whose peer sends the same stream dispatches or takes more. -/
theorem no_request_lost (cfg : Config) (stream : List UInt8) (w₀ w v₀ v : Session)
    (granted : ℕ → Bool) (hw₀ : w₀.Opened false stream) (hv₀ : v₀.Opened false stream)
    (hw : (session cfg).Reaches Apart w₀ w) (hv : (session cfg).Reaches Machine.Unguarded v₀ v)
    (hgw : Agrees granted w.conn.log) (hgv : Agrees granted v.conn.log)
    (heof : Event.eof ∈ w.conn.log) : pieces v.conn.log <+: pieces w.conn.log := by
  obtain ⟨m, rest, hcut, hiff⟩ := ((hw₀.framed hw).eof heof).2 granted hgw
  obtain ⟨mv, rv, hcv⟩ := (hv₀.framed hv).cut_some hgv
  obtain ⟨ts, hts, -⟩ := hcut.of_stuck (hiff.2 (hw₀.unlost hw heof)) hcv
  exact ⟨ts, hts.symm⟩

instance (v v' : Session) (l : SessionLabel) :
    Decidable (Apart v l v') := inferInstanceAs (Decidable (_ → _ → _))

/-- The pieces arrive, and then the end of the stream. -/
def endedCut : Session :=
  (session .tiny).exec (fun v l v' => decide (Apart v l v')) (piped setAndGet)
    (cutRun ++ [.event 20, .turn (.readTcp [.eof])])

theorem no_request_lost_ended :
    pieces (after setAndGet wholeRun).conn.log <+: pieces endedCut.conn.log ∧
    endedCut.conn.state = .close := by
  have hreach : (session .tiny).Reaches Apart (piped setAndGet) endedCut :=
    (Machine.reaches_exec (by decide +kernel)).mono fun _ _ _ => of_decide_eq_true
  exact ⟨no_request_lost .tiny setAndGet (piped setAndGet) endedCut (piped setAndGet)
    (after setAndGet wholeRun)
    (fun _ => true) (opened_piped setAndGet) (opened_piped setAndGet) hreach reaches_wholeRun
    (agrees_true (by decide +kernel)) (agrees_true (by decide +kernel)) (by decide +kernel), by
      decide +kernel⟩

/-- A value that is too large for the small server, whose first bytes look like a request. -/
def tooLarge : List UInt8 :=
  ascii "set a 0 0 1000" ++ crlf ++ ascii "delete b" ++ crlf ++ List.replicate 990 120 ++ crlf

/-- It arrives, the error is written, and the next line is parsed. -/
def tooLargeRun : List SessionLabel :=
  [.event 20, .turn (.newCmd true), .turn (.wait true), .event 20,
    .turn (.readTcp [.data tooLarge]), .turn (.parse {}), .turn (.send (.sent 14)),
    .turn (.send (.sent 0)), .turn (.newCmd true), .turn (.parse {})]

end Session

end Twemcache
