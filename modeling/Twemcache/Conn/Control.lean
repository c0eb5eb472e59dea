import Twemcache.Ascii.Block
import Twemcache.Conn.Sized
import Twemcache.Store.Rewrite

/-!
# What drives a connection

Which state a connection goes to, and what it takes from its peer, depends on few of its fields, and
on nothing in the store but whether memory is found for an item.  This module cuts these fields out,
says what a turn can do to them, and proves that this is what the turns of a session do.

## Main definitions

* `Control` : the fields that decide how a connection goes on.
* `Control.Handled` : what a request does to them.
* `Control.Turn` : what a turn does to them.

## Main results

* `Session.turn_control` : a turn of a session is a turn of its control.
* `Session.reaches_control` : what these turns keep holds at the end of a run.
-/

namespace Twemcache

/-- What decides how a connection goes on. -/
structure Control where
  /-- The connection is a UDP connection. -/
  udp : Bool
  /-- Connection state. -/
  state : ConnState
  /-- The state to go into after finishing the current write. -/
  writeAndGo : ConnState
  /-- The client wants no reply. -/
  noreply : Bool
  /-- There is an item that a data block goes to. -/
  hasItem : Bool
  /-- How many bytes of the data block are missing. -/
  rlbytes : ℕ
  /-- How many bytes to swallow. -/
  sbytes : ℕ
  /-- The bytes of the current data block so far. -/
  rdata : List UInt8
  /-- What was received and not processed yet. -/
  unread : List UInt8
  /-- What the peer sends and was not read yet. -/
  input : List UInt8
  /-- What has happened. -/
  log : List Event

/-- What decides how a session goes on. -/
def Conn.control (c : Conn) (input : List UInt8) : Control where
  udp := c.udp
  state := c.state
  writeAndGo := c.writeAndGo
  noreply := c.noreply
  hasItem := c.item.isSome
  rlbytes := c.rlbytes
  sbytes := c.sbytes
  rdata := c.rdata
  unread := c.rbuf.unread
  input := input
  log := c.log

/-- What decides how a session goes on. -/
def Session.control (w : Session) : Control := w.conn.control w.input

namespace Control

variable (cfg : Config) (c : Control)

/-- `conn_set_state`. -/
def goto (s : ConnState) : Control := { c with state := s }

/-- Something is recorded. -/
def record (es : List Event) : Control := { c with log := c.log ++ es }

/-- A reply is queued, if it is wanted. -/
def rsp : Control :=
  if c.noreply then { c with noreply := false, state := .newCmd }
  else { c.record [.queued] with state := .write, writeAndGo := .newCmd }

/-- The states that a connection may go to without doing anything else, if `faulty` says that
something has failed. -/
inductive Moves (faulty : Prop) : ConnState → Prop
  /-- The socket is readable. -/
  | readable (h : c.state = .wait) : Moves faulty .read
  /-- Nothing was received. -/
  | nothing (h : c.state = .read) : Moves faulty .wait
  /-- There is no complete line. -/
  | incomplete (h : c.state = .parse) (hno : 10 ∉ c.unread) : Moves faulty .wait
  /-- There is no complete line, and there will be none. -/
  | endless (h : c.state = .parse) (hno : 10 ∉ c.unread) (hlong : 1024 < c.unread.length)
      (hget : Session.largeGet c.unread = false) : Moves faulty .close
  /-- A simple response has been written. -/
  | written (h : c.state = .write) : Moves faulty c.writeAndGo
  /-- The reply to a `get` has been written. -/
  | sent (h : c.state = .mwrite) : Moves faulty .newCmd
  /-- A datagram could not be sent. -/
  | unsent (h : c.state = .write ∨ c.state = .mwrite) (hudp : c.udp = true) : Moves faulty .read
  /-- `core_update`, `read` or `sendmsg` has failed. -/
  | failed (h : c.state ≠ .parse) (hfaulty : faulty) : Moves faulty .close

/-- What a request does, if `whole` says that no allocation has failed meanwhile. -/
inductive Handled (whole : Prop) (line : List UInt8) : Control → Prop
  /-- It is answered. -/
  | answered {noreply : Bool} {es : List Event} {s go : ConnState}
      (hblock : blockOf cfg (Session.request line) = none)
        (hquit : reqTypeOf (Session.request line) ≠ .quit)
      (hes : ∀ e ∈ es, e = .queued ∨ ∃ u, e = .token u) (hno : noreply = true → Event.queued ∉ es)
      (hsome : noreply = false → Event.queued ∈ es)
      (hone : noreply = false → whole → es.count .queued = 1)
      (hs : s = .newCmd ∨ s = .mwrite ∨ s = .write ∧ go = .newCmd) :
      Handled whole line
        { c with
          noreply := false, state := s, writeAndGo := go
          log := c.log ++ .line line noreply :: es }
  /-- Its data block is awaited. -/
  | stored {noreply : Bool} {us : List Use} {vlen : ℕ}
      (hblock : blockOf cfg (Session.request line) = some (vlen, noreply)) :
      Handled whole line
        { c with
          noreply := noreply, hasItem := true
          rlbytes := vlen + crlfLen, rdata := [], state := .nread
          log := c.log ++ .line line noreply :: (us.map .token ++ [.alloc true]) }
  /-- There is no memory, and its data block is not wanted. -/
  | unstored {noreply : Bool} {us : List Use} {vlen : ℕ}
      (hblock : blockOf cfg (Session.request line) = some (vlen, noreply)) :
      Handled whole line
        { ({ c with
            noreply := noreply
            log := c.log ++ .line line noreply :: (us.map .token ++ [.alloc false]) } : Control).rsp
                with
          writeAndGo := .swallow, sbytes := vlen + crlfLen, rdata := [] }
  /-- The connection is to be closed. -/
  | quit {us : List Use} (hblock : blockOf cfg (Session.request line) = none)
      (hquit : reqTypeOf (Session.request line) = .quit) :
      Handled whole line
        { c with state := .close, log := c.log ++ .line line false :: us.map .token }

/-- How `read` may end in the middle of a data block, after which `unread` and `input` are left:
with what is recorded, and the state. -/
def Ends (faulty : Prop) (unread input : List UInt8) (es : List Event) (s : ConnState) : Prop :=
  es = [] ∧ (s = c.state ∨ faulty ∧ s = .close) ∨
    faulty ∧ es = [.eof] ∧ s = .close ∧ unread = [] ∧ (c.udp = true ∨ input = [])

/-- `read` bytes are taken from the stream. -/
def Takes (read input : List UInt8) :
    Prop := if c.udp then input = c.input else c.input = read ++ input

/-- What a turn does, if `faulty` says that something has failed, and `whole` that no allocation has
failed while a request was handled. -/
inductive Turn (faulty whole : Prop) : Control → Prop
  /-- Nothing that matters here. -/
  | idle : Turn faulty whole c
  /-- Only the state changes. -/
  | move {s : ConnState} (h : c.Moves faulty s) : Turn faulty whole (c.goto s)
  /-- `core_reset_cmd_handler`. -/
  | reset (h : c.state = .newCmd) :
      Turn faulty whole
        { c with hasItem := false, state := if c.unread = [] then .wait else .parse }
  /-- `core_close`. -/
  | cleanup (h : c.state = .close) :
      Turn faulty whole { c with hasItem := false, state := if c.udp then .read else .close }
  /-- `core_read_tcp`. -/
  | receive {bytes rest : List UInt8} {s : ConnState} (h : c.state = .read) (hudp : c.udp = false)
      (hinput : c.input = bytes ++ rest) (hs : s = .parse ∨ s = .wait ∧ bytes = [] ∨ faulty ∧
        s = .close) :
      Turn faulty whole { c with unread := c.unread ++ bytes, input := rest, state := s }
  /-- `core_read_tcp` has found the end of the stream. -/
  | ended (h : c.state = .read) (hudp : c.udp = false) (hfaulty : faulty) :
      Turn faulty whole
        { c with unread := c.unread ++ c.input, input := [], state := .close, log := c.log ++
          [.eof] }
  /-- There is no memory for what `core_read_tcp` reads. -/
  | overflow {bytes rest : List UInt8} (h : c.state = .read) (hudp : c.udp = false)
      (hinput : c.input = bytes ++ rest) (hfaulty : faulty) :
      Turn faulty whole
        { ({ c with unread := [], input := rest, log := c.log ++ [.dropped] } : Control).rsp with
          writeAndGo := .close }
  /-- `core_read_udp`. -/
  | datagram (bytes : List UInt8) (h : c.state = .read) (hudp : c.udp = true) :
      Turn faulty whole { c with unread := bytes, state := .parse }
  /-- A datagram of several is dropped. -/
  | part (h : c.state = .read) (hudp : c.udp = true) : Turn faulty whole
      ((c.record [.dropped]).rsp.goto .wait)
  /-- A request. -/
  | line {line rest : List UInt8} {d : Control} (h : c.state = .parse)
      (hunread : c.unread = line ++ 10 :: rest)
      (hno : 10 ∉ line) (hd : Handled cfg c whole line d) : Turn faulty whole
        { d with unread := rest }
  /-- Bytes of a data block. -/
  | fill {got read unread input : List UInt8} {es : List Event} {s : ConnState}
      (h : c.state = .nread)
      (hunread : c.unread = got ++ unread) (hinput : c.Takes read input)
        (hempty : read ≠ [] → unread = [])
      (hlen : got.length + read.length ≤ c.rlbytes) (hends : c.Ends faulty unread input es s)
      (hmore : s = .close → got.length + read.length < c.rlbytes) :
      Turn faulty whole
        { c with
          rlbytes := c.rlbytes - (got ++ read).length, rdata := c.rdata ++ (got ++ read)
          unread := unread, input := input, state := s, log := c.log ++ es }
  /-- A data block is complete. -/
  | complete (h : c.state = .nread) (hrl : c.rlbytes = 0) (hitem : c.hasItem = true) :
      Turn faulty whole { (c.record [.block c.rdata]).rsp with hasItem := false, rdata := [] }
  /-- Bytes of a data block that is not wanted. -/
  | swallow {got read unread input : List UInt8} {es : List Event} {s : ConnState}
      (h : c.state = .swallow)
      (hunread : c.unread = got ++ unread) (hinput : c.Takes read input)
        (hempty : read ≠ [] → unread = [])
      (hlen : got.length + read.length ≤ c.sbytes) (hends : c.Ends faulty unread input es s)
      (hmore : s = .close → got.length + read.length < c.sbytes) :
      Turn faulty whole
        { c with
          sbytes := c.sbytes - (got ++ read).length, rdata := c.rdata ++ (got ++ read)
          unread := unread, input := input, state := s, log := c.log ++ es }
  /-- A data block that is not wanted is complete. -/
  | swallowed (h : c.state = .swallow) (hs : c.sbytes = 0) :
      Turn faulty whole { c.record [.skip c.rdata] with rdata := [], state := .newCmd }

end Control

/-! ### Replies -/

section

variable {cfg : Config} {c c' : Conn} {input line : List UInt8} {whole : Prop}

@[simp] theorem Conn.control_record (es : List Event) :
    (c.record es).control input = (c.control input).record es := rfl

theorem Conn.Quiet.control (h : c.Quiet c') : c'.control input = c.control input := by
  rw [h]
  rfl

theorem Control.rsp_of_noreply {c : Control} (h : c.noreply = true) :
    c.rsp = { c with noreply := false, state := .newCmd } := if_pos h

theorem Control.rsp_of_reply {c : Control} (h : c.noreply = false) :
    c.rsp = { c.record [.queued] with state := .write, writeAndGo := .newCmd } :=
  if_neg (by rw [h]; exact Bool.false_ne_true)

@[simp] theorem Conn.control_ascRsp (r : Rsp) :
    (c.ascRsp r).control input = (c.control input).rsp := by
  cases h : c.noreply with
  | true =>
    rw [Conn.ascRsp_of_noreply h,
      Control.rsp_of_noreply (show (c.control input).noreply = true from h)]
    rfl
  | false =>
    rw [Conn.ascRsp_of_reply h,
      Control.rsp_of_reply (show (c.control input).noreply = false from h)]
    rfl

/-- A request is answered by a simple response. -/
theorem Control.Handled.of_rsp (c : Control) (noreply : Bool) (us : List Use)
    (hblock : blockOf cfg (Session.request line) = none)
    (hquit : reqTypeOf (Session.request line) ≠ .quit) :
    Handled cfg c whole line
      ({ c with noreply := noreply, log := c.log ++ .line line noreply :: us.map .token } :
          Control).rsp := by
  have htokens : ∀ e ∈ us.map Event.token, e = .queued ∨ ∃ u, e = .token u := by
    intro e he
    obtain ⟨u, -, rfl⟩ := List.mem_map.1 he
    exact .inr ⟨u, rfl⟩
  have hnone : Event.queued ∉ us.map Event.token := by simp
  cases noreply with
  | true =>
    rw [rsp_of_noreply rfl]
    exact .answered hblock hquit htokens (fun _ => hnone) (by simp) (by simp) (.inl rfl)
  | false =>
    rw [rsp_of_reply rfl]
    have hlog : (c.log ++ .line line false :: us.map .token) ++ [.queued] =
        c.log ++ .line line false :: (us.map .token ++ [.queued]) := by simp
    unfold record
    dsimp only
    rw [hlog]
    refine .answered hblock hquit ?_ (by simp) (by simp) (fun _ _ => ?_) (.inr (.inr ⟨rfl, rfl⟩))
    · intro e he
      rcases List.mem_append.1 he with he | he
      · exact htokens e he
      · exact .inl (List.mem_singleton.1 he)
    · rw [List.count_append, List.count_eq_zero.2 hnone, Nat.zero_add]
      rfl

/-- What has changed since a `get` was begun, if `scarce` says that an allocation has failed. -/
def Control.Heard (c d : Control) (scarce : Prop) : Prop :=
  ∃ es, (∀ e ∈ es, e = .queued ∨ ∃ u, e = .token u) ∧ (¬ scarce → Event.queued ∉ es) ∧
    ∃ s go, d = { c with state := s, writeAndGo := go, log := c.log ++ es }

theorem Control.Heard.refl (c : Control) (scarce : Prop) : Heard c c scarce :=
  ⟨[], by simp, by simp, c.state, c.writeAndGo, by rw [List.append_nil]⟩

/-- A reply without memory. -/
theorem Control.Heard.rsp {c d : Control} {scarce : Prop} (h : Heard c d scarce)
    (hn : c.noreply = false) :
    Heard c d.rsp True := by
  obtain ⟨es, hes, -, s, go, rfl⟩ := h
  refine ⟨es ++ [.queued], ?_, by simp, .write, .newCmd, ?_⟩
  · intro e he
    rcases List.mem_append.1 he with he | he
    · exact hes e he
    · exact .inl (List.mem_singleton.1 he)
  · have hreply : ({ c with state := s, writeAndGo := go, log := c.log ++ es } : Control).noreply =
        false := hn
    rw [rsp_of_reply hreply, ← List.append_assoc]
    rfl

theorem Control.Heard.mono {c d : Control} {scarce scarce' : Prop} (h : Heard c d scarce)
    (hs : scarce → scarce') : Heard c d scarce' := by
  obtain ⟨es, hes, hno, hd⟩ := h
  exact ⟨es, hes, fun hn => hno fun hscarce => hn (hs hscarce), hd⟩

theorem Control.Heard.token {c d : Control} {scarce : Prop} (h : Heard c d scarce) (u : Use) :
    Heard c (d.record [.token u]) scarce := by
  obtain ⟨es, hes, hno, s, go, rfl⟩ := h
  refine ⟨es ++ [.token u], ?_, fun hn => ?_, s, go, by rw [← List.append_assoc]; rfl⟩
  · intro e he
    rcases List.mem_append.1 he with he | he
    · exact hes e he
    · exact .inr ⟨u, List.mem_singleton.1 he⟩
  · have hes' := hno hn
    simp [hes']

/-- While a `get` is served, tokens are read and errors may be queued. -/
theorem Conn.Replying.heard {c₀ : Control} {scarce : Prop} (h : c.Replying c')
    (hn : c₀.noreply = false) (h₀ : c₀.Heard (c.control input) scarce) :
    c₀.Heard (c'.control input) True := by
  induction h with
  | refl => exact h₀.mono fun _ => trivial
  | quiet _ hq ih => rw [hq.control]; exact ih
  | used _ _ ih => exact ih.token _
  | rsp _ r ih => rw [control_ascRsp]; exact ih.rsp hn

/-- A request leaves what comes behind it. -/
theorem Control.Handled.unread {c d : Control} {line : List UInt8} {whole : Prop}
    (h : Handled cfg c whole line d) :
    d.unread = c.unread := by
  cases h with
  | answered => rfl
  | stored => rfl
  | @unstored noreply =>
    cases noreply with
    | true => rw [rsp_of_noreply rfl]
    | false => rw [rsp_of_reply rfl]; rfl
  | quit => rfl

/-- A line ends at the first newline. -/
theorem takeWhile_line {line rest : List UInt8} (h : 10 ∉ line) :
    (line ++ 10 :: rest).takeWhile (· ≠ 10) = line := by
  rw [List.takeWhile_append_of_pos, List.takeWhile_cons_of_neg (by simp), List.append_nil]
  intro b hb
  exact decide_eq_true fun hb' => h (hb' ▸ hb)

end

/-! ### The loop of get -/

section

variable {cfg : Config} {returnCas : Bool} {x y : Serving} {w w' : Session} {line : List UInt8}

/-- What has changed since the loop was begun. -/
def Serving.Heard (x y : Serving) : Prop :=
  x.session.control.Heard y.session.control
    (y.session.conn.wire.fails < x.session.conn.wire.fails) ∧
    y.session.conn.wire.fails ≤ x.session.conn.wire.fails

/-- A key is taken up, and no reply is queued unless an allocation has failed. -/
theorem Serving.Heard.step {z : Serving} {l : ServeLabel} (h : x.Heard y)
    (hn : x.session.conn.noreply = false) (hst : (serving cfg returnCas).step y l = some ((), z)) :
    x.Heard z := by
  obtain ⟨hheard, hle⟩ := h
  rcases serving_cases hst with ⟨u, -, rfl⟩ | ⟨key, keys, -, -, hcases⟩
  · exact ⟨hheard.token u, hle⟩
  · obtain ⟨b, n, as, heq, hcount⟩ := y.session.conn.growIlist_eq y.iter
    rcases hcases with ⟨st, -, rfl⟩ | ⟨it, st, c, -, hgrow, rfl⟩ | ⟨it, st, c, c', -, hgrow,
      hresp, rfl⟩ |
      ⟨it, st, c, c', -, hgrow, hresp, rfl⟩
    · exact ⟨hheard, hle⟩
    all_goals
      rw [hgrow] at heq
      obtain ⟨rfl, rfl⟩ := Prod.mk.inj heq
    · exact ⟨hheard.mono fun hlt => (Nat.le_of_succ_le hcount).trans_lt hlt,
        (Nat.le_of_succ_le hcount).trans hle⟩
    · -- the error is queued, and an allocation has failed
      have hlt : c'.wire.fails < y.session.conn.wire.fails :=
        (Conn.fails_ascRespondGet hresp).2 rfl |>.trans_le hcount
      have hrep := Conn.ascRespondGet_replying cfg
        { y.session.conn with isize := n, wire := { y.session.conn.wire with allocs := as } } y.iter
          (st.items it) returnCas
      rw [hresp] at hrep
      have hrsp :
          x.session.control.Heard ((c'.ascRsp .serverError).control y.session.input) True := by
        rw [Conn.control_ascRsp]
        exact (hrep.heard hn hheard).rsp hn
      refine ⟨hrsp.mono fun _ => ?_, ?_⟩
      · exact (show (c'.ascRsp .serverError).wire.fails <
          _ by rw [Conn.ascRsp_wire]; exact hlt.trans_le hle)
      · exact (show (c'.ascRsp .serverError).wire.fails ≤
          _ by rw [Conn.ascRsp_wire]; exact hlt.le.trans hle)
    · have hquiet := Conn.ascRespondGet_ok hresp
      have hle' : c'.wire.fails ≤ y.session.conn.wire.fails :=
        (Conn.fails_ascRespondGet hresp).1.trans (Nat.le_of_succ_le_succ (Nat.succ_le_succ hcount))
      have hsame : c'.control y.session.input = y.session.control := by
        rw [hquiet.control]
        rfl
      refine ⟨?_, hle'.trans hle⟩
      change x.session.control.Heard (c'.control y.session.input) _
      rw [hsame]
      exact hheard.mono fun hlt => hle'.trans_lt hlt

theorem Serving.Heard.reaches (hn : x.session.conn.noreply = false)
    (h : (serving cfg returnCas).Reaches Machine.Unguarded x y) : x.Heard y :=
  h.invariant (I := fun y => x.Heard y) ⟨.refl _ _, le_rfl⟩ fun _ _ _ _ hI hst _ => hI.step hn hst

namespace Session

variable {e : Circumstances} {us : List Use}

theorem fails_connBuildUdpHeaders (c : Conn) :
    c.connBuildUdpHeaders.2.wire.fails ≤ c.wire.fails := by
  have halloc : ∀ {b d}, (if c.wire.msgUsed > c.udpHsize then c.alloc else (true, c)) = (b, d) →
      d.wire.fails ≤ c.wire.fails := by
    intro b d hd
    split_ifs at hd
    · obtain ⟨b', as, heq, hcount⟩ := c.alloc_eq
      rw [heq] at hd
      rw [← (Prod.mk.inj hd).2]
      exact (Nat.le_add_right _ _).trans hcount
    · rw [← (Prod.mk.inj hd).2]
  unfold Conn.connBuildUdpHeaders
  dsimp only
  generalize hd : (if c.wire.msgUsed > c.udpHsize then c.alloc else (true, c)) = r
  have hle := halloc hd
  obtain ⟨_ | _, d⟩ := r <;> exact hle

theorem fails_finishRead (w : Session) (iter : ℕ) :
    (w.finishRead iter).conn.wire.fails ≤ w.conn.wire.fails := by
  have hend : ∀ c : Conn, c.wire = w.conn.wire →
      (c.connAddIovs [ascii "END" ++ crlf]).2.wire.fails ≤ w.conn.wire.fails := by
    intro c hc
    rw [← hc]
    exact (Wire.fails_connAddIovs (Prod.ext rfl rfl)).1
  have hlists := hend { w.conn with icurr := 0, ileft := iter, scurr := 0, sleft := iter } rfl
  unfold finishRead setConn
  dsimp only
  generalize Conn.connAddIovs _ _ = r at hlists ⊢
  obtain ⟨_ | _, c⟩ := r
  · have hudp : (if c.udp then c.connBuildUdpHeaders else (.ok, c)).2.wire.fails ≤
        w.conn.wire.fails := by
      split_ifs
      · exact (fails_connBuildUdpHeaders c).trans hlists
      · exact hlists
    dsimp only
    generalize (if c.udp then c.connBuildUdpHeaders else (.ok, c)) = r at hudp ⊢
    obtain ⟨_ | _, d⟩ := r
    · exact hudp
    · exact (congrArg Wire.fails (Conn.ascRsp_wire d .serverError)).trans_le hudp
  · exact (congrArg Wire.fails (Conn.ascRsp_wire c .serverError)).trans_le hlists

/-- After what was heard, a `get` is answered. -/
theorem heard_handled {c d : Control} {scarce whole : Prop} {s go : ConnState}
    (h : Control.Heard { c with log := c.log ++ .line line false :: us.map .token } d scarce)
    (hn : c.noreply = false) (hblock : blockOf cfg (request line) = none)
    (hquit : reqTypeOf (request line) ≠ .quit) (hwhole : whole → ¬ scarce)
    (hs : s = .mwrite ∨ s = .write ∧ go = .newCmd) :
    Control.Handled cfg c whole line { d.record [.queued] with state := s, writeAndGo := go } := by
  obtain ⟨es, hes, hno, s', go', rfl⟩ := h
  have htokens : ∀ e ∈ us.map Event.token ++ es ++ [.queued], e = .queued ∨ ∃ u, e = .token u := by
    intro e he
    simp only [List.mem_append, List.mem_map, List.mem_singleton] at he
    rcases he with (⟨u, -, rfl⟩ | he) | rfl
    · exact .inr ⟨u, rfl⟩
    · exact hes e he
    · exact .inl rfl
  have hlog : c.log ++ .line line false :: us.map .token ++ es ++ [.queued] =
      c.log ++ .line line false :: (us.map .token ++ es ++ [.queued]) := by simp
  unfold Control.record
  dsimp only
  rw [hlog]
  have hcount : whole → (us.map Event.token ++ es ++ [Event.queued]).count .queued = 1 := by
    intro hw
    rw [List.count_append, List.count_append, List.count_eq_zero.2 (hno (hwhole hw)),
      List.count_eq_zero.2 (by simp : Event.queued ∉ us.map Event.token)]
    rfl
  have hdone : Control.Handled cfg c whole line { c with
      noreply := false, state := s, writeAndGo := go
      log := c.log ++ .line line false :: (us.map .token ++ es ++ [.queued]) } :=
    .answered hblock hquit htokens (by simp) (by simp) (fun _ => hcount) (.inr hs)
  rw [hn]
  exact hdone

/-- A `get` is answered. -/
theorem readLoop_control {c : Control} {fuel left i iter : ℕ} {ws : List (List UInt8)}
    {ts : List Token} (hts : Filled left ws ts)
    (h : readLoop cfg returnCas fuel ts i iter w = some w') (hn : c.noreply = false)
    (hc : w.control = { c with log := c.log ++ .line line false :: us.map .token })
    (hblock : blockOf cfg (request line) = none) (hquit : reqTypeOf (request line) ≠ .quit) :
    Control.Handled cfg c (w.conn.wire.fails ≤ w'.conn.wire.fails) line w'.control := by
  obtain ⟨x, hreach, hends⟩ := readLoop_serving hts h
  have hwn : w.conn.noreply = false := (congrArg Control.noreply hc).trans hn
  obtain ⟨hheard, hle⟩ : Serving.Heard ⟨ws, iter, w⟩ x := Serving.Heard.reaches hwn hreach
  rw [hc] at hheard
  have hxn : x.session.control.noreply = false := by
    obtain ⟨es, -, -, s, go, hx⟩ := hheard
    rw [hx]
    exact hn
  have hrsp : x.session.control.rsp =
      { x.session.control.record [.queued] with state := .write, writeAndGo := .newCmd } :=
        Control.rsp_of_reply hxn
  rcases hends with ⟨-, rfl⟩ | ⟨key, keys, -, -, rfl⟩
  · -- the reply is ended, or there is no memory for its end
    have hfails := fails_finishRead x.session x.iter
    have hwhole : w.conn.wire.fails ≤ (x.session.finishRead x.iter).conn.wire.fails →
        ¬ x.session.conn.wire.fails < w.conn.wire.fails :=
          fun hle' => Nat.not_lt.2 (hle'.trans hfails)
    obtain ⟨hsame, d, hd, hend⟩ := finishRead_quiet (w := x.session) x.iter
    have hinput : (x.session.finishRead x.iter).input = x.session.input := by rw [hsame]
    unfold control
    rw [hinput]
    rcases hend with hend | hend
    · rw [hend, Conn.control_ascRsp, hd.control]
      change Control.Handled cfg c _ line x.session.control.rsp
      rw [hrsp]
      exact heard_handled hheard hn hblock hquit (by rw [← hend]; exact hwhole) (.inr ⟨rfl, rfl⟩)
    · have hsent : (x.session.finishRead x.iter).conn.control x.session.input =
          { x.session.control.record [.queued] with state := .mwrite, writeAndGo := d.writeAndGo
              } := by
        rw [hend]
        change { (d.control x.session.input).record [.queued] with state := .mwrite, writeAndGo :=
            d.writeAndGo } = _
        rw [hd.control]
        rfl
      rw [hsent]
      exact heard_handled hheard hn hblock hquit hwhole (.inl rfl)
  · -- a key is too long
    have hwhole : w.conn.wire.fails ≤ (x.session.setConn (·.ascRsp .clientError)).conn.wire.fails →
        ¬ x.session.conn.wire.fails < w.conn.wire.fails := by
      unfold setConn
      rw [Conn.ascRsp_wire]
      exact Nat.not_lt.2
    change Control.Handled cfg c _ line
        ((x.session.conn.ascRsp .clientError).control x.session.input)
    rw [Conn.control_ascRsp]
    change Control.Handled cfg c _ line x.session.control.rsp
    rw [hrsp]
    exact heard_handled hheard hn hblock hquit hwhole (.inr ⟨rfl, rfl⟩)

/-- A storage command looks for memory. -/
theorem allocItem_control {c : Control} {key : Key} {dataflags exptime vlen : ℕ} {casId : Option ℕ}
    {noreply : Bool} {ch : Choice} {v : Session} {whole : Prop}
    (hv : v.control =
      { c with noreply := noreply, log := c.log ++ .line line noreply :: us.map .token })
    (hblock : blockOf cfg (request line) = some (vlen, noreply)) :
    Control.Handled cfg c whole line
      (v.allocItem cfg ch key dataflags exptime vlen casId).control := by
  have hstored : Control.Handled cfg c whole line { c with
      noreply := noreply, hasItem := true, rlbytes := vlen + crlfLen, rdata := [], state := .nread
      log := c.log ++ .line line noreply :: (us.map .token ++ [.alloc true]) } := .stored hblock
  have hunstored : Control.Handled cfg c whole line { ({ c with
      noreply := noreply
      log := c.log ++ .line line noreply :: (us.map .token ++ [.alloc false]) } : Control).rsp with
      writeAndGo := .swallow, sbytes := vlen + crlfLen, rdata := [] } := .unstored hblock
  have hinput : (v.allocItem cfg ch key dataflags exptime vlen casId).input = v.input := by
    unfold allocItem
    generalize v.store.itemAlloc cfg ch _ key dataflags exptime vlen = r
    obtain ⟨_ | it, st⟩ := r <;> rfl
  unfold control
  rw [hinput]
  unfold allocItem
  generalize halloc : v.store.itemAlloc cfg ch _ key dataflags exptime vlen = r
  obtain ⟨_ | it, st⟩ := r
  · -- without memory the block is swallowed behind the reply
    change Control.Handled cfg c whole line
      { ((v.conn.record [.alloc false]).ascRsp .serverError).control v.input with
        writeAndGo := .swallow, sbytes := vlen + crlfLen, rdata := [] }
    rw [Conn.control_ascRsp, Conn.control_record]
    change Control.Handled cfg c whole line
      { (v.control.record [.alloc false]).rsp with
        writeAndGo := .swallow, sbytes := vlen + crlfLen, rdata := [] }
    rw [hv]
    unfold Control.record
    rwa [List.append_assoc, List.cons_append]
  · have hnbyte : (st.items it).nbyte = vlen := by
      obtain ⟨-, -, it', gen, hitem⟩ := Store.itemAlloc_some halloc
      rw [hitem]
      exact Item.setCas_nbyte _ _
    have hgot : ∀ n, n = vlen → Control.Handled cfg c whole line
        { v.control.record [.alloc true] with
          hasItem := true, rlbytes := n + crlfLen, rdata := [], state := .nread } := by
      rintro n rfl
      rw [hv]
      unfold Control.record
      dsimp only
      rwa [List.append_assoc, List.cons_append]
    cases casId with
    | none => exact hgot _ hnbyte
    | some cas =>
      have hcas : ((st.setItem it (·.setCas cas)).items it).nbyte = vlen := by
        simp [Store.setItem, hnbyte]
      exact hgot _ hcas

/-- **What a request does.** -/
theorem dispatch_control (hs : w.conn.Sized) (hn : w.conn.noreply = false)
    (h : w.dispatch cfg e line (request line) = some w') :
    Control.Handled cfg w.control (w.conn.wire.fails ≤ w'.conn.wire.fails) line w'.control := by
  obtain ⟨wire, hwide, hwire⟩ := dispatch_started hs
  rw [dispatch_ok hwire, hn] at h
  have hfails : wire.fails = w.conn.wire.fails := by
    obtain ⟨wire', hwire', -, -, hallocs⟩ :=
      Wire.connAddMsghdr_blank w.conn.wire hs.msgSize hs.iovSize
    rw [hwire] at hwire'
    rw [(Prod.mk.inj hwire').2, Wire.fails, hallocs]
    rfl
  -- what the handlers find when they have read the fields of the request
  have hstart : (w.handled cfg e line (request line) wire).control = { w.control with
      noreply := (ascDispatch cfg w.set e.stack (request line) false).2.noreply
      log := w.control.log ++
        .line line (ascDispatch cfg w.set e.stack (request line) false).2.noreply ::
        (ascDispatch cfg w.set e.stack (request line) false).2.uses.map .token } := by
    unfold handled
    rw [hn]
    rfl
  have hnc : w.control.noreply = false := hn
  have hblock := blockOf_eq cfg w.set e.stack (request line)
  have hvfails : (w.handled cfg e line (request line) wire).conn.wire.fails = w.conn.wire.fails :=
    hfails
  generalize hcmd : (ascDispatch cfg w.set e.stack (request line) false).1 = cmd at h hblock
  generalize w.handled cfg e line (request line) wire = v at h hstart hvfails
  rw [← hvfails]
  generalize hnr : (ascDispatch cfg w.set e.stack (request line) false).2.noreply = nr
    at hstart hblock
  generalize (ascDispatch cfg w.set e.stack (request line) false).2.uses = us at hstart
  have hnotquit : cmd ≠ .quit → reqTypeOf (request line) ≠ .quit := fun hne hquit =>
    hne (hcmd.symm.trans (ascDispatch_quit hquit).1)
  -- most handlers answer and are done
  have hrsp : ∀ {v' : Session} (r : Rsp), v'.conn = v.conn → v'.input = v.input →
      blockOf cfg (request line) = none → reqTypeOf (request line) ≠ .quit →
      Control.Handled cfg w.control (v.conn.wire.fails ≤ w'.conn.wire.fails) line
        (v'.setConn (·.ascRsp r)).control := by
    intro v' r hconn hinput hb hq
    have hv' : (v'.setConn (·.ascRsp r)).control = v.control.rsp := by
      unfold setConn control
      rw [hconn, hinput, Conn.control_ascRsp]
    rw [hv', hstart]
    exact Control.Handled.of_rsp _ nr us hb hq
  cases cmd with
  | read returnCas =>
    obtain rfl : nr = false := hnr.symm.trans (noreply_of_read hcmd)
    have hvn :
        v.control =
        { w.control with log := w.control.log ++ .line line false :: us.map .token } := by
      rw [hstart]
      dsimp only
      rw [hnc]
    exact readLoop_control (filled_keys hcmd) h hn hvn hblock (hnotquit (by simp))
  | update type key dataflags exptime vlen casId =>
    obtain rfl := Option.some.inj h
    exact allocItem_control hstart hblock
  | annex type key vlen =>
    obtain rfl := Option.some.inj h
    exact allocItem_control hstart hblock
  | stats sub =>
    obtain rfl : nr = false := hnr.symm.trans (noreply_of_stats hcmd)
    obtain rfl := Option.some.inj h
    generalize e.stats = stats at hrsp ⊢
    cases stats with
    | none => exact hrsp _ rfl rfl hblock (hnotquit (by simp))
    | some buf =>
      have hrec : (v.setConn (·.coreWriteAndFree (some buf))).control = v.control.rsp := by
        rw [Control.rsp_of_reply (show v.control.noreply = false by rw [hstart])]
        rfl
      rw [hrec, hstart]
      exact Control.Handled.of_rsp _ false us hblock (hnotquit (by simp))
  | configure s =>
    obtain rfl := Option.some.inj h
    refine hrsp _ (applySetting_conn _ _) ?_ hblock (hnotquit (by simp))
    unfold applySetting
    cases s <;> dsimp only
    all_goals split_ifs <;> rfl
  | quit =>
    obtain rfl := Option.some.inj h
    have hquit := quit_of_ascDispatch hcmd
    obtain rfl : nr = false := hnr.symm.trans (ascDispatch_quit hquit).2
    have hclosed : (v.setState .close).control = { v.control with state := .close } := rfl
    rw [hclosed, hstart]
    have hdone : Control.Handled cfg w.control
        (v.conn.wire.fails ≤ (v.setState .close).conn.wire.fails) line
        { w.control with
          state := .close, log := w.control.log ++ .line line false :: us.map .token } :=
      .quit hblock hquit
    dsimp only at hdone ⊢
    rwa [hnc] at hdone
  | respond r =>
    obtain rfl := Option.some.inj h
    exact hrsp r rfl rfl hblock (hnotquit (by simp))
  | delta incr key delta =>
    obtain rfl := Option.some.inj h
    exact hrsp _ rfl rfl hblock (hnotquit (by simp))
  | delete key =>
    obtain rfl := Option.some.inj h
    exact hrsp _ rfl rfl hblock (hnotquit (by simp))
  | flush exptime =>
    obtain rfl := Option.some.inj h
    exact hrsp _ rfl rfl hblock (hnotquit (by simp))

end Session

end

/-! ### Turns -/

section

variable {cfg : Config} {c : Conn} {w w' : Session} {input : List UInt8}

/-- Making the buffers smaller does not matter. -/
theorem Conn.control_connShrink : c.connShrink.control input = c.control input := by
  have hrbuf : ∀ c : Conn, c.shrinkRbuf.control input = c.control input := by
    intro c
    have hfront : ({ c with rbuf := c.rbuf.moveToFront } : Conn).control input =
        c.control input := by
      unfold control
      rw [Buffer.unread_moveToFront]
    unfold shrinkRbuf
    split_ifs
    · obtain ⟨b, as, halloc, -⟩ := ({ c with rbuf := c.rbuf.moveToFront } : Conn).alloc_eq
      dsimp only
      rw [halloc]
      cases b <;> exact hfront
    · obtain ⟨b, as, halloc, -⟩ := c.alloc_eq
      dsimp only
      rw [halloc]
      cases b <;> rfl
    · rfl
  have hlists : ∀ c : Conn, c.shrinkIlist.shrinkMsg.shrinkIov.control input = c.control input := by
    intro c
    have hilist : c.Quiet c.shrinkIlist := by
      unfold shrinkIlist alloc
      split_ifs
      · cases c.wire.realloc.1 <;> rfl
      · rfl
    have hmsg : ∀ c : Conn, c.Quiet c.shrinkMsg := by
      intro c
      unfold shrinkMsg alloc
      split_ifs
      · cases c.wire.realloc.1 <;> rfl
      · rfl
    have hiov : ∀ c : Conn, c.Quiet c.shrinkIov := by
      intro c
      unfold shrinkIov alloc
      split_ifs
      · cases c.wire.realloc.1 <;> rfl
      · rfl
    exact ((hilist.trans (hmsg _)).trans (hiov _)).control
  unfold connShrink
  split_ifs
  · rfl
  · rw [hlists, hrbuf]

namespace Session

@[simp] theorem control_setState (s : ConnState) : (w.setState s).control = w.control.goto s := rfl

@[simp] theorem control_stop : w.stop.control = w.control := rfl

theorem control_releaseItem : w.releaseItem.control = { w.control with hasItem := false } := by
  unfold releaseItem
  cases hitem : w.conn.item with
  | none =>
    unfold control Conn.control
    rw [hitem]
    rfl
  | some it => rfl

/-- `core_reset_cmd_handler`. -/
theorem control_coreResetCmdHandler : w.coreResetCmdHandler.control =
    { w.control with hasItem := false, state := if w.control.unread =
        [] then .wait else .parse } := by
  have hshrink : ∀ v : Session, (v.setConn Conn.connShrink).control = v.control :=
    fun v => Conn.control_connShrink
  unfold coreResetCmdHandler
  dsimp only
  generalize hv : ((w.setConn fun c => { c with reqType := .unknown }).releaseItem.setConn
    Conn.connShrink) = v
  have hcontrol : v.control = { w.control with hasItem := false } := by
    rw [← hv, hshrink, control_releaseItem]
    rfl
  have hbytes : v.conn.rbytes = w.control.unread.length := by
    have hunread : v.conn.rbuf.unread = w.control.unread := congrArg Control.unread hcontrol
    rw [← hunread, Buffer.length_unread]
    rfl
  rw [control_setState, hcontrol, hbytes]
  unfold Control.goto
  by_cases hnil : w.control.unread = []
  · rw [if_pos hnil, if_neg (by rw [hnil]; exact Nat.lt_irrefl 0)]
  · rw [if_neg hnil, if_pos (List.length_pos_iff.2 hnil)]

/-- `core_close`. -/
theorem control_coreClose (h : w.conn.state = .close) : w.coreClose.control =
    { w.control with hasItem := false, state := if w.control.udp then .read else .close } := by
  have hrelease : (w.releaseItem.releaseItems.setConn Conn.releaseSuffixes).stop.control =
      { w.control with hasItem := false } := control_releaseItem
  unfold coreClose
  dsimp only
  generalize (w.releaseItem.releaseItems.setConn Conn.releaseSuffixes).stop = v at hrelease
  have hudp : v.conn.udp = w.control.udp := congrArg Control.udp hrelease
  rw [hudp]
  by_cases hwudp : w.control.udp = true
  · rw [if_pos hwudp, if_pos hwudp, control_setState, hrelease]
    rfl
  · rw [if_neg hwudp, if_neg hwudp]
    change v.control = _
    rw [hrelease, show ConnState.close = w.control.state from h.symm]

/-- **What `core_read_tcp` has read goes to the buffer.** -/
theorem coreReadTcp_received {results : List ReadResult} {r : ReadOutcome} {v : Session}
    (hudp : w.conn.udp = false) (h : w.coreReadTcp results = some (r, v)) :
    ∃ bytes rest b as, w.input = bytes ++ rest ∧
      b.unread = w.conn.rbuf.unread ++ bytes ∧
      Received w results .noDataReceived (w.conn.rebuf b as) bytes rest r v := by
  unfold coreReadTcp at h
  generalize hu : (w.setConn fun c =>
    if c.rbuf.curr ≠ 0 then { c with rbuf := c.rbuf.moveToFront } else c) = u at h
  obtain ⟨b₀, hconn, hcurr, hunread⟩ : ∃ b₀, u = { w with conn := { w.conn with rbuf := b₀ } } ∧
      b₀.curr = 0 ∧ b₀.unread = w.conn.rbuf.unread := by
    rw [← hu]
    unfold setConn
    dsimp only
    split_ifs with hcurr
    · exact ⟨_, rfl, rfl, Buffer.unread_moveToFront⟩
    · exact ⟨w.conn.rbuf, rfl, not_not.1 hcurr, rfl⟩
  rw [hconn] at h
  obtain ⟨bytes, rest, b, as, hinput, hb, -, hrec⟩ :=
    readTcpLoop_received (w := { w with conn := { w.conn with rbuf := b₀ } }) hudp hcurr h
  refine ⟨bytes, rest, b, as, hinput, hb.trans (congrArg (· ++ bytes) hunread), ?_⟩
  cases hrec with
  | none hnil => exact .none hnil
  | data hne => exact .data hne
  | eof heof hres => exact .eof heof hres
  | error hres => exact .error hres
  | oom hlt => exact .oom hlt

/-- The state `CONN_READ` on TCP. -/
theorem coreReadTcp_turn {results : List ReadResult} {faulty whole : Prop}
    (h : w.conn.state = .read) (hudp : w.conn.udp = false)
    (hfaulty : .eof ∈ results ∨ .error ∈ results ∨ 0 < w.conn.wire.fails → faulty)
    (hread : (w.coreReadTcp results).map coreRead = some w') :
    w.control.Turn cfg faulty whole w'.control := by
  obtain ⟨⟨r, v⟩, hloop, rfl⟩ := Option.map_eq_some_iff.1 hread
  obtain ⟨bytes, rest, b, as, hinput, hb, hrec⟩ := coreReadTcp_received hudp hloop
  have hcontrol : (w.conn.rebuf b as).control rest =
      { w.control with unread := w.control.unread ++ bytes, input := rest } := by
    rw [show w.control.unread ++ bytes = b.unread from hb.symm]
    rfl
  generalize w.conn.rebuf b as = c at hrec hcontrol
  cases hrec with
  | none hnil =>
    change w.control.Turn cfg _ whole ((c.control rest).goto .wait)
    rw [hcontrol]
    exact .receive h hudp hinput (.inr (.inl ⟨rfl, hnil⟩))
  | data hne =>
    change w.control.Turn cfg _ whole ((c.control rest).goto .parse)
    rw [hcontrol]
    exact .receive h hudp hinput (.inl rfl)
  | eof heof hres =>
    change w.control.Turn cfg _ whole (((c.control rest).record [.eof]).goto .close)
    subst heof
    rw [hcontrol, show bytes = w.control.input from (hinput.trans (List.append_nil _)).symm]
    exact .ended h hudp (hfaulty (.inl hres))
  | error hres =>
    change w.control.Turn cfg _ whole ((c.control rest).goto .close)
    rw [hcontrol]
    exact .receive h hudp hinput (.inr (.inr ⟨hfaulty (.inr (.inl hres)), rfl⟩))
  | oom hlt =>
    change w.control.Turn cfg _ whole
      { (({ c with rbuf := { c.rbuf with bytes := 0 } }.record [.dropped]).ascRsp
          .serverError).control rest with
        writeAndGo := .close }
    rw [Conn.control_ascRsp]
    have hdropped :
        (({ c with rbuf := { c.rbuf with bytes := 0 } } : Conn).record [.dropped]).control rest =
        { w.control with unread := [], input := rest, log := w.control.log ++ [.dropped] } := by
      change { (c.control rest).record [.dropped] with unread := [] } = _
      rw [hcontrol]
      rfl
    rw [hdropped]
    exact .overflow h hudp hinput (hfaulty (.inr (.inr (Nat.zero_lt_of_lt hlt))))

/-- The state `CONN_READ` on UDP. -/
theorem coreReadUdp_turn (datagram : Option (List UInt8)) {faulty whole : Prop}
    (h : w.conn.state = .read) (hudp : w.conn.udp = true) :
    w.control.Turn cfg faulty whole (coreRead (w.coreReadUdp datagram)).control := by
  have hwait : w.control.Turn cfg faulty whole (w.control.goto .wait) := .move (.nothing h)
  unfold coreReadUdp
  generalize datagram.map (List.take w.conn.rbuf.size) = r
  cases r with
  | none => exact hwait
  | some buf =>
    dsimp only
    split_ifs
    · change w.control.Turn cfg faulty whole (((Conn.ascRsp _ _).control _).goto .wait)
      rw [Conn.control_ascRsp]
      exact .part h hudp
    · have hunread : ∀ b : Buffer UInt8,
          ({ b with curr := 0, bytes := 0 }.receive (buf.drop udpHeaderSize)).unread =
          buf.drop udpHeaderSize := by
        intro b
        rw [Buffer.unread_receive rfl, Buffer.unread_eq_nil rfl, List.nil_append]
      have hturn : w.control.Turn cfg faulty whole _ := .datagram (buf.drop udpHeaderSize) h hudp
      rwa [← hunread w.conn.rbuf] at hturn
    · exact hwait

/-- Bytes go to the item. -/
theorem control_fillItem (bytes : List UInt8) : (w.fillItem cfg bytes).control =
    { w.control with rlbytes := w.control.rlbytes - bytes.length, rdata := w.control.rdata ++
      bytes } := rfl

theorem control_swallowed (bytes : List UInt8) : (w.swallowed bytes).control =
    { w.control with sbytes := w.control.sbytes - bytes.length, rdata := w.control.rdata ++
      bytes } := rfl

theorem control_skip (n : ℕ) : (w.setConn fun c => { c with rbuf := c.rbuf.skip n }).control =
    { w.control with unread := w.control.unread.drop n } := by
  have hskip : (w.conn.rbuf.skip n).unread = w.conn.rbuf.unread.drop n := Buffer.unread_skip
  change { w.control with unread := (w.conn.rbuf.skip n).unread } = _
  rw [hskip]
  rfl

theorem consume_conn (w : Session) (bytes : List UInt8) :
    (w.consume bytes).conn = w.conn ∧ (w.consume bytes).store = w.store := by
  unfold consume
  split_ifs <;> exact ⟨rfl, rfl⟩

/-- What `read` returns is taken from the stream. -/
theorem takes_consume {size : ℕ} {bytes : List UInt8} (h : w.admits size (.data bytes) = true) :
    bytes.length ≤ size ∧
      (w.consume bytes).control = { w.control with input := (w.consume bytes).input } ∧
      w.control.Takes bytes (w.consume bytes).input := by
  have hdata : 1 ≤ bytes.length ∧ bytes.length ≤ size ∧ (w.conn.udp = true ∨ bytes <+: w.input) :=
    of_decide_eq_true h
  unfold consume Control.Takes
  by_cases hudp : w.conn.udp = true
  · rw [if_pos hudp, if_pos (show w.control.udp = true from hudp)]
    exact ⟨hdata.2.1, rfl, rfl⟩
  · rw [if_neg hudp, if_neg (show ¬ w.control.udp = true from hudp)]
    obtain ⟨rest, hrest⟩ := hdata.2.2.resolve_left hudp
    refine ⟨hdata.2.1, rfl, ?_⟩
    change w.input = bytes ++ w.input.drop bytes.length
    rw [← hrest, List.drop_left]

theorem Takes.nil {c : Control} : c.Takes [] c.input := by
  unfold Control.Takes
  split_ifs <;> rfl

/-- How a failed `read` ends. -/
theorem ends_readFailed {size : ℕ} {faulty : Prop} (updated : Bool) (r : ReadResult)
    (hfaulty : r = .eof ∨ r = .error ∨ updated = false → faulty) (hr : ∀ bytes, r ≠ .data bytes)
    (h : w.admits size r = true) (hunread : w.control.unread = []) : ∃ es s,
      w.control.Ends faulty w.control.unread w.control.input es s ∧
      (w.readFailed updated r).control = (w.control.record es).goto s := by
  have hnone : ∀ c : Control, c.record [] = c := fun c => by
    unfold Control.record
    rw [List.append_nil]
  cases r with
  | data bytes => exact absurd rfl (hr bytes)
  | eof =>
    have hend : w.conn.udp = true ∨ w.input = [] := of_decide_eq_true h
    exact ⟨[.eof], .close, .inr ⟨hfaulty (.inl rfl), rfl, rfl, hunread, hend⟩, rfl⟩
  | eagain =>
    unfold readFailed
    dsimp only
    split_ifs with hupdated
    · exact ⟨[], w.conn.state, .inl ⟨rfl, .inl rfl⟩, by rw [hnone]; rfl⟩
    · have hfailed : faulty := hfaulty (.inr (.inr (Bool.not_eq_true _ ▸ hupdated)))
      exact ⟨[], .close, .inl ⟨rfl, .inr ⟨hfailed, rfl⟩⟩, by rw [hnone]; rfl⟩
  | error =>
    exact ⟨[], .close, .inl ⟨rfl, .inr ⟨hfaulty (.inr (.inl rfl)), rfl⟩⟩, by rw [hnone]; rfl⟩

/-- The end of a data block. -/
theorem ascCompleteNread_turn {ch : Choice} {faulty whole : Prop} (h : w.conn.state = .nread)
    (hrl : w.conn.rlbytes = 0) :
    w.control.Turn cfg faulty whole (w.ascCompleteNread cfg ch).control := by
  unfold ascCompleteNread
  cases hitem : w.conn.item with
  | none => exact .idle
  | some it =>
    change w.control.Turn cfg faulty whole
      { (((w.conn.record [.block w.conn.rdata]).ascRsp _).control w.input) with
        hasItem := false, rdata := [] }
    rw [Conn.control_ascRsp]
    exact .complete h hrl (show w.conn.item.isSome = true by rw [hitem]; rfl)

/-- The state `CONN_NREAD`. -/
theorem turnNread_turn {ch : Choice} {result : Option ReadResult} {updated : Bool}
    {faulty whole : Prop} (h : w.conn.state = .nread)
    (hfaulty : result = some .eof ∨ result = some .error ∨ updated = false → faulty)
    (hturn : w.turnNread cfg ch result updated = some w') :
    w.control.Turn cfg faulty whole w'.control := by
  unfold turnNread at hturn
  by_cases hrl : w.conn.rlbytes = 0
  · rw [if_pos hrl] at hturn
    obtain ⟨-, heq⟩ := Option.ite_none_right_eq_some.1 hturn
    rw [← Option.some.inj heq]
    exact ascCompleteNread_turn h hrl
  rw [if_neg hrl] at hturn
  dsimp only at hturn
  -- what is in the buffer goes to the item first
  generalize htocopy : min w.conn.rbytes w.conn.rlbytes = n at hturn
  let got := w.conn.rbuf.unread.take n
  let unread := w.conn.rbuf.unread.drop n
  have hsplit : w.control.unread = got ++ unread :=
    (List.take_append_drop n w.conn.rbuf.unread).symm
  have hgot : got.length = n := by
    have hlen : w.conn.rbuf.unread.length = w.conn.rbytes := Buffer.length_unread
    simp only [got, List.length_take, hlen]
    omega
  have hfilled : ((w.fillItem cfg got).setConn fun c => { c with rbuf := c.rbuf.skip n }).control =
      { w.control with
        rlbytes := w.control.rlbytes - got.length, rdata := w.control.rdata ++ got, unread :=
          unread } :=
    control_skip n
  generalize hv : ((w.fillItem cfg got).setConn fun c => { c with rbuf := c.rbuf.skip n }) = v
    at hfilled
  have hv' :
      ((w.fillItem cfg (w.conn.rbuf.unread.take n)).setConn
      fun c => { c with rbuf := c.rbuf.skip n }) = v := hv
  rw [hv'] at hturn
  have hvrl : v.conn.rlbytes = w.conn.rlbytes - n :=
    (congrArg Control.rlbytes hfilled).trans (by rw [hgot]; rfl)
  have hvinput : v.input = w.input := congrArg Control.input hfilled
  by_cases hdone : v.conn.rlbytes = 0
  · rw [if_pos hdone] at hturn
    obtain ⟨-, heq⟩ := Option.ite_none_right_eq_some.1 hturn
    rw [← Option.some.inj heq, hfilled]
    have hfill : w.control.Turn cfg faulty whole _ := .fill h hsplit Takes.nil (by simp)
      (show got.length + 0 ≤ w.conn.rlbytes by omega) (.inl ⟨rfl, .inl rfl⟩)
        (fun hc => by cases h.symm.trans hc)
    rwa [List.append_nil, List.append_nil] at hfill
  rw [if_neg hdone] at hturn
  cases result with
  | none => cases hturn
  | some r =>
    dsimp only at hturn
    obtain ⟨hadmits, heq⟩ := Option.ite_none_right_eq_some.1 hturn
    have hempty : unread = [] := by
      refine List.drop_eq_nil_iff.2 ?_
      have hlen : w.conn.rbuf.unread.length = w.conn.rbytes := Buffer.length_unread
      omega
    cases r with
    | data bytes =>
      obtain ⟨hlen, hconsume, htakes⟩ := takes_consume hadmits
      rw [← Option.some.inj heq, control_fillItem, hconsume]
      rw [hfilled] at htakes
      have htakes' : w.control.Takes bytes (v.consume bytes).input := htakes
      have hfill : w.control.Turn cfg faulty whole _ := .fill h hsplit htakes' (fun _ => hempty)
        (show got.length + bytes.length ≤ w.conn.rlbytes by omega) (.inl ⟨rfl, .inl rfl⟩)
        (fun hc => by cases h.symm.trans hc)
      rw [List.append_nil, List.length_append, ← List.append_assoc, ← Nat.sub_sub] at hfill
      rw [hfilled]
      exact hfill
    | _ =>
      obtain ⟨es, s, hends, hfailed⟩ :=
        ends_readFailed updated _ (by simpa using hfaulty) (fun _ => by simp) hadmits
        (by rw [hfilled]; exact hempty)
      rw [← Option.some.inj heq, hfailed, hfilled]
      rw [hfilled] at hends
      have hends' : w.control.Ends faulty unread w.control.input es s := hends
      have hfill : w.control.Turn cfg faulty whole _ := .fill h hsplit Takes.nil (by simp)
        (show got.length + 0 ≤ w.conn.rlbytes by omega) hends'
        (fun _ => show got.length + 0 < w.conn.rlbytes by omega)
      rwa [List.append_nil] at hfill

/-- The state `CONN_SWALLOW`. -/
theorem turnSwallow_turn {result : Option ReadResult} {updated : Bool} {faulty whole : Prop}
    (h : w.conn.state = .swallow)
    (hfaulty : result = some .eof ∨ result = some .error ∨ updated = false → faulty)
    (hturn : w.turnSwallow result updated = some w') :
    w.control.Turn cfg faulty whole w'.control := by
  unfold turnSwallow at hturn
  have hlen : w.conn.rbuf.unread.length = w.conn.rbytes := Buffer.length_unread
  have hstay : w.conn.state ≠ .close := fun hc => by cases h.symm.trans hc
  by_cases hs : w.conn.sbytes = 0
  · rw [if_pos hs] at hturn
    obtain ⟨-, heq⟩ := Option.ite_none_right_eq_some.1 hturn
    rw [← Option.some.inj heq]
    exact .swallowed h hs
  rw [if_neg hs] at hturn
  by_cases hbytes : w.conn.rbytes > 0
  · -- what is in the buffer is swallowed first
    rw [if_pos hbytes] at hturn
    obtain ⟨-, heq⟩ := Option.ite_none_right_eq_some.1 hturn
    rw [← Option.some.inj heq]
    generalize htocopy : min w.conn.rbytes w.conn.sbytes = n
    have hgot : (w.conn.rbuf.unread.take n).length = n := by
      rw [List.length_take, hlen]
      omega
    have hswallow : w.control.Turn cfg faulty whole _ := .swallow h
      (List.take_append_drop n w.conn.rbuf.unread).symm Takes.nil (by simp)
      (show (w.conn.rbuf.unread.take n).length + 0 ≤ w.conn.sbytes by omega) (.inl ⟨rfl, .inl rfl⟩)
      (fun hc => absurd hc hstay)
    rw [List.append_nil, List.append_nil] at hswallow
    rw [control_skip, control_swallowed]
    exact hswallow
  -- then the rest is read from the socket
  rw [if_neg hbytes] at hturn
  have hempty : w.control.unread = [] :=
    List.eq_nil_of_length_eq_zero (by rw [← Nat.le_zero]; exact hlen ▸ Nat.not_lt.1 hbytes)
  have hsplit : w.control.unread = [] ++ w.control.unread := rfl
  cases result with
  | none => cases hturn
  | some r =>
    dsimp only at hturn
    obtain ⟨hadmits, heq⟩ := Option.ite_none_right_eq_some.1 hturn
    cases r with
    | data bytes =>
      obtain ⟨hroom, hconsume, htakes⟩ := takes_consume hadmits
      rw [← Option.some.inj heq, control_swallowed, hconsume]
      have hswallow : w.control.Turn cfg faulty whole _ :=
        .swallow h hsplit htakes (fun _ => hempty)
        (show 0 + bytes.length ≤ w.conn.sbytes by omega) (.inl ⟨rfl, .inl rfl⟩)
          (fun hc => absurd hc hstay)
      rwa [List.append_nil] at hswallow
    | _ =>
      obtain ⟨es, s, hends, hfailed⟩ :=
        ends_readFailed updated _ (by simpa using hfaulty) (fun _ => by simp) hadmits
        hempty
      rw [← Option.some.inj heq, hfailed]
      have hswallow : w.control.Turn cfg faulty whole _ := .swallow h hsplit Takes.nil (by simp)
        (show 0 + 0 ≤ w.conn.sbytes by omega) hends (fun _ => show 0 + 0 < w.conn.sbytes by omega)
      rw [List.append_nil] at hswallow
      change w.control.Turn cfg faulty whole
          { w.control with rdata := w.control.rdata, state := s, log := w.control.log ++ es }
      rwa [List.append_nil] at hswallow

/-- Headers are only missing without memory. -/
theorem fails_pos_of_enomem (h : c.connBuildUdpHeaders.1 = .enomem) : 0 < c.wire.fails := by
  unfold Conn.connBuildUdpHeaders at h
  dsimp only at h
  split_ifs at h
  · obtain ⟨b, as, halloc, hcount⟩ := c.alloc_eq
    rw [halloc] at h
    cases b with
    | false => exact Nat.zero_lt_of_lt hcount
    | true => cases h

/-- The states `CONN_WRITE` and `CONN_MWRITE`. -/
theorem turnWrite_turn {res : Wire.SendResult} {faulty whole : Prop}
    (h : w.conn.state = .write ∨ w.conn.state = .mwrite)
    (hfaulty : res = .error ∨ res = .sent 0 ∨ res = .eagain false ∨
      0 < w.conn.wire.fails → faulty) :
    w.control.Turn cfg faulty whole (w.turnWrite res).control := by
  have hparse : w.control.state ≠ .parse := by
    intro hp
    rcases h with h | h <;> cases h.symm.trans hp
  have hclose : faulty → w.control.Turn cfg faulty whole (w.control.goto .close) :=
    fun hf => .move (.failed hparse hf)
  -- from `core_transmit` on
  have htransmit : ∀ v : Session, v.control = w.control →
      w.control.Turn cfg faulty whole (v.transmit res).control := by
    intro v hv
    have hstate : v.conn.state = w.conn.state := congrArg Control.state hv
    have hgo : v.conn.writeAndGo = w.conn.writeAndGo := congrArg Control.writeAndGo hv
    have hudp : v.conn.udp = w.conn.udp := congrArg Control.udp hv
    have hset :
        ∀ s, ((v.setConn fun c => { c with wire := (v.conn.wire.coreTransmit res).2.2 }).setState
        s).control =
        w.control.goto s := by
      intro s
      rw [← hv]
      rfl
    unfold transmit
    dsimp only
    cases hres : (v.conn.wire.coreTransmit res).1 with
    | complete =>
      dsimp only
      split_ifs with hm
      · change w.control.Turn cfg faulty whole (v.control.goto .newCmd)
        rw [hv]
        exact .move (.sent (hstate.symm.trans hm))
      · have hwrite : w.conn.state = .write := h.resolve_right fun hw => hm (hstate.trans hw)
        change w.control.Turn cfg faulty whole (v.control.goto v.conn.writeAndGo)
        rw [hv, hgo]
        exact .move (.written hwrite)
    | incomplete =>
      change w.control.Turn cfg faulty whole v.control
      rw [hv]
      exact .idle
    | softError =>
      change w.control.Turn cfg faulty whole v.control
      rw [hv]
      exact .idle
    | hardError =>
      have hf : faulty := by
        rcases Wire.coreTransmit_hardError hres with hr | hr | hr
        · exact hfaulty (.inl hr)
        · exact hfaulty (.inr (.inl hr))
        · exact hfaulty (.inr (.inr (.inl hr)))
      have herror : w.control.Turn cfg faulty whole
          (w.control.goto (if v.conn.udp then .read else .close)) := by
        split_ifs with hu
        · exact .move (.unsent h (hudp.symm.trans hu))
        · exact hclose hf
      cases res with
      | sent n =>
        dsimp only
        rw [hset]
        exact herror
      | eagain updated =>
        dsimp only
        rw [hset]
        exact hclose hf
      | error =>
        dsimp only
        rw [hset]
        exact herror
  -- a simple response is made a message first, and on UDP it gets its headers
  have hadd : w.addResponse.2.control = w.control ∧
      w.addResponse.2.conn.wire.fails ≤ w.conn.wire.fails ∧
      (w.addResponse.1 = .enomem → faulty) := by
    unfold addResponse
    split_ifs
    · obtain ⟨hle, hlt⟩ := Wire.fails_connAddIovs (c := w.conn.wire) (Prod.ext rfl rfl)
      exact ⟨rfl, hle, fun hno => hfaulty (.inr (.inr (.inr (Nat.zero_lt_of_lt (hlt hno)))))⟩
    · exact ⟨rfl, le_rfl, fun hno => by cases hno⟩
  unfold turnWrite
  generalize w.addResponse = r at hadd
  obtain ⟨hadd, hle, hfail⟩ := hadd
  obtain ⟨_ | _, v⟩ := r
  · have hbuild : (if v.conn.udp ∧ v.conn.wire.msgCurr = 0 then v.conn.connBuildUdpHeaders
        else (.ok, v.conn)).1 = .enomem → faulty := by
      intro hno
      split_ifs at hno
      exact hfaulty (.inr (.inr (.inr ((fails_pos_of_enomem hno).trans_le hle))))
    have hheaders : (if v.conn.udp ∧ v.conn.wire.msgCurr = 0 then v.conn.connBuildUdpHeaders
        else (.ok, v.conn)).2.control v.input = w.control := by
      split_ifs
      · exact (Conn.quiet_connBuildUdpHeaders.control).trans hadd
      · exact hadd
    dsimp only
    generalize (if v.conn.udp ∧ v.conn.wire.msgCurr = 0 then v.conn.connBuildUdpHeaders
      else (.ok, v.conn)) = r
      at hheaders hbuild
    obtain ⟨_ | _, c⟩ := r
    · exact htransmit _ hheaders
    · change w.control.Turn cfg faulty whole ((c.control v.input).goto .close)
      rw [show c.control v.input = w.control from hheaders]
      exact hclose (hbuild rfl)
  · dsimp only
    rw [control_setState, show v.control = w.control from hadd]
    exact hclose (hfail rfl)

/-- The state `CONN_PARSE`. -/
theorem coreParse_turn {e : Circumstances} {faulty : Prop} (hs : w.conn.Sized)
    (h : w.conn.state = .parse) (hn : w.conn.noreply = false)
    (hturn : w.coreParse cfg e = some w') :
    w.control.Turn cfg faulty (w.conn.wire.fails ≤ w'.conn.wire.fails) w'.control := by
  unfold coreParse at hturn
  dsimp only at hturn
  split_ifs at hturn with hline hlong
  · obtain ⟨v, hv, rfl⟩ := Option.map_eq_some_iff.1 hturn
    obtain ⟨line, rest, hunread, hno⟩ := List.eq_append_cons_of_mem hline
    rw [hunread, takeWhile_line hno] at hv ⊢
    have hd := dispatch_control hs hn hv
    have hkept : v.control.unread.drop (line.length + 1) = rest := by
      have hsplit : w.control.unread = line ++ 10 :: rest := hunread
      rw [hd.unread, hsplit, ← List.drop_drop, List.drop_left, List.drop_succ_cons, List.drop_zero]
    rw [control_skip, hkept]
    exact .line h hunread hno hd
  · obtain rfl := Option.some.inj hturn
    exact .move (.endless h hline hlong.1 (Bool.not_eq_true _ ▸ hlong.2))
  · obtain rfl := Option.some.inj hturn
    exact .move (.incomplete h hline)

/-- What the environment answers is a failure, or the end of the stream. -/
def Io.Faulty : Io → Prop
  | .wait updated => updated = false
  | .readTcp results => .eof ∈ results ∨ .error ∈ results
  | .newCmd updated => updated = false
  | .nread result updated _ => result = some .eof ∨ result = some .error ∨ updated = false
  | .swallow result updated => result = some .eof ∨ result = some .error ∨ updated = false
  | .send res => res = .error ∨ res = .sent 0 ∨ res = .eagain false
  | _ => False

/-- **A turn of a session is a turn of what drives it**: whatever happens to the store, whichever
allocations fail and whatever the socket does. -/
theorem turn_control {io : Io} (hs : w.conn.Sized)
    (hn : w.conn.state = .parse → w.conn.noreply = false) (h : w.turn cfg io = some w') :
    w.control.Turn cfg (io.Faulty ∨ 0 < w.conn.wire.fails)
      (w.conn.wire.fails ≤ w'.conn.wire.fails) w'.control := by
  unfold turn at h
  cases hstate : w.conn.state <;> rw [hstate] at h <;> cases io <;> dsimp only at h <;> try cases h
  case wait.wait updated =>
    split_ifs with hupdated
    · exact .move (.readable hstate)
    · refine .move (.failed ?_ (.inl (show updated = false from Bool.not_eq_true _ ▸ hupdated)))
      rw [show w.control.state = .wait from hstate]
      decide
  case read.readTcp results =>
    split_ifs at h with hudp
    refine coreReadTcp_turn hstate (Bool.not_eq_true _ ▸ hudp) ?_ h
    rintro (heof | herror | hscarce)
    · exact .inl (.inl heof)
    · exact .inl (.inr herror)
    · exact .inr hscarce
  case read.readUdp datagram =>
    split_ifs at h with hudp
    obtain rfl := Option.some.inj h
    exact coreReadUdp_turn datagram hstate hudp
  case parse.parse e => exact coreParse_turn hs hstate (hn hstate) h
  case newCmd.newCmd updated =>
    -- the connection yields when it has had its requests
    have hreset : ({ w with nreqs := w.nreqs - 1 } : Session).coreResetCmdHandler.control =
        { w.control with hasItem := false, state := if w.control.unread =
            [] then .wait else .parse } :=
      control_coreResetCmdHandler
    split_ifs with hreqs hupdated
    · rw [hreset]
      exact .reset hstate
    · refine .move (.failed ?_ (.inl (show updated = false from Bool.not_eq_true _ ▸ hupdated.2)))
      rw [show w.control.state = .newCmd from hstate]
      decide
    · exact .idle
  case nread.nread result updated ch => exact turnNread_turn hstate .inl h
  case swallow.swallow result updated => exact turnSwallow_turn hstate .inl h
  case write.send res =>
    refine turnWrite_turn (.inl hstate) ?_
    rintro (h | h | h | h)
    · exact .inl (.inl h)
    · exact .inl (.inr (.inl h))
    · exact .inl (.inr (.inr h))
    · exact .inr h
  case mwrite.send res =>
    refine turnWrite_turn (.inr hstate) ?_
    rintro (h | h | h | h)
    · exact .inl (.inl h)
    · exact .inl (.inr (.inl h))
    · exact .inl (.inr (.inr h))
    · exact .inr h
  case close.close =>
    rw [control_coreClose hstate]
    exact .cleanup hstate

/-! ### Room for replies -/

theorem sized_readTcp {results : List ReadResult} (hs : w.conn.Sized) (hudp : w.conn.udp = false)
    (h : (w.coreReadTcp results).map coreRead = some w') : w'.conn.Sized := by
  obtain ⟨⟨r, v⟩, hloop, rfl⟩ := Option.map_eq_some_iff.1 h
  obtain ⟨bytes, rest, b, as, -, -, hrec⟩ := coreReadTcp_received hudp hloop
  have hc : (w.conn.rebuf b as).Sized := hs.of_wider rfl ⟨rfl, le_rfl, le_rfl⟩
  generalize w.conn.rebuf b as = c at hrec hc
  cases hrec with
  | oom hlt =>
    have hdrop : ({ c with rbuf := { c.rbuf with bytes := 0 } }.record [.dropped]).Sized :=
      hc.of_wire rfl rfl
    exact (hdrop.ascRsp .serverError).of_wire rfl rfl
  | _ => exact hc.of_wire rfl rfl

theorem sized_ascCompleteNread (hs : w.conn.Sized) (ch : Choice) :
    (w.ascCompleteNread cfg ch).conn.Sized := by
  unfold ascCompleteNread
  cases w.conn.item with
  | none => exact hs
  | some it =>
    have hblock : (w.conn.record [.block w.conn.rdata]).Sized := hs.of_wire rfl rfl
    exact (hblock.ascRsp _).of_wire rfl rfl

theorem sized_readFailed (hs : w.conn.Sized) (updated : Bool) (r : ReadResult) :
    (w.readFailed updated r).conn.Sized := by
  unfold readFailed
  cases r with
  | eagain =>
    dsimp only
    split_ifs <;> exact hs.of_wire rfl rfl
  | _ => exact hs.of_wire rfl rfl

theorem sized_consume (hs : w.conn.Sized) (bytes : List UInt8) : (w.consume bytes).conn.Sized := by
  unfold consume
  split_ifs <;> exact hs

theorem sized_turnNread {ch : Choice} {result : Option ReadResult} {updated : Bool}
    (hs : w.conn.Sized) (h : w.turnNread cfg ch result updated = some w') : w'.conn.Sized := by
  unfold turnNread at h
  by_cases hrl : w.conn.rlbytes = 0
  · rw [if_pos hrl] at h
    obtain ⟨-, heq⟩ := Option.ite_none_right_eq_some.1 h
    rw [← Option.some.inj heq]
    exact sized_ascCompleteNread hs ch
  rw [if_neg hrl] at h
  dsimp only at h
  generalize hv : ((w.fillItem cfg (w.conn.rbuf.unread.take _)).setConn fun c =>
    { c with rbuf := c.rbuf.skip _ }) = v at h
  have hvs : v.conn.Sized := by
    rw [← hv]
    exact hs.of_wire rfl rfl
  by_cases hdone : v.conn.rlbytes = 0
  · rw [if_pos hdone] at h
    obtain ⟨-, heq⟩ := Option.ite_none_right_eq_some.1 h
    rwa [← Option.some.inj heq]
  rw [if_neg hdone] at h
  cases result with
  | none => cases h
  | some r =>
    dsimp only at h
    obtain ⟨-, heq⟩ := Option.ite_none_right_eq_some.1 h
    cases r with
    | data bytes =>
      rw [← Option.some.inj heq]
      exact (sized_consume hvs bytes).of_wire rfl rfl
    | _ =>
      rw [← Option.some.inj heq]
      exact sized_readFailed hvs updated _

theorem sized_turnSwallow {result : Option ReadResult} {updated : Bool} (hs : w.conn.Sized)
    (h : w.turnSwallow result updated = some w') : w'.conn.Sized := by
  unfold turnSwallow at h
  split_ifs at h
  · rw [← Option.some.inj h]
    exact hs.of_wire rfl rfl
  · rw [← Option.some.inj h]
    exact hs.of_wire rfl rfl
  · cases result with
    | none => cases h
    | some r =>
      dsimp only at h
      obtain ⟨-, heq⟩ := Option.ite_none_right_eq_some.1 h
      cases r with
      | data bytes =>
        rw [← Option.some.inj heq]
        exact (sized_consume hs bytes).of_wire rfl rfl
      | _ =>
        rw [← Option.some.inj heq]
        exact sized_readFailed hs updated _

theorem sized_turnWrite (hs : w.conn.Sized) (res : Wire.SendResult) :
    (w.turnWrite res).conn.Sized := by
  have htransmit : ∀ v : Session, v.conn.Sized → (v.transmit res).conn.Sized := by
    intro v hv
    have hsent : ({ v.conn with wire := (v.conn.wire.coreTransmit res).2.2 } : Conn).Sized :=
      hv.of_wider rfl (Wire.wider_coreTransmit v.conn.wire res)
    unfold transmit
    dsimp only
    cases (v.conn.wire.coreTransmit res).1 with
    | complete =>
      dsimp only
      split_ifs <;> exact hsent.of_wire rfl rfl
    | incomplete => exact hsent
    | softError => exact hsent
    | hardError => cases res <;> exact hsent.of_wire rfl rfl
  have hadd : w.addResponse.2.conn.Sized := by
    unfold addResponse
    split_ifs
    · exact hs.connAddIovs _
    · exact hs
  unfold turnWrite
  generalize w.addResponse = r at hadd
  obtain ⟨_ | _, v⟩ := r
  · have hheaders : (if v.conn.udp ∧ v.conn.wire.msgCurr = 0 then v.conn.connBuildUdpHeaders
        else (.ok, v.conn)).2.Sized := by
      split_ifs
      · exact Conn.Sized.connBuildUdpHeaders hadd
      · exact hadd
    dsimp only
    generalize (if v.conn.udp ∧ v.conn.wire.msgCurr = 0 then v.conn.connBuildUdpHeaders
      else (.ok, v.conn)) = r
      at hheaders
    obtain ⟨_ | _, c⟩ := r
    · exact htransmit _ hheaders
    · exact hheaders.of_wire rfl rfl
  · exact hadd.of_wire rfl rfl

theorem sized_releaseItem (hs : w.conn.Sized) : w.releaseItem.conn.Sized := by
  unfold releaseItem
  cases w.conn.item with
  | none => exact hs
  | some it => exact hs.of_wire rfl rfl

/-- **Every turn leaves room for the start of a reply.** -/
theorem sized_turn {io : Io} (hs : w.conn.Sized) (h : w.turn cfg io = some w') : w'.conn.Sized := by
  unfold turn at h
  cases hstate : w.conn.state <;> rw [hstate] at h <;> cases io <;> dsimp only at h <;> try cases h
  case wait.wait updated => split_ifs <;> exact hs.of_wire rfl rfl
  case read.readTcp results =>
    split_ifs at h with hudp
    exact sized_readTcp hs (Bool.not_eq_true _ ▸ hudp) h
  case read.readUdp datagram =>
    split_ifs at h with hudp
    obtain rfl := Option.some.inj h
    unfold coreReadUdp
    generalize datagram.map (List.take w.conn.rbuf.size) = r
    cases r with
    | none => exact hs.of_wire rfl rfl
    | some buf =>
      dsimp only
      split_ifs
      · refine Conn.Sized.of_wire (Conn.Sized.ascRsp ?_ .serverError) rfl rfl
        exact hs.of_wire rfl rfl
      · exact hs.of_wire rfl rfl
      · exact hs.of_wire rfl rfl
  case parse.parse e =>
    unfold coreParse at h
    dsimp only at h
    split_ifs at h
    · obtain ⟨v, hv, rfl⟩ := Option.map_eq_some_iff.1 h
      exact (sized_dispatch hs hv).of_wire rfl rfl
    · obtain rfl := Option.some.inj h
      exact hs.of_wire rfl rfl
    · obtain rfl := Option.some.inj h
      exact hs.of_wire rfl rfl
  case newCmd.newCmd updated =>
    split_ifs
    · have hrelease : (({ w with nreqs := w.nreqs - 1 } : Session).setConn fun c =>
          { c with reqType := .unknown }).releaseItem.conn.Sized := sized_releaseItem
            (hs.of_wire rfl rfl)
      exact hrelease.connShrink.of_wire rfl rfl
    · exact hs.of_wire rfl rfl
    · exact hs
  case nread.nread result updated ch => exact sized_turnNread hs h
  case swallow.swallow result updated => exact sized_turnSwallow hs h
  case write.send res => exact sized_turnWrite hs res
  case mwrite.send res => exact sized_turnWrite hs res
  case close.close =>
    unfold coreClose
    dsimp only
    split_ifs <;> exact (sized_releaseItem hs).of_wire rfl rfl

/-! ### Runs -/

/-- A session with a new connection, whose peer sends `stream`. -/
structure Opened (udp : Bool) (stream : List UInt8) (w : Session) : Prop where
  /-- The connection comes from `conn_get`. -/
  conn : ∃ mem ilist slist iov msg allocs, w.conn = .init udp mem ilist slist iov msg allocs
  /-- Nothing was read yet. -/
  input : w.input = stream
  /-- The first event has not happened yet. -/
  running : w.running = false

variable {udp : Bool} {stream : List UInt8}

theorem Opened.sized (h : w.Opened udp stream) : w.conn.Sized := by
  obtain ⟨mem, ilist, slist, iov, msg, allocs, hconn⟩ := h.conn
  rw [hconn]
  exact Conn.sized_init udp mem ilist slist iov msg allocs

theorem Opened.control (h : w.Opened udp stream) : w.control =
    ⟨udp, if udp then .read else .newCmd, if udp then .read else .newCmd, false, false, 0, 0, [],
        [], stream, []⟩ := by
  obtain ⟨mem, ilist, slist, iov, msg, allocs, hconn⟩ := h.conn
  have hunread : (⟨mem, if udp then udpBufferSize else tcpBufferSize, 0, 0⟩ : Buffer UInt8).unread =
      [] :=
    Buffer.unread_eq_nil rfl
  unfold Session.control
  rw [hconn, h.input, ← hunread]
  rfl

/-- **Rule for what drives a session**: what its turns keep holds at the end of a run. -/
theorem reaches_control {C : Session → SessionLabel → Session → Prop} {I : Control → Prop}
    (h : (session cfg).Reaches C w w') (hs : w.conn.Sized) (h₀ : I w.control)
    (hparse : ∀ c, I c → c.state = .parse → c.noreply = false)
    (hturn : ∀ (v v' : Session) (io : Io), I v.control → C v (.turn io) v' →
      v.control.Turn cfg (io.Faulty ∨ 0 < v.conn.wire.fails)
      (v.conn.wire.fails ≤ v'.conn.wire.fails) v'.control → I v'.control) :
    I w'.control := by
  have hinv : I w'.control ∧ w'.conn.Sized := by
    refine h.invariant (I := fun v => I v.control ∧ v.conn.Sized) ⟨h₀, hs⟩ ?_
    rintro v l r v' ⟨hI, hsized⟩ hst hC
    cases l with
    | event n =>
      obtain ⟨-, heq⟩ := Option.ite_none_left_eq_some.1 hst
      obtain ⟨-, rfl⟩ := Prod.mk.inj (Option.some.inj heq)
      exact ⟨hI, hsized⟩
    | turn io =>
      obtain ⟨-, heq⟩ := Option.ite_none_right_eq_some.1 hst
      obtain ⟨u, hu, heq⟩ := Option.map_eq_some_iff.1 heq
      obtain ⟨-, rfl⟩ := Prod.mk.inj heq
      exact ⟨hturn v u io hI hC (turn_control hsized (hparse _ hI) hu), sized_turn hsized hu⟩
    | world st set =>
      obtain ⟨-, rfl⟩ := Prod.mk.inj (Option.some.inj hst)
      exact ⟨hI, hsized⟩
  exact hinv.1

end Session

end

end Twemcache
