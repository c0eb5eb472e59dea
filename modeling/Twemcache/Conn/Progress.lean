import Twemcache.Conn.Closing
import Twemcache.Conn.Fit

/-!
# Connections go on

If nothing fails, a connection can always go on, until it waits for its peer with nothing left to
read, or is closed: in every state there is something that the environment can answer, and then less
is left to read, to parse or to send.  So it goes through all of its stream, and how the stream
arrives does not matter.

## Main definitions

* `Session.Sound` : what holds of a connection in a run in which no allocation fails.
* `Control.left` : what is left to do.

## Main results

* `Session.Sound.goes_on` : whatever its state, a connection comes on.
* `Session.Opened.goes_through` : a connection can go on until it has gone through its stream.
* `Session.same_requests` : the lines and data blocks of a stream do not depend on its arrival.
-/

namespace Twemcache

/-! ### Data blocks -/

namespace Control

variable {cfg : Config} {c d : Control}

/-- A connection that reads a data block has an item for it. -/
theorem Turn.receiving {faulty handled whole : Prop} (ht : c.Turn cfg faulty handled d)
    (hfair : c.Fair whole) (h : c.state = .nread → c.hasItem = true) :
    d.state = .nread → d.hasItem = true := by
  have hrsp : ∀ b : Control, b.rsp.state ≠ .nread := by
    intro b
    rcases b.rsp_state with hs | ⟨hs, -⟩ <;> rw [hs] <;> exact nofun
  cases ht with
  | idle => exact h
  | move hm =>
    intro hs
    cases hm with
    | written hw =>
      have hgo : c.writeAndGo = .nread := hs
      rcases hfair.writeAndGo hw with hnext | hnext | hnext <;> cases hnext.symm.trans hgo
    | _ => cases hs
  | reset =>
    intro hs
    dsimp only at hs
    split_ifs at hs
  | cleanup =>
    intro hs
    dsimp only at hs
    split_ifs at hs
  | receive _ _ _ hs' =>
    intro hs
    rcases hs' with rfl | ⟨rfl, -⟩ | ⟨-, rfl⟩ <;> cases hs
  | overflow => exact fun hs => absurd hs (hrsp _)
  | line _ _ _ hd =>
    cases hd with
    | answered _ _ _ _ _ _ hs' =>
      intro hs
      rcases hs' with rfl | rfl | ⟨rfl, -⟩ <;> cases hs
    | stored => exact fun _ => rfl
    | unstored => exact fun hs => absurd hs (hrsp _)
    | quit => exact nofun
  | fill hs' => exact fun _ => h hs'
  | complete => exact fun hs => absurd hs (hrsp _)
  | swallow hs' _ _ _ _ hends =>
    intro hs
    rcases hends with ⟨-, rfl | ⟨-, rfl⟩⟩ | ⟨-, -, rfl, -⟩
    · cases hs'.symm.trans hs
    · cases hs
    · cases hs
  | _ => exact nofun

/-- A request leaves what comes from the socket. -/
theorem Handled.input {whole : Prop} {line : List UInt8} (h : Handled cfg c whole line d) :
    d.input = c.input := by
  cases h with
  | answered => rfl
  | stored => rfl
  | @unstored noreply =>
    cases noreply with
    | true => rw [rsp_of_noreply rfl]
    | false => rw [rsp_of_reply rfl]; rfl
  | quit => rfl

end Control

/-! ### Replies -/

namespace Wire

variable {c : Wire}

/-- As many bytes as there are leave no vector. -/
theorem iovlen_consume {iov : ℕ → List UInt8} {n i res : ℕ}
    (h : (vectors iov i n).flatten.length ≤ res) : (consume iov n i res).1.iovlen = 0 := by
  induction n generalizing i res with
  | zero => rfl
  | succ n ih =>
    rw [vectors_cons, List.flatten_cons, List.length_append] at h
    rw [consume, if_pos (by omega : res ≥ (iov i).length)]
    exact ih (by omega)

/-- The messages that are left. -/
def ahead (c : Wire) : ℕ := c.msgUsed - c.advance.msgCurr

/-- The current message is sent as a whole. -/
theorem coreTransmit_ahead (h : c.advance.msgCurr < c.advance.msgUsed) : ∃ n bytes c',
    0 < n ∧ c.coreTransmit (.sent n) = (.incomplete, bytes, c') ∧ c'.ahead < c.ahead ∧
      c'.iovUsed = c.iovUsed := by
  have hused : c.advance.msgUsed = c.msgUsed ∧ c.advance.iovUsed = c.iovUsed := by
    unfold advance
    split_ifs <;> exact ⟨rfl, rfl⟩
  generalize hd : c.advance = d at h hused
  obtain ⟨n, hpos, hall⟩ : ∃ n, 0 < n ∧ (d.entries d.msgCurr).flatten.length ≤ n :=
    ⟨_, lt_max_of_lt_left Nat.one_pos, le_max_right 1 _⟩
  have hnone : ((d.sentBytes n).msg d.msgCurr).iovlen = 0 := by
    change (Function.update d.msg d.msgCurr _ d.msgCurr).iovlen = 0
    rw [Function.update_self]
    exact iovlen_consume hall
  have hnext : (d.sentBytes n).advance.msgCurr = d.msgCurr + 1 := by
    unfold advance
    rw [if_pos ⟨h, hnone⟩]
    rfl
  refine ⟨n, (d.entries d.msgCurr).flatten.take n, d.sentBytes n, hpos, ?_, ?_, hused.2⟩
  · unfold coreTransmit
    dsimp only
    rw [hd, if_pos h, if_pos hpos]
  · unfold ahead
    rw [hnext, hd]
    change d.msgUsed - (d.msgCurr + 1) < c.msgUsed - d.msgCurr
    omega

/-- A buffer that was added is in the array. -/
theorem iovUsed_connAddIov {buf : List UInt8} {c' : Wire} (h : c.connAddIov buf = (.ok, c')) :
    c'.iovUsed ≠ 0 := by
  induction hn : buf.length using Nat.strong_induction_on generalizing c buf with
  | _ n ih =>
    subst hn
    rw [connAddIov] at h
    generalize hpass : c.iovPass connAddMsghdr buf = r at h
    obtain ⟨st, d, rest⟩ := r
    dsimp only at h
    split_ifs at h with hmore
    · obtain ⟨rfl, hrest⟩ := hmore
      have hlt : (c.iovPass connAddMsghdr buf).2.2.length < buf.length :=
        length_iovPass_lt (by rw [hpass]) (by rw [hpass]; exact hrest)
      rw [hpass] at hlt
      exact ih rest.length hlt h rfl
    · obtain ⟨rfl, rfl⟩ := Prod.mk.inj h
      obtain ⟨-, e, -, -, rfl, -⟩ := iovPass_ok hpass
      exact Nat.succ_ne_zero _

end Wire

namespace Session

open Conn

variable {cfg : Config} {stream : List UInt8} {u v w w₀ : Session}

/-! ### Going on -/

/-- A turn in which nothing fails. -/
theorem Fit.reaches (io : Io) (h : w.Fit) (hrun : w.running = true) (hio : ¬ io.Faulty)
    (ht : w.turn cfg io = some v) : (session cfg).Reaches Clean w v := by
  refine Machine.Reaches.tail (l := .turn io) (r := ()) .refl ?_ ⟨hio, h.conn.fails⟩
  change (if w.running then (w.turn cfg io).map fun w => ((), w) else none) = some ((), v)
  rw [if_pos hrun, ht]
  rfl

/-- An event on the socket of a connection that is not at work. -/
theorem Fit.event (cfg : Config) (h : w.Fit) (hs : w.conn.state ≠ .close)
    (hrun : w.running = false) :
    (session cfg).Reaches Clean w { w with running := true, nreqs := 20 } := by
  refine Machine.Reaches.tail (l := .event 20) (r := ()) .refl ?_ trivial
  exact if_neg (not_or.2 ⟨hrun ▸ Bool.false_ne_true, fun hf => hs (h.freed hf).1⟩)

/-- An event on the socket, if the connection is not at work. -/
theorem Fit.wakes (cfg : Config) (h : w.Fit) (hs : w.conn.state ≠ .close) :
    ∃ n, (session cfg).Reaches Clean w { w with running := true, nreqs := n } := by
  cases hrun : w.running with
  | true =>
    refine ⟨w.nreqs, ?_⟩
    rw [← hrun]
    exact .refl
  | false => exact ⟨20, h.event cfg hs hrun⟩

/-- The reply is made a message already, or is the list of a `get`. -/
def Added (c : Conn) : Prop := c.state = .write ∧ c.wire.iovUsed ≠ 0 ∨ c.state = .mwrite

theorem addResponse_of_added (hudp : w.conn.udp = false) (h : Added w.conn) :
    w.addResponse = (.ok, w) := by
  unfold addResponse
  refine if_neg fun ⟨hs, hzero⟩ => ?_
  rcases h with ⟨-, hused⟩ | hm
  · rcases hzero with hzero | ⟨hudp', -⟩
    · exact hused hzero
    · cases hudp.symm.trans hudp'
  · cases hs.symm.trans hm

theorem turnWrite_of_added (hudp : w.conn.udp = false) (h : Added w.conn)
    (res : Wire.SendResult) : w.turnWrite res = w.transmit res := by
  unfold turnWrite
  rw [addResponse_of_added hudp h]
  dsimp only
  rw [if_neg fun hc => by cases hudp.symm.trans hc.1]

/-- A turn in which something is sent. -/
theorem turn_send (cfg : Config) (hs : w.conn.state = .write ∨ w.conn.state = .mwrite)
    (res : Wire.SendResult) :
    w.turn cfg (.send res) = some (w.turnWrite res) := by
  unfold turn
  rcases hs with hs | hs <;> rw [hs]

/-- What is left of a reply is sent. -/
theorem Fit.transmits (cfg : Config) (h : w.Fit) (hudp : w.conn.udp = false)
    (hrun : w.running = true) (hadd : Added w.conn) :
    ∃ n v, 0 < n ∧ (session cfg).Reaches Clean (w.transmit (.sent n)) v ∧ v.input = w.input ∧
      v.conn.rbuf = w.conn.rbuf ∧
      v.conn.state = if w.conn.state = .mwrite then .newCmd else w.conn.writeAndGo := by
  induction hn : w.conn.wire.ahead using Nat.strong_induction_on generalizing w with
  | _ n ih =>
    subst hn
    by_cases hlt : w.conn.wire.advance.msgCurr < w.conn.wire.advance.msgUsed
    · -- the current message goes away, and there is one message less
      obtain ⟨n, bytes, wire, hpos, hsend, hless, hused⟩ := Wire.coreTransmit_ahead hlt
      have hnext : w.transmit (.sent n) = { w with conn := { w.conn with wire := wire } } := by
        unfold transmit
        dsimp only
        rw [hsend]
        rfl
      have hs : w.conn.state = .write ∨ w.conn.state = .mwrite := hadd.imp_left And.left
      have hfit := h.turn hudp hrun (turn_send cfg hs (.sent n))
      rw [turnWrite_of_added hudp hadd] at hfit
      rw [hnext] at hfit
      have hadd' : Added ({ w.conn with wire := wire } : Conn) :=
        hadd.imp_left fun hc => ⟨hc.1, hused ▸ hc.2⟩
      obtain ⟨m, v, hm, hreach, hv⟩ := ih wire.ahead hless hfit hudp hrun hadd' rfl
      refine ⟨n, v, hpos, ?_, hv⟩
      rw [hnext]
      have hturn := turn_send (w := { w with conn := { w.conn with wire := wire } }) cfg
        hs (.sent m)
      rw [turnWrite_of_added (w := { w with conn := { w.conn with wire := wire } }) hudp hadd']
        at hturn
      refine (hfit.reaches _ hrun ?_ hturn).trans hreach
      rintro (hf | hf | hf) <;> cases hf
      exact Nat.lt_irrefl 0 hm
    · -- all messages have been sent
      refine ⟨1, _, Nat.one_pos, .refl, ?_⟩
      have hdone : (w.conn.wire.coreTransmit (.sent 1)).1 = .complete := by
        unfold Wire.coreTransmit
        dsimp only
        rw [if_neg hlt]
      by_cases hm : w.conn.state = .mwrite
      · obtain ⟨u, hlast, hu⟩ : ∃ u, w.transmit (.sent 1) = u ∧ u.input = w.input ∧
            u.conn.rbuf = w.conn.rbuf ∧ u.conn.state = .newCmd := by
          unfold transmit
          dsimp only
          rw [hdone]
          exact ⟨_, if_pos hm, rfl, rfl, rfl⟩
        rw [hlast, if_pos hm]
        exact hu
      · obtain ⟨u, hlast, hu⟩ : ∃ u, w.transmit (.sent 1) = u ∧ u.input = w.input ∧
            u.conn.rbuf = w.conn.rbuf ∧ u.conn.state = w.conn.writeAndGo := by
          unfold transmit
          dsimp only
          rw [hdone]
          exact ⟨_, if_neg hm, rfl, rfl, rfl⟩
        rw [hlast, if_neg hm]
        exact hu

/-- **A reply is sent.** -/
theorem Fit.writes (cfg : Config) (h : w.Fit) (hudp : w.conn.udp = false) (hrun : w.running = true)
    (hs : w.conn.state = .write ∨ w.conn.state = .mwrite) :
    ∃ v, (session cfg).Reaches Clean w v ∧ v.input = w.input ∧ v.conn.rbuf = w.conn.rbuf ∧
      v.conn.state = if w.conn.state = .mwrite then .newCmd else w.conn.writeAndGo := by
  -- the first turn makes a simple response a message
  obtain ⟨u, hu, hfirst⟩ : ∃ u : Session, (u.Fit ∧ u.conn.udp = false ∧ u.running = true ∧
      Added u.conn ∧ u.input = w.input ∧ u.conn.rbuf = w.conn.rbuf ∧
      u.conn.state = w.conn.state ∧ u.conn.writeAndGo = w.conn.writeAndGo) ∧
      ∀ res, w.turnWrite res = u.transmit res := by
    by_cases hadd : Added w.conn
    · exact ⟨w, ⟨h, hudp, hrun, hadd, rfl, rfl, rfl, rfl⟩, turnWrite_of_added hudp hadd⟩
    · obtain ⟨hwrite, hzero⟩ : w.conn.state = .write ∧ w.conn.wire.iovUsed = 0 := by
        refine ⟨hs.resolve_right fun hm => hadd (.inr hm), ?_⟩
        by_contra hused
        exact hadd (.inl ⟨hs.resolve_right fun hm => hadd (.inr hm), hused⟩)
      have htame := addResponse_tame w
      generalize hr : w.conn.wire.connAddIovs [w.conn.wbuf] = r
      obtain ⟨st, wire⟩ := r
      have hresp : w.addResponse = (st, { w with conn := { w.conn with wire := wire } }) := by
        unfold addResponse
        rw [if_pos ⟨hwrite, .inl hzero⟩]
        unfold connAddIovs
        rw [hr]
      rw [hresp] at htame
      obtain rfl : st = .ok := by
        cases st with
        | ok => rfl
        | enomem =>
          have hlt := (Wire.fails_connAddIovs hr).2 rfl
          rw [h.conn.fails] at hlt
          exact absurd hlt (Nat.not_lt_zero _)
      have hused : wire.iovUsed ≠ 0 := by
        rw [Wire.connAddIovs] at hr
        generalize hone : w.conn.wire.connAddIov w.conn.wbuf = r at hr
        obtain ⟨_ | _, d⟩ := r
        · obtain ⟨-, rfl⟩ := Prod.mk.inj hr
          exact Wire.iovUsed_connAddIov hone
        · cases hr
      refine ⟨{ w with conn := { w.conn with wire := wire } },
        ⟨⟨h.conn.tame htame, h.freed⟩, hudp, hrun, .inl ⟨hwrite, hused⟩, rfl, rfl, rfl, rfl⟩,
        fun res => ?_⟩
      unfold turnWrite
      rw [hresp]
      dsimp only
      rw [if_neg fun hc => by cases hudp.symm.trans hc.1]
  obtain ⟨hfit, hudp', hrun', hadd, hinput, hrbuf, hstate, hgo⟩ := hu
  obtain ⟨n, v, hpos, hreach, hvinput, hvrbuf, hvstate⟩ :=
    hfit.transmits cfg hudp' hrun' hadd
  have hturn := turn_send cfg hs (.sent n)
  rw [hfirst] at hturn
  refine ⟨v, (h.reaches _ hrun ?_ hturn).trans hreach, hvinput.trans hinput, hvrbuf.trans hrbuf, ?_⟩
  · rintro (hf | hf | hf) <;> cases hf
    exact Nat.lt_irrefl 0 hpos
  · rw [hvstate, hstate, hgo]

/-! ### Reading -/

/-- The next byte may be read, if there is room for it. -/
theorem admits_byte {x : UInt8} {xs : List UInt8} {size : ℕ} (hinput : w.input = x :: xs)
    (hsize : 0 < size) : w.admits size (.data [x]) = true := by
  refine decide_eq_true ⟨le_rfl, hsize, .inr ?_⟩
  rw [hinput]
  exact ⟨xs, rfl⟩

/-- A byte is taken from the stream. -/
theorem control_consume_byte {x : UInt8} {xs : List UInt8} (hudp : w.conn.udp = false)
    (hinput : w.input = x :: xs) : (w.consume [x]).control = { w.control with input := xs } := by
  unfold consume
  rw [if_neg (hudp ▸ Bool.false_ne_true), hinput]
  rfl

/-- If there is something to read, the loop of `core_read_tcp` reads it. -/
theorem Fits.reads {x : UInt8} {xs : List UInt8} (h : Fits w.conn) (hinput : w.input = x :: xs) :
    ∃ results v, (∀ r ∈ results, r ≠ .eof ∧ r ≠ .error) ∧
      readTcpLoop results 0 .noDataReceived w = some (.dataReceived, v) := by
  rcases h.readRoom 0 with ⟨-, hfour⟩ | ⟨d, n, hroom, hd, -, -, -, hlt, hn⟩
  · cases hfour
  have hadm : ({ w with conn := d } : Session).admits (d.rbuf.size - d.rbytes) (.data [x]) =
      true := admits_byte hinput (Nat.sub_pos_of_lt hlt)
  generalize hu : (({ w with conn := d } : Session).consume [x]).setConn (fun c =>
    { c with rbuf := c.rbuf.receive [x] }) = u
  by_cases hfull : [x].length = d.rbuf.size - d.rbytes
  · -- the buffer is full after the byte, and `read` is called once more
    have hnext := Fits.receive (w := { w with conn := d }) hd hfull.le
    rw [hu] at hnext
    rcases hnext.readRoom n with ⟨-, hfour⟩ | ⟨d', n', hroom', -⟩
    · omega
    refine ⟨[.data [x], .eagain], { u with conn := d' }, by simp, ?_⟩
    unfold readTcpLoop
    rw [hroom]
    dsimp only
    rw [if_pos hadm, if_pos hfull, hu]
    unfold readTcpLoop
    rw [hroom']
    exact (if_pos rfl).trans (if_pos rfl)
  · refine ⟨[.data [x]], u, by simp, ?_⟩
    unfold readTcpLoop
    rw [hroom]
    dsimp only
    rw [if_pos hadm, if_neg hfull, hu]
    exact if_pos rfl

end Session

/-! ### What is left to do -/

/-- How many states of the connection may follow without a byte being read or parsed. -/
def ConnState.rank : ConnState → ℕ
  | .close => 0
  | .read => 1
  | .wait => 2
  | .parse => 3
  | .newCmd => 4
  | .swallow => 5
  | .write | .mwrite => 6
  | .nread => 7

theorem ConnState.rank_le (s : ConnState) : s.rank ≤ 7 := by
  cases s <;> decide

/-- What is left to do: every byte has to be read and parsed. -/
def Control.left (c : Control) : ℕ :=
  10 * (2 * c.input.length + c.unread.length) + c.state.rank

namespace Session

open Conn

variable {cfg : Config} {stream : List UInt8} {u v w w₀ : Session}

/-- What holds of a connection in a run in which no allocation fails. -/
structure Sound (w : Session) : Prop where
  /-- The read buffer. -/
  fit : w.Fit
  /-- It is a TCP connection. -/
  udp : w.conn.udp = false
  /-- The arrays. -/
  sized : w.conn.Sized
  /-- The flag and what follows a reply. -/
  fair : w.control.Fair False
  /-- There is an item for a data block. -/
  receiving : w.conn.state = .nread → w.conn.item.isSome = true

/-- **A connection of which no allocation fails is sound.** -/
theorem Opened.sound (h₀ : w₀.Opened false stream) (hfails : w₀.conn.wire.fails = 0)
    (h : (session cfg).Reaches Machine.Unguarded w₀ w) : w.Sound := by
  have hreceiving : w.control.Fair False ∧
      (w.control.state = .nread → w.control.hasItem = true) := by
    refine (h₀.framed_and
      (I := fun c => c.Fair False ∧ (c.state = .nread → c.hasItem = true)) h ?_
      fun v v' io hframed hI _ ht => ⟨?_, ht.receiving hI.1 hI.2⟩).2
    · rw [h₀.control]
      exact ⟨Control.fair_init False false stream, nofun⟩
    · exact hI.1.turn False.elim (fun _ hudp => by cases hframed.udp.symm.trans hudp) ht
  exact ⟨h₀.fit hfails h, (h₀.framed h).udp, h₀.sized_run h, hreceiving.1, hreceiving.2⟩

/-- The connection comes on. -/
def Goes (cfg : Config) (w : Session) : Prop :=
  ∃ v, (session cfg).Reaches Clean w v ∧ v.control.left < w.control.left

/-- A turn comes on. -/
theorem Sound.goes (io : Io) (h : w.Sound) (hrun : w.running = true) (hio : ¬ io.Faulty)
    (ht : w.turn cfg io = some v) (hleft : v.control.left < w.control.left) : w.Goes cfg :=
  ⟨v, h.fit.reaches io hrun hio ht, hleft⟩

/-- A connection that waits is told when there is something to read. -/
theorem Sound.goes_wait (h : w.Sound) (hrun : w.running = true) (hs : w.conn.state = .wait) :
    w.Goes cfg := by
  refine h.goes (.wait true) hrun (by decide) ?_ ?_ (v := (w.setState .read).stop)
  · unfold turn
    rw [hs]
    rfl
  · have hrank : ConnState.read.rank < w.control.state.rank := by
      rw [show w.control.state = .wait from hs]
      decide
    exact Nat.add_lt_add_left hrank _

/-- What has been sent is read. -/
theorem Sound.goes_read (h : w.Sound) (hrun : w.running = true) (hs : w.conn.state = .read)
    (hinput : w.input ≠ []) : w.Goes cfg := by
  obtain ⟨x, xs, hx⟩ := List.exists_cons_of_ne_nil hinput
  have hfront : Fits (w.setConn fun c =>
      if c.rbuf.curr ≠ 0 then { c with rbuf := c.rbuf.moveToFront } else c).conn := by
    unfold setConn
    dsimp only
    split_ifs
    · exact ⟨h.fit.conn.size, h.fit.conn.bytes, h.fit.conn.fails⟩
    · exact h.fit.conn
  obtain ⟨results, v, hres, hloop⟩ := Fits.reads hfront hx
  have hread : w.coreReadTcp results = some (.dataReceived, v) := hloop
  refine h.goes (.readTcp results) hrun ?_ ?_ ?_ (v := v.setState .parse)
  · rintro (heof | herror)
    · exact (hres _ heof).1 rfl
    · exact (hres _ herror).2 rfl
  · unfold turn
    rw [hs]
    dsimp only
    rw [if_neg (h.udp ▸ Bool.false_ne_true), hread]
    rfl
  · obtain ⟨bytes, rest, b, as, heq, hb, hrec⟩ := coreReadTcp_received h.udp hread
    cases hrec with
    | data hne =>
      have hpos := List.length_pos_iff.2 hne
      have hlen : w.control.input.length = bytes.length + rest.length := by
        rw [show w.control.input = bytes ++ rest from heq, List.length_append]
      have hblen : b.unread.length = w.control.unread.length + bytes.length := by
        rw [hb, List.length_append]
        rfl
      change 10 * (2 * rest.length + b.unread.length) + ConnState.parse.rank < _
      unfold Control.left
      rw [hblen, hlen, show w.control.state = .read from hs]
      change 10 * (2 * rest.length + (w.control.unread.length + bytes.length)) + 3 < _ + 1
      omega

/-! ### Requests -/

/-- With enough fuel every request is handled. -/
theorem dispatch_total (cfg : Config) (hs : w.conn.Sized) (line req : List UInt8) :
    ∃ e v, w.dispatch cfg e line req = some v := by
  obtain ⟨wire, -, hwire⟩ := dispatch_started hs
  generalize hfuel : (words 32 req).tail.length + wire.fails = fuel
  refine ⟨{ fuel := fuel }, ?_⟩
  rw [dispatch_ok hwire]
  generalize hcmd : (ascDispatch cfg w.set _ req w.conn.noreply).1 = cmd
  cases cmd with
  | read returnCas =>
    have hkeys := filled_keys hcmd
    have hne : (words 32 req).tail ≠ [] := by
      have htokens := ntoken_ofReq (fun _ => ⟨none, 0⟩) (rfl : words 32 req = _)
      rw [(ascDispatch_read (type_of_read hcmd)).1] at hcmd
      split_ifs at hcmd with hthree
      rw [htokens] at hthree
      refine List.ne_nil_of_length_pos ?_
      rw [List.length_tail]
      omega
    exact readLoop_total hkeys hne hfuel.le
  | _ => exact ⟨_, rfl⟩

/-- A line is dispatched, and without one the connection waits. -/
theorem Sound.goes_parse (h : w.Sound) (hrun : w.running = true) (hs : w.conn.state = .parse) :
    w.Goes cfg := by
  have hturn : ∀ e, w.turn cfg (.parse e) = w.coreParse cfg e := by
    intro e
    unfold turn
    rw [hs]
  have hstate : w.control.state = .parse := hs
  by_cases hline : 10 ∈ w.conn.rbuf.unread
  · generalize htake : w.conn.rbuf.unread.takeWhile (· ≠ 10) = line
    obtain ⟨e, v, hv⟩ := dispatch_total cfg h.sized line (request line)
    have hparse : w.coreParse cfg e = some (v.setConn fun c =>
        { c with rbuf := c.rbuf.skip (line.length + 1) }) := by
      unfold coreParse
      dsimp only
      rw [if_pos hline, htake, hv]
      rfl
    refine h.goes (.parse e) hrun id ((hturn e).trans hparse) ?_
    have hn : w.conn.noreply = false := by
      refine Bool.eq_false_iff.2 fun hn => ?_
      rcases h.fair.noreply hn with hc | hc <;> cases hstate.symm.trans hc
    have hhandled := dispatch_control h.sized hn hv
    have hunread : v.control.unread = w.control.unread := hhandled.unread
    have hinput : v.control.input = w.control.input := hhandled.input
    have hpos : 0 < w.control.unread.length := List.length_pos_of_mem hline
    have hrank := v.control.state.rank_le
    rw [control_skip]
    change 10 * (2 * v.control.input.length + (v.control.unread.drop (line.length + 1)).length) +
      v.control.state.rank < 10 * (2 * w.control.input.length + w.control.unread.length) +
        w.control.state.rank
    rw [hunread, hinput, hstate, List.length_drop]
    change _ < _ + 3
    omega
  · obtain ⟨s, hparse, hrank⟩ : ∃ s, w.coreParse cfg {} = some (w.setState s) ∧ s.rank < 3 := by
      unfold coreParse
      dsimp only
      rw [if_neg hline]
      split_ifs
      · exact ⟨.close, rfl, by decide⟩
      · exact ⟨.wait, rfl, by decide⟩
    refine h.goes (.parse {}) hrun id ((hturn {}).trans hparse) ?_
    have hlt : s.rank < w.control.state.rank := by
      rw [hstate]
      exact hrank
    exact Nat.add_lt_add_left hlt _

/-- The next command is prepared for, at once or with the next event. -/
theorem Sound.goes_newCmd (h : w.Sound) (hrun : w.running = true) (hs : w.conn.state = .newCmd) :
    w.Goes cfg := by
  have hstate : w.control.state = .newCmd := hs
  have hturn : ∀ u : Session, u.conn.state = .newCmd → u.turn cfg (.newCmd true) =
      some (if u.nreqs - 1 ≥ 0 then ({ u with nreqs := u.nreqs - 1 } : Session).coreResetCmdHandler
        else if u.conn.rbytes > 0 ∧ ¬ true = true then
          (({ u with nreqs := u.nreqs - 1 } : Session).setState .close).stop
        else ({ u with nreqs := u.nreqs - 1 } : Session).stop) := by
    intro u hu
    unfold turn
    rw [hu]
  have hreset : ∀ u : Session, u.Fit → u.running = true → u.conn = w.conn → u.input = w.input →
      1 ≤ u.nreqs → ∃ v, (session cfg).Reaches Clean u v ∧ v.control.left < w.control.left := by
    intro u hfit hurun hconn hinput hn
    refine ⟨({ u with nreqs := u.nreqs - 1 } : Session).coreResetCmdHandler,
      hfit.reaches (.newCmd true) hurun (by decide) ?_, ?_⟩
    · rw [hturn u (hconn ▸ hs), if_pos (by omega)]
    · have hsame : ({ u with nreqs := u.nreqs - 1 } : Session).control = w.control := by
        unfold control
        rw [hconn, hinput]
      rw [control_coreResetCmdHandler, hsame]
      refine Nat.add_lt_add_left ?_ _
      rw [hstate]
      dsimp only
      split_ifs <;> decide
  by_cases hn : 1 ≤ w.nreqs
  · exact hreset w h.fit hrun rfl rfl hn
  · -- the connection yields, and goes on with the next event
    obtain ⟨u, hstop, hconn, hinput, hidle⟩ : ∃ u, w.turn cfg (.newCmd true) = some u ∧
        u.conn = w.conn ∧ u.input = w.input ∧ u.running = false := by
      refine ⟨({ w with nreqs := w.nreqs - 1 } : Session).stop, ?_, rfl, rfl, rfl⟩
      rw [hturn w hs, if_neg (by omega), if_neg fun hc => hc.2 rfl]
    have hopen : u.conn.state ≠ .close := by
      rw [hconn, hs]
      decide
    have hfit := h.fit.turn h.udp hrun hstop
    have hevent := hfit.event cfg hopen hidle
    obtain ⟨v, hreach, hleft⟩ := hreset { u with running := true, nreqs := 20 }
      ⟨hfit.conn, fun hf => absurd (hfit.freed hf).1 hopen⟩ rfl hconn hinput
      (by decide : (1 : ℤ) ≤ 20)
    exact ⟨v, ((h.fit.reaches _ hrun (by decide) hstop).trans hevent).trans hreach, hleft⟩

/-- A reply is sent. -/
theorem Sound.goes_write (h : w.Sound) (hrun : w.running = true)
    (hs : w.conn.state = .write ∨ w.conn.state = .mwrite) : w.Goes cfg := by
  obtain ⟨v, hreach, hinput, hrbuf, hstate⟩ := h.fit.writes cfg h.udp hrun hs
  refine ⟨v, hreach, ?_⟩
  have hunread : v.control.unread = w.control.unread := congrArg Buffer.unread hrbuf
  have hsame : v.control.input = w.control.input := hinput
  unfold Control.left
  rw [hunread, hsame]
  refine Nat.add_lt_add_left ?_ _
  change v.conn.state.rank < w.conn.state.rank
  rw [hstate]
  rcases hs with hs | hs
  · rw [hs, if_neg (by decide)]
    rcases h.fair.writeAndGo hs with hgo | hgo | hgo <;>
      · rw [show w.conn.writeAndGo = _ from hgo]
        decide
  · rw [hs, if_pos rfl]
    decide

/-! ### Data blocks -/

/-- The block is complete. -/
theorem Sound.goes_complete (h : w.Sound) (hrun : w.running = true) (hs : w.conn.state = .nread)
    (hrl : w.conn.rlbytes = 0) : w.Goes cfg := by
  refine h.goes (.nread none true {}) hrun (by decide) ?_ ?_ (v := w.ascCompleteNread cfg {})
  · unfold turn turnNread
    rw [hs]
    exact (if_pos hrl).trans (if_pos rfl)
  · obtain ⟨it, hitem⟩ := Option.isSome_iff_exists.1 (h.receiving hs)
    have hcontrol : (w.ascCompleteNread cfg {}).control =
        { (w.control.record [.block w.conn.rdata]).rsp with hasItem := false, rdata := [] } := by
      unfold ascCompleteNread
      rw [hitem]
      change ({ (((w.conn.record [.block w.conn.rdata]).ascRsp _).control w.input) with
        hasItem := false, rdata := [] } : Control) = _
      rw [Conn.control_ascRsp]
      rfl
    have hrank : (w.control.record [.block w.conn.rdata]).rsp.state.rank <
        w.control.state.rank := by
      rw [show w.control.state = .nread from hs]
      rcases (w.control.record [.block w.conn.rdata]).rsp_state with hrsp | ⟨hrsp, -⟩ <;>
        · rw [hrsp]
          decide
    rw [hcontrol]
    unfold Control.left
    dsimp only
    rw [Control.rsp_unread, Control.rsp_input]
    exact Nat.add_lt_add_left hrank _

/-- What is in the buffer goes to the item first, and then `read` is called if there is more of the
block to come. -/
theorem turnNread_filled (cfg : Config) (hrl : w.conn.rlbytes ≠ 0) : ∃ v n,
    n = min w.control.unread.length w.conn.rlbytes ∧
    v.control = { w.control with
      rlbytes := w.conn.rlbytes - n
      rdata := w.conn.rdata ++ w.conn.rbuf.unread.take n
      unread := w.control.unread.drop n } ∧
    (v.conn.rlbytes = 0 → w.turnNread cfg {} none true = some v) ∧
    (v.conn.rlbytes ≠ 0 → w.turnNread cfg {} (some .eagain) true = some v.stop) ∧
    ∀ x xs, v.conn.rlbytes ≠ 0 → v.input = x :: xs →
      w.turnNread cfg {} (some (.data [x])) true = some ((v.consume [x]).fillItem cfg [x]) := by
  have hlen : w.control.unread.length = w.conn.rbytes := Buffer.length_unread
  generalize hn : min w.conn.rbytes w.conn.rlbytes = n
  generalize hv : ((w.fillItem cfg (w.conn.rbuf.unread.take n)).setConn fun c =>
    { c with rbuf := c.rbuf.skip n }) = v
  have htake : (w.conn.rbuf.unread.take n).length = n := by
    rw [List.length_take, show w.conn.rbuf.unread.length = _ from hlen]
    omega
  have hcontrol : v.control = { w.control with
      rlbytes := w.conn.rlbytes - (w.conn.rbuf.unread.take n).length
      rdata := w.conn.rdata ++ w.conn.rbuf.unread.take n
      unread := w.control.unread.drop n } := by
    rw [← hv, control_skip, control_fillItem]
    rfl
  rw [htake] at hcontrol
  refine ⟨v, n, (hlen ▸ hn).symm, hcontrol, fun hdone => ?_, fun hmore => ?_,
    fun x xs hmore hinput => ?_⟩
  · unfold turnNread
    rw [if_neg hrl]
    dsimp only
    rw [hn, hv, if_pos hdone, if_pos rfl]
  · unfold turnNread
    rw [if_neg hrl]
    dsimp only
    rw [hn, hv, if_neg hmore]
    exact if_pos rfl
  · unfold turnNread
    rw [if_neg hrl]
    dsimp only
    rw [hn, hv, if_neg hmore]
    exact if_pos (admits_byte hinput (Nat.pos_of_ne_zero hmore))

/-- Bytes of the data block are read, or the block is complete. -/
theorem Sound.goes_nread (h : w.Sound) (hrun : w.running = true) (hs : w.conn.state = .nread)
    (hleft : w.conn.rlbytes = 0 ∨ w.conn.rbuf.unread ≠ [] ∨ w.input ≠ []) : w.Goes cfg := by
  by_cases hrl : w.conn.rlbytes = 0
  · exact h.goes_complete hrun hs hrl
  have hturn : ∀ result, w.turn cfg (.nread result true {}) = w.turnNread cfg {} result true := by
    intro result
    unfold turn
    rw [hs]
  obtain ⟨v, n, hn, hcontrol, hlast, hagain, hdata⟩ := turnNread_filled cfg hrl
  have hrlbytes : v.conn.rlbytes = w.conn.rlbytes - n := congrArg Control.rlbytes hcontrol
  have hunread : v.control.unread.length = w.control.unread.length - n := by
    rw [hcontrol, List.length_drop]
  have hinput : v.control.input = w.control.input := by rw [hcontrol]
  have hsame : v.control.state = w.control.state := by rw [hcontrol]
  by_cases hdone : v.conn.rlbytes = 0
  · -- the buffer has what is left of the block
    refine h.goes (.nread none true {}) hrun (by decide) ((hturn none).trans (hlast hdone)) ?_
    unfold Control.left
    rw [hunread, hinput, hsame]
    omega
  · -- there is more of the block to come, and the buffer is empty
    cases hrest : w.input with
    | nil =>
      refine h.goes (.nread (some .eagain) true {}) hrun (by decide)
        ((hturn _).trans (hagain hdone)) ?_
      have hpos : 0 < w.control.unread.length := List.length_pos_iff.2
        ((hleft.resolve_left hrl).resolve_right (not_not.2 hrest))
      rw [control_stop]
      unfold Control.left
      rw [hunread, hinput, hsame]
      omega
    | cons x xs =>
      have hvinput : v.input = x :: xs := hinput.trans hrest
      have hvudp : v.conn.udp = false := (congrArg Control.udp hcontrol).trans h.udp
      refine h.goes (.nread (some (.data [x])) true {}) hrun (by simp [Io.Faulty])
        ((hturn _).trans (hdata x xs hdone hvinput)) ?_
      rw [control_fillItem, control_consume_byte hvudp hvinput]
      unfold Control.left
      dsimp only
      rw [hunread, hsame, show w.control.input = x :: xs from hrest, List.length_cons]
      omega

/-- Bytes are swallowed, or all of them have been. -/
theorem Sound.goes_swallow (h : w.Sound) (hrun : w.running = true)
    (hs : w.conn.state = .swallow)
    (hleft : w.conn.sbytes = 0 ∨ w.conn.rbuf.unread ≠ [] ∨ w.input ≠ []) : w.Goes cfg := by
  have hturn : ∀ result, w.turn cfg (.swallow result true) = w.turnSwallow result true := by
    intro result
    unfold turn
    rw [hs]
  have hstate : w.control.state = .swallow := hs
  have hlen : w.control.unread.length = w.conn.rbytes := Buffer.length_unread
  by_cases hdone : w.conn.sbytes = 0
  · refine h.goes (.swallow none true) hrun (by decide) ((hturn none).trans ?_) ?_
      (v := (w.setConn fun c => { c.record [.skip c.rdata] with rdata := [] }).setState .newCmd)
    · unfold turnSwallow
      rw [if_pos hdone, if_pos rfl]
    · have hrank : ConnState.newCmd.rank < w.control.state.rank := by
        rw [hstate]
        decide
      exact Nat.add_lt_add_left hrank _
  have hpos := Nat.pos_of_ne_zero hdone
  by_cases hbytes : w.conn.rbytes > 0
  · generalize hn : min w.conn.rbytes w.conn.sbytes = n
    refine h.goes (.swallow none true) hrun (by decide) ((hturn none).trans ?_) ?_
      (v := (w.swallowed (w.conn.rbuf.unread.take n)).setConn fun c =>
        { c with rbuf := c.rbuf.skip n })
    · unfold turnSwallow
      rw [if_neg hdone, if_pos hbytes, if_pos rfl]
      dsimp only
      rw [hn]
    · rw [control_skip, control_swallowed]
      unfold Control.left
      dsimp only
      rw [List.length_drop]
      omega
  · have hunread : w.conn.rbuf.unread = [] := by
      refine List.eq_nil_of_length_eq_zero (hlen.trans ?_)
      omega
    obtain ⟨x, xs, hinput⟩ := List.exists_cons_of_ne_nil
      ((hleft.resolve_left hdone).resolve_left (not_not.2 hunread))
    have hsize : 0 < min w.conn.rbuf.size w.conn.sbytes := lt_min h.fit.conn.size hpos
    refine h.goes (.swallow (some (.data [x])) true) hrun (by simp [Io.Faulty])
      ((hturn _).trans ?_) ?_ (v := (w.consume [x]).swallowed [x])
    · unfold turnSwallow
      rw [if_neg hdone, if_neg hbytes]
      exact if_pos (admits_byte hinput hsize)
    · rw [control_swallowed, control_consume_byte h.udp hinput]
      unfold Control.left
      dsimp only
      rw [show w.control.input = x :: xs from hinput, List.length_cons]
      omega

/-! ### Runs -/

/-- **A connection at work comes on**, unless it has gone through its stream or is closed. -/
theorem Sound.goes_on (cfg : Config) (h : w.Sound) (hrun : w.running = true) (hset : ¬ w.Settled)
    (hclose : w.conn.state ≠ .close) : w.Goes cfg := by
  cases hs : w.conn.state with
  | newCmd => exact h.goes_newCmd hrun hs
  | wait => exact h.goes_wait hrun hs
  | read =>
    exact h.goes_read hrun hs fun hinput => hset (.inl ⟨hinput, .inr (.inl hs)⟩)
  | parse => exact h.goes_parse hrun hs
  | nread =>
    refine h.goes_nread hrun hs ?_
    by_contra hnot
    simp only [not_or, not_not] at hnot
    exact hset (.inl ⟨hnot.2.2, .inr (.inr (.inl ⟨hs, hnot.2.1, Nat.pos_of_ne_zero hnot.1⟩))⟩)
  | write => exact h.goes_write hrun (.inl hs)
  | mwrite => exact h.goes_write hrun (.inr hs)
  | swallow =>
    refine h.goes_swallow hrun hs ?_
    by_contra hnot
    simp only [not_or, not_not] at hnot
    exact hset (.inl ⟨hnot.2.2, .inr (.inr (.inr ⟨hs, hnot.2.1, Nat.pos_of_ne_zero hnot.1⟩))⟩)
  | close => exact absurd hs hclose

/-- **A connection can always go on** until it has gone through its stream or is closed, without a
failure, if no allocation is to fail. -/
theorem Opened.goes_through (h₀ : w₀.Opened false stream) (hfails : w₀.conn.wire.fails = 0)
    (h : (session cfg).Reaches Clean w₀ w) :
    ∃ v, (session cfg).Reaches Clean w v ∧ (v.Settled ∨ v.conn.state = .close) := by
  induction hn : w.control.left using Nat.strong_induction_on generalizing w with
  | _ n ih =>
    subst hn
    by_cases hset : w.Settled
    · exact ⟨w, .refl, .inl hset⟩
    by_cases hclose : w.conn.state = .close
    · exact ⟨w, .refl, .inr hclose⟩
    -- with the next event, or at once
    obtain ⟨n, hwake⟩ := (h₀.sound hfails (h.mono fun _ _ _ _ => trivial)).fit.wakes
      cfg hclose
    have hawake := h₀.sound hfails ((h.trans hwake).mono fun _ _ _ _ => trivial)
    obtain ⟨v, hreach, hless⟩ := hawake.goes_on cfg rfl hset hclose
    obtain ⟨u, hreach', hu⟩ := ih v.control.left hless ((h.trans hwake).trans hreach) rfl
    exact ⟨u, (hwake.trans hreach).trans hreach', hu⟩

/-- **The requests and data blocks of a stream do not depend on how it arrives**: at any time one of
two connections has dispatched and taken what the other one has, and perhaps more.  A connection
that waits for its peer, who has sent everything, has dispatched and taken all that is complete in
the stream, and two such connections the same.  If nothing fails and the stream does not end, a
connection is not closed before that, unless its client says `quit`, and it can always go on until
then, for as long as its storage commands find memory as granted. -/
theorem same_requests (cfg : Config) (stream : List UInt8) (w₀ w v₀ v : Session)
    (granted : ℕ → Bool) (hscan : Scans cfg granted stream) (hw₀ : w₀.Opened false stream)
    (hv₀ : v₀.Opened false stream) (hw : (session cfg).Reaches Machine.Unguarded w₀ w)
    (hv : (session cfg).Reaches Machine.Unguarded v₀ v) (hgw : Agrees granted w.conn.log)
    (hgv : Agrees granted v.conn.log) :
    (pieces w.conn.log <+: pieces v.conn.log ∨ pieces v.conn.log <+: pieces w.conn.log) ∧
      (w.Settled → w.Through cfg granted stream) ∧
      (w.Settled → v.Settled → pieces w.conn.log = pieces v.conn.log) ∧
      ((session cfg).Reaches Clean w₀ w → w.conn.state = .close → w.control.Quit) ∧
      (w₀.conn.wire.fails = 0 → (session cfg).Reaches Clean w₀ w →
        ∃ u, (session cfg).Reaches Clean w u ∧ (Agrees granted u.conn.log → u.Settled) ∧
          (u.Settled ∨ u.conn.state = .close)) := by
  have hfw := hw₀.framed hw
  have hfv := hv₀.framed hv
  obtain ⟨mw, rw, hcw⟩ := hfw.cut_some hgw
  obtain ⟨mv, rv, hcv⟩ := hfv.cut_some hgv
  refine ⟨?_, fun hset => hset.stuck hfw hgw, fun hset hset' => ?_, fun hclean hs => ?_,
    fun hfails hclean => ?_⟩
  · rcases hcw.prefix_or hcv with ⟨ts, hts, -⟩ | ⟨ts, hts, -⟩
    · exact .inl ⟨ts, hts.symm⟩
    · exact .inr ⟨ts, hts.symm⟩
  · obtain ⟨m, rest, hc, hstuck⟩ := hset.stuck hfw hgw
    obtain ⟨m', rest', hc', hstuck'⟩ := hset'.stuck hfv hgv
    exact (hc.eq_of_stuck hstuck hc' hstuck').1
  · exact hw₀.closing hscan hclean hgw (.inl hs)
  · obtain ⟨u, hreach, hend⟩ := hw₀.goes_through hfails hclean
    refine ⟨u, hreach, fun hgu => hend.elim id fun hs => .inr ?_, hend⟩
    exact hw₀.closing hscan (hclean.trans hreach) hgu (.inl hs)

/-- The small stream, in one go and in pieces. -/
theorem same_requests_cut :
    pieces (after setAndGet cutRun).conn.log = pieces (after setAndGet wholeRun).conn.log ∧
      (after setAndGet cutRun).Through .tiny (fun _ => true) setAndGet := by
  have hscan : Scans .tiny (fun _ => true) setAndGet := by
    intro ps k rest hcuts
    have hlen : rest.length ≤ setAndGet.length := by
      rw [(cuts_spec hcuts).1, List.length_append]
      exact Nat.le_add_left _ _
    exact .inl (((List.takeWhile_sublist _).length_le.trans hlen).trans (by decide +kernel))
  obtain ⟨-, hthrough, hboth, -⟩ := same_requests .tiny setAndGet (piped setAndGet)
    (after setAndGet cutRun) (piped setAndGet) (after setAndGet wholeRun) (fun _ => true) hscan
    (opened_piped setAndGet) (opened_piped setAndGet) reaches_cutRun reaches_wholeRun
    (agrees_true (by decide +kernel)) (agrees_true (by decide +kernel))
  have hwhole : (after setAndGet wholeRun).Settled :=
    .inl ⟨by decide +kernel, .inl (by decide +kernel)⟩
  have hcut : (after setAndGet cutRun).Settled :=
    .inl ⟨by decide +kernel, .inr (.inl (by decide +kernel))⟩
  exact ⟨hboth hcut hwhole, hthrough hcut⟩

end Session

end Twemcache
