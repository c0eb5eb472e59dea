import Twemcache.Conn.Framing
import Twemcache.Conn.Headers

/-!
# Room to read

A connection can read into its buffer, unless the buffer is full and could not be doubled; and no
allocation can fail that was not to fail from the start.  Here every turn is looked through for what
it does to the read buffer and to the allocations that are to fail.

## Main definitions

* `Conn.Tame` : the read buffer is as large as it was and holds no more, and no more allocations are
  to fail.
* `Session.Fit` : the read buffer can be read into, and no allocation is to fail.

## Main results

* `Session.Fit.turn` : turns keep the buffer fit.
* `Session.Opened.fit` : in every run the buffer is fit, if no allocation was to fail.
-/

namespace Twemcache

/-! ### Buffers and allocations -/

namespace Conn

variable {cfg : Config} {c c' c'' : Conn}

/-- The read buffer is as large as it was and holds no more, and no more allocations are to fail. -/
structure Tame (c c' : Conn) : Prop where
  /-- `rsize`. -/
  size : c'.rbuf.size = c.rbuf.size
  /-- `rbytes`. -/
  bytes : c'.rbuf.bytes ≤ c.rbuf.bytes
  /-- No more allocations are to fail. -/
  fails : c'.wire.fails ≤ c.wire.fails
  /-- The connection is not freed. -/
  freed : c'.freed = c.freed

namespace Tame

theorem refl (c : Conn) : Tame c c := ⟨rfl, le_rfl, le_rfl, rfl⟩

theorem trans (h : Tame c c') (h' : Tame c' c'') : Tame c c'' :=
  ⟨h'.size.trans h.size, h'.bytes.trans h.bytes, h'.fails.trans h.fails, h'.freed.trans h.freed⟩

theorem of_quiet (h : Quiet c c') (hf : c'.wire.fails ≤ c.wire.fails) : Tame c c' :=
  ⟨congrArg Buffer.size h.rbuf, (congrArg Buffer.bytes h.rbuf).le, hf, by rw [h]⟩

end Tame

theorem tame_ascRsp (c : Conn) (r : Rsp) : Tame c (c.ascRsp r) := by
  cases hn : c.noreply with
  | true =>
    rw [ascRsp_of_noreply hn]
    exact ⟨rfl, le_rfl, le_rfl, rfl⟩
  | false =>
    rw [ascRsp_of_reply hn]
    exact ⟨rfl, le_rfl, le_rfl, rfl⟩

theorem tame_alloc (c : Conn) : Tame c c.alloc.2 := by
  obtain ⟨b, as, heq, hcount⟩ := c.alloc_eq
  rw [heq]
  exact ⟨rfl, le_rfl, (Nat.le_add_right _ _).trans hcount, rfl⟩

namespace Tame

theorem shrinkIlist (h : Tame c c') : Tame c c'.shrinkIlist := by
  have halloc := h.trans (tame_alloc c')
  unfold Conn.shrinkIlist
  split_ifs
  · generalize c'.alloc = r at halloc ⊢
    obtain ⟨_ | _, d⟩ := r <;> exact ⟨halloc.size, halloc.bytes, halloc.fails, halloc.freed⟩
  · exact h

theorem shrinkMsg (h : Tame c c') : Tame c c'.shrinkMsg := by
  have halloc := h.trans (tame_alloc c')
  unfold Conn.shrinkMsg
  split_ifs
  · generalize c'.alloc = r at halloc ⊢
    obtain ⟨_ | _, d⟩ := r <;> exact ⟨halloc.size, halloc.bytes, halloc.fails, halloc.freed⟩
  · exact h

theorem shrinkIov (h : Tame c c') : Tame c c'.shrinkIov := by
  have halloc := h.trans (tame_alloc c')
  unfold Conn.shrinkIov
  split_ifs
  · generalize c'.alloc = r at halloc ⊢
    obtain ⟨_ | _, d⟩ := r <;> exact ⟨halloc.size, halloc.bytes, halloc.fails, halloc.freed⟩
  · exact h

end Tame

/-- While a `get` is served, the read buffer is not touched. -/
theorem Replying.tame (h : Replying c c') (hf : c'.wire.fails ≤ c.wire.fails) : Tame c c' := by
  have hsame : c'.rbuf = c.rbuf ∧ c'.freed = c.freed := by
    clear hf
    induction h with
    | refl => exact ⟨rfl, rfl⟩
    | quiet _ hq ih => exact ⟨hq.rbuf.trans ih.1, by rw [hq]; exact ih.2⟩
    | used _ _ ih => exact ih
    | @rsp d _ r ih =>
      cases hn : d.noreply with
      | true =>
        rw [ascRsp_of_noreply hn]
        exact ih
      | false =>
        rw [ascRsp_of_reply hn]
        exact ih
  exact ⟨congrArg Buffer.size hsame.1, (congrArg Buffer.bytes hsame.1).le, hf, hsame.2⟩

end Conn

/-- The loop of `get`. -/
theorem Serving.tame_reaches {cfg : Config} {returnCas : Bool} {x y : Serving}
    (h : (serving cfg returnCas).Reaches Machine.Unguarded x y) :
    x.session.conn.Tame y.session.conn := by
  refine h.invariant (I := fun z => x.session.conn.Tame z.session.conn) (.refl _) ?_
  intro z l r z' hz hst _
  refine hz.trans ?_
  rcases serving_cases hst with ⟨u, -, rfl⟩ | ⟨key, keys, -, -, hcases⟩
  · exact ⟨rfl, le_rfl, le_rfl, rfl⟩
  obtain ⟨b, n, as, heq, hcount⟩ := z.session.conn.growIlist_eq z.iter
  have hgrown : z.session.conn.Tame
      { z.session.conn with isize := n, wire := { z.session.conn.wire with allocs := as } } :=
    ⟨rfl, le_rfl, (Nat.le_add_right _ _).trans hcount, rfl⟩
  rcases hcases with ⟨st, -, rfl⟩ | ⟨it, st, c, -, hgrow, rfl⟩ |
    ⟨it, st, c, c', -, hgrow, hresp, rfl⟩ | ⟨it, st, c, c', -, hgrow, hresp, rfl⟩
  · exact ⟨rfl, le_rfl, le_rfl, rfl⟩
  all_goals
    rw [hgrow] at heq
    obtain ⟨rfl, rfl⟩ := Prod.mk.inj heq
  · exact hgrown
  · -- an error line is queued
    have hrep := Conn.ascRespondGet_replying cfg
      { z.session.conn with isize := n, wire := { z.session.conn.wire with allocs := as } } z.iter
        (st.items it) returnCas
    rw [hresp] at hrep
    have htame := hrep.tame (Conn.fails_ascRespondGet hresp).1
    exact (hgrown.trans htame).trans (Conn.tame_ascRsp _ _)
  · have htame :=
      Conn.Tame.of_quiet (Conn.ascRespondGet_ok hresp) (Conn.fails_ascRespondGet hresp).1
    exact (hgrown.trans htame).trans ⟨rfl, le_rfl, le_rfl, rfl⟩

namespace Session

open Conn

variable {cfg : Config} {w w' v : Session} {returnCas : Bool} {e : Circumstances}
  {line : List UInt8}

theorem finishRead_tame (w : Session) (iter : ℕ) :
    w.conn.Tame (w.finishRead iter).conn := by
  obtain ⟨-, d, hd, hend⟩ := finishRead_quiet (w := w) iter
  have hfails := fails_finishRead w iter
  rcases hend with hend | hend
  · rw [hend] at hfails ⊢
    rw [ascRsp_wire] at hfails
    exact (Tame.of_quiet hd hfails).trans (tame_ascRsp _ _)
  · rw [hend] at hfails ⊢
    exact (Tame.of_quiet hd hfails).trans ⟨rfl, le_rfl, le_rfl, rfl⟩

theorem readLoop_tame {fuel left i : ℕ} {ws : List (List UInt8)} {ts : List Token}
    (hts : Filled left ws ts) (h : readLoop cfg returnCas fuel ts i 0 w = some w') :
    w.conn.Tame w'.conn := by
  obtain ⟨x, hreach, hends⟩ := readLoop_serving hts h
  have htame : w.conn.Tame x.session.conn := Serving.tame_reaches hreach
  rcases hends with ⟨-, rfl⟩ | ⟨key, keys, -, -, rfl⟩
  · exact htame.trans (finishRead_tame _ _)
  · exact htame.trans (tame_ascRsp _ _)

theorem allocItem_tame (ch : Choice) (key : Key) (dataflags exptime vlen : ℕ)
    (casId : Option ℕ) :
    w.conn.Tame (w.allocItem cfg ch key dataflags exptime vlen casId).conn := by
  unfold allocItem
  generalize w.store.itemAlloc cfg ch _ key dataflags exptime vlen = r
  obtain ⟨_ | it, st⟩ := r
  · have hrsp := tame_ascRsp (w.conn.record [.alloc false]) .serverError
    exact ⟨hrsp.size, hrsp.bytes, hrsp.fails, hrsp.freed⟩
  · exact ⟨rfl, le_rfl, le_rfl, rfl⟩

/-- The handlers, from where they act. -/
theorem execute_tame {cmd : Command} {left : ℕ} {ws : List (List UInt8)} {ts : List Token}
    (hts : ∀ returnCas, cmd = .read returnCas → Filled left ws (ts.drop tokenKey))
    (h : w.execute cfg e ts cmd = some w') : w.conn.Tame w'.conn := by
  have hsome : ∀ {v : Session}, w.conn.Tame v.conn → some v = some w' → w.conn.Tame w'.conn := by
    intro v hv heq
    exact Option.some.inj heq ▸ hv
  cases cmd with
  | respond r => exact hsome (tame_ascRsp _ _) h
  | read returnCas => exact readLoop_tame (hts _ rfl) h
  | update type key dataflags exptime vlen casId => exact hsome (allocItem_tame _ _ _ _ _ _) h
  | annex type key vlen => exact hsome (allocItem_tame _ _ _ _ _ _) h
  | delta incr key delta => exact hsome (tame_ascRsp _ _) h
  | delete key => exact hsome (tame_ascRsp _ _) h
  | stats sub =>
    refine hsome ?_ h
    change w.conn.Tame (w.conn.coreWriteAndFree e.stats)
    unfold coreWriteAndFree
    cases e.stats with
    | none => exact tame_ascRsp _ _
    | some buf => exact ⟨rfl, le_rfl, le_rfl, rfl⟩
  | flush exptime => exact hsome (tame_ascRsp _ _) h
  | configure s =>
    refine hsome ?_ h
    change w.conn.Tame ((w.applySetting e.reallocOk s).2.conn.ascRsp _)
    rw [applySetting_conn]
    exact tame_ascRsp _ _
  | quit => exact hsome (v := w.setState .close) ⟨rfl, le_rfl, le_rfl, rfl⟩ h

/-- `asc_dispatch`. -/
theorem dispatch_tame (h : w.dispatch cfg e line (request line) = some w') :
    w.conn.Tame w'.conn := by
  unfold dispatch at h
  dsimp only at h
  generalize hadd : Wire.connAddMsghdr _ = r at h
  obtain ⟨st, wire⟩ := r
  have hwire : wire.fails ≤ w.conn.wire.fails := by
    cases st with
    | ok => exact ((Wire.connAddMsghdr_ample hadd).1 rfl).2
    | enomem => exact ((Wire.connAddMsghdr_ample hadd).2 rfl).2.le
  cases st with
  | ok =>
    dsimp only at h
    generalize hd : ascDispatch cfg w.set e.stack (request line) w.conn.noreply = r at h
    obtain ⟨cmd, a⟩ := r
    have hcmd : (ascDispatch cfg w.set e.stack (request line) w.conn.noreply).1 = cmd :=
      congrArg Prod.fst hd
    dsimp only at h
    generalize hv : w.setConn _ = v at h
    have hstart : w.conn.Tame v.conn := by
      rw [← hv]
      exact ⟨rfl, le_rfl, hwire, rfl⟩
    exact hstart.trans (execute_tame (fun returnCas hread => filled_keys (hcmd.trans hread)) h)
  | enomem =>
    obtain rfl := Option.some.inj h
    have hstart : w.conn.Tame (({ w.conn with wire := wire } : Conn).record
        [.line line w.conn.noreply]) := ⟨rfl, le_rfl, hwire, rfl⟩
    exact hstart.trans (tame_ascRsp _ _)

/-- The state `CONN_PARSE`. -/
theorem coreParse_tame (h : w.coreParse cfg e = some w') : w.conn.Tame w'.conn := by
  unfold coreParse at h
  dsimp only at h
  split_ifs at h
  · obtain ⟨v, hv, rfl⟩ := Option.map_eq_some_iff.1 h
    exact (dispatch_tame hv).trans ⟨rfl, Nat.sub_le _ _, le_rfl, rfl⟩
  · obtain rfl := Option.some.inj h
    exact ⟨rfl, le_rfl, le_rfl, rfl⟩
  · obtain rfl := Option.some.inj h
    exact ⟨rfl, le_rfl, le_rfl, rfl⟩

/-! ### The other turns -/

theorem readFailed_tame (w : Session) (updated : Bool) (r : ReadResult) :
    w.conn.Tame (w.readFailed updated r).conn := by
  unfold readFailed
  cases r with
  | eagain =>
    dsimp only
    split_ifs <;> exact ⟨rfl, le_rfl, le_rfl, rfl⟩
  | _ => exact ⟨rfl, le_rfl, le_rfl, rfl⟩

theorem ascCompleteNread_tame (w : Session) (ch : Choice) :
    w.conn.Tame (w.ascCompleteNread cfg ch).conn := by
  unfold ascCompleteNread
  cases w.conn.item with
  | none => exact .refl _
  | some it =>
    have hblock : w.conn.Tame (w.conn.record [.block w.conn.rdata]) := ⟨rfl, le_rfl, le_rfl, rfl⟩
    have hrec : ∀ r, w.conn.Tame ((w.conn.record [.block w.conn.rdata]).ascRsp r) := fun r =>
      hblock.trans (tame_ascRsp _ r)
    exact (hrec _).trans ⟨rfl, le_rfl, le_rfl, rfl⟩

/-- The state `CONN_NREAD`. -/
theorem turnNread_tame {ch : Choice} {result : Option ReadResult} {updated : Bool}
    (h : w.turnNread cfg ch result updated = some w') : w.conn.Tame w'.conn := by
  unfold turnNread at h
  by_cases hrl : w.conn.rlbytes = 0
  · rw [if_pos hrl] at h
    obtain ⟨-, heq⟩ := Option.ite_none_right_eq_some.1 h
    rw [← Option.some.inj heq]
    exact ascCompleteNread_tame w ch
  rw [if_neg hrl] at h
  dsimp only at h
  generalize hv : ((w.fillItem cfg (w.conn.rbuf.unread.take _)).setConn fun c =>
    { c with rbuf := c.rbuf.skip _ }) = v at h
  have htame : w.conn.Tame v.conn := by
    rw [← hv]
    exact ⟨rfl, Nat.sub_le _ _, le_rfl, rfl⟩
  by_cases hdone : v.conn.rlbytes = 0
  · rw [if_pos hdone] at h
    obtain ⟨-, heq⟩ := Option.ite_none_right_eq_some.1 h
    rwa [← Option.some.inj heq]
  rw [if_neg hdone] at h
  cases result with
  | none => cases h
  | some r =>
    dsimp only at h
    obtain ⟨-, heq⟩ := Option.ite_none_right_eq_some.1 h
    refine htame.trans ?_
    cases r with
    | data bytes =>
      rw [← Option.some.inj heq]
      have hconn := (consume_conn v bytes).1
      change v.conn.Tame { (v.consume bytes).conn with ritem := _, rlbytes := _, rdata := _ }
      rw [hconn]
      exact ⟨rfl, le_rfl, le_rfl, rfl⟩
    | _ =>
      rw [← Option.some.inj heq]
      exact readFailed_tame v updated _

theorem turnSwallow_tame {result : Option ReadResult} {updated : Bool}
    (h : w.turnSwallow result updated = some w') : w.conn.Tame w'.conn := by
  unfold turnSwallow at h
  by_cases hs : w.conn.sbytes = 0
  · rw [if_pos hs] at h
    obtain ⟨-, heq⟩ := Option.ite_none_right_eq_some.1 h
    rw [← Option.some.inj heq]
    exact ⟨rfl, le_rfl, le_rfl, rfl⟩
  rw [if_neg hs] at h
  by_cases hbytes : w.conn.rbytes > 0
  · rw [if_pos hbytes] at h
    obtain ⟨-, heq⟩ := Option.ite_none_right_eq_some.1 h
    rw [← Option.some.inj heq]
    exact ⟨rfl, Nat.sub_le _ _, le_rfl, rfl⟩
  rw [if_neg hbytes] at h
  cases result with
  | none => cases h
  | some r =>
    dsimp only at h
    obtain ⟨-, heq⟩ := Option.ite_none_right_eq_some.1 h
    cases r with
    | data bytes =>
      rw [← Option.some.inj heq]
      have hconn := (consume_conn w bytes).1
      change w.conn.Tame { (w.consume bytes).conn with sbytes := _, rdata := _ }
      rw [hconn]
      exact ⟨rfl, le_rfl, le_rfl, rfl⟩
    | _ =>
      rw [← Option.some.inj heq]
      exact readFailed_tame w updated _

theorem transmit_tame (w : Session) (res : Wire.SendResult) :
    w.conn.Tame (w.transmit res).conn := by
  have hallocs : (w.conn.wire.coreTransmit res).2.2.allocs = w.conn.wire.allocs := by
    unfold Wire.coreTransmit
    have hadvance : w.conn.wire.advance.allocs = w.conn.wire.allocs := by
      unfold Wire.advance
      split_ifs <;> rfl
    dsimp only
    split_ifs
    · cases res with
      | sent n =>
        dsimp only
        split_ifs <;> exact hadvance
      | eagain updated => cases updated <;> exact hadvance
      | error => exact hadvance
    · exact hadvance
  have hfails : (w.conn.wire.coreTransmit res).2.2.fails ≤ w.conn.wire.fails :=
    (congrArg (List.count false) hallocs).le
  unfold transmit
  dsimp only
  cases (w.conn.wire.coreTransmit res).1 with
  | complete =>
    dsimp only
    split_ifs <;> exact ⟨rfl, le_rfl, hfails, rfl⟩
  | incomplete => exact ⟨rfl, le_rfl, hfails, rfl⟩
  | softError => exact ⟨rfl, le_rfl, hfails, rfl⟩
  | hardError => cases res <;> exact ⟨rfl, le_rfl, hfails, rfl⟩

theorem addResponse_tame (w : Session) : w.conn.Tame w.addResponse.2.conn := by
  unfold addResponse
  split_ifs
  · exact ⟨rfl, le_rfl, (Wire.fails_connAddIovs (Prod.ext rfl rfl)).1, rfl⟩
  · exact .refl _

/-- The states `CONN_WRITE` and `CONN_MWRITE`. -/
theorem turnWrite_tame (hudp : w.conn.udp = false) (res : Wire.SendResult) :
    w.conn.Tame (w.turnWrite res).conn := by
  have hadd := addResponse_tame w
  obtain ⟨wire, hv⟩ := addResponse_eq w
  unfold turnWrite
  generalize w.addResponse = r at hadd hv
  obtain ⟨_ | _, v⟩ := r
  · obtain rfl : v = { w with conn := { w.conn with wire := wire } } := hv
    dsimp only at hadd ⊢
    rw [if_neg (fun h => by cases hudp.symm.trans h.1)]
    exact hadd.trans (transmit_tame { w with conn := { w.conn with wire := wire } } res)
  · exact hadd.trans ⟨rfl, le_rfl, le_rfl, rfl⟩

/-! ### Room in the read buffer -/

/-- There is room in the read buffer or none of it is used, and no allocation is to fail. -/
structure Fits (c : Conn) : Prop where
  /-- The buffer is not empty. -/
  size : 0 < c.rbuf.size
  /-- The bytes are in the buffer. -/
  bytes : c.rbuf.bytes ≤ c.rbuf.size
  /-- No allocation is to fail. -/
  fails : c.wire.fails = 0

theorem Fits.tame {c c' : Conn} (h : Fits c) (ht : c.Tame c') : Fits c' :=
  ⟨ht.size ▸ h.size, ht.size ▸ ht.bytes.trans h.bytes, Nat.le_zero.1 (ht.fails.trans h.fails.le)⟩

/-- The loop of `core_read_tcp` has room to read into, or stops. -/
theorem Fits.readRoom {c : Conn} (h : Fits c) (numAllocs : ℕ) :
    readRoom c numAllocs = .stop ∧ numAllocs = 4 ∨
      ∃ d n, readRoom c numAllocs = .ok d n ∧ Fits d ∧ d.freed = c.freed ∧ d.udp = c.udp ∧
        d.rbuf.bytes = c.rbuf.bytes ∧ d.rbuf.bytes < d.rbuf.size ∧ n ≤ numAllocs + 1 := by
  have hsize := h.size
  have hbytes := h.bytes
  unfold Session.readRoom
  split_ifs with hfull hallocs
  · exact .inl ⟨rfl, hallocs⟩
  · right
    obtain ⟨b, as, halloc, hcount⟩ := c.alloc_eq
    rw [h.fails, Nat.le_zero, Nat.add_eq_zero_iff] at hcount
    rw [halloc]
    have hfull' : c.rbuf.size ≤ c.rbuf.bytes := hfull
    cases b with
    | false => cases hcount.2
    | true =>
      refine ⟨_, _, rfl, ⟨?_, ?_, hcount.1⟩, rfl, rfl, rfl, ?_, le_rfl⟩
      · change 0 < c.rbuf.size * 2
        omega
      · change c.rbuf.bytes ≤ c.rbuf.size * 2
        omega
      · change c.rbuf.bytes < c.rbuf.size * 2
        omega
  · exact .inr ⟨c, numAllocs, rfl, h, rfl, rfl, rfl, Nat.lt_of_not_le hfull, Nat.le_succ _⟩

/-- What is read goes to the room that there is. -/
theorem Fits.receive {w : Session} {bytes : List UInt8} (h : Fits w.conn)
    (hlen : bytes.length ≤ w.conn.rbuf.size - w.conn.rbuf.bytes) :
    Fits ((w.consume bytes).setConn fun c => { c with rbuf := c.rbuf.receive bytes }).conn := by
  have hconn := (consume_conn w bytes).1
  change Fits { (w.consume bytes).conn with rbuf := (w.consume bytes).conn.rbuf.receive bytes }
  rw [hconn]
  refine ⟨h.size, ?_, h.fails⟩
  change w.conn.rbuf.bytes + bytes.length ≤ w.conn.rbuf.size
  have := h.bytes
  omega

theorem freed_receive (w : Session) (bytes : List UInt8) :
    ((w.consume bytes).setConn fun c => { c with rbuf := c.rbuf.receive bytes }).conn.freed =
      w.conn.freed := by
  change (w.consume bytes).conn.freed = w.conn.freed
  rw [(consume_conn w bytes).1]

/-- The loop of `core_read_tcp`. -/
theorem readTcpLoop_fits {results : List ReadResult} {numAllocs : ℕ} {got r : ReadOutcome}
    (h : Fits w.conn) (hloop : readTcpLoop results numAllocs got w = some (r, v)) :
    Fits v.conn ∧ v.conn.freed = w.conn.freed := by
  induction results generalizing numAllocs got w with
  | nil =>
    unfold readTcpLoop at hloop
    rcases h.readRoom numAllocs with ⟨hroom, -⟩ | ⟨d, n, hroom, -⟩
    · rw [hroom] at hloop
      obtain ⟨-, rfl⟩ := Prod.mk.inj (Option.some.inj hloop)
      exact ⟨h, rfl⟩
    · rw [hroom] at hloop
      cases hloop
  | cons res results ih =>
    unfold readTcpLoop at hloop
    rcases h.readRoom numAllocs with ⟨hroom, -⟩ | ⟨d, n, hroom, hd, hfreed, -⟩
    · rw [hroom] at hloop
      cases hloop
    rw [hroom] at hloop
    dsimp only at hloop
    obtain ⟨hadm, hloop⟩ := Option.ite_none_right_eq_some.1 hloop
    cases res with
    | data bytes =>
      have hlen : bytes.length ≤ d.rbuf.size - d.rbuf.bytes := by
        simp only [admits, decide_eq_true_eq] at hadm
        exact hadm.2.1
      have hfits := Fits.receive (w := { w with conn := d }) hd hlen
      have hsame := (freed_receive { w with conn := d } bytes).trans hfreed
      dsimp only at hloop
      split_ifs at hloop
      · obtain ⟨hv, hvfreed⟩ := ih hfits hloop
        exact ⟨hv, hvfreed.trans hsame⟩
      · obtain ⟨-, rfl⟩ := Prod.mk.inj (Option.some.inj hloop)
        exact ⟨hfits, hsame⟩
    | _ =>
      obtain ⟨-, heq⟩ := Option.ite_none_right_eq_some.1 hloop
      obtain ⟨-, rfl⟩ := Prod.mk.inj (Option.some.inj heq)
      exact ⟨⟨hd.size, hd.bytes, hd.fails⟩, hfreed⟩

/-- The state `CONN_READ`. -/
theorem coreReadTcp_fits {results : List ReadResult} (h : Fits w.conn)
    (hread : (w.coreReadTcp results).map coreRead = some w') :
    Fits w'.conn ∧ w'.conn.freed = w.conn.freed := by
  obtain ⟨⟨r, v⟩, hloop, rfl⟩ := Option.map_eq_some_iff.1 hread
  have hfront : Fits (if w.conn.rbuf.curr ≠ 0 then { w.conn with rbuf := w.conn.rbuf.moveToFront }
      else w.conn) ∧ (if w.conn.rbuf.curr ≠ 0 then { w.conn with rbuf := w.conn.rbuf.moveToFront }
      else w.conn).freed = w.conn.freed := by
    split_ifs
    · exact ⟨⟨h.size, h.bytes, h.fails⟩, rfl⟩
    · exact ⟨h, rfl⟩
  obtain ⟨hv, hfreed⟩ := readTcpLoop_fits hfront.1 hloop
  have hsame := hfreed.trans hfront.2
  cases r with
  | memoryError => exact ⟨hv, hsame⟩
  | _ => exact ⟨⟨hv.size, hv.bytes, hv.fails⟩, hsame⟩

/-- The read buffer is made smaller only when its bytes have room in the smaller one. -/
theorem Fits.shrinkRbuf {c : Conn} (h : Fits c) :
    Fits c.shrinkRbuf ∧ c.shrinkRbuf.freed = c.freed := by
  unfold Conn.shrinkRbuf
  dsimp only
  split_ifs with hsize hcurr
  · generalize hd : ({ c with rbuf := c.rbuf.moveToFront } : Conn) = d
    obtain ⟨hfits, hfreed, hbytes⟩ : Fits d ∧ d.freed = c.freed ∧ d.rbuf.bytes = c.rbuf.bytes := by
      rw [← hd]
      exact ⟨⟨h.size, h.bytes, h.fails⟩, rfl, rfl⟩
    obtain ⟨b, as, heq, hcount⟩ := d.alloc_eq
    rw [hfits.fails, Nat.le_zero, Nat.add_eq_zero_iff] at hcount
    rw [heq]
    cases b with
    | false => cases hcount.2
    | true =>
      refine ⟨⟨(by decide : 0 < tcpBufferSize), ?_, hcount.1⟩, hfreed⟩
      exact (hbytes.trans_lt hsize.2).le
  · obtain ⟨b, as, heq, hcount⟩ := c.alloc_eq
    rw [h.fails, Nat.le_zero, Nat.add_eq_zero_iff] at hcount
    rw [heq]
    cases b with
    | false => cases hcount.2
    | true => exact ⟨⟨(by decide : 0 < tcpBufferSize), hsize.2.le, hcount.1⟩, rfl⟩
  · exact ⟨h, rfl⟩

/-- `conn_shrink`. -/
theorem Fits.connShrink {c : Conn} (h : Fits c) :
    Fits c.connShrink ∧ c.connShrink.freed = c.freed := by
  -- the other arrays do not matter
  have htame : c.shrinkRbuf.Tame c.shrinkRbuf.shrinkIlist.shrinkMsg.shrinkIov :=
    (Tame.refl _).shrinkIlist.shrinkMsg.shrinkIov
  unfold Conn.connShrink
  split_ifs
  · exact ⟨h, rfl⟩
  · exact ⟨h.shrinkRbuf.1.tame htame, htame.freed.trans h.shrinkRbuf.2⟩

/-- The read buffer can be read into, no allocation is to fail, and the connection is freed only
when it has been closed. -/
structure Fit (w : Session) : Prop where
  /-- The read buffer. -/
  conn : Fits w.conn
  /-- The connection. -/
  freed : w.conn.freed = true → w.conn.state = .close ∧ w.running = false

/-- **Turns keep the buffer fit.** -/
theorem Fit.turn {io : Io} (h : w.Fit) (hudp : w.conn.udp = false) (hrun : w.running = true)
    (ht : w.turn cfg io = some w') : w'.Fit := by
  have hfreed : w.conn.freed = false := by
    refine Bool.eq_false_iff.2 fun hf => ?_
    cases hrun.symm.trans (h.freed hf).2
  have hsame : Fits w'.conn ∧ w'.conn.freed = w.conn.freed → w'.Fit := fun hw =>
    ⟨hw.1, fun hf => by cases (hw.2.trans hfreed).symm.trans hf⟩
  have htame : w.conn.Tame w'.conn → w'.Fit := fun hw => hsame ⟨h.conn.tame hw, hw.freed⟩
  unfold Session.turn at ht
  cases hstate : w.conn.state <;> rw [hstate] at ht <;> cases io <;> dsimp only at ht <;>
    try cases ht
  case wait.wait updated =>
    refine htame ?_
    split_ifs <;> exact ⟨rfl, le_rfl, le_rfl, rfl⟩
  case read.readTcp results =>
    rw [if_neg (hudp ▸ Bool.false_ne_true)] at ht
    exact hsame (coreReadTcp_fits h.conn ht)
  case read.readUdp datagram =>
    rw [if_neg (hudp ▸ Bool.false_ne_true)] at ht
    cases ht
  case parse.parse e => exact htame (coreParse_tame ht)
  case newCmd.newCmd updated =>
    split_ifs at hsame htame ⊢
    · refine hsame ?_
      have hrelease : ∀ v : Session, Fits v.conn → Fits v.releaseItem.conn ∧
          v.releaseItem.conn.freed = v.conn.freed := by
        intro v hv
        unfold releaseItem
        cases v.conn.item with
        | none => exact ⟨hv, rfl⟩
        | some it => exact ⟨⟨hv.size, hv.bytes, hv.fails⟩, rfl⟩
      have hreset := hrelease (({ w with nreqs := w.nreqs - 1 } : Session).setConn fun c =>
        { c with reqType := .unknown }) ⟨h.conn.size, h.conn.bytes, h.conn.fails⟩
      have hshrink := hreset.1.connShrink
      exact ⟨⟨hshrink.1.size, hshrink.1.bytes, hshrink.1.fails⟩, hshrink.2.trans hreset.2⟩
    · exact htame ⟨rfl, le_rfl, le_rfl, rfl⟩
    · exact htame ⟨rfl, le_rfl, le_rfl, rfl⟩
  case nread.nread result updated ch => exact htame (turnNread_tame ht)
  case swallow.swallow result updated => exact htame (turnSwallow_tame ht)
  case write.send res => exact htame (turnWrite_tame hudp res)
  case mwrite.send res => exact htame (turnWrite_tame hudp res)
  -- `core_close` leaves the read buffer as it is and frees the connection
  case close.close =>
    have hrelease : w.releaseItem.conn.rbuf = w.conn.rbuf ∧
        w.releaseItem.conn.wire = w.conn.wire ∧ w.releaseItem.conn.udp = w.conn.udp ∧
        w.releaseItem.conn.state = w.conn.state := by
      unfold releaseItem
      cases w.conn.item <;> exact ⟨rfl, rfl, rfl, rfl⟩
    obtain ⟨hrbuf, hwire, hudp', hst⟩ := hrelease
    unfold coreClose
    dsimp only
    have hnot : (w.releaseItem.releaseItems.setConn Conn.releaseSuffixes).stop.conn.udp = false :=
      hudp'.trans hudp
    rw [if_neg (hnot ▸ Bool.false_ne_true)]
    refine ⟨⟨?_, ?_, ?_⟩, fun _ => ⟨hst.trans hstate, rfl⟩⟩
    · exact (congrArg Buffer.size hrbuf).symm ▸ h.conn.size
    · change w.releaseItem.conn.rbuf.bytes ≤ w.releaseItem.conn.rbuf.size
      rw [hrbuf]
      exact h.conn.bytes
    · exact (congrArg Wire.fails hwire).trans h.conn.fails

/-- In every run of a TCP connection the buffer is fit, if no allocation was to fail. -/
theorem Opened.fit {stream : List UInt8} {w₀ : Session} (h₀ : w₀.Opened false stream)
    (hfails : w₀.conn.wire.fails = 0) (h : (session cfg).Reaches Machine.Unguarded w₀ w) :
    w.Fit := by
  refine (h.invariant (I := fun v => (session cfg).Reaches Machine.Unguarded w₀ v ∧ v.Fit)
    ⟨.refl, ?_⟩ ?_).2
  · obtain ⟨mem, ilist, slist, iov, msg, allocs, hconn⟩ := h₀.conn
    rw [hconn] at hfails
    refine ⟨?_, fun hf => ?_⟩
    · rw [hconn]
      exact ⟨(by decide : 0 < tcpBufferSize), Nat.zero_le _, hfails⟩
    · rw [hconn] at hf
      cases hf
  · rintro v l r v' ⟨hv, hfit⟩ hst -
    refine ⟨hv.tail hst trivial, ?_⟩
    cases l with
    | event n =>
      obtain ⟨hno, heq⟩ := Option.ite_none_left_eq_some.1 hst
      obtain ⟨-, rfl⟩ := Prod.mk.inj (Option.some.inj heq)
      exact ⟨hfit.conn, fun hf => absurd (.inr hf) hno⟩
    | turn io =>
      obtain ⟨hrun, heq⟩ := Option.ite_none_right_eq_some.1 hst
      obtain ⟨u, hu, heq⟩ := Option.map_eq_some_iff.1 heq
      obtain ⟨-, rfl⟩ := Prod.mk.inj heq
      exact hfit.turn (h₀.framed hv).udp hrun hu
    | world st set =>
      obtain ⟨-, rfl⟩ := Prod.mk.inj (Option.some.inj hst)
      exact ⟨hfit.conn, hfit.freed⟩

end Session

end Twemcache
