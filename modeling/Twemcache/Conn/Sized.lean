import Twemcache.Conn.Answer

/-!
# The arrays of a connection

The arrays for messages and vectors grow, and `conn_shrink` brings them back to their first size; so
there is always room for the start of a reply, and `asc_dispatch` can always start one.

## Main definitions

* `Wire.Wider` : the arrays have not become smaller.

## Main results

* `Session.sized_turn` : every turn leaves room for the start of a reply.
* `Session.dispatch_started` : no request is refused because there is no room for the reply.
-/

namespace Twemcache

namespace Wire

/-- The arrays have not become smaller. -/
structure Wider (c c' : Wire) : Prop where
  /-- It is still a UDP connection, or still not. -/
  udp : c'.udp = c.udp
  /-- The array of messages. -/
  msgSize : c.msgSize ≤ c'.msgSize
  /-- The array of vectors. -/
  iovSize : c.iovSize ≤ c'.iovSize

variable {c c' c'' : Wire} {st : Rstatus} {buf rest : List UInt8} {bufs : List (List UInt8)}

theorem Wider.refl (c : Wire) : c.Wider c := ⟨rfl, le_rfl, le_rfl⟩

theorem Wider.trans (h : c.Wider c') (h' : c'.Wider c'') : c.Wider c'' :=
  ⟨h'.udp.trans h.udp, h.msgSize.trans h'.msgSize, h.iovSize.trans h'.iovSize⟩

theorem wider_connEnsureIovSpace (h : c.connEnsureIovSpace = (st, c')) : c.Wider c' := by
  obtain ⟨b, as, hrealloc, -⟩ := realloc_eq c
  unfold connEnsureIovSpace at h
  split_ifs at h
  · rw [hrealloc] at h
    cases b with
    | false =>
      obtain ⟨-, rfl⟩ := Prod.mk.inj h
      exact ⟨rfl, le_rfl, le_rfl⟩
    | true =>
      obtain ⟨-, rfl⟩ := Prod.mk.inj h
      exact ⟨rfl, le_rfl, Nat.le_mul_of_pos_right _ (by decide)⟩
  · obtain ⟨-, rfl⟩ := Prod.mk.inj h
    exact .refl c

theorem wider_newMsghdr (h : c.newMsghdr = (st, c')) : c.Wider c' := by
  obtain ⟨b, as, hrealloc, -⟩ := realloc_eq c
  unfold newMsghdr at h
  split_ifs at h
  · rw [hrealloc] at h
    cases b with
    | false =>
      obtain ⟨-, rfl⟩ := Prod.mk.inj h
      exact ⟨rfl, le_rfl, le_rfl⟩
    | true =>
      obtain ⟨-, rfl⟩ := Prod.mk.inj h
      exact ⟨rfl, Nat.le_mul_of_pos_right _ (by decide), le_rfl⟩
  · obtain ⟨-, rfl⟩ := Prod.mk.inj h
    exact ⟨rfl, le_rfl, le_rfl⟩

/-- One pass through the loop of `conn_add_iov`. -/
theorem wider_iovPass {addMsghdr : Wire → Rstatus × Wire}
    (hadd : ∀ {st d}, addMsghdr c = (st, d) → c.Wider d)
    (h : c.iovPass addMsghdr buf = (st, c', rest)) : c.Wider c' := by
  have hopen : ∀ {st d}, (if c.full (c.udp || c.msgUsed = 1) then addMsghdr c else (.ok, c)) =
      (st, d) → c.Wider d := by
    intro st d hd
    split_ifs at hd
    · exact hadd hd
    · obtain ⟨-, rfl⟩ := Prod.mk.inj hd
      exact .refl c
  simp only [iovPass] at h
  generalize hd : (if c.full (c.udp || c.msgUsed = 1) then addMsghdr c else (.ok, c)) = r at h
  obtain ⟨_ | _, d⟩ := r
  · dsimp only at h
    generalize hens : d.connEnsureIovSpace = r at h
    have hwide := (hopen hd).trans (wider_connEnsureIovSpace hens)
    obtain ⟨_ | _, e⟩ := r
    · obtain ⟨-, rfl, -⟩ := Prod.mk.inj h |>.imp_right Prod.mk.inj
      exact hwide.trans ⟨rfl, le_rfl, le_rfl⟩
    · obtain ⟨-, rfl, -⟩ := Prod.mk.inj h |>.imp_right Prod.mk.inj
      exact hwide
  · obtain ⟨-, rfl, -⟩ := Prod.mk.inj h |>.imp_right Prod.mk.inj
    exact hopen hd

theorem wider_connAddMsghdr (h : c.connAddMsghdr = (st, c')) : c.Wider c' := by
  unfold connAddMsghdr at h
  generalize hnew : c.newMsghdr = r at h
  have hwide := wider_newMsghdr hnew
  obtain ⟨_ | _, d⟩ := r
  · dsimp only at h
    split_ifs at h
    · obtain ⟨-, rfl⟩ := Prod.mk.inj h
      exact hwide.trans (wider_iovPass wider_newMsghdr (Prod.ext rfl (Prod.ext rfl rfl)))
    · obtain ⟨-, rfl⟩ := Prod.mk.inj h
      exact hwide
  · obtain ⟨-, rfl⟩ := Prod.mk.inj h
    exact hwide

theorem wider_connAddIov (h : c.connAddIov buf = (st, c')) : c.Wider c' := by
  induction hn : buf.length using Nat.strong_induction_on generalizing c buf with
  | _ n ih =>
    subst hn
    rw [connAddIov] at h
    generalize hpass : c.iovPass connAddMsghdr buf = r at h
    obtain ⟨st', d, rest⟩ := r
    have hwide := wider_iovPass wider_connAddMsghdr hpass
    dsimp only at h
    split_ifs at h with hmore
    · obtain ⟨rfl, hrest⟩ := hmore
      have hlt : (c.iovPass connAddMsghdr buf).2.2.length < buf.length :=
        length_iovPass_lt (by rw [hpass]) (by rw [hpass]; exact hrest)
      rw [hpass] at hlt
      exact hwide.trans (ih rest.length hlt h rfl)
    · obtain ⟨-, rfl⟩ := Prod.mk.inj h
      exact hwide

theorem wider_connAddIovs (h : c.connAddIovs bufs = (st, c')) : c.Wider c' := by
  induction bufs generalizing c with
  | nil =>
    obtain ⟨-, rfl⟩ := Prod.mk.inj h
    exact .refl c
  | cons buf bufs ih =>
    rw [connAddIovs] at h
    generalize hadd : c.connAddIov buf = r at h
    have hwide := wider_connAddIov hadd
    obtain ⟨_ | _, d⟩ := r
    · exact hwide.trans (ih h)
    · obtain ⟨-, rfl⟩ := Prod.mk.inj h
      exact hwide

theorem wider_coreTransmit (c : Wire) (res : SendResult) : c.Wider (c.coreTransmit res).2.2 := by
  have hadv : c.Wider c.advance := by
    unfold advance
    split_ifs <;> exact ⟨rfl, le_rfl, le_rfl⟩
  unfold coreTransmit
  dsimp only
  split_ifs
  · cases res with
    | sent n =>
      dsimp only
      split_ifs
      · exact hadv.trans ⟨rfl, le_rfl, le_rfl⟩
      · exact hadv
    | eagain updated => cases updated <;> exact hadv
    | error => exact hadv
  · exact hadv

/-- Only a failure of `sendmsg` ends a transmission for good. -/
theorem coreTransmit_hardError {res : SendResult} (h : (c.coreTransmit res).1 = .hardError) :
    res = .error ∨ res = .sent 0 ∨ res = .eagain false := by
  unfold coreTransmit at h
  dsimp only at h
  split_ifs at h
  · cases res with
    | sent n =>
      dsimp only at h
      split_ifs at h with hn
      exact .inr (.inl (by rw [Nat.eq_zero_of_not_pos hn]))
    | eagain updated =>
      cases updated with
      | true => cases h
      | false => exact .inr (.inr rfl)
    | error => exact .inl rfl

end Wire

namespace Conn

variable {cfg : Config} {c c' : Conn} {iter : ℕ} {it : Item} {returnCas : Bool}

/-- Wider arrays have room as well. -/
theorem Sized.of_wider (h : c.Sized) (hudp : c'.udp = c.udp) (hwire : c.wire.Wider c'.wire) :
    c'.Sized :=
  ⟨(hwire.udp.trans h.udp).trans hudp.symm, h.msgSize.trans_le hwire.msgSize,
    h.iovSize.trans_le hwire.iovSize⟩

/-- A connection with the same messages. -/
theorem Sized.of_wire (h : c.Sized) (hudp : c'.udp = c.udp) (hwire : c'.wire = c.wire) : c'.Sized :=
  h.of_wider hudp (by rw [hwire]; exact .refl _)

theorem Sized.ascRsp (h : c.Sized) (r : Rsp) :
    (c.ascRsp r).Sized := h.of_wire (ascRsp_udp c r) (ascRsp_wire c r)

theorem Sized.connAddIovs (h : c.Sized) (bufs : List (List UInt8)) : (c.connAddIovs bufs).2.Sized :=
  h.of_wider rfl (Wire.wider_connAddIovs (Prod.ext rfl rfl))

theorem Sized.growIlist (h : c.Sized) (iter : ℕ) : (c.growIlist iter).2.Sized := by
  obtain ⟨b, n, as, heq, -⟩ := c.growIlist_eq iter
  rw [heq]
  exact h.of_wider rfl ⟨rfl, le_rfl, le_rfl⟩

theorem Sized.ascCreateSuffix (h : c.Sized) (iter : ℕ) : (c.ascCreateSuffix iter).2.Sized := by
  obtain ⟨b, n, as, hgrow, -⟩ := c.growSlist_eq iter
  unfold Conn.ascCreateSuffix
  rw [hgrow]
  cases b with
  | false => exact h.of_wider rfl ⟨rfl, le_rfl, le_rfl⟩
  | true =>
    obtain ⟨b, as', halloc, -⟩ :=
      ({ c with ssize := n, wire := { c.wire with allocs := as } } : Conn).alloc_eq
    simp only [halloc]
    have hwide : ({ c with ssize := n, wire := { c.wire with allocs := as' } } : Conn).Sized :=
      h.of_wider rfl ⟨rfl, le_rfl, le_rfl⟩
    cases b with
    | false => exact hwide.ascRsp _
    | true => exact hwide.of_wire rfl rfl

theorem Sized.ascRespondGet (h : c.Sized) (cfg : Config) (iter : ℕ) (it : Item) (returnCas : Bool) :
    (c.ascRespondGet cfg iter it returnCas).2.Sized := by
  have hfirst := h.connAddIovs [ascii "VALUE ", it.key]
  unfold Conn.ascRespondGet
  generalize c.connAddIovs [ascii "VALUE ", it.key] = r at hfirst ⊢
  obtain ⟨_ | _, d⟩ := r
  · have hsuffix := hfirst.ascCreateSuffix iter
    dsimp only at hsuffix ⊢
    generalize d.ascCreateSuffix iter = r at hsuffix ⊢
    obtain ⟨_ | suffix, e⟩ := r
    · exact hsuffix
    · have hlast := hsuffix.connAddIovs [suffixText it returnCas, crlf, it.value cfg, crlf]
      dsimp only at hlast ⊢
      generalize e.connAddIovs [suffixText it returnCas, crlf, it.value cfg, crlf] = r at hlast ⊢
      obtain ⟨_ | _, g⟩ := r
      · exact hlast
      · exact hlast.of_wire rfl rfl
  · exact hfirst

theorem Sized.connBuildUdpHeaders (h : c.Sized) : c.connBuildUdpHeaders.2.Sized := by
  have halloc : ∀ {b d}, (if c.wire.msgUsed > c.udpHsize then c.alloc else (true, c)) = (b, d) →
      d.Sized := by
    intro b d hd
    split_ifs at hd
    · obtain ⟨b', as, heq, -⟩ := c.alloc_eq
      rw [heq] at hd
      rw [← (Prod.mk.inj hd).2]
      exact h.of_wider rfl ⟨rfl, le_rfl, le_rfl⟩
    · rw [← (Prod.mk.inj hd).2]
      exact h
  unfold Conn.connBuildUdpHeaders
  dsimp only
  generalize hd : (if c.wire.msgUsed > c.udpHsize then c.alloc else (true, c)) = r
  obtain ⟨_ | _, d⟩ := r
  · exact halloc hd
  · exact (halloc hd).of_wider rfl ⟨rfl, le_rfl, le_rfl⟩

/-- An array of the first size has room. -/
theorem Sized.connShrink (h : c.Sized) : c.connShrink.Sized := by
  have hrbuf : ∀ {c : Conn}, c.Sized → c.shrinkRbuf.Sized := by
    intro c h
    unfold shrinkRbuf
    split_ifs with hbig hcurr
    · obtain ⟨b, as, halloc, -⟩ := ({ c with rbuf := c.rbuf.moveToFront } : Conn).alloc_eq
      dsimp only
      rw [halloc]
      cases b <;> exact h.of_wider rfl ⟨rfl, le_rfl, le_rfl⟩
    · obtain ⟨b, as, halloc, -⟩ := c.alloc_eq
      dsimp only
      rw [halloc]
      cases b <;> exact h.of_wider rfl ⟨rfl, le_rfl, le_rfl⟩
    · exact h
  have hilist : ∀ {c : Conn}, c.Sized → c.shrinkIlist.Sized := by
    intro c h
    unfold shrinkIlist
    split_ifs
    · obtain ⟨b, as, halloc, -⟩ := c.alloc_eq
      rw [halloc]
      cases b <;> exact h.of_wider rfl ⟨rfl, le_rfl, le_rfl⟩
    · exact h
  have hmsg : ∀ {c : Conn}, c.Sized → c.shrinkMsg.Sized := by
    intro c h
    unfold shrinkMsg
    split_ifs
    · obtain ⟨b, as, halloc, -⟩ := c.alloc_eq
      rw [halloc]
      cases b with
      | false => exact h.of_wider rfl ⟨rfl, le_rfl, le_rfl⟩
      | true => exact ⟨h.udp, Nat.zero_lt_succ _, h.iovSize⟩
    · exact h
  have hiov : ∀ {c : Conn}, c.Sized → c.shrinkIov.Sized := by
    intro c h
    unfold shrinkIov
    split_ifs
    · obtain ⟨b, as, halloc, -⟩ := c.alloc_eq
      rw [halloc]
      cases b with
      | false => exact h.of_wider rfl ⟨rfl, le_rfl, le_rfl⟩
      | true => exact ⟨h.udp, h.msgSize, by change 1 < 40; decide⟩
    · exact h
  unfold Conn.connShrink
  split_ifs
  · exact h
  · exact hiov (hmsg (hilist (hrbuf h)))

theorem sized_init (udp : Bool) (mem : ℕ → UInt8) (ilist : ℕ → ItemPtr) (slist : ℕ → ℕ)
    (iov : ℕ → List UInt8) (msg : ℕ → Msghdr) (allocs : List Bool) :
    (Conn.init udp mem ilist slist iov msg allocs).Sized :=
  ⟨rfl, by change 0 < 10; decide, by change 1 < 40; decide⟩

/-- The connection with another read buffer, after allocations. -/
def rebuf (c : Conn) (b : Buffer UInt8) (as : List Bool) : Conn :=
  { c with rbuf := b, wire := { c.wire with allocs := as } }

end Conn

/-! ### Requests -/

section

variable {cfg : Config} {returnCas : Bool} {x y : Serving} {w w' : Session}

theorem Serving.sized_step {l : ServeLabel} (hx : x.session.conn.Sized)
    (h : (serving cfg returnCas).step x l = some ((), y)) : y.session.conn.Sized := by
  have hgrow' := hx.growIlist x.iter
  rcases serving_cases h with ⟨u, -, rfl⟩ | ⟨key, keys, -, -, hcases⟩
  · exact hx.of_wire rfl rfl
  · rcases hcases with ⟨st, -, rfl⟩ | ⟨it, st, c, -, hgrow, rfl⟩ | ⟨it, st, c, c', -, hgrow,
      hresp, rfl⟩ |
      ⟨it, st, c, c', -, hgrow, hresp, rfl⟩
    · exact hx
    · rw [hgrow] at hgrow'
      exact hgrow'
    all_goals
      rw [hgrow] at hgrow'
      have hresp' := hgrow'.ascRespondGet cfg x.iter (st.items it) returnCas
      dsimp only at hresp'
      rw [hresp] at hresp'
    · exact hresp'.ascRsp _
    · exact hresp'.of_wire rfl rfl

namespace Session

variable {e : Circumstances}

theorem sized_finishRead (hs : w.conn.Sized) (iter : ℕ) : (w.finishRead iter).conn.Sized := by
  have hlists :
      ({ w.conn with icurr := 0, ileft := iter, scurr := 0, sleft := iter } : Conn).Sized :=
    hs.of_wire rfl rfl
  have hend := hlists.connAddIovs [ascii "END" ++ crlf]
  unfold finishRead setConn
  dsimp only
  generalize Conn.connAddIovs _ _ = r at hend ⊢
  obtain ⟨_ | _, c⟩ := r
  · have hudp : (if c.udp then c.connBuildUdpHeaders else (.ok, c)).2.Sized := by
      split_ifs
      · exact Conn.Sized.connBuildUdpHeaders hend
      · exact hend
    dsimp only
    generalize (if c.udp then c.connBuildUdpHeaders else (.ok, c)) = r at hudp ⊢
    obtain ⟨_ | _, d⟩ := r
    · exact hudp.of_wider rfl ⟨rfl, le_rfl, le_rfl⟩
    · exact hudp.ascRsp _
  · exact hend.ascRsp _

theorem sized_readLoop {fuel left i iter : ℕ} {ws : List (List UInt8)} {ts : List Token}
    (hs : w.conn.Sized) (hts : Filled left ws ts)
    (h : readLoop cfg returnCas fuel ts i iter w = some w') : w'.conn.Sized := by
  obtain ⟨x, hreach, hends⟩ := readLoop_serving hts h
  have hx : x.session.conn.Sized :=
    hreach.invariant (I := fun x => x.session.conn.Sized) hs fun _ _ _ _ hI hst _ =>
      Serving.sized_step hI hst
  rcases hends with ⟨-, rfl⟩ | ⟨key, keys, -, -, rfl⟩
  · exact sized_finishRead hx x.iter
  · exact hx.ascRsp _

/-- **A request can always be answered**: there is room for the start of a reply. -/
theorem dispatch_started (hs : w.conn.Sized) : ∃ wire : Wire, w.conn.wire.Wider wire ∧
    Wire.connAddMsghdr { w.conn.wire with msgCurr := 0, msgUsed := 0, iovUsed := 0 } =
        (.ok, wire) := by
  obtain ⟨wire, hwire, -⟩ := Wire.connAddMsghdr_blank w.conn.wire hs.msgSize hs.iovSize
  have hwide := Wire.wider_connAddMsghdr hwire
  exact ⟨wire, ⟨hwide.udp, hwide.msgSize, hwide.iovSize⟩, hwire⟩

theorem sized_allocItem (hs : w.conn.Sized) (ch : Choice) (key : Key) (dataflags exptime vlen : ℕ)
    (casId : Option ℕ) : (w.allocItem cfg ch key dataflags exptime vlen casId).conn.Sized := by
  unfold allocItem
  generalize w.store.itemAlloc cfg ch _ key dataflags exptime vlen = r
  obtain ⟨_ | it, st⟩ := r
  · have hrecord : (w.conn.record [.alloc false]).Sized := hs.of_wire rfl rfl
    exact (hrecord.ascRsp .serverError).of_wire rfl rfl
  · exact hs.of_wire rfl rfl

theorem sized_dispatch {line req : List UInt8} (hs : w.conn.Sized)
    (h : w.dispatch cfg e line req = some w') :
    w'.conn.Sized := by
  obtain ⟨wire, hwide, hwire⟩ := dispatch_started hs
  rw [dispatch_ok hwire] at h
  have hstart : (w.handled cfg e line req wire).conn.Sized := hs.of_wider rfl hwide
  generalize hcmd : (ascDispatch cfg w.set e.stack req w.conn.noreply).1 = cmd at h
  generalize w.handled cfg e line req wire = v at h hstart
  cases cmd with
  | read returnCas => exact sized_readLoop hstart (filled_keys hcmd) h
  | stats sub =>
    obtain rfl := Option.some.inj h
    unfold setConn Conn.coreWriteAndFree
    cases e.stats with
    | none => exact hstart.ascRsp _
    | some buf => exact hstart.of_wire rfl rfl
  | update type key dataflags exptime vlen casId =>
    obtain rfl := Option.some.inj h
    exact sized_allocItem hstart _ _ _ _ _ _
  | annex type key vlen =>
    obtain rfl := Option.some.inj h
    exact sized_allocItem hstart _ _ _ _ _ _
  | configure s =>
    obtain rfl := Option.some.inj h
    refine Conn.Sized.ascRsp ?_ _
    rwa [applySetting_conn]
  | quit =>
    obtain rfl := Option.some.inj h
    exact hstart.of_wire rfl rfl
  | _ =>
    obtain rfl := Option.some.inj h
    exact Conn.Sized.ascRsp hstart _

/-! ### Reading -/

/-- How the loop of `core_read_tcp` ends, after it has read `bytes` and left `rest` of the stream.
-/
inductive Received (w : Session) (results : List ReadResult) (got : ReadOutcome) (c : Conn)
    (bytes rest : List UInt8) :
    ReadOutcome → Session → Prop
  /-- Nothing more was received. -/
  | none (h : bytes = []) : Received w results got c bytes rest got
      { w with conn := c, input := rest }
  /-- Something was received. -/
  | data (h : bytes ≠ []) : Received w results got c bytes rest .dataReceived
      { w with conn := c, input := rest }
  /-- The end of the stream was read. -/
  | eof (h : rest = []) (hres : .eof ∈ results) :
      Received w results got c bytes rest .error { w with conn := c.record [.eof], input := rest }
  /-- `read` has failed. -/
  | error (hres : .error ∈ results) : Received w results got c bytes rest .error
      { w with conn := c, input := rest }
  /-- The buffer could not be doubled. -/
  | oom (h : c.wire.fails < w.conn.wire.fails) :
      Received w results got c bytes rest .memoryError { w with conn := readOom c, input := rest }

/-- There is room to read into. -/
theorem readRoom_cases (c : Conn) (numAllocs : ℕ) : readRoom c numAllocs = .stop ∨
    ∃ size as, (as.count false ≤ c.wire.fails ∧
        ∃ n, readRoom c numAllocs = .ok (c.rebuf (c.rbuf.resize size) as) n) ∨
      (as.count false < c.wire.fails ∧ readRoom c numAllocs = .oom (c.rebuf c.rbuf as)) := by
  obtain ⟨b, as, halloc, hcount⟩ := c.alloc_eq
  unfold readRoom
  split_ifs
  · exact .inl rfl
  · rw [halloc]
    cases b with
    | false => exact .inr ⟨0, as, .inr ⟨hcount, rfl⟩⟩
    | true => exact .inr ⟨_, as, .inl ⟨hcount, _, rfl⟩⟩
  · exact .inr ⟨c.rbuf.size, c.wire.allocs, .inl ⟨le_rfl, _, rfl⟩⟩

/-- **What the loop of `core_read_tcp` has read goes to the buffer**, in the order in which it was
sent. -/
theorem readTcpLoop_received {results : List ReadResult} {numAllocs : ℕ} {got r : ReadOutcome}
    (hudp : w.conn.udp = false) (hcurr : w.conn.rbuf.curr = 0)
    (h : readTcpLoop results numAllocs got w = some (r, w')) :
    ∃ bytes rest b as, w.input = bytes ++ rest ∧
      b.unread = w.conn.rbuf.unread ++ bytes ∧ as.count false ≤ w.conn.wire.fails ∧
      Received w results got (w.conn.rebuf b as) bytes rest r w' := by
  induction results generalizing numAllocs got w with
  | nil =>
    rw [readTcpLoop] at h
    rcases readRoom_cases w.conn
      numAllocs with hroom | ⟨size, as, ⟨hcount, n, hroom⟩ | ⟨hcount, hroom⟩⟩
    · rw [hroom] at h
      obtain ⟨rfl, rfl⟩ := Prod.mk.inj (Option.some.inj h)
      exact ⟨[], w.input, w.conn.rbuf, w.conn.wire.allocs, rfl, (List.append_nil _).symm,
        le_rfl, .none rfl⟩
    · rw [hroom] at h
      cases h
    · rw [hroom] at h
      obtain ⟨rfl, rfl⟩ := Prod.mk.inj (Option.some.inj h)
      exact ⟨[], w.input, w.conn.rbuf, as, rfl, (List.append_nil _).symm, hcount.le, .oom hcount⟩
  | cons res results ih =>
    rw [readTcpLoop] at h
    rcases readRoom_cases w.conn
      numAllocs with hroom | ⟨size, as, ⟨hcount, n, hroom⟩ | ⟨hcount, hroom⟩⟩
    · rw [hroom] at h
      cases h
    · rw [hroom] at h
      dsimp only at h
      obtain ⟨hadmits, h⟩ := Option.ite_none_right_eq_some.1 h
      -- the buffer may have been made larger, and what is in it is the same
      let b₀ := w.conn.rbuf.resize size
      have hunread : b₀.unread = w.conn.rbuf.unread ++ [] := (List.append_nil _).symm
      cases res with
      | data bytes =>
        have hpre : bytes <+: w.input := by
          have hdata : 1 ≤ bytes.length ∧ bytes.length ≤ _ ∧
              (w.conn.udp = true ∨ bytes <+: w.input) :=
            of_decide_eq_true hadmits
          exact hdata.2.2.resolve_left (by rw [hudp]; exact Bool.false_ne_true)
        have hne : bytes ≠ [] := by
          have hdata : 1 ≤ bytes.length ∧ bytes.length ≤ _ ∧
              (w.conn.udp = true ∨ bytes <+: w.input) :=
            of_decide_eq_true hadmits
          exact List.length_pos_iff.1 hdata.1
        obtain ⟨rest, hrest⟩ := hpre
        have hconsume : ({ w with conn := w.conn.rebuf b₀ as } : Session).consume bytes =
            { w with conn := w.conn.rebuf b₀ as, input := rest } := by
          unfold consume
          rw [if_neg (by
              rw [show (w.conn.rebuf b₀ as).udp = w.conn.udp from rfl, hudp]
              exact Bool.false_ne_true),
            ← hrest, List.drop_left]
        have hgot : (b₀.receive bytes).unread = w.conn.rbuf.unread ++ bytes :=
          Buffer.unread_receive hcurr
        dsimp only at h
        rw [hconsume] at h
        split_ifs at h with hfull
        · obtain ⟨more, rest', b, as', hinput, hb, hcount', hrec⟩ :=
            ih (w := { w with conn := w.conn.rebuf (b₀.receive bytes) as, input := rest }) hudp
              hcurr h
          refine ⟨bytes ++ more, rest', b, as', ?_, ?_, hcount'.trans hcount, ?_⟩
          · rw [← hrest, show rest = more ++ rest' from hinput, List.append_assoc]
          · rw [hb, ← List.append_assoc, ← hgot]
            rfl
          · have hne' : bytes ++ more ≠ [] := List.append_ne_nil_of_left_ne_nil hne more
            cases hrec with
            | none hnil => exact .data hne'
            | data _ => exact .data hne'
            | eof heof hres => exact .eof heof (List.mem_cons_of_mem _ hres)
            | error hres => exact .error (List.mem_cons_of_mem _ hres)
            | oom hlt => exact .oom (hlt.trans_le hcount)
        · obtain ⟨rfl, rfl⟩ := Prod.mk.inj (Option.some.inj h)
          exact ⟨bytes, rest, b₀.receive bytes, as, hrest.symm, hgot, hcount, .data hne⟩
      | eof =>
        have hnil : w.input = [] := by
          have hend : w.conn.udp = true ∨ w.input = [] := of_decide_eq_true hadmits
          exact hend.resolve_left (by rw [hudp]; exact Bool.false_ne_true)
        dsimp only at h
        obtain ⟨-, h⟩ := Option.ite_none_right_eq_some.1 h
        obtain ⟨rfl, rfl⟩ := Prod.mk.inj (Option.some.inj h)
        exact ⟨[], w.input, b₀, as, rfl, hunread, hcount, .eof hnil (.head _)⟩
      | eagain =>
        dsimp only at h
        obtain ⟨-, h⟩ := Option.ite_none_right_eq_some.1 h
        obtain ⟨rfl, rfl⟩ := Prod.mk.inj (Option.some.inj h)
        exact ⟨[], w.input, b₀, as, rfl, hunread, hcount, .none rfl⟩
      | error =>
        dsimp only at h
        obtain ⟨-, h⟩ := Option.ite_none_right_eq_some.1 h
        obtain ⟨rfl, rfl⟩ := Prod.mk.inj (Option.some.inj h)
        exact ⟨[], w.input, b₀, as, rfl, hunread, hcount, .error (.head _)⟩
    · rw [hroom] at h
      cases h

end Session

end

end Twemcache
