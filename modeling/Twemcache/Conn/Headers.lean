import Twemcache.Conn.Answer

/-!
# The headers of datagrams

`conn_add_msghdr` reserves the first vector of a datagram for its header, and
`conn_build_udp_headers` writes the headers through `msg_iov` of the messages, each time
`core_drive_machine` comes to send something and `msg_curr` is zero.  But `core_transmit` has moved
`msg_iov` of a message past its vectors when all of it is sent, and leaves `msg_curr` to its next
call.  So after the first datagram the headers are written once more, the first of them to the
vector behind that datagram: the place of the second header, if there is one.

## Main definitions

* `Wire.Slotted` : the messages lie in the array one after another, each with the place of a header.
* `Session.headerWrites` : the vectors that a turn writes headers to.
* `Session.HeadersReserved` : they are places of headers, of messages that are still to be sent.

## Main results

* `dispatch_whole` : if no allocation fails, all messages of a reply have the place of a header.
* `headers_reserved` : headers go to these places, all the time the reply is sent, exactly if it has
  more than one datagram.
-/

namespace Twemcache

namespace Wire

variable {c c' : Wire} {buf rest : List UInt8} {bufs : List (List UInt8)} {i n k : ℕ}

/-- The messages lie in the array one after another, and the first `k` of them are not empty. -/
structure Rowed (c : Wire) (k : ℕ) : Prop where
  /-- A message starts where those before it end. -/
  laid : c.Laid
  /-- A message has a first vector. -/
  pos : ∀ i < k, 0 < (c.msg i).iovlen
  /-- The vectors are in the array. -/
  room : c.iovUsed ≤ c.iovSize
  /-- The array is not empty. -/
  size : 0 < c.iovSize
  /-- Nothing was sent. -/
  curr : c.msgCurr = 0

/-- There are messages, and each has the place of a header. -/
structure Slotted (c : Wire) : Prop extends Rowed c c.msgUsed where
  /-- There is a message. -/
  some : 0 < c.msgUsed

/-- A message starts in the array. -/
theorem Slotted.iov_lt (h : c.Slotted) (hi : i < c.msgUsed) : (c.msg i).iov < c.iovUsed := by
  rw [h.laid.iov i hi, h.laid.used]
  have hle : iovnum c.msg (i + 1) ≤ iovnum c.msg c.msgUsed :=
    iovnum_mono (show i + 1 ≤ c.msgUsed from hi)
  have hpos := h.pos i hi
  rw [iovnum] at hle
  omega

/-- The second datagram starts behind the first. -/
theorem Slotted.second (h : c.Slotted) (htwo : 2 ≤ c.msgUsed) :
    (c.msg 1).iov = (c.msg 0).iov + (c.msg 0).iovlen ∧ 0 < (c.msg 1).iov := by
  have hpos := h.pos 0 h.some
  have hzero := h.laid.iov 0 h.some
  have hone := h.laid.iov 1 (by omega)
  simp only [iovnum] at hzero hone
  omega

/-- The array has got room for another vector. -/
theorem Rowed.connEnsureIovSpace (h : c.Rowed k) (hens : c.connEnsureIovSpace = (.ok, c')) :
    c'.Rowed k ∧ c'.iovUsed < c'.iovSize ∧ c'.iovUsed = c.iovUsed ∧ c'.msgUsed = c.msgUsed ∧
        c'.udp = c.udp := by
  obtain ⟨n, heq⟩ := Laid.connEnsureIovSpace (c := c.ample) ⟨h.laid.iov, h.laid.used⟩ rfl
  rw [((connEnsureIovSpace_ample hens).1 rfl).1] at heq
  have hc' : c'.ample = { c.ample with iovSize := n } := (Prod.mk.inj heq).2
  have hmsg : c'.msg = c.msg := (congrArg Wire.msg hc' :)
  have hmsgUsed : c'.msgUsed = c.msgUsed := (congrArg Wire.msgUsed hc' :)
  have hused : c'.iovUsed = c.iovUsed := (congrArg Wire.iovUsed hc' :)
  have hcurr : c'.msgCurr = c.msgCurr := (congrArg Wire.msgCurr hc' :)
  have hroom : c.iovUsed < c'.iovSize := by
    obtain ⟨b, as, hrealloc, -⟩ := realloc_eq c
    have hsize := h.size
    have hle := h.room
    unfold Wire.connEnsureIovSpace at hens
    split_ifs at hens with hfull
    · rw [hrealloc] at hens
      cases b with
      | false => cases hens
      | true =>
        rw [← (Prod.mk.inj hens).2]
        change c.iovUsed < c.iovSize * 2
        omega
    · rw [← (Prod.mk.inj hens).2]
      exact Nat.lt_of_not_le hfull
  refine ⟨⟨⟨?_, ?_⟩, ?_, ?_, ?_, ?_⟩, by omega, hused, hmsgUsed, (congrArg Wire.udp hc' :)⟩
  · rw [hmsg, hmsgUsed]
    exact h.laid.iov
  · rw [hused, hmsg, hmsgUsed]
    exact h.laid.used
  · rw [hmsg]
    exact h.pos
  · omega
  · omega
  · rw [hcurr]
    exact h.curr

/-- The last message gets another vector. -/
theorem Rowed.putIov (h : c.Rowed k) (hn : c.msgUsed = n + 1) (hk : n ≤ k)
    (hroom : c.iovUsed < c.iovSize) :
    (c.putIov buf).Slotted := by
  refine ⟨⟨h.laid.putIov hn, fun i hi => ?_, hroom, h.size, h.curr⟩, hn ▸ Nat.succ_pos n⟩
  change i < c.msgUsed at hi
  rw [putIov_msg hn]
  rcases eq_or_ne i n with rfl | hne
  · simp
  · rw [Function.update_of_ne hne]
    exact h.pos i (by omega)

/-- A message is started. -/
theorem Rowed.connAddMsghdr (h : c.Rowed c.msgUsed) (hudp : c.udp = true)
    (hadd : c.connAddMsghdr = (.ok, c')) :
    c'.Slotted ∧ c.iovUsed ≤ c'.iovUsed ∧ c'.udp = true := by
  unfold Wire.connAddMsghdr at hadd
  generalize hnew : c.newMsghdr = r at hadd
  obtain ⟨_ | _, d⟩ := r
  · obtain ⟨m, heq⟩ := newMsghdr_eq (c := c.ample) rfl
    rw [((newMsghdr_ample hnew).1 rfl).1] at heq
    have hd : d.ample = c.ample.opened m := (Prod.mk.inj heq).2
    have hlaid : d.ample.Laid := by
      rw [hd]
      exact Laid.opened ⟨h.laid.iov, h.laid.used⟩
    have hmsg : d.msg = Function.update c.msg c.msgUsed ⟨c.iovUsed, 0⟩ := (congrArg Wire.msg hd :)
    have hmsgUsed : d.msgUsed = c.msgUsed + 1 := (congrArg Wire.msgUsed hd :)
    have hused : d.iovUsed = c.iovUsed := (congrArg Wire.iovUsed hd :)
    have hsize : d.iovSize = c.iovSize := (congrArg Wire.iovSize hd :)
    have hcurr : d.msgCurr = c.msgCurr := (congrArg Wire.msgCurr hd :)
    have hudp' : d.udp = c.udp := (congrArg Wire.udp hd :)
    have hrowed : d.Rowed c.msgUsed := by
      refine ⟨⟨hlaid.iov, hlaid.used⟩, fun i hi => ?_, by rw [hused, hsize]; exact h.room,
        by rw [hsize]; exact h.size, by rw [hcurr]; exact h.curr⟩
      rw [hmsg, Function.update_of_ne hi.ne]
      exact h.pos i hi
    have hlast := newMsghdr_last hnew
    dsimp only at hadd
    rw [if_pos (hudp'.trans hudp)] at hadd
    generalize hpass : d.iovPass newMsghdr (List.replicate udpHeaderSize 0) = r at hadd
    obtain ⟨st, e, rest⟩ := r
    obtain ⟨rfl, rfl⟩ := Prod.mk.inj hadd
    obtain ⟨f, g, hopen, hens, rfl, -⟩ := iovPass_ok hpass
    rw [full_eq_false (by rw [hlast.1]; decide) (by rw [hlast.2]; decide)] at hopen
    obtain ⟨-, rfl⟩ := Prod.mk.inj hopen
    obtain ⟨hg, hroom, hused', hmsgUsed', hgudp⟩ := hrowed.connEnsureIovSpace hens
    refine ⟨hg.putIov (hmsgUsed'.trans hmsgUsed) le_rfl hroom, ?_, hgudp.trans (hudp'.trans hudp)⟩
    change c.iovUsed ≤ g.iovUsed + 1
    omega
  · cases hadd

/-- A pass adds a vector. -/
theorem Slotted.iovPass (h : c.Slotted) (hudp : c.udp = true)
    (hpass : c.iovPass connAddMsghdr buf = (.ok, c', rest)) :
    c'.Slotted ∧ c.iovUsed < c'.iovUsed ∧ c'.udp = true := by
  obtain ⟨d, e, hopen, hens, rfl, -⟩ := iovPass_ok hpass
  have hd : d.Slotted ∧ c.iovUsed ≤ d.iovUsed ∧ d.udp = true := by
    split_ifs at hopen
    · exact h.toRowed.connAddMsghdr hudp hopen
    · obtain ⟨-, rfl⟩ := Prod.mk.inj hopen
      exact ⟨h, le_rfl, hudp⟩
  obtain ⟨he, hroom, hused, hmsgUsed, heudp⟩ := hd.1.toRowed.connEnsureIovSpace hens
  obtain ⟨n, hn⟩ : ∃ n, d.msgUsed = n + 1 := ⟨d.msgUsed - 1, by have := hd.1.some; omega⟩
  refine ⟨he.putIov (hmsgUsed.trans hn) (by omega) hroom, ?_, heudp.trans hd.2.2⟩
  have := hd.2.1
  change c.iovUsed < e.iovUsed + 1
  omega

theorem Slotted.connAddIov (h : c.Slotted) (hudp : c.udp = true)
    (hadd : c.connAddIov buf = (.ok, c')) :
    c'.Slotted ∧ c.iovUsed < c'.iovUsed ∧ c'.udp = true := by
  -- the rest of the buffer gets shorter with every pass
  induction hn : buf.length using Nat.strong_induction_on generalizing c buf with
  | _ n ih =>
    subst hn
    rw [Wire.connAddIov] at hadd
    generalize hpass : c.iovPass connAddMsghdr buf = r at hadd
    obtain ⟨st, d, rest⟩ := r
    dsimp only at hadd
    split_ifs at hadd with hmore
    · obtain ⟨rfl, hrest⟩ := hmore
      have hlt : (c.iovPass connAddMsghdr buf).2.2.length < buf.length :=
        length_iovPass_lt (by rw [hpass]) (by rw [hpass]; exact hrest)
      rw [hpass] at hlt
      obtain ⟨hd, hmore, hdudp⟩ := h.iovPass hudp hpass
      obtain ⟨hc', hmore', hudp'⟩ := ih rest.length hlt hd hdudp hadd rfl
      exact ⟨hc', hmore.trans hmore', hudp'⟩
    · obtain ⟨rfl, rfl⟩ := Prod.mk.inj hadd
      exact h.iovPass hudp hpass

theorem Slotted.connAddIovs (h : c.Slotted) (hudp : c.udp = true)
    (hadd : c.connAddIovs bufs = (.ok, c')) :
    c'.Slotted ∧ c'.udp = true ∧ (bufs ≠ [] → c.iovUsed < c'.iovUsed) := by
  induction bufs generalizing c with
  | nil =>
    obtain ⟨-, rfl⟩ := Prod.mk.inj hadd
    exact ⟨h, hudp, fun hne => absurd rfl hne⟩
  | cons buf bufs ih =>
    rw [Wire.connAddIovs] at hadd
    generalize hfirst : c.connAddIov buf = r at hadd
    obtain ⟨_ | _, d⟩ := r
    · obtain ⟨hd, hlt, hdudp⟩ := h.connAddIov hudp hfirst
      obtain ⟨hc', hudp', hmore⟩ := ih hd hdudp hadd
      refine ⟨hc', hudp', fun _ => ?_⟩
      by_cases hbufs : bufs = []
      · subst hbufs
        obtain ⟨-, rfl⟩ := Prod.mk.inj hadd
        exact hlt
      · exact hlt.trans (hmore hbufs)
    · cases hadd

/-- Sending all of a message leaves nothing of it. -/
theorem consume_all (iov : ℕ → List UInt8) (n i : ℕ) :
    consume iov n i (vectors iov i n).flatten.length = (⟨i + n, 0⟩, 0) := by
  induction n generalizing i with
  | zero => rfl
  | succ n ih =>
    rw [vectors_cons, List.flatten_cons, List.length_append, consume, if_pos (Nat.le_add_right _ _),
      Nat.add_sub_cancel_left, ih, Nat.add_assoc, Nat.add_comm 1 n]

/-- A message has been sent. -/
def Sent (c : Wire) (j : ℕ) : Prop := j < c.msgCurr ∨ (j = c.msgCurr ∧ (c.msg j).iovlen = 0)

/-- The vector is in the array, and was reserved for the header of a message of the reply `r` that
is still to be sent. -/
def Reserved (r c : Wire) (k : ℕ) :
    Prop := k < c.iovSize ∧ ∃ j < r.msgUsed, k = (r.msg j).iov ∧ ¬ c.Sent j

end Wire

namespace Session

variable (w : Session)

/-- The vectors that `conn_build_udp_headers` writes headers to in the turn that follows. -/
def headerWrites : List ℕ :=
  match w.addResponse with
  | (.enomem, _) => []
  | (.ok, w) =>
    if w.conn.udp ∧ w.conn.wire.msgCurr = 0 then
      match w.conn.connBuildUdpHeaders with
      | (.enomem, _) => []
      | (.ok, _) => (List.range w.conn.wire.msgUsed).map fun i => (w.conn.wire.msg i).iov
    else []

/-- The connection with the response and the headers in its messages, unless there is no memory for
them. -/
def prepared : Option Session :=
  match w.addResponse with
  | (.enomem, _) => none
  | (.ok, w) =>
    match if w.conn.udp ∧ w.conn.wire.msgCurr = 0 then w.conn.connBuildUdpHeaders else
        (.ok, w.conn) with
    | (.enomem, _) => none
    | (.ok, c) => some { w with conn := c }

/-- The message that is handed to the socket in the turn that follows. -/
def datagram : List UInt8 :=
  match w.prepared with
  | none => []
  | some w => (w.conn.wire.advance.entries w.conn.wire.advance.msgCurr).flatten

/-- The messages of the reply that is sent. -/
def reply : Wire := w.addResponse.2.conn.wire

/-- A reply is being sent, and a datagram is sent as a whole or not at all. -/
def Transmitting (w : Session) (l : SessionLabel) (_ : Session) : Prop :=
  (w.conn.state = .write ∨ w.conn.state = .mwrite) ∧ ∀ n, l = .turn (.send (.sent n)) →
    n = w.datagram.length

/-- All the time the reply is sent, headers are written to places that are reserved for headers of
messages that are still to be sent. -/
def HeadersReserved (cfg : Config) (w₀ : Session) : Prop :=
  ∀ w, (session cfg).Reaches Transmitting w₀ w → (w.conn.state = .write ∨ w.conn.state = .mwrite) →
    ∀ k ∈ w.headerWrites, w₀.reply.Reserved w.reply k

end Session

/-! ### A turn -/

namespace Wire

variable {c : Wire} {res : SendResult}

theorem advance_of_pos (h : 0 < (c.msg c.msgCurr).iovlen) :
    c.advance = c := if_neg fun hadv => h.ne' hadv.2

/-- The messages that were finished stay finished. -/
theorem le_advance : c.msgCurr ≤ c.advance.msgCurr := by
  unfold advance
  split_ifs
  · exact Nat.le_succ c.msgCurr
  · exact le_rfl

/-- What is sent of a message, when a datagram is sent as a whole or not at all: all of the vectors
of one message are left behind, or nothing. -/
theorem coreTransmit_whole (c : Wire) (res : SendResult)
    (hres : ∀ n, res = .sent n → n = (c.advance.entries c.advance.msgCurr).flatten.length) :
    (c.coreTransmit res).2.2 = c.advance ∨ (c.coreTransmit res).2.2 = { c.advance with
      msg := Function.update c.advance.msg c.advance.msgCurr
        ⟨(c.advance.msg c.advance.msgCurr).iov + (c.advance.msg c.advance.msgCurr).iovlen, 0⟩
            } := by
  unfold coreTransmit
  dsimp only
  split_ifs with hcurr
  · cases res with
    | sent n =>
      dsimp only
      split_ifs with hn
      · right
        obtain rfl := hres n rfl
        unfold sentBytes entries
        rw [consume_all]
        rfl
      · exact .inl rfl
    | eagain updated => cases updated <;> exact .inl rfl
    | error => exact .inl rfl
  · exact .inl rfl

end Wire

/-- A vector that a header goes to holds a header. -/
theorem foldl_headers_mem (msg : ℕ → Msghdr) (hdr : ℕ → List UInt8) {i : ℕ} (js : List ℕ)
    (iov : ℕ → List UInt8) (hi : i ∈ js) :
    ∃ j, js.foldl (fun iov j => Function.update iov (msg j).iov (hdr j)) iov (msg i).iov =
      hdr j := by
  induction js generalizing i iov with
  | nil => cases hi
  | cons j js ih =>
    rw [List.foldl_cons]
    by_cases hlater : ∃ k ∈ js, (msg k).iov = (msg i).iov
    · obtain ⟨k, hk, heq⟩ := hlater
      rw [← heq]
      exact ih _ hk
    · -- no later header goes there, so it holds the first one
      obtain rfl : i = j := (List.mem_cons.1 hi).resolve_right fun hi => hlater ⟨i, hi, rfl⟩
      exact ⟨i, by rw [Conn.foldl_headers _ _ _ _ fun k hk heq => hlater ⟨k, hk, heq⟩,
        Function.update_self]⟩

/-- The headers go to the vectors that the messages start with. -/
theorem Conn.connBuildUdpHeaders_eq {c d : Conn} (h : c.connBuildUdpHeaders = (.ok, d)) :
    (∃ n iov as, d = { c with udpHsize := n, wire := { c.wire with iov := iov, allocs := as } }) ∧
      d.wire.msgUsed ≤ d.udpHsize ∧
      ∀ i < d.wire.msgUsed, (d.wire.iov (d.wire.msg i).iov).length = udpHeaderSize := by
  obtain ⟨as, halloc⟩ : ∃ as, (if c.wire.msgUsed > c.udpHsize then c.alloc else (true, c)) =
      (true, { c with wire := { c.wire with allocs := as } }) := by
    obtain ⟨b, as, halloc, -⟩ := c.alloc_eq
    unfold connBuildUdpHeaders at h
    split_ifs at h ⊢ with hmore
    · rw [halloc] at h ⊢
      cases b with
      | false => cases h
      | true => exact ⟨as, rfl⟩
    · exact ⟨c.wire.allocs, rfl⟩
  unfold connBuildUdpHeaders at h
  rw [halloc] at h
  obtain rfl := (Prod.mk.inj h).2
  refine ⟨⟨_, _, as, rfl⟩, ?_, fun i hi => ?_⟩
  · change c.wire.msgUsed ≤ if c.wire.msgUsed > c.udpHsize then c.wire.msgUsed * 2 else c.udpHsize
    split_ifs <;> omega
  · obtain ⟨j, hj⟩ :=
      foldl_headers_mem c.wire.msg (fun i => [c.udpRid / 256, c.udpRid % 256, i / 256, i % 256,
      c.wire.msgUsed / 256, c.wire.msgUsed % 256, 0, 0].map Nat.toUInt8) _ c.wire.iov
        (List.mem_range.2 hi)
    exact (congrArg List.length hj).trans rfl

/-- There is nothing to allocate for headers that were built before. -/
theorem Conn.connBuildUdpHeaders_ok {c : Conn} (h : c.wire.msgUsed ≤ c.udpHsize) :
    ∃ d, c.connBuildUdpHeaders = (.ok, d) := by
  unfold connBuildUdpHeaders
  rw [if_neg (Nat.not_lt.2 h)]
  exact ⟨_, rfl⟩

namespace Session

variable {w v : Session} {res : Wire.SendResult}

theorem addResponse_of_used (h : 2 ≤ w.conn.wire.iovUsed) : w.addResponse = (.ok, w) :=
  if_neg fun hadd => by omega

theorem addResponse_of_mwrite (h : w.conn.state = .mwrite) : w.addResponse = (.ok, w) :=
  if_neg fun hadd => absurd (h.symm.trans hadd.1) (by decide)

/-- The simple response is added to what the connection has, and nothing else changes. -/
theorem addResponse_eq (w : Session) :
    ∃ wire, w.addResponse.2 = { w with conn := { w.conn with wire := wire } } := by
  unfold addResponse
  split_ifs
  · exact ⟨_, rfl⟩
  · exact ⟨w.conn.wire, rfl⟩

/-- A turn hands over what was prepared, or closes the connection. -/
theorem turnWrite_eq (w : Session) (res : Wire.SendResult) :
    (∃ v, w.prepared = some v ∧ w.turnWrite res = v.transmit res) ∨
      (w.prepared = none ∧ (w.turnWrite res).conn.state = .close) := by
  unfold prepared turnWrite
  generalize w.addResponse = r
  obtain ⟨_ | _, u⟩ := r
  · dsimp only
    generalize (if u.conn.udp ∧ u.conn.wire.msgCurr = 0 then u.conn.connBuildUdpHeaders
      else (.ok, u.conn)) = r
    obtain ⟨_ | _, c⟩ := r
    · exact .inl ⟨_, rfl, rfl⟩
    · exact .inr ⟨rfl, rfl⟩
  · exact .inr ⟨rfl, rfl⟩

/-- What is prepared is the reply, with headers in it. -/
theorem prepared_eq (h : w.prepared = some v) : w.addResponse.1 = .ok ∧
    (∃ n iov as, v = { w with conn := { w.conn with
      udpHsize := n, wire := { w.reply with iov := iov, allocs := as } } }) ∧
    (w.conn.udp = true → w.reply.msgCurr = 0 → v.conn.wire.msgUsed ≤ v.conn.udpHsize ∧
      ∀ i < v.conn.wire.msgUsed, (v.conn.wire.iov (v.conn.wire.msg i).iov).length =
          udpHeaderSize) := by
  obtain ⟨wire, hadd⟩ := addResponse_eq w
  unfold prepared at h
  unfold reply
  generalize w.addResponse = r at hadd h ⊢
  obtain ⟨_ | _, u⟩ := r
  · subst hadd
    dsimp only at h ⊢
    split_ifs at h with hudp
    · generalize hbuild : ({ w.conn with wire := wire } : Conn).connBuildUdpHeaders = r at h
      obtain ⟨_ | _, c⟩ := r
      · obtain rfl := Option.some.inj h
        obtain ⟨⟨n, iov, as, rfl⟩, hsize⟩ := Conn.connBuildUdpHeaders_eq hbuild
        exact ⟨rfl, ⟨n, iov, as, rfl⟩, fun _ _ => hsize⟩
      · cases h
    · obtain rfl := Option.some.inj h
      exact ⟨rfl, ⟨_, _, _, rfl⟩, fun h hcurr => absurd ⟨h, hcurr⟩ hudp⟩
  · cases h

/-- The vectors that are written to are those that the messages start with, as long as the first
message is the current one. -/
theorem mem_headerWrites {k : ℕ} (h : k ∈ w.headerWrites) :
    w.reply.msgCurr = 0 ∧ ∃ i < w.reply.msgUsed, k = (w.reply.msg i).iov := by
  unfold headerWrites at h
  unfold reply
  generalize w.addResponse = r at h ⊢
  obtain ⟨_ | _, u⟩ := r
  · dsimp only at h ⊢
    split_ifs at h with hudp
    · generalize u.conn.connBuildUdpHeaders = r at h
      obtain ⟨_ | _, c⟩ := r
      · obtain ⟨i, hi, rfl⟩ := List.mem_map.1 h
        exact ⟨hudp.2, i, List.mem_range.1 hi, rfl⟩
      · cases h
    · cases h
  · cases h

/-- Without memory no header is written. -/
theorem headerWrites_of_prepared (h : w.prepared = none) : w.headerWrites = [] := by
  unfold prepared at h
  unfold headerWrites
  generalize w.addResponse = r at h ⊢
  obtain ⟨_ | _, u⟩ := r
  · dsimp only at h ⊢
    split_ifs at h ⊢ with hudp
    · generalize u.conn.connBuildUdpHeaders = r at h ⊢
      obtain ⟨_ | _, c⟩ := r
      · cases h
      · rfl
  · rfl

/-- What is prepared does not depend on the rest of the server. -/
theorem prepared_congr {w' : Session} (h : w'.conn = w.conn) :
    w'.prepared.map conn = w.prepared.map conn := by
  obtain ⟨c, store, set, input, running, nreqs⟩ := w
  obtain ⟨c', store', set', input', running', nreqs'⟩ := w'
  obtain rfl : c' = c := h
  unfold prepared addResponse
  dsimp only
  split_ifs with hadd
  · generalize c'.connAddIovs [c'.wbuf] = r
    obtain ⟨_ | _, d⟩ := r
    · dsimp only
      generalize (if d.udp ∧ d.wire.msgCurr = 0 then d.connBuildUdpHeaders else (.ok, d)) = r
      obtain ⟨_ | _, e⟩ := r <;> rfl
    · rfl
  · dsimp only
    generalize (if c'.udp ∧ c'.wire.msgCurr = 0 then c'.connBuildUdpHeaders else (.ok, c')) = r
    obtain ⟨_ | _, e⟩ := r <;> rfl

theorem reply_congr {w' : Session} (h : w'.conn = w.conn) : w'.reply = w.reply := by
  unfold reply addResponse
  rw [h]
  split_ifs
  · rfl
  · exact congrArg Conn.wire h

/-- While a reply is sent, a step is a turn that sends, or leaves the connection alone. -/
theorem transmitting_cases {cfg : Config} {w' : Session} {l : SessionLabel}
    (hst : (session cfg).step w l = some ((), w')) (hC : Transmitting w l w') : w'.conn = w.conn ∨
      ∃ res, w' = w.turnWrite res ∧ ∀ n, res = .sent n → n = w.datagram.length := by
  cases l with
  | event n =>
    simp only [session] at hst
    split_ifs at hst
    exact .inl (by rw [← (Prod.mk.inj (Option.some.inj hst)).2])
  | world st set => exact .inl (by rw [← (Prod.mk.inj (Option.some.inj hst)).2])
  | turn io =>
    right
    simp only [session] at hst
    split_ifs at hst
    obtain ⟨u, hturn, heq⟩ := Option.map_eq_some_iff.1 hst
    obtain rfl := (Prod.mk.inj heq).2
    have hsend : ∃ res, io = .send res ∧ u = w.turnWrite res := by
      unfold turn at hturn
      rcases hC.1 with hs | hs <;> rw [hs] at hturn <;> cases io <;>
        first
        | exact ⟨_, rfl, (Option.some.inj hturn).symm⟩
        | cases hturn
    obtain ⟨res, rfl, rfl⟩ := hsend
    exact ⟨res, rfl, fun n hres => hC.2 n (by rw [hres])⟩

/-- Sending changes the messages and what the connection has to do next. -/
theorem transmit_wire (v : Session) (res : Wire.SendResult) :
    (v.transmit res).conn.wire = (v.conn.wire.coreTransmit res).2.2 ∧
        (v.transmit res).conn.udp = v.conn.udp := by
  unfold transmit
  generalize v.conn.wire.coreTransmit res = r
  obtain ⟨_ | _ | _ | _, bytes, wire⟩ := r
  · dsimp only
    split_ifs <;> exact ⟨rfl, rfl⟩
  · exact ⟨rfl, rfl⟩
  · exact ⟨rfl, rfl⟩
  · cases res <;> exact ⟨rfl, rfl⟩

/-! ### The course of a transmission -/

/-- The reply `r`, of several datagrams, is being sent.  As long as its first message is the current
one nothing has moved, except that the first message is past its vectors when it was sent. -/
structure Sending (r : Wire) (w : Session) : Prop where
  /-- The connection is a UDP connection. -/
  udp : w.conn.udp = true
  /-- The vectors are those of the reply. -/
  used : w.reply.iovUsed = r.iovUsed
  /-- The array is that of the reply. -/
  size : w.reply.iovSize = r.iovSize
  /-- The messages are those of the reply. -/
  msgUsed : w.reply.msgUsed = r.msgUsed
  /-- A message starts where it did, or behind itself. -/
  msg : w.reply.msgCurr = 0 → ∀ i < r.msgUsed,
    w.reply.msg i = r.msg i ∨ (i = 0 ∧ w.reply.msg i = ⟨(r.msg 1).iov, 0⟩)

variable {r : Wire}

/-- All headers go to the places of messages that are still to be sent. -/
theorem Sending.reserved (h : Sending r w) (hr : r.Slotted) (htwo : 2 ≤ r.msgUsed) :
    ∀ k ∈ w.headerWrites, r.Reserved w.reply k := by
  intro k hk
  obtain ⟨hcurr, i, hi, rfl⟩ := mem_headerWrites hk
  rw [h.msgUsed] at hi
  have hlater : ∀ j < r.msgUsed, j ≠ 0 → ¬ w.reply.Sent j := by
    rintro j - hj (hlt | ⟨heq, -⟩) <;> omega
  have hroom : ∀ j < r.msgUsed, (r.msg j).iov < w.reply.iovSize := by
    intro j hj
    have hlt := hr.iov_lt hj
    have hle := hr.room
    rw [h.size]
    omega
  rcases h.msg hcurr i hi with hmsg | ⟨rfl, hmsg⟩
  · rw [hmsg]
    refine ⟨hroom i hi, i, hi, rfl, ?_⟩
    rcases eq_or_ne i 0 with rfl | hne
    · rintro (hlt | ⟨-, hlen⟩)
      · omega
      · rw [hmsg] at hlen
        have := hr.pos 0 hi
        omega
    · exact hlater i hi hne
  · -- the first datagram was sent, and its header goes to the place of the second one
    rw [hmsg]
    exact ⟨hroom 1 htwo, 1, htwo, rfl, hlater 1 htwo one_ne_zero⟩

/-- A turn that sends a datagram as a whole or not at all. -/
theorem Sending.turn (h : Sending r w) (hr : r.Slotted) (htwo : 2 ≤ r.msgUsed)
    (hres : ∀ n, res = .sent n → n = w.datagram.length) :
    Sending r (w.turnWrite res) ∨ (w.turnWrite res).conn.state = .close := by
  rcases turnWrite_eq w res with ⟨v, hprep, hturn⟩ | ⟨-, hclose⟩
  · left
    obtain ⟨-, ⟨n, iov, as, hv⟩, -⟩ := prepared_eq hprep
    have hmsg : v.conn.wire.msg = w.reply.msg := by rw [hv]
    have hcurr : v.conn.wire.msgCurr = w.reply.msgCurr := by rw [hv]
    have hmsgUsed : v.conn.wire.msgUsed = r.msgUsed := by rw [hv]; exact h.msgUsed
    have hused : v.conn.wire.iovUsed = r.iovUsed := by rw [hv]; exact h.used
    have hsize : v.conn.wire.iovSize = r.iovSize := by rw [hv]; exact h.size
    have hudp : v.conn.udp = true := by rw [hv]; exact h.udp
    have hdatagram :
        w.datagram = (v.conn.wire.advance.entries v.conn.wire.advance.msgCurr).flatten := by
      rw [datagram, hprep]
    obtain ⟨hwire, hudp'⟩ := transmit_wire v res
    rw [← hturn] at hwire hudp'
    have hwhole := Wire.coreTransmit_whole v.conn.wire res (by rwa [← hdatagram])
    rw [← hwire] at hwhole
    have hadv : v.conn.wire.advance.iovUsed = v.conn.wire.iovUsed ∧
        v.conn.wire.advance.iovSize = v.conn.wire.iovSize ∧
        v.conn.wire.advance.msgUsed = v.conn.wire.msgUsed ∧
            v.conn.wire.advance.msg = v.conn.wire.msg := by
      unfold Wire.advance
      split_ifs <;> exact ⟨rfl, rfl, rfl, rfl⟩
    -- whatever `sendmsg` returns, the vectors and the messages stay where they are
    have hkept : (w.turnWrite res).conn.wire.iovUsed = r.iovUsed ∧
        (w.turnWrite res).conn.wire.iovSize = r.iovSize ∧
        (w.turnWrite res).conn.wire.msgUsed = r.msgUsed ∧
        (w.turnWrite res).conn.wire.msgCurr = v.conn.wire.advance.msgCurr := by
      rcases hwhole with heq | heq <;> rw [heq]
      · exact ⟨hadv.1.trans hused, hadv.2.1.trans hsize, hadv.2.2.1.trans hmsgUsed, rfl⟩
      · exact ⟨hadv.1.trans hused, hadv.2.1.trans hsize, hadv.2.2.1.trans hmsgUsed, rfl⟩
    obtain ⟨hsecond, hpos⟩ := hr.second htwo
    have htwice : 2 ≤ r.iovUsed := by
      have hlt := hr.iov_lt (show 1 < r.msgUsed from htwo)
      omega
    have hreply : (w.turnWrite res).reply = (w.turnWrite res).conn.wire := by
      unfold reply
      rw [addResponse_of_used (by rw [hkept.1]; exact htwice)]
    refine ⟨hudp'.trans hudp, by rw [hreply]; exact hkept.1, by rw [hreply]; exact hkept.2.1,
      by rw [hreply]; exact hkept.2.2.1, fun hzero i hi => ?_⟩
    rw [hreply] at hzero ⊢
    rw [hkept.2.2.2] at hzero
    have hvzero : v.conn.wire.msgCurr = 0 := Nat.le_zero.1 (hzero ▸ Wire.le_advance)
    have hold := h.msg (hcurr.symm.trans hvzero) i hi
    -- only the first message may have been sent, as a whole
    rcases hwhole with heq | heq <;> rw [heq]
    · rw [hadv.2.2.2, hmsg]
      exact hold
    · dsimp only
      rw [hzero, hadv.2.2.2, hmsg]
      rcases eq_or_ne i 0 with rfl | hne
      · rw [Function.update_self]
        refine .inr ⟨rfl, ?_⟩
        rcases hold with hsame | ⟨-, hpast⟩
        · rw [hsame, hsecond]
        · rw [hpast, Nat.add_zero]
      · rw [Function.update_of_ne hne]
        exact hold
  · exact .inr hclose

/-- The reply that is sent has the place of a header in each of its messages, as the messages before
had. -/
theorem reply_slotted (h : w.conn.wire.Slotted) (hudp : w.conn.udp = true)
    (hwire : w.conn.wire.udp = true) (hok : w.addResponse.1 = .ok) :
    w.reply.Slotted ∧ (w.conn.state = .write → 2 ≤ w.reply.iovUsed) := by
  have hpos : 0 < w.conn.wire.iovUsed := Nat.zero_lt_of_lt (h.iov_lt h.some)
  unfold reply
  unfold addResponse at hok ⊢
  split_ifs at hok ⊢ with hadd
  · have heq :
        w.conn.wire.connAddIovs [w.conn.wbuf] = (.ok, (w.conn.wire.connAddIovs [w.conn.wbuf]).2) :=
      Prod.ext hok rfl
    obtain ⟨hslotted, -, hmore⟩ := h.connAddIovs hwire heq
    have hlt := hmore (List.cons_ne_nil _ _)
    refine ⟨hslotted, fun _ => ?_⟩
    change 2 ≤ (w.conn.wire.connAddIovs [w.conn.wbuf]).2.iovUsed
    omega
  · refine ⟨h, fun hwrite => ?_⟩
    -- something is there besides the place of the header
    by_contra hless
    change ¬ 2 ≤ w.conn.wire.iovUsed at hless
    exact hadd ⟨hwrite, .inr ⟨hudp, by omega⟩⟩

/-- When the only datagram of a reply was sent, the next turn writes its header once more, behind
all that the reply has. -/
theorem header_behind (cfg : Config) (h : w.conn.wire.Slotted) (hudp : w.conn.udp = true)
    (hwire : w.conn.wire.udp = true) (hrun : w.running = true)
    (hstate : w.conn.state = .write ∨ w.conn.state = .mwrite) (hprep : w.prepared = some v)
    (hone : w.reply.msgUsed = 1) :
    ∃ u, (session cfg).Reaches Transmitting w u ∧ (u.conn.state = .write ∨ u.conn.state = .mwrite) ∧
      w.reply.iovUsed ∈ u.headerWrites := by
  obtain ⟨hok, ⟨n, iov, as, hv⟩, hbuilt⟩ := prepared_eq hprep
  obtain ⟨hr, htwice⟩ := reply_slotted h hudp hwire hok
  have hend : (w.reply.msg 0).iov + (w.reply.msg 0).iovlen = w.reply.iovUsed := by
    have hzero := hr.laid.iov 0 hr.some
    have hused := hr.laid.used
    rw [hone] at hused
    simp only [Wire.iovnum] at hzero hused
    omega
  obtain ⟨hsize, hheader⟩ := hbuilt hudp hr.curr
  have hmsg : v.conn.wire.msg = w.reply.msg := by rw [hv]
  have hmsgUsed : v.conn.wire.msgUsed = 1 := by rw [hv]; exact hone
  have hcurr : v.conn.wire.msgCurr = 0 := by rw [hv]; exact hr.curr
  have hvstate : v.conn.state = w.conn.state := by rw [hv]
  have hvudp : v.conn.udp = true := by rw [hv]; exact hudp
  have hused : v.conn.wire.iovUsed = w.reply.iovUsed := by rw [hv]
  have hlen : 0 < (v.conn.wire.msg v.conn.wire.msgCurr).iovlen := by
    rw [hmsg, hcurr]
    exact hr.pos 0 hr.some
  have hadv : v.conn.wire.advance = v.conn.wire := Wire.advance_of_pos hlen
  have hdatagram : w.datagram = (v.conn.wire.entries 0).flatten := by
    rw [datagram, hprep]; dsimp only; rw [hadv, hcurr]
  -- the header is a part of the datagram
  have hpos : 0 < w.datagram.length := by
    obtain ⟨k, hk⟩ : ∃ k, (v.conn.wire.msg 0).iovlen = k + 1 :=
      ⟨(v.conn.wire.msg 0).iovlen - 1, by rw [hcurr] at hlen; omega⟩
    have hfirst := hheader 0 (by omega)
    rw [hdatagram, Wire.entries, hk, Wire.vectors_cons, List.flatten_cons,
      List.length_append, hfirst]
    exact Nat.add_pos_left (by decide) _
  let u : Session := v.setConn fun c => { c with wire := v.conn.wire.sentBytes w.datagram.length }
  have hsent : (v.conn.wire.sentBytes w.datagram.length).msg 0 = ⟨w.reply.iovUsed, 0⟩ := by
    unfold Wire.sentBytes
    dsimp only
    rw [hcurr, hdatagram, Wire.entries, Wire.consume_all, Function.update_self, hmsg, hend]
  have hturn : w.turnWrite (.sent w.datagram.length) = u := by
    rcases turnWrite_eq w (.sent w.datagram.length) with ⟨v', hv', hturn⟩ | ⟨hnone, -⟩
    · obtain rfl : v = v' := Option.some.inj (hprep.symm.trans hv')
      rw [hturn]
      unfold transmit Wire.coreTransmit
      dsimp only
      rw [hadv, if_pos (by rw [hcurr, hmsgUsed]; exact Nat.one_pos), if_pos hpos]
    · rw [hprep] at hnone
      cases hnone
  refine ⟨u, .tail (l := .turn (.send (.sent w.datagram.length))) (r := ()) .refl ?_ ⟨hstate, ?_⟩,
    ?_, ?_⟩
  · simp only [session]
    rw [if_pos hrun]
    rcases hstate with hs | hs <;> simp only [Session.turn, hs, hturn, Option.map_some]
  · rintro k hk
    cases hk
    rfl
  · rw [← hvstate] at hstate
    exact hstate
  · have hadd : u.addResponse = (.ok, u) := by
      rcases hstate with hs | hs
      · exact addResponse_of_used (by
          change 2 ≤ v.conn.wire.iovUsed
          rw [hused]
          exact htwice hs)
      · exact addResponse_of_mwrite (hvstate.trans hs)
    obtain ⟨d, hd⟩ := Conn.connBuildUdpHeaders_ok (c := u.conn) hsize
    unfold headerWrites
    rw [hadd]
    dsimp only
    rw [if_pos ⟨hvudp, hcurr⟩, hd]
    refine List.mem_map.2 ⟨0, List.mem_range.2 ?_, congrArg Msghdr.iov hsent⟩
    change 0 < v.conn.wire.msgUsed
    omega

end Session

/-! ### Where replies come from -/

namespace Wire

variable {c c' : Wire}

/-- The messages of a datagram connection when no allocation has failed or is going to. -/
structure Whole (c : Wire) : Prop extends Slotted c where
  /-- The connection is a UDP connection. -/
  udp : c.udp = true
  /-- No allocation fails. -/
  fails : c.fails = 0

theorem Whole.of_ample (h : c.Whole) (hsame : c'.ample = c.ample) (hfails : c'.fails ≤ c.fails) :
    c'.Whole := by
  have hudp : c'.udp = c.udp := (congrArg Wire.udp hsame :)
  have hmsg : c'.msg = c.msg := (congrArg Wire.msg hsame :)
  have hmsgUsed : c'.msgUsed = c.msgUsed := (congrArg Wire.msgUsed hsame :)
  have hcurr : c'.msgCurr = c.msgCurr := (congrArg Wire.msgCurr hsame :)
  have hused : c'.iovUsed = c.iovUsed := (congrArg Wire.iovUsed hsame :)
  have hsize : c'.iovSize = c.iovSize := (congrArg Wire.iovSize hsame :)
  refine ⟨⟨⟨⟨?_, ?_⟩, ?_, ?_, ?_, ?_⟩, ?_⟩, hudp.trans h.udp, Nat.le_zero.1 (h.fails ▸ hfails)⟩
  · rw [hmsg, hmsgUsed]
    exact h.laid.iov
  · rw [hused, hmsg, hmsgUsed]
    exact h.laid.used
  · rw [hmsg, hmsgUsed]
    exact h.pos
  · rw [hused, hsize]
    exact h.room
  · rw [hsize]
    exact h.size
  · rw [hcurr]
    exact h.curr
  · rw [hmsgUsed]
    exact h.some

theorem Whole.connAddIovs (h : c.Whole) (bufs : List (List UInt8)) :
    ∃ c', c.connAddIovs bufs = (.ok, c') ∧ c'.Whole := by
  generalize hadd : c.connAddIovs bufs = r
  obtain ⟨_ | _, d⟩ := r
  · obtain ⟨hd, hudp, -⟩ := h.toSlotted.connAddIovs h.udp hadd
    exact ⟨d, rfl, hd, hudp, Nat.le_zero.1 (h.fails ▸ (fails_connAddIovs hadd).1)⟩
  · have hlt := (fails_connAddIovs hadd).2 rfl
    rw [h.fails] at hlt
    exact absurd hlt (Nat.not_lt_zero _)

end Wire

namespace Conn

variable {cfg : Config} {c c' : Conn} {iter : ℕ} {it : Item} {returnCas : Bool}

/-- The value of an item is added. -/
theorem ascRespondGet_whole {st : Rstatus} (hc : c.wire.Whole)
    (h : c.ascRespondGet cfg iter it returnCas = (st, c')) : c'.wire.Whole := by
  obtain ⟨wire, hfirst, hwhole⟩ := hc.connAddIovs [ascii "VALUE ", it.key]
  unfold ascRespondGet connAddIovs at h
  rw [hfirst] at h
  dsimp only at h
  generalize hsuffix : ascCreateSuffix _ _ = r at h
  obtain ⟨_ | suffix, d⟩ := r
  · obtain ⟨hsame, -, hle, -⟩ := ascCreateSuffix_ample hsuffix
    obtain ⟨-, rfl⟩ := Prod.mk.inj h
    exact hwhole.of_ample hsame hle
  · obtain ⟨hsame, -, hle, -⟩ := ascCreateSuffix_ample hsuffix
    obtain ⟨wire', hlast, hwhole'⟩ := (hwhole.of_ample hsame hle).connAddIovs
      [suffixText it returnCas, crlf, it.value cfg, crlf]
    simp only [hlast] at h
    obtain ⟨-, rfl⟩ := Prod.mk.inj h
    exact hwhole'

/-- The headers are written. -/
theorem connBuildUdpHeaders_whole {st : Rstatus} (hc : c.wire.Whole)
    (h : c.connBuildUdpHeaders = (st, c')) :
    c'.wire.Whole := by
  have hquiet : ∃ iov as, c'.wire = { c.wire with iov := iov, allocs := as } ∧
      as.count false ≤ c.wire.fails := by
    obtain ⟨b, as, halloc, hcount⟩ := c.alloc_eq
    unfold connBuildUdpHeaders at h
    split_ifs at h
    · rw [halloc] at h
      cases b with
      | false =>
        obtain rfl := (Prod.mk.inj h).2
        exact ⟨_, as, rfl, Nat.le_of_succ_le hcount⟩
      | true =>
        obtain rfl := (Prod.mk.inj h).2
        exact ⟨_, as, rfl, hcount⟩
    · obtain rfl := (Prod.mk.inj h).2
      exact ⟨_, c.wire.allocs, rfl, le_rfl⟩
  obtain ⟨iov, as, heq, hcount⟩ := hquiet
  rw [heq]
  exact ⟨⟨⟨⟨hc.laid.iov, hc.laid.used⟩, hc.pos, hc.room, hc.size, hc.curr⟩, hc.some⟩, hc.udp,
    Nat.le_zero.1 (hc.fails ▸ hcount)⟩

end Conn

section

variable {cfg : Config} {returnCas : Bool} {x y : Serving} {w w' : Session}

/-- The loop of `get` adds to the messages. -/
theorem Serving.whole_step {l : ServeLabel} (hx : x.session.conn.wire.Whole)
    (h : (serving cfg returnCas).step x l = some ((), y)) : y.session.conn.wire.Whole := by
  have hgrow' := x.session.conn.growIlist_eq x.iter
  rcases serving_cases h with ⟨u, rfl, rfl⟩ | ⟨key, keys, -, -, hcases⟩
  · exact hx
  · rcases hcases with ⟨st, -, rfl⟩ | ⟨it, st, c, -, hgrow, rfl⟩ | ⟨it, st, c, c', -, hgrow,
      hresp, rfl⟩ |
      ⟨it, st, c, c', -, hgrow, hresp, rfl⟩
    · exact hx
    all_goals
      obtain ⟨b, n, as, heq, hcount⟩ := hgrow'
      rw [hgrow] at heq
      obtain ⟨rfl, rfl⟩ := Prod.mk.inj heq
      have hc : ({ x.session.conn.wire with allocs := as } : Wire).Whole :=
        hx.of_ample rfl (Nat.le_of_add_right_le hcount)
    · exact hc
    · change (Conn.ascRsp c' .serverError).wire.Whole
      rw [Conn.ascRsp_wire]
      exact Conn.ascRespondGet_whole hc hresp
    · have hc' : c'.wire.Whole := Conn.ascRespondGet_whole hc hresp
      exact hc'

theorem Session.finishRead_whole (hw : w.conn.wire.Whole) (iter : ℕ) :
    (w.finishRead iter).conn.wire.Whole := by
  obtain ⟨wire, hadd, hwhole⟩ := hw.connAddIovs [ascii "END" ++ crlf]
  unfold finishRead Conn.connAddIovs setConn
  dsimp only
  rw [hadd]
  dsimp only
  split_ifs
  · generalize hbuild : Conn.connBuildUdpHeaders _ = r
    obtain ⟨st, c⟩ := r
    have hc := Conn.connBuildUdpHeaders_whole hwhole hbuild
    cases st with
    | ok => exact ⟨⟨⟨⟨hc.laid.iov, hc.laid.used⟩, hc.pos, hc.room, hc.size, rfl⟩, hc.some⟩,
        hc.udp, hc.fails⟩
    | enomem =>
      change (Conn.ascRsp _ _).wire.Whole
      rw [Conn.ascRsp_wire]
      exact hc
  · exact ⟨⟨⟨⟨hwhole.laid.iov, hwhole.laid.used⟩, hwhole.pos, hwhole.room, hwhole.size, rfl⟩,
      hwhole.some⟩, hwhole.udp, hwhole.fails⟩

/-- A storage command leaves the messages alone. -/
theorem Session.allocItem_wire (ch : Choice) (key : Key) (dataflags exptime vlen : ℕ)
    (casId : Option ℕ) :
    (w.allocItem cfg ch key dataflags exptime vlen casId).conn.wire = w.conn.wire := by
  unfold allocItem
  generalize w.store.itemAlloc cfg ch _ key dataflags exptime vlen = r
  obtain ⟨_ | it, st⟩ := r
  · exact Conn.ascRsp_wire _ _
  · rfl

/-- **A request is answered in messages that all have the place of a header**, if no allocation
fails. -/
theorem dispatch_whole {e : Session.Circumstances} {line req : List UInt8} (hsized : w.conn.Sized)
    (hudp : w.conn.udp = true) (hfails : w.conn.wire.fails = 0)
    (h : w.dispatch cfg e line req = some w') :
    w'.conn.wire.Whole := by
  let c₀ : Wire := { w.conn.wire with msgCurr := 0, msgUsed := 0, iovUsed := 0 }
  have hrowed : c₀.Rowed 0 :=
    ⟨⟨fun _ hi => absurd hi (Nat.not_lt_zero _), rfl⟩, fun _ hi => absurd hi (Nat.not_lt_zero _),
    Nat.zero_le _, Nat.zero_lt_of_lt hsized.iovSize, rfl⟩
  obtain ⟨wire, hwire, -, -, hallocs⟩ :=
    Wire.connAddMsghdr_blank w.conn.wire hsized.msgSize hsized.iovSize
  obtain ⟨hslotted, -, hwudp⟩ := hrowed.connAddMsghdr (hsized.udp.trans hudp) hwire
  -- the header of the reply is reserved before the command is looked at
  have hwhole : wire.Whole := ⟨hslotted, hwudp, by rw [Wire.fails, hallocs]; exact hfails⟩
  rw [Session.dispatch_ok hwire] at h
  have hstart : (w.handled cfg e line req wire).conn.wire.Whole := hwhole
  generalize hcmd : (ascDispatch cfg w.set e.stack req w.conn.noreply).1 = cmd at h
  generalize w.handled cfg e line req wire = v at h hstart
  cases cmd with
  | read returnCas =>
    -- a retrieval adds messages in its loop, each with its own place
    obtain ⟨x, hreach, hends⟩ := readLoop_serving (Session.filled_keys hcmd) h
    have hx : x.session.conn.wire.Whole :=
      hreach.invariant (I := fun x => x.session.conn.wire.Whole) hstart fun _ _ _ _ hI hst _ =>
        Serving.whole_step hI hst
    rcases hends with ⟨-, rfl⟩ | ⟨key, keys, -, -, rfl⟩
    · exact Session.finishRead_whole hx x.iter
    · change (Conn.ascRsp _ _).wire.Whole
      rwa [Conn.ascRsp_wire]
  | stats sub =>
    obtain rfl := Option.some.inj h
    unfold Session.setConn Conn.coreWriteAndFree
    cases e.stats with
    | none => simpa using hstart
    | some buf => exact hstart
  | update type key dataflags exptime vlen casId =>
    obtain rfl := Option.some.inj h
    rwa [Session.allocItem_wire]
  | annex type key vlen =>
    obtain rfl := Option.some.inj h
    rwa [Session.allocItem_wire]
  | configure s =>
    obtain rfl := Option.some.inj h
    change (Conn.ascRsp _ _).wire.Whole
    rwa [Conn.ascRsp_wire, Session.applySetting_conn]
  | _ =>
    obtain rfl := Option.some.inj h
    first
    | exact hstart
    | change (Conn.ascRsp _ _).wire.Whole
      rwa [Conn.ascRsp_wire]

end

/-! ### The whole transmission -/

/-- **The headers of a reply are written to the places that are reserved for them**, all the time it
is sent, exactly if it has more than one datagram, or there is no memory to begin with it. -/
theorem headers_reserved (cfg : Config) (w₀ : Session) (h : w₀.conn.wire.Slotted)
    (hudp : w₀.conn.udp = true) (hwire : w₀.conn.wire.udp = true) (hrun : w₀.running = true)
    (hstate : w₀.conn.state = .write ∨ w₀.conn.state = .mwrite) :
    w₀.HeadersReserved cfg ↔ w₀.prepared = none ∨ 2 ≤ w₀.reply.msgUsed := by
  constructor
  · intro hres
    by_contra hnot
    obtain ⟨hprep, hless⟩ := not_or.1 hnot
    obtain ⟨v, hv⟩ := Option.ne_none_iff_exists'.1 hprep
    obtain ⟨hok, -⟩ := Session.prepared_eq hv
    obtain ⟨hr, -⟩ := Session.reply_slotted h hudp hwire hok
    have hone : w₀.reply.msgUsed = 1 := by
      have := hr.some
      omega
    obtain ⟨u, hu, hustate, hmem⟩ := Session.header_behind cfg h hudp hwire hrun hstate hv hone
    -- the place of the only header is the first vector
    obtain ⟨-, j, hj, heq, -⟩ := hres u hu hustate _ hmem
    have := hr.iov_lt hj
    omega
  · intro hcases w hw hwstate
    rcases hprep : w₀.prepared with _ | v
    · -- nothing is written in the first turn, and it is the last one
      have hinv : w.prepared = none ∨ w.conn.state = .close := by
        refine hw.invariant (I := fun w => w.prepared = none ∨ w.conn.state = .close) (.inl hprep)
          fun u l _ u' hI hst hC => ?_
        have hu := hI.resolve_right fun hclose => by
          rcases hC.1 with hs | hs <;> cases hs.symm.trans hclose
        rcases Session.transmitting_cases hst hC with hsame | ⟨res, rfl, -⟩
        · left
          have hmap := Session.prepared_congr hsame
          rw [hu, Option.map_none] at hmap
          exact Option.map_eq_none_iff.1 hmap
        · right
          rcases Session.turnWrite_eq u res with ⟨v, hv, -⟩ | ⟨-, hclose⟩
          · rw [hu] at hv
            cases hv
          · exact hclose
      have hu := hinv.resolve_right fun hclose => by
        rcases hwstate with hs | hs <;> cases hs.symm.trans hclose
      rw [Session.headerWrites_of_prepared hu]
      nofun
    · obtain ⟨hok, -⟩ := Session.prepared_eq hprep
      obtain ⟨hr, -⟩ := Session.reply_slotted h hudp hwire hok
      have htwo : 2 ≤ w₀.reply.msgUsed := hcases.resolve_left (by rw [hprep]; nofun)
      have hstart : Session.Sending w₀.reply w₀ := ⟨hudp, rfl, rfl, rfl, fun _ _ _ => .inl rfl⟩
      have hinv : Session.Sending w₀.reply w ∨ w.conn.state = .close := by
        refine hw.invariant (I := fun w => Session.Sending w₀.reply w ∨ w.conn.state = .close)
          (.inl hstart)
          fun u l _ u' hI hst hC => ?_
        have hu := hI.resolve_right fun hclose => by
          rcases hC.1 with hs | hs <;> cases hs.symm.trans hclose
        rcases Session.transmitting_cases hst hC with hsame | ⟨res, rfl, hres⟩
        · have hreply := Session.reply_congr hsame
          refine .inl ⟨by rw [hsame]; exact hu.udp, ?_, ?_, ?_, ?_⟩ <;> rw [hreply]
          exacts [hu.used, hu.size, hu.msgUsed, hu.msg]
        · exact hu.turn hr htwo hres
      have hu := hinv.resolve_right fun hclose => by
        rcases hwstate with hs | hs <;> cases hs.symm.trans hclose
      exact hu.reserved hr htwo

/-- Two datagrams, each with one vector besides its header, are to be sent. -/
def Session.twoDatagrams : Session :=
  let fresh := Session.fresh .tiny (.initial fun _ => 0)
  { fresh with conn := { fresh.conn with
    udp := true
    state := .mwrite
    wire := { Wire.empty true iovSize msgSize (fun _ => List.replicate 8 120)
        (fun i => ⟨2 * i, 2⟩) [] with
      iovUsed := 4, msgUsed := 2 } } }

theorem headers_reserved_two : Session.twoDatagrams.HeadersReserved .tiny :=
  (headers_reserved .tiny Session.twoDatagrams
    ⟨⟨⟨by decide, rfl⟩, by decide, by decide, by decide, rfl⟩, by decide⟩ rfl rfl rfl (.inr rfl)).2
    (.inr (by decide))

/-- A datagram connection to a server that has `a`. -/
def Session.tinyDatagram : Session :=
  let fresh := Session.fresh .tiny (.initial fun _ => 0)
  { fresh with
    conn := .init true (fun _ => 0) (fun _ => ⟨0, 0⟩) (fun _ => 0) (fun _ => [])
      (fun _ => ⟨0, 0⟩) []
    store := (Server.tinyStored evictLru).store }

/-- A `get` of 13 keys that are found fills an array of 80 vectors with one datagram, and after that
was sent its header is written behind the array. -/
theorem headers_overflow : ∃ w', Session.tinyDatagram.dispatch .tiny { fuel := 13 } []
      (ascii "get a a a a a a a a a a a a a") = some w' ∧
    w'.conn.wire.iovSize = 80 ∧ ¬ w'.HeadersReserved .tiny := by
  have hrun :
      (Session.tinyDatagram.dispatch .tiny { fuel := 13 } []
      (ascii "get a a a a a a a a a a a a a")).map
      (fun w => ((w.conn.wire.iovSize, w.running, w.conn.state),
        (w.turnWrite (.sent w.datagram.length)).conn.state,
        (w.turnWrite (.sent w.datagram.length)).conn.wire.iovSize,
        (w.turnWrite (.sent w.datagram.length)).headerWrites)) =
      some ((80, true, .mwrite), .mwrite, 80, [80]) := by
    decide +kernel
  obtain ⟨w', hw', heq⟩ := Option.map_eq_some_iff.1 hrun
  obtain ⟨hsize, hrunning, hstate, hstate', hsize', hwrites⟩ : w'.conn.wire.iovSize = 80 ∧
      w'.running = true ∧
      w'.conn.state = .mwrite ∧ (w'.turnWrite (.sent w'.datagram.length)).conn.state = .mwrite ∧
      (w'.turnWrite (.sent w'.datagram.length)).conn.wire.iovSize = 80 ∧
      (w'.turnWrite (.sent w'.datagram.length)).headerWrites = [80] := by
    simpa [and_assoc] using heq
  refine ⟨w', hw', hsize, fun hres => ?_⟩
  have hstep : (session .tiny).step w' (.turn (.send (.sent w'.datagram.length))) =
      some ((), w'.turnWrite (.sent w'.datagram.length)) := by
    simp only [session]
    rw [if_pos hrunning]
    simp only [Session.turn, hstate, Option.map_some]
  have hreach :
      (session .tiny).Reaches Session.Transmitting w' (w'.turnWrite (.sent w'.datagram.length)) :=
    .tail .refl hstep ⟨.inr hstate, fun n hn => by cases hn; rfl⟩
  obtain ⟨hlt, -⟩ :=
    hres _ hreach (.inr hstate') 80 (by rw [hwrites]; exact List.mem_singleton_self 80)
  rw [Session.reply, Session.addResponse_of_mwrite hstate', hsize'] at hlt
  exact absurd hlt (Nat.lt_irrefl 80)

end Twemcache
