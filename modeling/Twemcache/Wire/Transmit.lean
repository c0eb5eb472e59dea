import Twemcache.Wire.Build

/-!
# Messages are sent right

Whatever the socket takes of a message at a time, what was handed to it and what is left are
together the bytes of the messages (`Sender.Inv.step`), so a reply arrives as it was built
(`reply_exact`).
-/

namespace Twemcache

namespace Wire

variable {c : Wire} {iov : ℕ → List UInt8} {i n res : ℕ} {bytes : List UInt8}

/-- What is left of the messages. -/
def unsent (c : Wire) : List UInt8 := (c.messages.drop c.msgCurr).flatten.flatten

/-! ### One message -/

/-- The loop leaves what is to be sent, up to the beginning of the first vector. -/
theorem consume_spec (h : res ≤ (vectors iov i n).flatten.length) :
    (consume iov n i res).1.iov + (consume iov n i res).1.iovlen = i + n ∧
      i ≤ (consume iov n i res).1.iov ∧
      (0 < (consume iov n i res).2 → 0 < (consume iov n i res).1.iovlen ∧
        (consume iov n i res).2 < (iov (consume iov n i res).1.iov).length) ∧
      (vectors iov i n).flatten.drop res = (vectors iov (consume iov n i res).1.iov
        (consume iov n i res).1.iovlen).flatten.drop (consume iov n i res).2 := by
  induction n generalizing i res with
  | zero =>
    obtain rfl : res = 0 := by simpa [vectors] using h
    exact ⟨rfl, le_rfl, fun h => absurd h (Nat.lt_irrefl 0), rfl⟩
  | succ n ih =>
    rw [vectors_cons, List.flatten_cons, List.length_append] at h
    rw [consume]
    split_ifs with hge
    · have hrest : res - (iov i).length ≤ (vectors iov (i + 1) n).flatten.length := by omega
      obtain ⟨h1, h2, h3, h4⟩ := ih hrest
      refine ⟨by omega, by omega, h3, ?_⟩
      rw [← h4, vectors_cons, List.flatten_cons, List.drop_append,
        List.drop_of_length_le hge, List.nil_append]
    · exact ⟨rfl, le_rfl, fun _ => ⟨Nat.succ_pos n, Nat.lt_of_not_ge hge⟩, rfl⟩

/-- The loop stops at a vector with bytes that were not sent. -/
theorem consume_rest : (consume iov n i res).1.iovlen = 0 ∨
    (consume iov n i res).2 < (iov (consume iov n i res).1.iov).length := by
  induction n generalizing i res with
  | zero => exact .inl rfl
  | succ n ih =>
    rw [consume]
    split_ifs with hge
    · exact ih
    · exact .inr (Nat.lt_of_not_ge hge)

/-- The messages to come lie behind one another. -/
structure Ready (c : Wire) : Prop where
  /-- The current message exists, or all were sent. -/
  curr : c.msgCurr ≤ c.msgUsed
  /-- A message ends before those after it. -/
  apart : ∀ i j, c.msgCurr ≤ i → i < j → j < c.msgUsed →
    (c.msg i).iov + (c.msg i).iovlen ≤ (c.msg j).iov

theorem unsent_of_lt (h : c.msgCurr < c.msgUsed) : c.unsent = (c.entries c.msgCurr).flatten ++
    (c.messages.drop (c.msgCurr + 1)).flatten.flatten := by
  have hlen : c.msgCurr < c.messages.length := by simpa [messages] using h
  rw [unsent, List.drop_eq_getElem_cons hlen, List.flatten_cons, List.flatten_append]
  simp [messages]

theorem unsent_advance : c.advance.unsent = c.unsent := by
  unfold advance
  split_ifs with h
  · rw [unsent_of_lt h.1]
    have hnil : c.entries c.msgCurr = [] := by
      rw [entries, h.2]
      rfl
    rw [hnil]
    rfl
  · rfl

theorem Ready.advance (h : c.Ready) : c.advance.Ready := by
  unfold Wire.advance
  split_ifs with hlt
  · exact ⟨hlt.1, fun i j hi => h.apart i j (Nat.le_of_succ_le hi)⟩
  · exact h

theorem sentBytes_msg : (c.sentBytes n).msg = Function.update c.msg c.msgCurr
    (consume c.iov (c.msg c.msgCurr).iovlen (c.msg c.msgCurr).iov n).1 := rfl

/-- Of the current message the bytes that were sent are gone. -/
theorem entries_sentBytes (hn : n ≤ (c.entries c.msgCurr).flatten.length) :
    ((c.sentBytes n).entries c.msgCurr).flatten = (c.entries c.msgCurr).flatten.drop n := by
  obtain ⟨-, -, hpart, hdrop⟩ := consume_spec hn
  have hiov : (c.sentBytes n).iov =
      if (consume c.iov (c.msg c.msgCurr).iovlen (c.msg c.msgCurr).iov n).2 > 0 then
        Function.update c.iov (consume c.iov (c.msg c.msgCurr).iovlen (c.msg c.msgCurr).iov n).1.iov
          ((c.iov (consume c.iov (c.msg c.msgCurr).iovlen (c.msg c.msgCurr).iov n).1.iov).drop
            (consume c.iov (c.msg c.msgCurr).iovlen (c.msg c.msgCurr).iov n).2)
      else c.iov := rfl
  rw [entries, sentBytes_msg, Function.update_self, hiov,
    show (c.entries c.msgCurr).flatten.drop n = _ from hdrop]
  generalize consume c.iov (c.msg c.msgCurr).iovlen (c.msg c.msgCurr).iov n = r at hpart ⊢
  obtain ⟨⟨i', len'⟩, rest⟩ := r
  simp only at hpart ⊢
  split_ifs with hrest
  · obtain ⟨hpos, hlen⟩ := hpart hrest
    obtain ⟨k, rfl⟩ := Nat.exists_eq_add_of_lt hpos
    rw [Nat.zero_add, vectors_cons, vectors_cons, Function.update_self,
      vectors_update (.inl (Nat.lt_succ_self _)), List.flatten_cons, List.flatten_cons,
      List.drop_append_of_le_length hlen.le]
  · rw [show rest = 0 by omega, List.drop_zero]

/-- The messages after the current one do not notice. -/
theorem entries_sentBytes_of_lt (h : c.Ready) (hn : n ≤ (c.entries c.msgCurr).flatten.length)
    (hi : c.msgCurr < i) (hlt : i < c.msgUsed) : (c.sentBytes n).entries i = c.entries i := by
  obtain ⟨hend, -, hpart, -⟩ := consume_spec hn
  have hiov : (c.sentBytes n).iov =
      if (consume c.iov (c.msg c.msgCurr).iovlen (c.msg c.msgCurr).iov n).2 > 0 then
        Function.update c.iov (consume c.iov (c.msg c.msgCurr).iovlen (c.msg c.msgCurr).iov n).1.iov
          ((c.iov (consume c.iov (c.msg c.msgCurr).iovlen (c.msg c.msgCurr).iov n).1.iov).drop
            (consume c.iov (c.msg c.msgCurr).iovlen (c.msg c.msgCurr).iov n).2)
      else c.iov := rfl
  have hapart := h.apart c.msgCurr i le_rfl hi hlt
  rw [entries, entries, sentBytes_msg, Function.update_of_ne (by omega), hiov]
  generalize consume c.iov (c.msg c.msgCurr).iovlen (c.msg c.msgCurr).iov n = r at hend hpart ⊢
  split_ifs with hrest
  · refine vectors_update (.inl ?_)
    have := (hpart hrest).1
    omega
  · rfl

theorem Ready.sentBytes (h : c.Ready) (hlt : c.msgCurr < c.msgUsed)
    (hn : n ≤ (c.entries c.msgCurr).flatten.length) : (c.sentBytes n).Ready ∧
      c.unsent = (c.entries c.msgCurr).flatten.take n ++ (c.sentBytes n).unsent := by
  obtain ⟨hend, -, -, -⟩ := consume_spec hn
  refine ⟨⟨h.curr, fun i j hi hij hj => ?_⟩, ?_⟩
  · change c.msgCurr ≤ i at hi
    have hne : j ≠ c.msgCurr := by omega
    rw [sentBytes_msg, Function.update_of_ne hne]
    rcases Nat.eq_or_lt_of_le hi with heq | hlt'
    · obtain rfl : i = c.msgCurr := heq.symm
      rw [Function.update_self]
      exact hend.le.trans (h.apart _ _ le_rfl hij hj)
    · rw [Function.update_of_ne (by omega)]
      exact h.apart i j hi hij hj
  · have hafter : (c.sentBytes n).messages.drop (c.msgCurr + 1) =
        c.messages.drop (c.msgCurr + 1) := by
      rw [messages, messages, ← List.map_drop, ← List.map_drop]
      refine List.map_congr_left fun j hj => ?_
      obtain ⟨k, hk, rfl⟩ := List.mem_iff_getElem.1 hj
      rw [List.length_drop, List.length_range] at hk
      rw [List.getElem_drop, List.getElem_range]
      change k < c.msgUsed - (c.msgCurr + 1) at hk
      exact entries_sentBytes_of_lt h hn (by omega) (by omega)
    rw [unsent_of_lt hlt,
      unsent_of_lt (show (c.sentBytes n).msgCurr < (c.sentBytes n).msgUsed from hlt),
      ← List.append_assoc]
    change _ = (c.entries c.msgCurr).flatten.take n ++
      ((c.sentBytes n).entries c.msgCurr).flatten ++
      ((c.sentBytes n).messages.drop (c.msgCurr + 1)).flatten.flatten
    rw [entries_sentBytes hn, hafter, List.take_append_drop]

/-! ### Bytes to send -/

/-- Every message to come has bytes, the current one unless it is finished. -/
def Stocked (c : Wire) : Prop :=
  ∀ i, c.msgCurr ≤ i → i < c.msgUsed → (c.entries i).flatten ≠ [] ∨
    i = c.msgCurr ∧ (c.msg i).iovlen = 0

theorem Stocked.advance (h : c.Stocked) {i : ℕ} (hi : c.advance.msgCurr ≤ i)
    (hlt : i < c.advance.msgUsed) : (c.advance.entries i).flatten ≠ [] := by
  unfold Wire.advance at hi hlt ⊢
  split_ifs at hi hlt ⊢ with hdone
  · change c.msgCurr + 1 ≤ i at hi
    exact (h i (by omega) hlt).resolve_right fun hcurr => by omega
  · refine (h i hi hlt).resolve_right ?_
    rintro ⟨rfl, hzero⟩
    exact hdone ⟨hlt, hzero⟩

/-- A message that was sent in part has bytes left, or is finished. -/
theorem Stocked.sentBytes (hr : c.Ready) (hn : n ≤ (c.entries c.msgCurr).flatten.length)
    (h : ∀ i, c.msgCurr ≤ i → i < c.msgUsed → (c.entries i).flatten ≠ []) :
    (c.sentBytes n).Stocked := by
  intro i hi hi'
  change c.msgCurr ≤ i at hi
  change i < c.msgUsed at hi'
  rcases Nat.eq_or_lt_of_le hi with rfl | hgt
  · refine or_iff_not_imp_right.2 fun hleft => ?_
    have hmsg : (c.sentBytes n).msg c.msgCurr =
        (consume c.iov (c.msg c.msgCurr).iovlen (c.msg c.msgCurr).iov n).1 :=
          Function.update_self ..
    have hlen : ((c.sentBytes n).msg c.msgCurr).iovlen ≠ 0 := fun hzero => hleft ⟨rfl, hzero⟩
    rw [hmsg] at hlen
    have hrest := consume_rest.resolve_left hlen
    rw [entries_sentBytes hn, show (c.entries c.msgCurr).flatten.drop n = _ from
      (consume_spec hn).2.2.2]
    obtain ⟨k, hk⟩ := Nat.exists_eq_succ_of_ne_zero hlen
    rw [hk, vectors_cons, List.flatten_cons, List.drop_append_of_le_length hrest.le]
    intro hnil
    have hlength := congrArg List.length (List.append_eq_nil_iff.1 hnil).1
    rw [List.length_drop, List.length_nil] at hlength
    omega
  · refine .inl ?_
    rw [entries_sentBytes_of_lt hr hn hgt hi']
    exact h i hi hi'

/-- The messages of a reply can be sent. -/
theorem Open.ready {udp : Bool} (h : c.Open udp bytes) : c.Ready where
  curr := by
    rw [h.curr]
    exact Nat.zero_le _
  apart := fun i j _ hij hj => by
    rw [h.laid.iov i (by omega), h.laid.iov j hj]
    exact iovnum_mono (show i + 1 ≤ j from hij)

theorem Open.stocked {udp : Bool} (h : c.Open udp bytes)
    (hM : ∀ m ∈ c.messages, m.flatten ≠ [] ∨ m = [] ∧ c.messages = [m]) : c.Stocked := by
  intro i hi hlt
  have hmem : c.entries i ∈ c.messages :=
    List.mem_map_of_mem (List.mem_range.2 hlt)
  refine (hM _ hmem).imp_right ?_
  rintro ⟨hnil, hone⟩
  have hused : c.msgUsed = 1 := by simpa [messages] using congrArg List.length hone
  refine ⟨by rw [h.curr]; omega, ?_⟩
  simpa [entries] using congrArg List.length hnil

theorem Open.unsent (h : c.Open false bytes) : c.unsent = bytes := by
  have hpay := h.payload
  rw [Wire.payload, h.udp_eq] at hpay
  rw [← hpay, Wire.unsent, h.curr, List.drop_zero, List.flatten_flatten]
  rfl

end Wire

namespace Sender

open Wire

variable {x x' : Sender} {res : SendResult} {r : TransmitResult} {bytes : List UInt8}

/-- The bytes of the current message that were not sent. -/
def left (x : Sender) : ℕ :=
  if x.wire.advance.msgCurr < x.wire.advance.msgUsed then
    (x.wire.advance.entries x.wire.advance.msgCurr).flatten.length
  else 0

/-- What was sent and what is left are the reply. -/
structure Inv (x : Sender) (bytes : List UInt8) : Prop where
  /-- The messages that are left can be sent. -/
  ready : x.wire.Ready
  /-- Nothing is lost. -/
  exact : x.sent ++ x.wire.unsent = bytes

/-- A call either hands over a part of the current message, or nothing. -/
theorem step_cases (hs : sender.step x res = some (r, x')) :
    (∃ n, res = .sent n ∧ r = .incomplete ∧ x.wire.advance.msgCurr < x.wire.advance.msgUsed ∧
      1 ≤ n ∧ n ≤ (x.wire.advance.entries x.wire.advance.msgCurr).flatten.length ∧
      x' = ⟨x.wire.advance.sentBytes n,
        x.sent ++ (x.wire.advance.entries x.wire.advance.msgCurr).flatten.take n⟩) ∨
    (x' = ⟨x.wire.advance, x.sent⟩ ∧
      (r = .complete ∧ x.wire.advance.msgUsed ≤ x.wire.advance.msgCurr ∨
        r ≠ .complete ∧ ∃ updated, res = .eagain updated)) := by
  simp only [sender] at hs
  split_ifs at hs with hadm
  obtain ⟨rfl, rfl⟩ := Prod.mk.inj (Option.some.inj hs)
  simp only [coreTransmit]
  by_cases hlt : x.wire.advance.msgCurr < x.wire.advance.msgUsed
  · rw [if_pos hlt]
    have hadm' : x.wire.advance.admits res = true := by
      by_contra hno
      exact hadm ⟨hlt, hno⟩
    cases res with
    | sent n =>
      simp only [admits, decide_eq_true_eq] at hadm'
      left
      refine ⟨n, rfl, ?_⟩
      simp only [if_pos (show n > 0 from hadm'.1)]
      exact ⟨trivial, hlt, hadm'.1, hadm'.2, trivial⟩
    | eagain updated =>
      right
      cases updated <;> exact ⟨by rw [List.append_nil], .inr ⟨nofun, _, rfl⟩⟩
    | error => cases hadm'
  · right
    rw [if_neg hlt]
    exact ⟨by rw [List.append_nil], .inl ⟨rfl, Nat.le_of_not_lt hlt⟩⟩

theorem Inv.step (h : x.Inv bytes) (hs : sender.step x res = some (r, x')) : x'.Inv bytes := by
  have hready := h.ready.advance
  have hexact : x.sent ++ x.wire.advance.unsent = bytes := by
    rw [unsent_advance]
    exact h.exact
  obtain ⟨n, -, -, hlt, -, hn, rfl⟩ | ⟨rfl, -⟩ := step_cases hs
  · obtain ⟨hready', hun⟩ := hready.sentBytes hlt hn
    refine ⟨hready', ?_⟩
    rw [List.append_assoc, ← hun]
    exact hexact
  · exact ⟨hready, hexact⟩

/-- The last message was sent. -/
theorem Inv.complete (h : x.Inv bytes) (hs : sender.step x res = some (.complete, x')) :
    x.sent = bytes := by
  obtain ⟨n, -, hr, -⟩ | ⟨-, ⟨-, hle⟩ | ⟨hr, -⟩⟩ := step_cases hs
  · cases hr
  · have hnil : x.wire.advance.unsent = [] := by
      rw [unsent, List.drop_of_length_le (by simpa [messages] using hle)]
      rfl
    rw [← h.exact, ← unsent_advance, hnil, List.append_nil]
  · exact absurd rfl hr

/-- While a message has bytes left, there is something to send. -/
theorem unsent_ne_nil (hlt : x.wire.advance.msgCurr < x.wire.advance.msgUsed)
    (hne : (x.wire.advance.entries x.wire.advance.msgCurr).flatten ≠ []) : x.wire.unsent ≠ [] := by
  rw [← unsent_advance, unsent_of_lt hlt]
  exact List.append_ne_nil_of_left_ne_nil hne _

/-- What the socket may take is taken: the next bytes of the reply. -/
theorem step_sent {n : ℕ} (hn : 1 ≤ n) (hle : n ≤ x.left) :
    ∃ x', sender.step x (.sent n) = some (.incomplete, x') ∧
      x'.sent = x.sent ++ x.wire.unsent.take n := by
  unfold left at hle
  split_ifs at hle with hlt
  · refine ⟨⟨x.wire.advance.sentBytes n,
      x.sent ++ (x.wire.advance.entries x.wire.advance.msgCurr).flatten.take n⟩, ?_, ?_⟩
    · have hadm : x.wire.advance.admits (.sent n) = true := by
        simp only [admits, decide_eq_true_eq]
        exact ⟨hn, hle⟩
      simp only [sender, hadm, not_true_eq_false, and_false, if_false, coreTransmit, if_pos hlt,
        if_pos (show n > 0 from hn)]
    · rw [← unsent_advance, unsent_of_lt hlt, List.take_append_of_le_length hle]
  · omega

/-- A socket that takes nothing leaves the reply as it is. -/
theorem step_eagain (hleft : 0 < x.left) (updated : Bool) :
    sender.step x (.eagain updated) =
      some (if updated then .softError else .hardError, ⟨x.wire.advance, x.sent⟩) := by
  unfold left at hleft
  split_ifs at hleft with hlt
  · cases updated <;>
      simp [sender, admits, coreTransmit, hlt]
  · omega

/-- Without a message that is left the reply is complete. -/
theorem step_complete (h : x.wire.advance.msgUsed ≤ x.wire.advance.msgCurr) (res : SendResult) :
    sender.step x res = some (.complete, ⟨x.wire.advance, x.sent⟩) := by
  simp [sender, coreTransmit, Nat.not_lt.2 h]

/-- If every message has bytes, some can be sent as long as not all were, and no call is needed
after the one that finds that all were. -/
theorem Inv.progress (h : x.Inv bytes) (hst : x.wire.Stocked) :
    (x.sent ≠ bytes → 0 < x.left) ∧
    (x.sent = bytes → ∀ res, sender.step x res = some (.complete, ⟨x.wire.advance, x.sent⟩)) := by
  by_cases hlt : x.wire.advance.msgCurr < x.wire.advance.msgUsed
  · have hne := hst.advance le_rfl hlt
    refine ⟨fun _ => ?_, fun hsent => ?_⟩
    · rw [left, if_pos hlt]
      exact List.length_pos_iff.2 hne
    · have hexact := h.exact
      rw [hsent, List.append_right_eq_self] at hexact
      exact absurd hexact (unsent_ne_nil hlt hne)
  · have hle := Nat.le_of_not_lt hlt
    refine ⟨fun hsent => absurd (h.complete (step_complete hle (.eagain true))) hsent,
      fun _ res => step_complete hle res⟩

theorem stocked_step (h : x.Inv bytes) (hst : x.wire.Stocked)
    (hs : sender.step x res = some (r, x')) : x'.wire.Stocked := by
  obtain ⟨n, -, -, hlt, -, hn, rfl⟩ | ⟨rfl, -⟩ := step_cases hs
  · exact Stocked.sentBytes h.ready.advance hn fun _ hi hi' => hst.advance hi hi'
  · exact fun i hi hi' => .inl (hst.advance hi hi')

/-- **A reply can be completed** from wherever its transmission stands. -/
theorem Inv.completes (h : x.Inv bytes) (hst : x.wire.Stocked) :
    ∃ y z, sender.Reaches Machine.Unguarded x y ∧
      ∀ res, sender.step y res = some (.complete, z) := by
  -- the rest of the reply gets shorter with every byte that is taken
  induction hn : x.wire.unsent.length using Nat.strong_induction_on generalizing x with
  | _ n ih =>
    obtain ⟨hleft, hcomplete⟩ := h.progress hst
    by_cases hsent : x.sent = bytes
    · exact ⟨x, _, Relation.ReflTransGen.refl, hcomplete hsent⟩
    · obtain ⟨x', hstep, hx'⟩ := step_sent le_rfl (hleft hsent)
      have h' := h.step hstep
      have hlen := congrArg List.length (h.exact.trans h'.exact.symm)
      have hpos : x.wire.unsent ≠ [] := fun hnil => hsent (by
        rw [← h.exact, hnil, List.append_nil])
      rw [hx', List.append_assoc, List.length_append, List.length_append, List.length_append,
        List.length_take, Nat.min_eq_left (List.length_pos_iff.2 hpos)] at hlen
      obtain ⟨y, z, hreach, hz⟩ := ih _ (by omega) h' (stocked_step h hst hstep) rfl
      exact ⟨y, z, Relation.ReflTransGen.head ⟨_, _, hstep, trivial⟩ hreach, hz⟩

end Sender

namespace Wire

/-- **Replies are built and sent exactly.**  If no allocation fails, the messages of a reply are
built.  On TCP, however much the socket takes at a time, what it was handed is in every state the
beginning of the buffers, one after the other, and the rest is still to be sent.  Whatever number
`n` of bytes the socket may take of the current message is taken, and these are the next `n` bytes
of the reply; a socket that is not ready changes nothing; a reply is complete only when all of it
was handed over.  Without empty buffers some bytes can be taken until all were, the next call then
is the one that completes the reply, and it can be completed from every state.  On UDP each message
has at most `IOV_MAX` vectors and 1400 bytes with the reserved 8 bytes in front, and behind these
the messages carry the buffers. -/
theorem reply_exact (udp : Bool) (iovSize msgSize : ℕ) (iov : ℕ → List UInt8) (msg : ℕ → Msghdr)
    (bufs : List (List UInt8)) :
    ∃ c, (empty udp iovSize msgSize iov msg []).queue bufs = (.ok, c) ∧
      (udp = false → ∀ x, sender.Reaches Machine.Unguarded ⟨c, []⟩ x →
        x.sent ++ x.wire.unsent = bufs.flatten ∧
        (∀ n, 1 ≤ n → n ≤ x.left → ∃ x', sender.step x (.sent n) = some (.incomplete, x') ∧
          x'.sent = x.sent ++ x.wire.unsent.take n) ∧
        (0 < x.left → ∀ updated, ∃ x', sender.step x (.eagain updated) =
          some (if updated then .softError else .hardError, x') ∧ x'.sent = x.sent) ∧
        (∀ res r x', sender.step x res = some (r, x') →
          (∀ n, res = .sent n → r ≠ .complete → x'.sent.length = x.sent.length + n) ∧
          (r = .complete → x.sent = bufs.flatten)) ∧
        ([] ∉ bufs →
          (x.sent ≠ bufs.flatten → 0 < x.left) ∧
          (x.sent = bufs.flatten → ∀ res, ∃ x', sender.step x res = some (.complete, x')) ∧
          ∃ y z, sender.Reaches Machine.Unguarded x y ∧
            ∀ res, sender.step y res = some (.complete, z))) ∧
      (udp = true → c.payload = bufs.flatten ∧ ∀ m ∈ c.messages,
        m.length ≤ iovMax ∧ m.flatten.length ≤ udpMaxPayloadSize ∧
          ∃ h ms, m = h :: ms ∧ h.length = udpHeaderSize) := by
  obtain ⟨c, hqueue, hopen, hbytes⟩ := open_queue udp iovSize msgSize iov msg bufs
  refine ⟨c, hqueue, ?_, ?_⟩
  · rintro rfl x hreach
    have hinv : x.Inv bufs.flatten := hreach.invariant (I := (Sender.Inv · bufs.flatten))
      ⟨hopen.ready, hopen.unsent⟩ fun _ _ _ _ hI hs _ => hI.step hs
    refine ⟨hinv.exact, fun n hn hle => Sender.step_sent hn hle,
      fun hleft updated => ⟨_, Sender.step_eagain hleft updated, rfl⟩,
      fun res r x' hs => ⟨?_, ?_⟩, fun hbufs => ?_⟩
    · rintro n rfl hr
      obtain ⟨m, hm, -, -, -, hle, rfl⟩ | ⟨-, ⟨hr', -⟩ | ⟨-, _, hres⟩⟩ := Sender.step_cases hs
      · cases hm
        rw [List.length_append, List.length_take, Nat.min_eq_left hle]
      · exact absurd hr' hr
      · cases hres
    · rintro rfl
      exact hinv.complete hs
    · -- without empty buffers, every message that is left has bytes left
      have hst : x.Inv bufs.flatten ∧ x.wire.Stocked := hreach.invariant
        (I := fun x => x.Inv bufs.flatten ∧ x.wire.Stocked)
        ⟨⟨hopen.ready, hopen.unsent⟩, hopen.stocked (hbytes hbufs)⟩
        fun _ _ _ _ hI hs _ => ⟨hI.1.step hs, Sender.stocked_step hI.1 hI.2 hs⟩
      obtain ⟨hleft, hcomplete⟩ := hinv.progress hst.2
      exact ⟨hleft, fun hsent res => ⟨_, hcomplete hsent res⟩, hinv.completes hst.2⟩
  · rintro rfl
    refine ⟨hopen.payload, fun m hm => ?_⟩
    have hmsg := hopen.message m hm
    exact ⟨hmsg.iovlen, hmsg.bytes rfl, hmsg.header rfl⟩

end Wire

end Twemcache
