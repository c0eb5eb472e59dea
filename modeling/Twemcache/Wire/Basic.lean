import Twemcache.Machine.Basic
import Mathlib.Data.Nat.Notation
import Mathlib.Logic.Function.Basic
import Mathlib.Tactic.SplitIfs

/-!
# Messages to the client

A reply is a list of buffers.  `conn_add_iov` collects them in one array of I/O vectors, cut into
messages by `msghdr` structures that point into it, and `core_transmit` hands the messages to the
socket one after another, as much at a time as the socket takes (`mc_connection.c`, `mc_core.c`).

## Main definitions

* `Msghdr`, `Wire` : the structures, and the part of `struct conn` that is about messages.
* `Wire.connAddMsghdr`, `Wire.connAddIov`, `Wire.coreTransmit` : the functions of these names.
* `Wire.messages` : the messages as lists of buffers.
* `sender` : a connection that sends, as a machine.

A buffer is given by its bytes; the address that `iov_base` holds is where they are.
-/

namespace Twemcache

/-- `IOV_MAX`. -/
def iovMax : ℕ := 1024

/-- `UDP_MAX_PAYLOAD_SIZE`. -/
def udpMaxPayloadSize : ℕ := 1400

/-- `UDP_HEADER_SIZE`. -/
def udpHeaderSize : ℕ := 8

/-- `struct msghdr`. -/
structure Msghdr where
  /-- `msg_iov`, as an index into the connection's array. -/
  iov : ℕ
  /-- `msg_iovlen`. -/
  iovlen : ℕ
  deriving DecidableEq, Repr

/-- The messages of a connection. -/
structure Wire where
  /-- The connection is a UDP connection. -/
  udp : Bool
  /-- The array of I/O vectors. -/
  iov : ℕ → List UInt8
  /-- `iov_size`. -/
  iovSize : ℕ
  /-- `iov_used`. -/
  iovUsed : ℕ
  /-- The array of messages. -/
  msg : ℕ → Msghdr
  /-- `msg_size`. -/
  msgSize : ℕ
  /-- `msg_used`. -/
  msgUsed : ℕ
  /-- `msg_curr`. -/
  msgCurr : ℕ
  /-- `msg_bytes`: the bytes in the last message. -/
  msgBytes : ℕ
  /-- Whether the allocations to come succeed; those past the end of the list do. -/
  allocs : List Bool

/-- `rstatus_t`, as far as it matters here. -/
inductive Rstatus where
  | ok
  | enomem
  deriving DecidableEq, Repr

namespace Wire

/-- A connection without messages, with arrays of the given sizes. -/
def empty (udp : Bool) (iovSize msgSize : ℕ) (iov : ℕ → List UInt8) (msg : ℕ → Msghdr)
    (allocs : List Bool) : Wire :=
  ⟨udp, iov, iovSize, 0, msg, msgSize, 0, 0, 0, allocs⟩

variable (c : Wire)

/-- `mc_realloc`: whether it succeeds. -/
def realloc : Bool × Wire := (c.allocs.headD true, { c with allocs := c.allocs.tail })

/-- The sum of `msg_iovlen` over the first messages. -/
def iovnum (msg : ℕ → Msghdr) : ℕ → ℕ
  | 0 => 0
  | i + 1 => iovnum msg i + (msg i).iovlen

/-- `conn_ensure_iov_space`.  The new array has the contents of the old one, and all messages are
made to point into it. -/
def connEnsureIovSpace : Rstatus × Wire :=
  if c.iovUsed ≥ c.iovSize then
    match c.realloc with
    | (false, c) => (.enomem, c)
    | (true, c) =>
      (.ok, { c with
        iovSize := c.iovSize * 2
        msg := fun i => if i < c.msgUsed then ⟨iovnum c.msg i, (c.msg i).iovlen⟩ else c.msg i })
  else (.ok, c)

/-- The last message gets one more buffer. -/
def putIov (buf : List UInt8) : Wire :=
  let m := c.msg (c.msgUsed - 1)
  { c with
    iov := Function.update c.iov (m.iov + m.iovlen) buf
    msgBytes := c.msgBytes + buf.length
    iovUsed := c.iovUsed + 1
    msg := Function.update c.msg (c.msgUsed - 1) { m with iovlen := m.iovlen + 1 } }

/-- The message to which the next buffer goes is full. -/
def full (limitToMtu : Bool) : Bool :=
  (c.msg (c.msgUsed - 1)).iovlen = iovMax || (limitToMtu && c.msgBytes ≥ udpMaxPayloadSize)

/-- How much of a buffer of length `len` goes to the last message. -/
def fragment (limitToMtu : Bool) (len : ℕ) : ℕ :=
  let leftover :=
    if limitToMtu && len + c.msgBytes > udpMaxPayloadSize then len + c.msgBytes - udpMaxPayloadSize
    else 0
  len - leftover

/-- One pass through the loop of `conn_add_iov`, with what is left of the buffer; `addMsghdr` starts
a new message. -/
def iovPass (addMsghdr : Wire → Rstatus × Wire) (buf : List UInt8) : Rstatus × Wire × List UInt8 :=
  let limitToMtu : Bool := c.udp || c.msgUsed = 1
  match if c.full limitToMtu then addMsghdr c else (.ok, c) with
  | (.enomem, c) => (.enomem, c, buf)
  | (.ok, c) =>
    match c.connEnsureIovSpace with
    | (.enomem, c) => (.enomem, c, buf)
    | (.ok, c) =>
      let len := c.fragment limitToMtu buf.length
      (.ok, c.putIov (buf.take len), buf.drop len)

/-- The part of `conn_add_msghdr` before the UDP header. -/
def newMsghdr : Rstatus × Wire :=
  match if c.msgSize = c.msgUsed then c.realloc else (true, c) with
  | (false, c) => (.enomem, c)
  | (true, c') =>
    (.ok, { c' with
      msgSize := if c.msgSize = c.msgUsed then c.msgSize * 2 else c.msgSize
      msg := Function.update c.msg c.msgUsed ⟨c.iovUsed, 0⟩
      msgBytes := 0
      msgUsed := c.msgUsed + 1 })

/-- `conn_add_msghdr`.  The call of `conn_add_iov` for the header finds an empty message, so it
takes one pass and starts no other message. -/
def connAddMsghdr : Rstatus × Wire :=
  match c.newMsghdr with
  | (.enomem, c) => (.enomem, c)
  | (.ok, c) =>
    if c.udp then
      let r := c.iovPass newMsghdr (List.replicate udpHeaderSize 0)
      (r.1, r.2.1)
    else (.ok, c)

/-! ### Passes -/

section

variable {c} {c' : Wire} {buf rest : List UInt8}

/-- What a pass does if nothing fails. -/
theorem iovPass_ok {addMsghdr : Wire → Rstatus × Wire}
    (h : c.iovPass addMsghdr buf = (.ok, c', rest)) :
    ∃ d e : Wire, (if c.full (c.udp || c.msgUsed = 1) then addMsghdr c else (.ok, c)) = (.ok, d) ∧
      d.connEnsureIovSpace = (.ok, e) ∧
      c' = e.putIov (buf.take (e.fragment (c.udp || c.msgUsed = 1) buf.length)) ∧
      rest = buf.drop (e.fragment (c.udp || c.msgUsed = 1) buf.length) := by
  simp only [iovPass] at h
  generalize (if c.full (c.udp || c.msgUsed = 1) then addMsghdr c else (.ok, c)) = r at h ⊢
  obtain ⟨_ | _, d⟩ := r
  · simp only at h
    generalize hens : d.connEnsureIovSpace = r at h
    obtain ⟨_ | _, e⟩ := r
    · obtain ⟨-, rfl, rfl⟩ := Prod.mk.inj h |>.imp_right Prod.mk.inj
      exact ⟨d, e, rfl, hens, rfl, rfl⟩
    · cases h
  · cases h

theorem iovPass_eq {addMsghdr : Wire → Rstatus × Wire} {d e : Wire}
    (hopen : (if c.full (c.udp || c.msgUsed = 1) then addMsghdr c else (.ok, c)) = (.ok, d))
    (hens : d.connEnsureIovSpace = (.ok, e)) : c.iovPass addMsghdr buf =
      (.ok, e.putIov (buf.take (e.fragment (c.udp || c.msgUsed = 1) buf.length)),
        buf.drop (e.fragment (c.udp || c.msgUsed = 1) buf.length)) := by
  simp only [iovPass]
  rw [hopen]
  simp only [hens]

theorem connEnsureIovSpace_msgBytes (h : c.connEnsureIovSpace = (.ok, c')) :
    c'.msgBytes = c.msgBytes := by
  unfold connEnsureIovSpace at h
  split_ifs at h with hspace
  · generalize hr : c.realloc = r at h
    obtain ⟨_ | _, d⟩ := r
    · cases h
    · obtain ⟨-, rfl⟩ := Prod.mk.inj h
      rw [← (Prod.mk.inj hr).2]
  · rw [← (Prod.mk.inj h).2]

theorem newMsghdr_last (h : c.newMsghdr = (.ok, c')) :
    c'.msgBytes = 0 ∧ (c'.msg (c'.msgUsed - 1)).iovlen = 0 := by
  unfold newMsghdr at h
  generalize (if c.msgSize = c.msgUsed then c.realloc else (true, c)) = r at h
  obtain ⟨_ | _, d⟩ := r
  · cases h
  · obtain ⟨-, rfl⟩ := Prod.mk.inj h
    simp

theorem full_eq_false {limitToMtu : Bool} (hbytes : c.msgBytes < udpMaxPayloadSize)
    (hlen : (c.msg (c.msgUsed - 1)).iovlen < iovMax) : c.full limitToMtu = false := by
  unfold full
  rw [decide_eq_false (by omega), decide_eq_false (by omega), Bool.and_false, Bool.or_false]

theorem fragment_of_le {limitToMtu : Bool} {len : ℕ} (h : len + c.msgBytes ≤ udpMaxPayloadSize) :
    c.fragment limitToMtu len = len := by
  simp only [fragment, Bool.and_eq_true, decide_eq_true_eq]
  rw [if_neg (by omega), Nat.sub_zero]

theorem fragment_le {len : ℕ} (h : c.msgBytes < udpMaxPayloadSize) :
    c.msgBytes + c.fragment true len ≤ udpMaxPayloadSize := by
  simp only [fragment, Bool.true_and, decide_eq_true_eq]
  split_ifs <;> omega

/-- A message that was started has room. -/
theorem connAddMsghdr_msgBytes (h : c.connAddMsghdr = (.ok, c')) :
    c'.msgBytes < udpMaxPayloadSize := by
  unfold connAddMsghdr at h
  generalize hnew : c.newMsghdr = r at h
  obtain ⟨_ | _, d⟩ := r
  · obtain ⟨hbytes, hlen⟩ := newMsghdr_last hnew
    simp only at h
    split_ifs at h with hudp
    · obtain ⟨hst, rfl⟩ := Prod.mk.inj h
      generalize hpass : d.iovPass newMsghdr (List.replicate udpHeaderSize 0) = r at hst ⊢
      obtain ⟨_, e, rest⟩ := r
      obtain rfl : _ = Rstatus.ok := hst
      obtain ⟨f, g, hopen, hens, rfl, -⟩ := iovPass_ok hpass
      rw [full_eq_false (by rw [hbytes]; decide) (by rw [hlen]; decide)] at hopen
      obtain ⟨-, rfl⟩ := Prod.mk.inj hopen
      have hzero : g.msgBytes = 0 := (connEnsureIovSpace_msgBytes hens).trans hbytes
      have htake := List.length_take_le (g.fragment (d.udp || d.msgUsed = 1)
        (List.replicate udpHeaderSize (0 : UInt8)).length)
          (List.replicate udpHeaderSize (0 : UInt8))
      simp only [putIov, hzero, Nat.zero_add]
      simp only [List.length_take, List.length_replicate, udpHeaderSize, udpMaxPayloadSize] at *
      omega
    · obtain ⟨-, rfl⟩ := Prod.mk.inj h
      rw [hbytes]
      decide
  · cases h

/-- A pass that leaves something of the buffer takes something of it. -/
theorem length_iovPass_lt (h : (c.iovPass connAddMsghdr buf).1 = .ok)
    (hrest : (c.iovPass connAddMsghdr buf).2.2 ≠ []) :
    (c.iovPass connAddMsghdr buf).2.2.length < buf.length := by
  generalize hpass : c.iovPass connAddMsghdr buf = r at h hrest ⊢
  obtain ⟨_, c', rest⟩ := r
  obtain rfl : _ = Rstatus.ok := h
  obtain ⟨d, e, hopen, hens, -, rfl⟩ := iovPass_ok hpass
  simp only [ne_eq, List.drop_eq_nil_iff, Nat.not_le, List.length_drop] at hrest ⊢
  have hroom : (c.udp || c.msgUsed = 1) = true → e.msgBytes < udpMaxPayloadSize := by
    intro hlimit
    rw [connEnsureIovSpace_msgBytes hens]
    split_ifs at hopen with hfull
    · exact connAddMsghdr_msgBytes hopen
    · obtain ⟨-, rfl⟩ := Prod.mk.inj hopen
      rw [hlimit, full, Bool.true_and, Bool.or_eq_true, decide_eq_true_eq, decide_eq_true_eq]
        at hfull
      omega
  generalize (c.udp || decide (c.msgUsed = 1)) = limit at hroom hrest ⊢
  unfold fragment at hrest ⊢
  simp only [Bool.and_eq_true, decide_eq_true_eq] at hrest ⊢
  split_ifs at hrest ⊢ with hover
  · have := hroom hover.1
    omega
  · omega

end

/-- `conn_add_iov`. -/
def connAddIov (c : Wire) (buf : List UInt8) : Rstatus × Wire :=
  let r := c.iovPass connAddMsghdr buf
  if _h : r.1 = .ok ∧ r.2.2 ≠ [] then connAddIov r.2.1 r.2.2 else (r.1, r.2.1)
termination_by buf.length
decreasing_by exact length_iovPass_lt _h.1 _h.2

/-- `conn_add_iov` for each of the buffers. -/
def connAddIovs (c : Wire) : List (List UInt8) → Rstatus × Wire
  | [] => (.ok, c)
  | buf :: bufs =>
    match c.connAddIov buf with
    | (.ok, c) => connAddIovs c bufs
    | (.enomem, c) => (.enomem, c)

/-- A reply of the given buffers: `conn_add_msghdr`, then `conn_add_iov` for each of them. -/
def queue (bufs : List (List UInt8)) : Rstatus × Wire :=
  match c.connAddMsghdr with
  | (.ok, c) => c.connAddIovs bufs
  | (.enomem, c) => (.enomem, c)

/-! ### The messages -/

/-- The `n` vectors from index `i` on. -/
def vectors (iov : ℕ → List UInt8) (i n : ℕ) : List (List UInt8) :=
  (List.range n).map fun k => iov (i + k)

/-- The buffers of the `i`-th message. -/
def entries (i : ℕ) : List (List UInt8) := vectors c.iov (c.msg i).iov (c.msg i).iovlen

/-- The messages, as lists of buffers. -/
def messages : List (List (List UInt8)) := (List.range c.msgUsed).map c.entries

/-- The bytes of the messages, without the reserved first entries on UDP. -/
def payload : List UInt8 :=
  (c.messages.map fun m => (if c.udp then m.tail else m).flatten).flatten

/-! ### Transmission -/

/-- What `sendmsg` returns. -/
inductive SendResult where
  /-- That many bytes were taken. -/
  | sent (n : ℕ)
  /-- The socket takes no bytes now; whether `core_update` succeeds. -/
  | eagain (updated : Bool)
  /-- Any other error. -/
  | error
  deriving DecidableEq, Repr

/-- `transmit_result_t`. -/
inductive TransmitResult where
  | complete
  | incomplete
  | softError
  | hardError
  deriving DecidableEq, Repr

/-- The loop that removes the vectors which were sent as a whole: what is left of a message with
`iovlen` vectors from index `i` on after `res` bytes, and the bytes of the next vector that were
sent. -/
def consume (iov : ℕ → List UInt8) : (iovlen i res : ℕ) → Msghdr × ℕ
  | 0, i, res => (⟨i, 0⟩, res)
  | n + 1, i, res =>
    if res ≥ (iov i).length then consume iov n (i + 1) (res - (iov i).length) else (⟨i, n + 1⟩, res)

/-- A finished message is left behind. -/
def advance : Wire :=
  if c.msgCurr < c.msgUsed ∧
    (c.msg c.msgCurr).iovlen = 0 then { c with msgCurr := c.msgCurr + 1 } else c

/-- The current message after `res` bytes of it were sent. -/
def sentBytes (res : ℕ) : Wire :=
  let r := consume c.iov (c.msg c.msgCurr).iovlen (c.msg c.msgCurr).iov res
  { c with
    msg := Function.update c.msg c.msgCurr r.1
    iov := if r.2 > 0 then Function.update c.iov r.1.iov ((c.iov r.1.iov).drop r.2) else c.iov }

/-- `core_transmit`: its result, and the bytes that it hands to the socket. -/
def coreTransmit (res : SendResult) : TransmitResult × List UInt8 × Wire :=
  let c := c.advance
  if c.msgCurr < c.msgUsed then
    match res with
    | .sent n =>
      if n > 0 then (.incomplete, (c.entries c.msgCurr).flatten.take n, c.sentBytes n)
      else (.hardError, [], c)
    | .eagain true => (.softError, [], c)
    | .eagain false => (.hardError, [], c)
    | .error => (.hardError, [], c)
  else (.complete, [], c)

/-- What a socket may answer: between one byte and all of the message, or `EAGAIN`. -/
def admits : SendResult → Bool
  | .sent n => 1 ≤ n ∧ n ≤ (c.entries c.msgCurr).flatten.length
  | .eagain _ => true
  | .error => false

end Wire

/-- A connection that sends. -/
structure Sender where
  /-- Its messages. -/
  wire : Wire
  /-- The bytes that were handed to the socket. -/
  sent : List UInt8

/-- `core_transmit` is called over and over. -/
def sender : Machine Sender Wire.SendResult Wire.TransmitResult where
  step x res :=
    if x.wire.advance.msgCurr < x.wire.advance.msgUsed ∧ ¬ x.wire.advance.admits res then none
    else
      let r := x.wire.coreTransmit res
      some (r.1, ⟨r.2.2, x.sent ++ r.2.1⟩)

end Twemcache
