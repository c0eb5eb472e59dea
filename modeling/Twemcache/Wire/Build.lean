import Twemcache.Wire.Basic
import Mathlib.Data.List.Basic
import Mathlib.Order.Nat

/-!
# Messages are built right

`conn_add_iov` appends to the last message or starts another one.  The array of vectors is a detail:
as lists of buffers the messages change in the obvious way (`messages_putIov`,
`messages_opened`), even if the array moves.  Every message is within its limits, and together
they are the buffers that were added (`Built.queue`).
-/

namespace Twemcache

namespace Wire

variable {c c' : Wire} {msg msg' : ℕ → Msghdr} {iov iov' : ℕ → List UInt8} {i n k : ℕ}
  {udp : Bool} {buf bytes rest : List UInt8} {m : List (List UInt8)} {M : List (List (List UInt8))}

/-! ### Vectors -/

theorem vectors_succ : vectors iov i (n + 1) = vectors iov i n ++ [iov (i + n)] := by
  simp [vectors, List.range_succ]

theorem vectors_cons : vectors iov i (n + 1) = iov i :: vectors iov (i + 1) n := by
  rw [vectors, List.range_succ_eq_map, List.map_cons, List.map_map]
  refine congrArg _ (List.map_congr_left fun k _ => ?_)
  rw [Function.comp, Nat.succ_eq_one_add, Nat.add_assoc]

@[simp] theorem length_vectors : (vectors iov i n).length = n := by simp [vectors]

theorem vectors_update (h : k < i ∨ i + n ≤ k) :
    vectors (Function.update iov k buf) i n = vectors iov i n := by
  refine List.map_congr_left fun j hj => Function.update_of_ne ?_ _ _
  rw [List.mem_range] at hj
  omega

theorem iovnum_congr (h : ∀ j < n, (msg' j).iovlen = (msg j).iovlen) :
    iovnum msg' n = iovnum msg n := by
  induction n with
  | zero => rfl
  | succ n ih => rw [iovnum, iovnum, ih fun j hj => h j (by omega), h n n.lt_succ_self]

theorem iovnum_mono (h : i ≤ n) : iovnum msg i ≤ iovnum msg n := by
  induction n, h using Nat.le_induction with
  | base => exact le_rfl
  | succ n _ ih => exact ih.trans (Nat.le_add_right _ _)

/-! ### The array of vectors -/

/-- The messages lie in the array one after another. -/
structure Laid (c : Wire) : Prop where
  /-- A message starts where those before it end. -/
  iov : ∀ i < c.msgUsed, (c.msg i).iov = iovnum c.msg i
  /-- The array is used up to the end of the last message. -/
  used : c.iovUsed = iovnum c.msg c.msgUsed

/-- Moving the array changes nothing. -/
theorem Laid.connEnsureIovSpace (h : c.Laid) (ha : c.allocs = []) :
    ∃ n, c.connEnsureIovSpace = (.ok, { c with iovSize := n }) := by
  have hmsg : (fun i => if i < c.msgUsed then (⟨iovnum c.msg i, (c.msg i).iovlen⟩ : Msghdr)
      else c.msg i) = c.msg := by
    funext i
    split_ifs with hi
    · rw [← h.iov i hi]
    · rfl
  have hrealloc : c.realloc = (true, c) := by
    obtain ⟨_, _, _, _, _, _, _, _, _, _⟩ := c
    subst ha
    rfl
  unfold Wire.connEnsureIovSpace
  split_ifs
  · refine ⟨c.iovSize * 2, ?_⟩
    rw [hrealloc]
    simp only [hmsg]
  · exact ⟨c.iovSize, rfl⟩

/-- The state with another message. -/
def opened (c : Wire) (msgSize : ℕ) : Wire :=
  { c with
    msgSize := msgSize
    msg := Function.update c.msg c.msgUsed ⟨c.iovUsed, 0⟩
    msgBytes := 0
    msgUsed := c.msgUsed + 1 }

theorem opened_msg : (c.opened n).msg = Function.update c.msg c.msgUsed ⟨c.iovUsed, 0⟩ := rfl

theorem newMsghdr_eq (ha : c.allocs = []) : ∃ n, c.newMsghdr = (.ok, c.opened n) := by
  have hrealloc : c.realloc = (true, c) := by
    obtain ⟨_, _, _, _, _, _, _, _, _, _⟩ := c
    subst ha
    rfl
  unfold newMsghdr
  split_ifs with hsize
  · exact ⟨c.msgSize * 2, by rw [hrealloc]; rfl⟩
  · exact ⟨c.msgSize, rfl⟩

theorem Laid.opened (h : c.Laid) : (c.opened n).Laid := by
  have hnum : ∀ j ≤ c.msgUsed, iovnum (c.opened n).msg j = iovnum c.msg j := by
    intro j hj
    refine iovnum_congr fun k hk => ?_
    rw [opened_msg, Function.update_of_ne (by omega)]
  refine ⟨fun i hi => ?_, ?_⟩
  · rcases Nat.lt_or_ge i c.msgUsed with hlt | hge
    · rw [hnum i hlt.le, ← h.iov i hlt, opened_msg, Function.update_of_ne (by omega)]
    · obtain rfl : i = c.msgUsed := Nat.le_antisymm (Nat.le_of_lt_succ hi) hge
      rw [hnum _ le_rfl, ← h.used, opened_msg, Function.update_self]
  · change c.iovUsed = iovnum (c.opened n).msg c.msgUsed + ((c.opened n).msg c.msgUsed).iovlen
    rw [hnum _ le_rfl, ← h.used, opened_msg, Function.update_self]
    rfl

theorem messages_opened : (c.opened n).messages = c.messages ++ [[]] := by
  have hlt : ∀ i < c.msgUsed, (c.opened n).entries i = c.entries i := by
    intro i hi
    rw [entries, opened_msg, Function.update_of_ne (by omega)]
    rfl
  have hlast : (c.opened n).entries c.msgUsed = [] := by
    simp [entries, opened_msg, vectors]
  rw [messages, show (c.opened n).msgUsed = c.msgUsed + 1 from rfl, List.range_succ,
    List.map_append,
    List.map_congr_left fun i hi => hlt i (List.mem_range.1 hi), List.map_singleton, hlast]
  rfl

/-- The last message. -/
theorem messages_last (hM : c.messages = M ++ [m]) :
    c.msgUsed = M.length + 1 ∧ M = (List.range M.length).map c.entries ∧
        m = c.entries M.length := by
  have hlen : c.msgUsed = M.length + 1 := by simpa [messages] using congrArg List.length hM
  rw [messages, hlen, List.range_succ, List.map_append, List.map_singleton] at hM
  obtain ⟨h1, h2⟩ := List.append_inj hM (by simp)
  exact ⟨hlen, h1.symm, (List.singleton_inj.1 h2).symm⟩

theorem putIov_index (h : c.Laid) (hu : c.msgUsed = n + 1) :
    (c.msg n).iov + (c.msg n).iovlen = iovnum c.msg (n + 1) := by
  rw [h.iov n (by omega), iovnum]

theorem putIov_msg (hu : c.msgUsed = n + 1) : (c.putIov buf).msg =
    Function.update c.msg n { c.msg n with iovlen := (c.msg n).iovlen + 1 } := by
  simp [putIov, hu]

theorem putIov_iov (h : c.Laid) (hu : c.msgUsed = n + 1) :
    (c.putIov buf).iov = Function.update c.iov (iovnum c.msg (n + 1)) buf := by
  simp [putIov, hu, putIov_index h hu]

theorem Laid.putIov (h : c.Laid) (hu : c.msgUsed = n + 1) : (c.putIov buf).Laid := by
  have hmsg : (c.putIov buf).msg =
      Function.update c.msg n { c.msg n with iovlen := (c.msg n).iovlen + 1 } := putIov_msg hu
  have hnum : ∀ j ≤ n, iovnum (c.putIov buf).msg j = iovnum c.msg j := by
    intro j hj
    refine iovnum_congr fun k hk => ?_
    rw [hmsg, Function.update_of_ne (by omega)]
  refine ⟨fun i hi => ?_, ?_⟩
  · have hle : i ≤ n := by
      change i < c.msgUsed at hi
      omega
    rw [hnum i hle, ← h.iov i (by omega), hmsg]
    rcases Nat.lt_or_eq_of_le hle with hlt | rfl
    · rw [Function.update_of_ne (by omega)]
    · rw [Function.update_self]
  · change c.iovUsed + 1 = iovnum (c.putIov buf).msg c.msgUsed
    rw [h.used, hu, iovnum, iovnum, hnum n le_rfl, hmsg, Function.update_self, Nat.add_assoc]

/-- A buffer goes to the end of the last message, and no other message notices. -/
theorem messages_putIov (h : c.Laid) (hM : c.messages = M ++ [m]) :
    (c.putIov buf).messages = M ++ [m ++ [buf]] := by
  obtain ⟨hu, hinit, hm⟩ := messages_last hM
  generalize M.length = n at hu hinit hm
  have hlt : ∀ i < n, (c.putIov buf).entries i = c.entries i := by
    intro i hi
    rw [entries, putIov_iov h hu, putIov_msg hu, Function.update_of_ne (by omega)]
    refine vectors_update (.inr ?_)
    rw [h.iov i (by omega)]
    exact iovnum_mono (show i + 1 ≤ n + 1 by omega)
  have hlast : (c.putIov buf).entries n = c.entries n ++ [buf] := by
    rw [entries, putIov_iov h hu, putIov_msg hu, Function.update_self]
    simp only
    rw [vectors_succ, putIov_index h hu, Function.update_self,
      vectors_update (.inr (putIov_index h hu).le)]
    rfl
  rw [messages, show (c.putIov buf).msgUsed = n + 1 from hu, List.range_succ, List.map_append,
    List.map_congr_left fun i hi => hlt i (List.mem_range.1 hi), List.map_singleton, hlast,
    ← hinit, ← hm]

/-! ### Limits and payload -/

/-- A message is within its limits; on UDP it starts with the place of the header. -/
structure Message (udp : Bool) (m : List (List UInt8)) : Prop where
  /-- It has at most `IOV_MAX` vectors. -/
  iovlen : m.length ≤ iovMax
  /-- A datagram has at most 1400 bytes. -/
  bytes : udp = true → m.flatten.length ≤ udpMaxPayloadSize
  /-- The first vector of a datagram is reserved. -/
  header : udp = true → ∃ h ms, m = h :: ms ∧ h.length = udpHeaderSize

/-- The messages are good and carry `bytes`. -/
structure Built (c : Wire) (udp : Bool) (bytes : List UInt8) : Prop where
  /-- It is a UDP connection or not. -/
  udp_eq : c.udp = udp
  /-- Nothing was sent. -/
  curr : c.msgCurr = 0
  /-- They lie one after another. -/
  laid : c.Laid
  /-- No allocation fails. -/
  allocs : c.allocs = []
  /-- They are within their limits. -/
  message : ∀ m ∈ c.messages, Message udp m
  /-- They carry `bytes`. -/
  payload : c.payload = bytes

/-- The last message can be written to. -/
structure Open (c : Wire) (udp : Bool) (bytes : List UInt8) : Prop extends Built c udp bytes where
  /-- There is a last message, and `msg_bytes` is its length. -/
  last : ∃ M m, c.messages = M ++ [m] ∧ c.msgBytes = m.flatten.length

theorem payload_append (hM : c'.messages = M ++ [m]) : c'.payload =
    (M.map fun m => (if c'.udp then m.tail else m).flatten).flatten ++
      (if c'.udp then m.tail else m).flatten := by
  simp [payload, hM]

/-- A vector that fits is put into the last message. -/
theorem Open.putIov (h : c.Open udp bytes) (hM : c.messages = M ++ [m]) (hlen : m.length < iovMax)
    (hfits : udp = true → c.msgBytes + buf.length ≤ udpMaxPayloadSize) :
    (c.putIov buf).Open udp (bytes ++ buf) := by
  have hput : (c.putIov buf).messages = M ++ [m ++ [buf]] := messages_putIov h.laid hM
  have hm : Message udp m := h.message m (by simp [hM])
  have hbytes : c.msgBytes = m.flatten.length := by
    obtain ⟨M', m', hM', hb⟩ := h.last
    obtain ⟨-, hmm⟩ := List.append_inj' (hM.symm.trans hM') rfl
    rw [hb, ← List.singleton_inj.1 hmm]
  refine ⟨⟨h.udp_eq, h.curr, h.laid.putIov (messages_last hM).1, h.allocs, ?_, ?_⟩, M,
    m ++ [buf], hput, ?_⟩
  · intro m' hm'
    rw [hput, List.mem_append, List.mem_singleton] at hm'
    rcases hm' with hm' | rfl
    · exact h.message m' (by simp [hM, hm'])
    · refine ⟨by rw [List.length_append]; exact hlen, fun hu => ?_, fun hu => ?_⟩
      · simpa [← hbytes] using hfits hu
      · obtain ⟨hd, ms, rfl, hhd⟩ := hm.header hu
        exact ⟨hd, ms ++ [buf], rfl, hhd⟩
  · have hold := h.payload
    rw [payload_append hM] at hold
    rw [payload_append hput, ← hold, List.append_assoc]
    congr 1
    change (if c.udp then (m ++ [buf]).tail else m ++ [buf]).flatten = _
    rw [h.udp_eq]
    cases hu : udp with
    | false => simp
    | true =>
      obtain ⟨hd, ms, rfl, -⟩ := hm.header hu
      simp
  · simp [Wire.putIov, hbytes]

/-- A message is started, with the place of the header on UDP. -/
theorem Built.connAddMsghdr (h : c.Built udp bytes) :
    ∃ c', c.connAddMsghdr = (.ok, c') ∧ c'.Open udp bytes ∧
      ∃ m, c'.messages = c.messages ++ [m] ∧ m.length ≤ 1 ∧ [] ∉ m := by
  obtain ⟨n, hnew⟩ := newMsghdr_eq h.allocs
  have hmsgs := messages_opened (c := c) (n := n)
  have hlaid : (c.opened n).Laid := h.laid.opened
  unfold Wire.connAddMsghdr
  rw [hnew]
  have hudp := h.udp_eq
  cases udp with
  | false =>
    refine ⟨c.opened n, by simp [opened, hudp],
      ⟨⟨h.udp_eq, h.curr, hlaid, h.allocs, ?_, ?_⟩, _, _, hmsgs, rfl⟩, [], hmsgs, Nat.zero_le _,
      List.not_mem_nil⟩
    · intro m hm
      rw [hmsgs, List.mem_append, List.mem_singleton] at hm
      rcases hm with hm | rfl
      · exact h.message m hm
      · exact ⟨Nat.zero_le _, nofun, nofun⟩
    · rw [payload_append hmsgs, ← h.payload]
      simp [Wire.payload, opened, hudp]
  | true =>
    -- the header goes into the new message in one pass
    obtain ⟨k, hens⟩ := hlaid.connEnsureIovSpace h.allocs
    have hfull : (c.opened n).full ((c.opened n).udp || (c.opened n).msgUsed = 1) = false :=
      full_eq_false (show 0 < udpMaxPayloadSize by decide)
        (by rw [opened_msg]; simp [opened, iovMax])
    have hpass : (c.opened n).iovPass newMsghdr (List.replicate udpHeaderSize 0) =
        (.ok, { c.opened n with iovSize := k }.putIov (List.replicate udpHeaderSize 0), []) := by
      rw [iovPass_eq (by rw [hfull]; rfl) hens,
        fragment_of_le (show udpHeaderSize + 0 ≤ udpMaxPayloadSize by decide)]
      rfl
    have hlaid' : { c.opened n with iovSize := k }.Laid := ⟨hlaid.iov, hlaid.used⟩
    have hput :
        ({ c.opened n with iovSize := k }.putIov (List.replicate udpHeaderSize 0)).messages =
        c.messages ++ [[] ++ [List.replicate udpHeaderSize 0]] := messages_putIov hlaid' hmsgs
    refine ⟨{ c.opened n with iovSize := k }.putIov (List.replicate udpHeaderSize 0), ?_,
      ⟨⟨h.udp_eq, h.curr, hlaid'.putIov rfl, h.allocs, ?_, ?_⟩, _, _, hput, ?_⟩, _, hput, le_rfl,
      by decide⟩
    · simp only [show (c.opened n).udp = true from hudp, if_true, hpass]
    · intro m hm
      rw [hput, List.mem_append, List.mem_singleton] at hm
      rcases hm with hm | rfl
      · exact h.message m hm
      · exact ⟨by decide, fun _ => by decide, fun _ => ⟨_, _, rfl, rfl⟩⟩
    · rw [payload_append hput, ← h.payload]
      simp [Wire.payload, Wire.putIov, opened, hudp]
    · simp [Wire.putIov, opened]

/-- No vector is empty, and no message before the last one is. -/
def Filled (c : Wire) : Prop :=
  (∀ m ∈ c.messages, [] ∉ m) ∧ ∀ M m, c.messages = M ++ [m] → [] ∉ M

theorem flatten_ne_nil (hne : m ≠ []) (hm : [] ∉ m) : m.flatten ≠ [] := by
  obtain ⟨buf, rest, rfl⟩ := List.exists_cons_of_ne_nil hne
  have hbuf : buf ≠ [] := fun h => hm (h ▸ List.mem_cons_self)
  simpa using fun h => absurd h hbuf

/-- A message that is full has vectors. -/
theorem Open.ne_nil_of_full (h : c.Open udp bytes) (hM : c.messages = M ++ [m])
    (hfull : c.full (c.udp || c.msgUsed = 1) = true) : m ≠ [] := by
  rintro rfl
  obtain ⟨M', m', hM', hb⟩ := h.last
  obtain ⟨-, hmm⟩ := List.append_inj' (hM.symm.trans hM') rfl
  obtain rfl := List.singleton_inj.1 hmm
  obtain ⟨hu, -, hm⟩ := messages_last hM
  have hlen : (c.msg (c.msgUsed - 1)).iovlen = 0 := by
    have hvec := congrArg List.length hm
    rw [entries, length_vectors] at hvec
    rw [hu]
    exact hvec.symm
  simp [full, hb, hlen, iovMax, udpMaxPayloadSize] at hfull

/-- One pass of `conn_add_iov` moves a part of the buffer into the messages. -/
theorem Open.iovPass (h : c.Open udp bytes) (buf : List UInt8) : ∃ c' pre rest,
    c.iovPass connAddMsghdr buf = (.ok, c', rest) ∧ buf = pre ++ rest ∧
      c'.Open udp (bytes ++ pre) ∧
      (c.Filled → buf ≠ [] → c'.Filled ∧ [] ∉ c'.messages) := by
  -- first there is a message with room
  obtain ⟨d, M, m, hopen, hd, hM, hlen, hroom, hfilled⟩ : ∃ d M m,
      (if c.full (c.udp || c.msgUsed = 1) then c.connAddMsghdr else (.ok, c)) = (.ok, d) ∧
      d.Open udp bytes ∧ d.messages = M ++ [m] ∧ m.length < iovMax ∧
      ((c.udp || c.msgUsed = 1) = true → d.msgBytes < udpMaxPayloadSize) ∧
      (c.Filled → d.Filled) := by
    cases hfull : c.full (c.udp || c.msgUsed = 1) with
    | true =>
      obtain ⟨d, hadd, hd, m, hM, hm, hne⟩ := h.toBuilt.connAddMsghdr
      refine ⟨d, _, m, by rw [if_pos rfl, hadd], hd, hM, lt_of_le_of_lt hm (by decide),
        fun _ => connAddMsghdr_msgBytes hadd, fun hc => ⟨?_, ?_⟩⟩
      · intro m' hm'
        rw [hM, List.mem_append, List.mem_singleton] at hm'
        rcases hm' with hm' | rfl
        · exact hc.1 m' hm'
        · exact hne
      · intro M' m' hM'
        obtain ⟨rfl, -⟩ := List.append_inj' (hM.symm.trans hM') rfl
        obtain ⟨M₀, m₀, hM₀, -⟩ := h.last
        have hlast : m₀ ≠ [] := h.ne_nil_of_full hM₀ hfull
        rw [hM₀, List.mem_append, List.mem_singleton, not_or]
        exact ⟨hc.2 M₀ m₀ hM₀, hlast.symm⟩
    | false =>
      obtain ⟨M, m, hM, hb⟩ := h.last
      obtain ⟨hu, -, hm⟩ := messages_last hM
      have hmlen : m.length = (c.msg (c.msgUsed - 1)).iovlen := by
        rw [hm, hu]
        exact length_vectors
      have hle := (h.message m (by simp [hM])).iovlen
      simp only [full, Bool.or_eq_false_iff, decide_eq_false_iff_not, Bool.and_eq_false_iff]
        at hfull
      refine ⟨c, M, m, rfl, h, hM, by omega, fun hlimit => ?_, id⟩
      rcases hfull.2 with hno | hroom
      · simp [hno] at hlimit
      · omega
  obtain ⟨k, hens⟩ := hd.laid.connEnsureIovSpace hd.allocs
  have hd' : { d with iovSize := k }.Open udp bytes :=
    ⟨⟨hd.udp_eq, hd.curr, ⟨hd.laid.iov, hd.laid.used⟩, hd.allocs, hd.message, hd.payload⟩, hd.last⟩
  have hpass : c.iovPass connAddMsghdr buf = _ := iovPass_eq hopen hens
  refine ⟨_, _, _, hpass, (List.take_append_drop _ _).symm, hd'.putIov hM hlen ?_, ?_⟩
  · intro hu
    have hlimit : (c.udp || decide (c.msgUsed = 1)) = true := by
      rw [h.udp_eq, hu, Bool.true_or]
    rw [hlimit]
    refine le_trans (Nat.add_le_add_left (List.length_take_le _ _) _) (fragment_le (hroom hlimit))
  · intro hc hbuf
    have hfill : d.Filled := hfilled hc
    have hput : ({ d with iovSize := k }.putIov (buf.take ({ d with iovSize := k }.fragment
        (c.udp || decide (c.msgUsed = 1)) buf.length))).messages = _ := messages_putIov hd'.laid hM
    -- the part that was taken is not empty
    have hpre : buf.take ({ d with iovSize := k }.fragment (c.udp || decide (c.msgUsed = 1))
        buf.length) ≠ [] := by
      intro hnil
      have hrest := List.take_append_drop
        ({ d with iovSize := k }.fragment (c.udp || decide (c.msgUsed = 1)) buf.length) buf
      rw [hnil, List.nil_append] at hrest
      have hlt : (c.iovPass connAddMsghdr buf).2.2.length < buf.length :=
        length_iovPass_lt (by rw [hpass]) (by rw [hpass, hrest]; exact hbuf)
      rw [hpass, hrest] at hlt
      exact Nat.lt_irrefl _ hlt
    generalize buf.take ({ d with iovSize := k }.fragment (c.udp || decide (c.msgUsed = 1))
      buf.length) = pre at hput hpre ⊢
    have hM' : [] ∉ M := hfill.2 M m hM
    have hm : [] ∉ m := hfill.1 m (by simp [hM])
    refine ⟨⟨fun m' hm' => ?_, fun M' m' hM'' => ?_⟩, ?_⟩
    · rw [hput, List.mem_append, List.mem_singleton] at hm'
      rcases hm' with hm' | rfl
      · exact hfill.1 m' (by simp [hM, hm'])
      · simpa [hm] using hpre.symm
    · obtain ⟨rfl, -⟩ := List.append_inj' (hput.symm.trans hM'') rfl
      exact hM'
    · rw [hput, List.mem_append, List.mem_singleton, not_or]
      exact ⟨hM', by simp⟩

/-- `conn_add_iov` adds the buffer to the messages. -/
theorem Open.connAddIov (h : c.Open udp bytes) (buf : List UInt8) :
    ∃ c', c.connAddIov buf = (.ok, c') ∧ c'.Open udp (bytes ++ buf) ∧
      (c.Filled → buf ≠ [] → c'.Filled ∧ [] ∉ c'.messages) := by
  -- the rest of the buffer gets shorter with every pass
  induction hn : buf.length using Nat.strong_induction_on generalizing c bytes buf with
  | _ n ih =>
    obtain ⟨c', pre, rest, hpass, rfl, hc', hfilled⟩ := h.iovPass buf
    rw [Wire.connAddIov, hpass]
    by_cases hrest : rest = []
    · subst hrest
      simp only [ne_eq, not_true_eq_false, and_false, dite_false, List.append_nil]
      exact ⟨c', rfl, hc', by simpa using hfilled⟩
    · have hlt : (c.iovPass connAddMsghdr (pre ++ rest)).2.2.length < (pre ++ rest).length :=
        length_iovPass_lt (by rw [hpass]) (by rw [hpass]; exact hrest)
      rw [hpass, hn] at hlt
      obtain ⟨c'', hadd, hc'', hfilled'⟩ := ih rest.length hlt hc' rest rfl
      refine ⟨c'', ?_, by rwa [List.append_assoc] at hc'', fun hfill hbuf => ?_⟩
      · simpa [hrest] using hadd
      · exact hfilled' (hfilled hfill hbuf).1 hrest

theorem Open.connAddIovs (h : c.Open udp bytes) (bufs : List (List UInt8)) :
    ∃ c', c.connAddIovs bufs = (.ok, c') ∧ c'.Open udp (bytes ++ bufs.flatten) ∧
      (c.Filled → [] ∉ bufs → ([] ∉ c.messages ∨ bufs ≠ []) → [] ∉ c'.messages ∧ c'.Filled) := by
  induction bufs generalizing c bytes with
  | nil => exact ⟨c, rfl, by simpa using h, fun hc _ hor => ⟨hor.resolve_right (· rfl), hc⟩⟩
  | cons buf bufs ih =>
    obtain ⟨c', hadd, hc', hfilled⟩ := h.connAddIov buf
    obtain ⟨c'', hadds, hc'', hfilled'⟩ := ih hc'
    refine ⟨c'', by rw [Wire.connAddIovs, hadd]; exact hadds, ?_, fun hc hbufs _ => ?_⟩
    · rwa [List.flatten_cons, ← List.append_assoc]
    · rw [List.mem_cons, not_or] at hbufs
      obtain ⟨hc', hne⟩ := hfilled hc (Ne.symm hbufs.1)
      exact hfilled' hc' hbufs.2 (.inl hne)

/-- A reply is built without loss and within the limits. -/
theorem open_queue (udp : Bool) (iovSize msgSize : ℕ) (iov : ℕ → List UInt8) (msg : ℕ → Msghdr)
    (bufs : List (List UInt8)) :
    ∃ c, (empty udp iovSize msgSize iov msg []).queue bufs = (.ok, c) ∧ c.Open udp bufs.flatten ∧
      ([] ∉ bufs → ∀ m ∈ c.messages, m.flatten ≠ [] ∨ m = [] ∧ c.messages = [m]) := by
  have hempty : (empty udp iovSize msgSize iov msg []).Built udp [] :=
    ⟨rfl, rfl, ⟨fun _ hi => absurd hi (Nat.not_lt_zero _), rfl⟩, rfl, nofun, rfl⟩
  obtain ⟨c, hadd, hc, m, hM, -, hm⟩ := hempty.connAddMsghdr
  obtain ⟨c', hadds, hc', hfilled⟩ := hc.connAddIovs bufs
  replace hM : c.messages = [m] := hM
  have hfirst : c.Filled := by
    refine ⟨fun m' hm' => ?_, fun M m' hM' => ?_⟩
    · obtain rfl := List.mem_singleton.1 (hM ▸ hm')
      exact hm
    · obtain ⟨rfl, -⟩ := List.append_inj' ((List.nil_append [m]).trans (hM.symm.trans hM')) rfl
      exact List.not_mem_nil
  refine ⟨c', by rw [queue, hadd]; exact hadds, by simpa using hc', fun hbufs m' hm' => ?_⟩
  by_cases hne : bufs = []
  · -- there is one message, of no vectors but the header
    subst hne
    obtain rfl : c = c' := (Prod.mk.inj hadds).2
    rw [hM] at hm' ⊢
    obtain rfl := List.mem_singleton.1 hm'
    by_cases hnil : m' = []
    · exact .inr ⟨hnil, rfl⟩
    · exact .inl (flatten_ne_nil hnil hm)
  · obtain ⟨hne', hfill⟩ := hfilled hfirst hbufs (.inr hne)
    exact .inl (flatten_ne_nil (fun h => hne' (h ▸ hm')) (hfill.1 m' hm'))

end Wire

end Twemcache
