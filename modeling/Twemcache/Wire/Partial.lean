import Twemcache.Wire.Transmit

/-!
# Messages without memory

If an allocation fails, `conn_add_iov` returns with a part of its buffer in the messages.  Apart
from the allocations to come, what succeeds does what it does with enough memory, so the lemmas for
that case are used again (`Wire.ample`).

## Main definitions

* `Wire.ample` : the connection as if no allocation failed from now on.
* `Wire.fails` : how many of the allocations to come fail.
* `Wire.Headless` : a datagram has not even the place of its header.

## Main results

* `Wire.connAddIovs_ok`, `Wire.connAddIovs_enomem` : what adding buffers leaves behind.
-/

namespace Twemcache

namespace Wire

/-- The connection as if no allocation failed from now on. -/
def ample (c : Wire) : Wire := { c with allocs := [] }

/-- How many of the allocations to come fail. -/
def fails (c : Wire) : ℕ := c.allocs.count false

/-- A datagram was started and has not even the place of its header. -/
def Headless (c : Wire) : Prop := c.udp = true ∧ [] ∈ c.messages

variable {c c' : Wire} {buf rest bytes : List UInt8} {bufs : List (List UInt8)} {udp : Bool}

@[simp] theorem ample_payload : c.ample.payload = c.payload := rfl

@[simp] theorem ample_messages : c.ample.messages = c.messages := rfl

theorem Headless.of_ample (h : c.ample = c'.ample) (hc : c.Headless) : c'.Headless := by
  have hudp : c'.udp = c.udp := (congrArg Wire.udp h).symm
  have hmsgs : c'.messages = c.messages := (congrArg Wire.messages h).symm
  rw [Headless, hudp, hmsgs]
  exact hc

theorem realloc_eq (c : Wire) : ∃ b as, c.realloc = (b, { c with allocs := as }) ∧
    as.count false + (!b).toNat ≤ c.fails := by
  refine ⟨_, _, rfl, ?_⟩
  unfold fails
  cases c.allocs with
  | nil => simp
  | cons b as => cases b <;> simp

theorem ample_realloc : c.ample.realloc = (true, c.ample) := rfl

/-- The array of vectors has room, or nothing has changed. -/
theorem connEnsureIovSpace_ample {st : Rstatus} (h : c.connEnsureIovSpace = (st, c')) :
    (st = .ok → c.ample.connEnsureIovSpace = (.ok, c'.ample) ∧ c'.fails ≤ c.fails) ∧
      (st = .enomem → c'.ample = c.ample ∧ c'.fails < c.fails) := by
  obtain ⟨b, as, hrealloc, hcount⟩ := realloc_eq c
  unfold connEnsureIovSpace at h
  split_ifs at h with hroom
  · rw [hrealloc] at h
    cases b with
    | false =>
      obtain ⟨rfl, rfl⟩ := Prod.mk.inj h
      exact ⟨nofun, fun _ => ⟨rfl, hcount⟩⟩
    | true =>
      obtain ⟨rfl, rfl⟩ := Prod.mk.inj h
      refine ⟨fun _ => ⟨?_, hcount⟩, nofun⟩
      unfold connEnsureIovSpace
      rw [if_pos (show c.ample.iovUsed ≥ c.ample.iovSize from hroom), ample_realloc]
      rfl
  · obtain ⟨rfl, rfl⟩ := Prod.mk.inj h
    refine ⟨fun _ => ⟨?_, le_rfl⟩, nofun⟩
    unfold connEnsureIovSpace
    rw [if_neg (show ¬ c.ample.iovUsed ≥ c.ample.iovSize from hroom)]

/-- A message was started, or nothing has changed. -/
theorem newMsghdr_ample {st : Rstatus} (h : c.newMsghdr = (st, c')) :
    (st = .ok → c.ample.newMsghdr = (.ok, c'.ample) ∧ c'.fails ≤ c.fails) ∧
      (st = .enomem → c'.ample = c.ample ∧ c'.fails < c.fails) := by
  obtain ⟨b, as, hrealloc, hcount⟩ := realloc_eq c
  unfold newMsghdr at h
  split_ifs at h with hsize
  · rw [hrealloc] at h
    cases b with
    | false =>
      obtain ⟨rfl, rfl⟩ := Prod.mk.inj h
      exact ⟨nofun, fun _ => ⟨rfl, hcount⟩⟩
    | true =>
      obtain ⟨rfl, rfl⟩ := Prod.mk.inj h
      refine ⟨fun _ => ⟨?_, hcount⟩, nofun⟩
      unfold newMsghdr
      rw [if_pos (show c.ample.msgSize = c.ample.msgUsed from hsize), ample_realloc,
        if_pos (show c.ample.msgSize = c.ample.msgUsed from hsize)]
      rfl
  · obtain ⟨rfl, rfl⟩ := Prod.mk.inj h
    refine ⟨fun _ => ⟨?_, le_rfl⟩, nofun⟩
    unfold newMsghdr
    rw [if_neg (show ¬ c.ample.msgSize = c.ample.msgUsed from hsize),
      if_neg (show ¬ c.ample.msgSize = c.ample.msgUsed from hsize)]
    rfl

/-- The messages of a connection to which `newMsghdr` has added one. -/
theorem messages_newMsghdr (h : c.newMsghdr = (.ok, c')) : c'.messages = c.messages ++ [[]] := by
  obtain ⟨n, hnew⟩ := newMsghdr_eq (c := c.ample) rfl
  rw [((newMsghdr_ample h).1 rfl).1] at hnew
  rw [← ample_messages, (Prod.mk.inj hnew).2]
  exact messages_opened

/-- One pass, given what it does if the last message is full. -/
theorem iovPass_ample {addMsghdr : Wire → Rstatus × Wire} {st : Rstatus} {P : Wire → Prop}
    (hadd : ∀ {st d}, addMsghdr c = (st, d) →
      (st = .ok → addMsghdr c.ample = (.ok, d.ample) ∧ d.fails ≤ c.fails) ∧
        (st = .enomem → P d ∧ d.fails < c.fails))
    (h : c.iovPass addMsghdr buf = (st, c', rest)) :
    (st = .ok → c.ample.iovPass addMsghdr buf = (.ok, c'.ample, rest) ∧ c'.fails ≤ c.fails) ∧
      (st = .enomem → c'.fails < c.fails ∧ (c'.ample = c.ample ∨
        c.full (c.udp || c.msgUsed = 1) = true ∧
            (P c' ∨ addMsghdr c.ample = (.ok, c'.ample)))) := by
  -- what has become of the message that is written to
  have hopen : ∀ {st d}, (if c.full (c.udp || c.msgUsed = 1) then addMsghdr c else (.ok, c)) =
      (st, d) →
      (st = .ok → (if c.full (c.udp || c.msgUsed = 1) then addMsghdr c.ample else (.ok, c.ample)) =
        (.ok, d.ample) ∧ d.fails ≤ c.fails) ∧
      (st = .enomem → c.full (c.udp || c.msgUsed = 1) = true ∧ P d ∧ d.fails < c.fails) := by
    intro st d hd
    split_ifs at hd ⊢ with hfull
    · exact ⟨(hadd hd).1, fun hst => ⟨hfull, (hadd hd).2 hst⟩⟩
    · obtain ⟨rfl, rfl⟩ := Prod.mk.inj hd
      exact ⟨fun _ => ⟨rfl, le_rfl⟩, fun h => by cases h⟩
  simp only [iovPass] at h
  generalize hd : (if c.full (c.udp || c.msgUsed = 1) then addMsghdr c else (.ok, c)) = r at h
  obtain ⟨_ | _, d⟩ := r
  · obtain ⟨hopen', hle⟩ := (hopen hd).1 rfl
    dsimp only at h
    generalize hens : d.connEnsureIovSpace = r at h
    obtain ⟨_ | _, e⟩ := r
    · obtain ⟨hens', hle'⟩ := (connEnsureIovSpace_ample hens).1 rfl
      obtain ⟨rfl, rfl, rfl⟩ := Prod.mk.inj h |>.imp_right Prod.mk.inj
      exact ⟨fun _ => ⟨iovPass_eq (c := c.ample) hopen' hens', hle'.trans hle⟩, fun h => by cases h⟩
    · obtain ⟨hsame, hlt⟩ := (connEnsureIovSpace_ample hens).2 rfl
      obtain ⟨rfl, rfl, -⟩ := Prod.mk.inj h |>.imp_right Prod.mk.inj
      refine ⟨fun h => (by cases h), fun _ => ⟨hlt.trans_le hle, ?_⟩⟩
      rw [hsame]
      split_ifs at hopen' with hfull
      · exact .inr ⟨hfull, .inr hopen'⟩
      · exact .inl (Prod.mk.inj hopen').2.symm
  · obtain ⟨hfull, hP, hlt⟩ := (hopen hd).2 rfl
    obtain ⟨rfl, rfl, -⟩ := Prod.mk.inj h |>.imp_right Prod.mk.inj
    exact ⟨fun h => (by cases h), fun _ => ⟨hlt, .inr ⟨hfull, .inl hP⟩⟩⟩

/-- A message was started; or nothing has changed; or a datagram has no header. -/
theorem connAddMsghdr_ample {st : Rstatus} (h : c.connAddMsghdr = (st, c')) :
    (st = .ok → c.ample.connAddMsghdr = (.ok, c'.ample) ∧ c'.fails ≤ c.fails) ∧
      (st = .enomem → (c'.ample = c.ample ∨ c'.Headless) ∧ c'.fails < c.fails) := by
  unfold connAddMsghdr at h
  generalize hnew : c.newMsghdr = r at h
  obtain ⟨_ | _, d⟩ := r
  · obtain ⟨hnew', hle⟩ := (newMsghdr_ample hnew).1 rfl
    have hmsgs := messages_newMsghdr hnew
    dsimp only at h
    split_ifs at h with hudp
    · generalize hpass : d.iovPass newMsghdr (List.replicate udpHeaderSize 0) = r at h
      obtain ⟨st', e, rest⟩ := r
      obtain ⟨rfl, rfl⟩ := Prod.mk.inj h
      obtain ⟨hok, hno⟩ := iovPass_ample (P := (·.ample = d.ample)) newMsghdr_ample hpass
      refine ⟨fun hst => ?_, fun hst => ?_⟩
      · obtain ⟨hpass', hle'⟩ := hok hst
        refine ⟨?_, hle'.trans hle⟩
        unfold connAddMsghdr
        rw [hnew']
        dsimp only
        rw [if_pos (show d.ample.udp = true from hudp), hpass']
      · obtain ⟨hlt, hcases⟩ := hno hst
        refine ⟨.inr ?_, hlt.trans_le hle⟩
        have hlast := newMsghdr_last hnew
        -- the new message is not full, so the header failed in the array of vectors
        have hsame : e.ample = d.ample := by
          refine hcases.resolve_right fun hfull => ?_
          rw [full_eq_false (by rw [hlast.1]; decide) (by rw [hlast.2]; decide)] at hfull
          cases hfull.1
        exact Headless.of_ample hsame.symm ⟨hudp, by simp [hmsgs]⟩
    · obtain ⟨rfl, rfl⟩ := Prod.mk.inj h
      refine ⟨fun _ => ⟨?_, hle⟩, nofun⟩
      unfold connAddMsghdr
      rw [hnew']
      dsimp only
      rw [if_neg (show ¬ d.ample.udp = true from hudp)]
  · obtain ⟨hsame, hlt⟩ := (newMsghdr_ample hnew).2 rfl
    obtain ⟨rfl, rfl⟩ := Prod.mk.inj h
    exact ⟨nofun, fun _ => ⟨.inl hsame, hlt⟩⟩

/-- The messages after an allocation has failed: a datagram has no header, or a part of what was to
be added is there.  If that is nothing, and the last message was not full, nothing has changed. -/
structure Broken (c c' : Wire) (udp : Bool) (bytes : List UInt8) : Prop where
  /-- An allocation has failed. -/
  fails : c'.fails < c.fails
  /-- What is left behind. -/
  left : c'.Headless ∨ ∃ added, c'.ample.Open udp (bytes ++ added) ∧
    (added = [] → c.full (c.udp || c.msgUsed = 1) = false → c'.ample = c.ample)

theorem iovPass_enomem (h : c.iovPass connAddMsghdr buf = (.enomem, c', rest))
    (hc : c.ample.Open udp bytes) :
    Broken c c' udp bytes := by
  obtain ⟨hlt, hcases⟩ :=
    (iovPass_ample (P := fun d => d.ample = c.ample ∨ d.Headless) connAddMsghdr_ample h).2 rfl
  refine ⟨hlt, ?_⟩
  rcases hcases with hsame | ⟨hfull, (hsame | hheadless) | hadd⟩
  · exact .inr ⟨[], by rwa [hsame, List.append_nil], fun _ _ => hsame⟩
  · exact .inr ⟨[], by rwa [hsame, List.append_nil], fun _ _ => hsame⟩
  · exact .inl hheadless
  · obtain ⟨d, hd, hopen, -⟩ := hc.toBuilt.connAddMsghdr
    rw [hadd] at hd
    obtain rfl := (Prod.mk.inj hd).2
    exact .inr ⟨[], by rwa [List.append_nil], fun _ hno => absurd (hfull.symm.trans hno) nofun⟩

theorem connAddIov_ok (h : c.connAddIov buf = (.ok, c')) :
    c.ample.connAddIov buf = (.ok, c'.ample) ∧ c'.fails ≤ c.fails := by
  induction hn : buf.length using Nat.strong_induction_on generalizing c buf with
  | _ n ih =>
    subst hn
    rw [connAddIov] at h
    generalize hpass : c.iovPass connAddMsghdr buf = r at h
    obtain ⟨st, d, rest⟩ := r
    dsimp only at h
    split_ifs at h with hmore
    · obtain ⟨rfl, hrest⟩ := hmore
      have hlt : (c.iovPass connAddMsghdr buf).2.2.length < buf.length :=
        length_iovPass_lt (by rw [hpass]) (by rw [hpass]; exact hrest)
      rw [hpass] at hlt
      obtain ⟨hpass', hle⟩ := (iovPass_ample connAddMsghdr_ample hpass).1 rfl
      obtain ⟨hadd, hle'⟩ := ih rest.length hlt h rfl
      refine ⟨?_, hle'.trans hle⟩
      rw [connAddIov, hpass']
      simpa [hrest] using hadd
    · obtain ⟨rfl, rfl⟩ := Prod.mk.inj h
      obtain ⟨hpass', hle⟩ := (iovPass_ample connAddMsghdr_ample hpass).1 rfl
      refine ⟨?_, hle⟩
      have hrest : rest = [] := by simpa using hmore
      rw [connAddIov, hpass']
      simp [hrest]

theorem connAddIov_enomem (h : c.connAddIov buf = (.enomem, c')) (hc : c.ample.Open udp bytes) :
    Broken c c' udp bytes := by
  induction hn : buf.length using Nat.strong_induction_on generalizing c buf bytes with
  | _ n ih =>
    subst hn
    rw [connAddIov] at h
    generalize hpass : c.iovPass connAddMsghdr buf = r at h
    obtain ⟨st, d, rest⟩ := r
    dsimp only at h
    split_ifs at h with hmore
    · obtain ⟨rfl, hrest⟩ := hmore
      have hlt : (c.iovPass connAddMsghdr buf).2.2.length < buf.length :=
        length_iovPass_lt (by rw [hpass]) (by rw [hpass]; exact hrest)
      rw [hpass] at hlt
      obtain ⟨hpass', hle⟩ := (iovPass_ample connAddMsghdr_ample hpass).1 rfl
      obtain ⟨e, pre, rest', hpass'', hbuf, hopen, -⟩ := hc.iovPass buf
      rw [hpass'] at hpass''
      obtain ⟨rfl, rfl⟩ := Prod.mk.inj (Prod.mk.inj hpass'').2
      obtain ⟨hfails, hleft⟩ := ih rest.length hlt h hopen rfl
      refine ⟨hfails.trans_le hle, hleft.imp_right ?_⟩
      rintro ⟨added, hadded, -⟩
      refine ⟨pre ++ added, by rwa [List.append_assoc] at hadded, fun hnil => ?_⟩
      -- the first pass has moved something
      rw [hbuf, (List.append_eq_nil_iff.1 hnil).1, List.nil_append] at hlt
      exact absurd hlt (Nat.lt_irrefl _)
    · obtain ⟨rfl, rfl⟩ := Prod.mk.inj h
      exact iovPass_enomem hpass hc

theorem connAddIovs_ok (h : c.connAddIovs bufs = (.ok, c')) :
    c.ample.connAddIovs bufs = (.ok, c'.ample) ∧ c'.fails ≤ c.fails := by
  induction bufs generalizing c with
  | nil =>
    obtain ⟨-, rfl⟩ := Prod.mk.inj h
    exact ⟨rfl, le_rfl⟩
  | cons buf bufs ih =>
    rw [connAddIovs] at h
    generalize hadd : c.connAddIov buf = r at h
    obtain ⟨_ | _, d⟩ := r
    · obtain ⟨hadd', hle⟩ := connAddIov_ok hadd
      obtain ⟨hadds, hle'⟩ := ih h
      refine ⟨?_, hle'.trans hle⟩
      rw [connAddIovs, hadd']
      exact hadds
    · cases h

/-- **Buffers of which not all could be added.** -/
theorem connAddIovs_enomem (h : c.connAddIovs bufs = (.enomem, c')) (hc : c.ample.Open udp bytes)
    (hne : ∀ buf, bufs.head? = some buf → buf ≠ []) : Broken c c' udp bytes := by
  have hall : ∀ {bufs : List (List UInt8)} {c : Wire} {bytes : List UInt8},
      c.connAddIovs bufs = (.enomem, c') → c.ample.Open udp bytes →
      c'.fails < c.fails ∧ (c'.Headless ∨ ∃ added, c'.ample.Open udp (bytes ++ added)) := by
    intro bufs
    induction bufs with
    | nil => exact fun h _ => by cases h
    | cons buf bufs ih =>
      intro c bytes h hc
      rw [connAddIovs] at h
      generalize hadd : c.connAddIov buf = r at h
      obtain ⟨_ | _, d⟩ := r
      · obtain ⟨hadd', hle⟩ := connAddIov_ok hadd
        obtain ⟨e, he, hopen, -⟩ := hc.connAddIov buf
        rw [hadd'] at he
        obtain rfl := (Prod.mk.inj he).2
        obtain ⟨hlt, hleft⟩ := ih h hopen
        refine ⟨hlt.trans_le hle, hleft.imp_right ?_⟩
        rintro ⟨added, hadded⟩
        exact ⟨buf ++ added, by rwa [List.append_assoc] at hadded⟩
      · obtain ⟨-, rfl⟩ := Prod.mk.inj h
        obtain ⟨hlt, hleft⟩ := connAddIov_enomem hadd hc
        refine ⟨hlt, hleft.imp_right ?_⟩
        rintro ⟨added, hadded, -⟩
        exact ⟨added, hadded⟩
  cases bufs with
  | nil => cases h
  | cons buf bufs =>
    rw [connAddIovs] at h
    generalize hadd : c.connAddIov buf = r at h
    obtain ⟨_ | _, d⟩ := r
    · obtain ⟨hadd', hle⟩ := connAddIov_ok hadd
      obtain ⟨e, he, hopen, -⟩ := hc.connAddIov buf
      rw [hadd'] at he
      obtain rfl := (Prod.mk.inj he).2
      obtain ⟨hlt, hleft⟩ := hall h hopen
      refine ⟨hlt.trans_le hle, hleft.imp_right ?_⟩
      rintro ⟨added, hadded⟩
      refine ⟨buf ++ added, by rwa [List.append_assoc] at hadded, fun hnil => ?_⟩
      exact absurd (List.append_eq_nil_iff.1 hnil).1 (hne buf rfl)
    · obtain ⟨-, rfl⟩ := Prod.mk.inj h
      exact connAddIov_enomem hadd hc

/-- Buffers that were added. -/
theorem connAddIovs_added (h : c.connAddIovs bufs = (.ok, c')) (hc : c.ample.Open udp bytes) :
    c'.ample.Open udp (bytes ++ bufs.flatten) ∧ c'.fails ≤ c.fails := by
  obtain ⟨hadd, hle⟩ := connAddIovs_ok h
  obtain ⟨d, hd, hopen, -⟩ := hc.connAddIovs bufs
  rw [hadd] at hd
  obtain rfl := (Prod.mk.inj hd).2
  exact ⟨hopen, hle⟩

/-! ### Messages without a reply -/

/-- Nothing but the place of a header is in the messages. -/
structure Blank (c : Wire) : Prop where
  /-- The last message can be written to. -/
  open_ample : c.ample.Open c.udp []
  /-- The vectors that are used. -/
  used : c.iovUsed = if c.udp then 1 else 0
  /-- There is room for another one. -/
  room : c.iovUsed < c.iovSize
  /-- The bytes of the message. -/
  bytes : c.msgBytes ≤ udpHeaderSize
  /-- The vectors of the message. -/
  iovlen : (c.msg (c.msgUsed - 1)).iovlen ≤ 1

theorem Blank.of_ample (h : c.Blank) (heq : c'.ample = c.ample) : c'.Blank := by
  have hudp : c'.udp = c.udp := (congrArg Wire.udp heq :)
  have hmsg : c'.msg = c.msg := (congrArg Wire.msg heq :)
  have hmsgUsed : c'.msgUsed = c.msgUsed := (congrArg Wire.msgUsed heq :)
  have hused : c'.iovUsed = c.iovUsed := (congrArg Wire.iovUsed heq :)
  have hsize : c'.iovSize = c.iovSize := (congrArg Wire.iovSize heq :)
  have hbytes : c'.msgBytes = c.msgBytes := (congrArg Wire.msgBytes heq :)
  refine ⟨by rw [heq, hudp]; exact h.open_ample, by rw [hused, hudp]; exact h.used,
    by rw [hused, hsize]; exact h.room, by rw [hbytes]; exact h.bytes, by
      rw [hmsg, hmsgUsed]; exact h.iovlen⟩

theorem Blank.not_full (h : c.Blank) (limitToMtu : Bool) : c.full limitToMtu = false :=
  full_eq_false (lt_of_le_of_lt h.bytes (by decide)) (lt_of_le_of_lt h.iovlen (by decide))

/-- A short line is added without an allocation. -/
theorem Blank.addLine (h : c.Blank) (line : List UInt8) (hlen : line.length ≤ 1000) :
    ∃ c', c.connAddIovs [line] = (.ok, c') ∧ c'.payload = line := by
  have hens : c.connEnsureIovSpace = (.ok, c) := by
    unfold connEnsureIovSpace
    rw [if_neg (Nat.not_le.2 h.room)]
  have hbytes := h.bytes
  have hpass : c.iovPass connAddMsghdr line = (.ok, c.putIov line, []) := by
    rw [iovPass_eq (by rw [h.not_full]; rfl) hens,
      fragment_of_le (by rw [udpHeaderSize] at hbytes; rw [udpMaxPayloadSize]; omega),
        List.take_length,
      List.drop_length]
  have hadd : c.connAddIovs [line] = (.ok, c.putIov line) := by
    rw [connAddIovs, connAddIov, hpass]
    rfl
  refine ⟨_, hadd, ?_⟩
  have hopen := (connAddIovs_added hadd h.open_ample).1
  rw [← ample_payload, hopen.payload]
  simp

/-- A reply is begun without an allocation. -/
theorem connAddMsghdr_blank (c : Wire) (hmsg : 0 < c.msgSize) (hiov : 1 < c.iovSize) :
    ∃ wire, connAddMsghdr { c with msgCurr := 0, msgUsed := 0, iovUsed := 0 } = (.ok, wire) ∧
      wire.Blank ∧ wire.udp = c.udp ∧ wire.allocs = c.allocs := by
  let c₀ : Wire := { c with msgCurr := 0, msgUsed := 0, iovUsed := 0 }
  have hempty : c₀.ample.Built c.udp [] :=
    ⟨rfl, rfl, ⟨fun _ hi => absurd hi (Nat.not_lt_zero _), rfl⟩, rfl, nofun, rfl⟩
  -- the array of messages is empty and not of size zero, so nothing is allocated
  have hnew : c₀.newMsghdr = (.ok, c₀.opened c.msgSize) := by
    unfold newMsghdr
    rw [if_neg (show ¬ c.msgSize = 0 from hmsg.ne'), if_neg (show ¬ c.msgSize = 0 from hmsg.ne')]
    rfl
  obtain ⟨wire, hwire, hudp, hallocs, hused, hsize, hbytes, hlen⟩ :
      ∃ wire, c₀.connAddMsghdr = (.ok, wire) ∧
      wire.udp = c.udp ∧ wire.allocs = c.allocs ∧ wire.iovUsed = (if c.udp then 1 else 0) ∧
      wire.iovSize = c.iovSize ∧ wire.msgBytes ≤ udpHeaderSize ∧
          (wire.msg (wire.msgUsed - 1)).iovlen ≤ 1 := by
    unfold connAddMsghdr
    rw [hnew]
    by_cases hudp : c.udp = true
    · -- the header goes into the new message in one pass
      have hpass : (c₀.opened c.msgSize).iovPass newMsghdr (List.replicate udpHeaderSize 0) =
          (.ok, (c₀.opened c.msgSize).putIov (List.replicate udpHeaderSize 0), []) := by
        have hens : (c₀.opened c.msgSize).connEnsureIovSpace = (.ok, c₀.opened c.msgSize) := by
          unfold connEnsureIovSpace
          exact if_neg (show ¬ (0 : ℕ) ≥ c.iovSize by omega)
        rw [iovPass_eq (by rw [full_eq_false (show 0 < udpMaxPayloadSize by decide)
            (by rw [opened_msg]; simp [c₀, opened, iovMax])]; rfl) hens,
          fragment_of_le (show udpHeaderSize + 0 ≤ udpMaxPayloadSize by decide)]
        rfl
      refine ⟨(c₀.opened c.msgSize).putIov (List.replicate udpHeaderSize 0), ?_, rfl, rfl,
        ?_, rfl, ?_, ?_⟩
      · dsimp only
        rw [if_pos (show (c₀.opened c.msgSize).udp = true from hudp), hpass]
      · rw [if_pos hudp]
        rfl
      · simp [putIov, opened]
      · simp [putIov, opened]
    · refine ⟨c₀.opened c.msgSize, ?_, rfl, rfl, ?_, rfl, Nat.zero_le _, ?_⟩
      · dsimp only
        rw [if_neg (show ¬ (c₀.opened c.msgSize).udp = true from hudp)]
      · rw [if_neg hudp]
        rfl
      · simp [opened]
  refine ⟨wire, hwire, ⟨?_, by rw [hused, hudp], ?_, hbytes, hlen⟩, hudp, hallocs⟩
  · obtain ⟨d, hd, hopen, -⟩ := hempty.connAddMsghdr
    rw [((connAddMsghdr_ample hwire).1 rfl).1] at hd
    rw [(Prod.mk.inj hd).2, hudp]
    exact hopen
  · rw [hused, hsize]
    split_ifs <;> omega

/-- Where there is a reply, the vectors of the messages are more than the places of headers. -/
theorem iovUsed_of_payload (h : c.ample.Open udp bytes) (hne : bytes ≠ []) :
    ¬ (c.iovUsed = 0 ∨ udp = true ∧ c.iovUsed = 1) := by
  intro hfew
  refine hne ?_
  have hused : c.iovUsed = iovnum c.msg c.msgUsed := h.laid.used
  have hudp : c.udp = udp := h.udp_eq
  have hpay : c.payload = bytes := h.payload
  rw [← hpay, payload, messages, hudp, List.map_map]
  refine List.flatten_eq_nil_iff.2 fun l hl => ?_
  obtain ⟨i, hi, rfl⟩ := List.mem_map.1 hl
  -- no message has more vectors than are used
  have hle : (c.entries i).length ≤ c.iovUsed := by
    rw [hused, entries, length_vectors]
    exact (Nat.le_add_left _ (iovnum c.msg i)).trans
      (iovnum_mono (show i + 1 ≤ c.msgUsed from List.mem_range.1 hi))
  simp only [Function.comp]
  cases udp with
  | false =>
    have hnil : c.entries i = [] := List.length_eq_zero_iff.1 (by simp at hfew; omega)
    simp [hnil]
  | true =>
    have htail : (c.entries i).tail = [] :=
      List.length_eq_zero_iff.1 (by rw [List.length_tail]; omega)
    simp [htail]

end Wire

end Twemcache
