import Mathlib.Data.List.ModifyLast
import Twemcache.Conn.Control

/-!
# Which requests are answered

A handler that finds `noreply` at the end of a request sets a flag of the connection, and the next
reply is not sent and clears it; with a data block in between, that is much later.  Yet in every run
the flag is clear when a request is parsed, and the flag that a reply clears is the one of its own
request.  The one exception is a UDP connection that is closed while the flag is set: it goes on
with the next datagram, and the flag stays.

## Main definitions

* `Asked` : a request, and how many replies were queued for it.
* `Asked.Answered` : as many as there should be.
* `Session.Unmuted` : a UDP connection is not closed while the flag is set.

## Main results

* `Session.requests_answered` : in every run, the flag is clear when a request is parsed, and every
  request is answered, or has told not to be.
* `Session.requests_answered_once` : if no allocation fails, every request has one reply at most.
* `Session.noreply_exact` : when the flag is that of the request at hand.
-/

namespace Twemcache

/-- What a connection was asked, and whether it was answered. -/
structure Asked where
  /-- The line of the request; `none` if something was received and dropped. -/
  line : Option (List UInt8)
  /-- The client wants no reply. -/
  noreply : Bool
  /-- The data block of the request is not complete. -/
  awaited : Bool
  /-- How many replies were queued. -/
  queued : ℕ
  deriving DecidableEq, Repr

namespace Asked

/-- What an event means for the last request. -/
def add (as : List Asked) : Event → List Asked
  | .line line noreply => as ++ [⟨some line, noreply, false, 0⟩]
  | .dropped => as ++ [⟨none, false, false, 0⟩]
  | .queued => as.modifyLast fun a => { a with queued := a.queued + 1 }
  | .alloc true => as.modifyLast fun a => { a with awaited := true }
  | .block _ => as.modifyLast fun a => { a with awaited := false }
  | _ => as

/-- What a connection was asked, in order. -/
def ofLog (log : List Event) : List Asked := log.foldl add []

/-- It was asked to close the connection. -/
def quits (a : Asked) : Bool := a.line.any fun line => reqTypeOf (Session.request line) = .quit

/-- There are as many replies as there should be; only one, if `whole` says that no allocation has
failed. -/
def Answered (whole : Prop) (a : Asked) : Prop :=
  if a.noreply ∨ a.awaited ∨ a.quits then a.queued = 0 else 1 ≤ a.queued ∧ (whole → a.queued = 1)

variable {as : List Asked} {a : Asked} {log es : List Event} {whole : Prop}

@[simp] theorem ofLog_append (log es : List Event) : ofLog (log ++ es) = es.foldl add (ofLog log) :=
  List.foldl_append

theorem add_queued :
    add (as ++ [a]) .queued = as ++ [{ a with queued := a.queued + 1 }] :=
      List.modifyLast_concat _ _ _

theorem add_alloc :
    add (as ++ [a]) (.alloc true) = as ++ [{ a with awaited := true }] :=
      List.modifyLast_concat _ _ _

theorem add_block (bytes : List UInt8) :
    add (as ++ [a]) (.block bytes) = as ++ [{ a with awaited := false }] :=
  List.modifyLast_concat _ _ _

/-- While a request is handled, replies may be queued. -/
theorem foldl_replies (hes : ∀ e ∈ es, e = .queued ∨ ∃ u, e = .token u) :
    es.foldl add (as ++ [a]) = as ++ [{ a with queued := a.queued + es.count .queued }] := by
  induction es generalizing a with
  | nil => rfl
  | cons e es ih =>
    have htail :
        ∀ a, es.foldl add (as ++ [a]) = as ++ [{ a with queued := a.queued + es.count .queued }] :=
      fun a => ih fun e he => hes e (List.mem_cons_of_mem _ he)
    rw [List.foldl_cons]
    rcases hes e List.mem_cons_self with rfl | ⟨u, rfl⟩
    · rw [add_queued, htail, List.count_cons_self, Nat.add_assoc, Nat.add_comm 1]
    · rw [show add (as ++ [a]) (.token u) = as ++ [a] from rfl, htail,
        List.count_cons_of_ne (by simp)]

theorem foldl_tokens (us : List Use) : (us.map Event.token).foldl add as = as := by
  induction us with
  | nil => rfl
  | cons u us ih => exact ih

/-- A request that has told so is not answered. -/
theorem answered_of_noreply (h : a.noreply = true) (hq : a.queued = 0) : a.Answered whole := by
  unfold Answered
  rwa [if_pos (.inl h)]

/-- Nothing is answered before it is complete. -/
theorem answered_of_awaited (h : a.awaited = true) (hq : a.queued = 0) : a.Answered whole := by
  unfold Answered
  rwa [if_pos (.inr (.inl h))]

theorem answered_of_quits (h : a.quits = true) (hq : a.queued = 0) : a.Answered whole := by
  unfold Answered
  rwa [if_pos (.inr (.inr h))]

/-- What is to be answered has a reply. -/
theorem answered_of_reply (hn : a.noreply = false) (ha : a.awaited = false)
    (hquit : a.quits = false) (hq : 1 ≤ a.queued) (hone : whole → a.queued = 1) :
    a.Answered whole := by
  unfold Answered
  rw [hn, ha, hquit, if_neg (by decide)]
  exact ⟨hq, hone⟩

/-- What is carried out with a simple response. -/
theorem answered_of_rsp (hq : a.queued = if a.noreply then 0 else 1) (ha : a.awaited = false)
    (hquit : a.quits = false) : a.Answered whole := by
  cases hn : a.noreply with
  | true => exact answered_of_noreply hn (by rw [hq, if_pos hn])
  | false =>
    have hone : a.queued = 1 := by rw [hq, if_neg (by rw [hn]; exact Bool.false_ne_true)]
    exact answered_of_reply hn ha hquit hone.ge fun _ => hone

end Asked

namespace Control

variable {cfg : Config} {c d : Control} {as : List Asked} {a : Asked} {whole : Prop}

@[simp] theorem rsp_noreply (c : Control) : c.rsp.noreply = false := by
  cases hn : c.noreply with
  | true => rw [rsp_of_noreply hn]
  | false =>
    rw [rsp_of_reply hn]
    exact hn

theorem rsp_state (c : Control) :
    c.rsp.state = .newCmd ∨ c.rsp.state = .write ∧ c.rsp.writeAndGo = .newCmd := by
  unfold rsp
  split_ifs
  · exact .inl rfl
  · exact .inr ⟨rfl, rfl⟩

/-- A reply answers the last request, unless it has told not to. -/
theorem ofLog_rsp (h : Asked.ofLog c.log = as ++ [a]) :
    Asked.ofLog c.rsp.log = as ++ [{ a with queued := a.queued + if c.noreply then 0 else 1 }] := by
  cases hn : c.noreply with
  | true =>
    rw [rsp_of_noreply hn]
    exact h
  | false =>
    rw [rsp_of_reply hn]
    change Asked.ofLog (c.log ++ [.queued]) = _
    rw [Asked.ofLog_append, h]
    exact Asked.add_queued

/-- The flag belongs to the request whose data block is awaited, and all others are answered. -/
structure Fair (whole : Prop) (c : Control) : Prop where
  /-- The flag is set while a data block is read. -/
  noreply : c.noreply = true → c.state = .nread ∨ c.state = .close
  /-- After a write, there is no data block to be read to an item. -/
  writeAndGo : c.state = .write → c.writeAndGo = .newCmd ∨ c.writeAndGo = .swallow ∨
    c.writeAndGo = .close
  /-- The last request waits for its data block. -/
  awaited : c.state = .nread →
    ∃ as line, Asked.ofLog c.log = as ++ [⟨some line, c.noreply, true, 0⟩] ∧
    reqTypeOf (Session.request line) ≠ .quit
  /-- Requests are answered. -/
  answered : ∀ a ∈ Asked.ofLog c.log, a.Answered whole

/-- No data block is read. -/
theorem Fair.of_clear (hn : c.noreply = false)
    (hs : c.state = .write → c.writeAndGo = .newCmd ∨ c.writeAndGo = .swallow ∨
      c.writeAndGo = .close)
    (hnread : c.state ≠ .nread) (hanswered : ∀ a ∈ Asked.ofLog c.log, a.Answered whole) :
    c.Fair whole :=
  ⟨fun h => absurd (hn.symm.trans h) Bool.false_ne_true, hs, fun h => absurd h hnread, hanswered⟩

/-- The flag is clear, unless a data block is read. -/
theorem Fair.clear {s : ConnState} (h : c.Fair whole) (hs : c.state = s) (hnread : s ≠ .nread)
    (hclose : s ≠ .close) :
    c.noreply = false := by
  by_contra hn
  rcases h.noreply (by simpa using hn) with h' | h'
  · exact hnread (hs.symm.trans h')
  · exact hclose (hs.symm.trans h')

/-- What was asked last is answered. -/
theorem answered_concat (has : ∀ a ∈ as, a.Answered whole) (ha : a.Answered whole) :
    ∀ b ∈ as ++ [a], b.Answered whole := by
  intro b hb
  rcases List.mem_append.1 hb with hb | hb
  · exact has b hb
  · rwa [List.mem_singleton.1 hb]

/-- What is asked is answered with a simple response. -/
theorem answered_rsp (has : ∀ a ∈ as, a.Answered whole) {line : Option (List UInt8)}
    (hlog : Asked.ofLog c.log = as ++ [⟨line, c.noreply, false, 0⟩])
    (hquit : (line.any fun line => reqTypeOf (Session.request line) = .quit) = false) :
    ∀ a ∈ Asked.ofLog c.rsp.log, a.Answered whole := by
  rw [ofLog_rsp hlog]
  exact answered_concat has (Asked.answered_of_rsp (Nat.zero_add _) rfl hquit)

/-- **A request is answered**, or waits for its data block. -/
theorem Fair.handled {handled : Prop} {line : List UInt8} (h : c.Fair whole)
    (hn : c.noreply = false) (hwhole : whole → handled) (hd : Handled cfg c handled line d) :
    d.Fair whole := by
  -- the line is the last request that is asked for
  have hnew : ∀ noreply es, Asked.ofLog (c.log ++ .line line noreply :: es) =
      es.foldl Asked.add (Asked.ofLog c.log ++ [⟨some line, noreply, false, 0⟩]) :=
        fun noreply es =>
    Asked.ofLog_append _ _
  cases hd with
  | @answered noreply es s go hblock hquit hes hno hsome hone hs =>
    have hquits : ∀ n, (⟨some line, noreply, false, n⟩ : Asked).quits = false :=
      fun _ => decide_eq_false hquit
    have hlast : Asked.Answered whole ⟨some line, noreply, false, 0 + es.count .queued⟩ := by
      rw [Nat.zero_add]
      cases noreply with
      | true => exact Asked.answered_of_noreply rfl (List.count_eq_zero.2 (hno rfl))
      | false =>
        exact Asked.answered_of_reply rfl rfl (hquits _) (List.count_pos_iff.2 (hsome rfl))
          fun hw => hone rfl (hwhole hw)
    refine .of_clear rfl ?_ ?_ ?_
    · rcases hs with rfl | rfl | ⟨rfl, rfl⟩
      · exact fun hw => by cases hw
      · exact fun hw => by cases hw
      · exact fun _ => .inl rfl
    · rcases hs with rfl | rfl | ⟨rfl, -⟩ <;> exact fun hr => by cases hr
    · change ∀ a ∈ Asked.ofLog (c.log ++ .line line noreply :: es), _
      rw [hnew, Asked.foldl_replies hes]
      exact answered_concat h.answered hlast
  | @stored noreply us vlen hblock =>
    have hlog : Asked.ofLog (c.log ++ .line line noreply :: (us.map .token ++ [.alloc true])) =
        Asked.ofLog c.log ++ [⟨some line, noreply, true, 0⟩] := by
      rw [hnew, List.foldl_append, Asked.foldl_tokens]
      exact Asked.add_alloc
    refine ⟨fun _ => .inl rfl, fun hw => (by cases hw),
      fun _ => ⟨_, line, hlog, not_quit_of_blockOf hblock⟩, ?_⟩
    change ∀ a ∈ Asked.ofLog (c.log ++ .line line noreply :: (us.map .token ++ [.alloc true])), _
    rw [hlog]
    exact answered_concat h.answered (Asked.answered_of_awaited rfl rfl)
  | @unstored noreply us vlen hblock =>
    generalize hc : ({ c with
      noreply := noreply, log :=
        c.log ++ .line line noreply :: (us.map .token ++ [.alloc false]) } : Control) = b
    have hlog : Asked.ofLog b.log = Asked.ofLog c.log ++ [⟨some line, b.noreply, false, 0⟩] := by
      rw [← hc]
      dsimp only
      rw [hnew, List.foldl_append, Asked.foldl_tokens]
      rfl
    refine .of_clear b.rsp_noreply (fun _ => .inr (.inl rfl)) ?_ ?_
    · rcases b.rsp_state with hs | ⟨hs, -⟩
      · exact fun hr => by cases hs.symm.trans hr
      · exact fun hr => by cases hs.symm.trans hr
    · exact answered_rsp h.answered hlog (decide_eq_false (not_quit_of_blockOf hblock))
  | @quit us hblock hquit =>
    refine .of_clear hn (fun hw => (by cases hw)) (fun hr => by cases hr) ?_
    change ∀ a ∈ Asked.ofLog (c.log ++ .line line false :: us.map .token), _
    rw [hnew, Asked.foldl_tokens]
    exact answered_concat h.answered (Asked.answered_of_quits (decide_eq_true hquit) rfl)

/-- The end of a stream answers nothing. -/
theorem ofLog_ends {faulty : Prop} {unread input : List UInt8} {es : List Event} {s : ConnState}
    (h : c.Ends faulty unread input es s) : Asked.ofLog (c.log ++ es) = Asked.ofLog c.log := by
  rcases h with ⟨rfl, -⟩ | ⟨-, rfl, -⟩
  · rw [List.append_nil]
  · rw [Asked.ofLog_append]
    rfl

/-- The connection is closed. -/
theorem Fair.close (h : c.Fair whole) : (c.goto .close).Fair whole :=
  ⟨fun _ => .inr rfl, fun hw => (by cases hw), fun hr => (by cases hr), h.answered⟩

/-- Only the state changes, and no data block is read. -/
theorem Fair.goto {s t : ConnState} (h : c.Fair whole) (hs : c.state = s) (hnread : s ≠ .nread)
    (hclose : s ≠ .close) (ht : t ≠ .write) (ht' : t ≠ .nread) : (c.goto t).Fair whole :=
  .of_clear (h.clear hs hnread hclose) (fun hw => absurd hw ht) ht' h.answered

/-- The state changes, and nothing else that is answered. -/
theorem Fair.moves {faulty : Prop} {s : ConnState} (h : c.Fair whole) (hm : c.Moves faulty s) :
    (c.goto s).Fair whole := by
  cases hm with
  | readable hs => exact h.goto hs (by decide) (by decide) (by decide) (by decide)
  | nothing hs => exact h.goto hs (by decide) (by decide) (by decide) (by decide)
  | incomplete hs => exact h.goto hs (by decide) (by decide) (by decide) (by decide)
  | endless hs => exact h.close
  | written hs =>
    rcases h.writeAndGo hs with hgo | hgo | hgo
    all_goals
      rw [hgo]
      exact h.goto hs (by decide) (by decide) (by decide) (by decide)
  | sent hs => exact h.goto hs (by decide) (by decide) (by decide) (by decide)
  | unsent hs =>
    rcases hs with hs | hs
    · exact h.goto hs (by decide) (by decide) (by decide) (by decide)
    · exact h.goto hs (by decide) (by decide) (by decide) (by decide)
  | failed => exact h.close

/-- A data block is received, or will not be. -/
theorem Fair.part {faulty : Prop} {unread input : List UInt8} {es : List Event} {s : ConnState}
    (h : c.Fair whole) (hs : c.state = .nread ∨ c.state = .swallow)
    (hends : c.Ends faulty unread input es s) (hn : d.noreply = c.noreply) (hd : d.state = s)
    (hlog : d.log = c.log ++ es) : d.Fair whole := by
  have hsame : Asked.ofLog d.log = Asked.ofLog c.log := by rw [hlog, ofLog_ends hends]
  have hstate : s = c.state ∨ s = .close := by
    rcases hends with ⟨-, hst | ⟨-, hst⟩⟩ | ⟨-, -, hst, -⟩
    · exact .inl hst
    · exact .inr hst
    · exact .inr hst
  rw [← hd] at hstate
  refine ⟨fun hno => ?_, fun hw => ?_, fun hr => ?_, by rw [hsame]; exact h.answered⟩
  · rcases hstate with hst | hst
    · rw [hst]
      exact h.noreply (hn.symm.trans hno)
    · exact .inr hst
  · rcases hstate with hst | hst
    · rcases hs with hs | hs <;> cases hs.symm.trans (hst.symm.trans hw)
    · cases hst.symm.trans hw
  · rcases hstate with hst | hst
    · rw [hsame, hn]
      exact h.awaited (hst.symm.trans hr)
    · cases hst.symm.trans hr

/-- Something is dropped, and that is answered. -/
theorem Fair.dropped (h : c.Fair whole) {b : Control} (hb : b.noreply = false)
    (hlog : b.log = c.log ++ [.dropped]) :
    ∀ a ∈ Asked.ofLog b.rsp.log, a.Answered whole := by
  have hlast : Asked.ofLog b.log = Asked.ofLog c.log ++ [⟨none, b.noreply, false, 0⟩] := by
    rw [hlog, hb, Asked.ofLog_append]
    rfl
  exact answered_rsp h.answered hlast rfl

/-- **Every turn is fair**, unless it closes a UDP connection that wants no reply. -/
theorem Fair.turn {faulty handled : Prop} (h : c.Fair whole)
    (hwhole : whole → c.state = .parse → handled)
    (hclose : c.state = .close → c.udp = true → c.noreply = false)
    (ht : c.Turn cfg faulty handled d) :
    d.Fair whole := by
  cases ht with
  | idle => exact h
  | move hm => exact h.moves hm
  | reset hs =>
    refine .of_clear (h.clear hs (by decide) (by decide)) ?_ ?_ h.answered
    · dsimp only
      split_ifs <;> exact fun hw => by cases hw
    · dsimp only
      split_ifs <;> exact fun hr => by cases hr
  | cleanup hs =>
    by_cases hudp : c.udp = true
    · rw [if_pos hudp]
      exact .of_clear (hclose hs hudp) (fun hw => by cases hw) (fun hr => by cases hr) h.answered
    · rw [if_neg hudp]
      exact ⟨fun _ => .inr rfl, fun hw => (by cases hw), fun hr => (by cases hr), h.answered⟩
  | receive hs _ _ hd =>
    refine .of_clear (h.clear hs (by decide) (by decide)) ?_ ?_ h.answered
    · rcases hd with rfl | ⟨rfl, -⟩ | ⟨-, rfl⟩ <;> exact fun hw => by cases hw
    · rcases hd with rfl | ⟨rfl, -⟩ | ⟨-, rfl⟩ <;> exact fun hr => by cases hr
  | ended hs =>
    refine .of_clear (h.clear hs (by decide) (by decide)) (fun hw => by cases hw)
      (fun hr => by cases hr) ?_
    change ∀ a ∈ Asked.ofLog (c.log ++ [.eof]), _
    rw [Asked.ofLog_append]
    exact h.answered
  | @overflow bytes rest hs =>
    have hclear := h.clear hs (by decide) (by decide)
    generalize hb :
      ({ c with unread := [], input := rest, log := c.log ++ [.dropped] } : Control) = b
    have hbn : b.noreply = false := by rw [← hb]; exact hclear
    refine .of_clear b.rsp_noreply (fun _ => .inr (.inr rfl)) ?_ (h.dropped hbn (by rw [← hb]))
    rcases b.rsp_state with hst | ⟨hst, -⟩ <;> exact fun hr => by cases hst.symm.trans hr
  | datagram bytes hs =>
    exact .of_clear (h.clear hs (by decide) (by decide)) (fun hw => by cases hw)
      (fun hr => by cases hr) h.answered
  | part hs =>
    have hclear : (c.record [.dropped]).noreply = false := h.clear hs (by decide) (by decide)
    exact .of_clear (rsp_noreply _) (fun hw => by cases hw) (fun hr => by cases hr)
      (h.dropped hclear rfl)
  | line hs hunread hno hd =>
    have hfair := h.handled (h.clear hs (by decide) (by decide)) (fun hw => hwhole hw hs) hd
    exact ⟨hfair.noreply, hfair.writeAndGo, hfair.awaited, hfair.answered⟩
  | fill hs _ _ _ _ hends => exact h.part (.inl hs) hends rfl rfl rfl
  | complete hs hrl =>
    -- the flag is that of the request whose data block is complete
    obtain ⟨as, line, hlast, hquit⟩ := h.awaited hs
    generalize hb : c.record [.block c.rdata] = b
    have hlog : Asked.ofLog b.log = as ++ [⟨some line, b.noreply, false, 0⟩] := by
      rw [← hb]
      change Asked.ofLog (c.log ++ [.block c.rdata]) = _
      rw [Asked.ofLog_append, hlast]
      exact Asked.add_block c.rdata
    have has : ∀ a ∈ as, a.Answered whole :=
      fun a ha => h.answered a (by rw [hlast]; exact List.mem_append_left _ ha)
    refine .of_clear b.rsp_noreply ?_ ?_ (answered_rsp has hlog (decide_eq_false hquit))
    · rcases b.rsp_state with hst | ⟨-, hgo⟩
      · exact fun hw => by cases hst.symm.trans hw
      · exact fun _ => .inl hgo
    · rcases b.rsp_state with hst | ⟨hst, -⟩ <;> exact fun hr => by cases hst.symm.trans hr
  | swallow hs _ _ _ _ hends => exact h.part (.inr hs) hends rfl rfl rfl
  | swallowed hs =>
    refine .of_clear (h.clear hs (by decide) (by decide)) (fun hw => by cases hw)
      (fun hr => by cases hr) ?_
    change ∀ a ∈ Asked.ofLog (c.log ++ [.skip c.rdata]), _
    rw [Asked.ofLog_append]
    exact h.answered

theorem fair_init (whole : Prop) (udp : Bool) (stream : List UInt8) : Fair whole
    ⟨udp, if udp then .read else .newCmd, if udp then .read else .newCmd, false, false, 0, 0, [],
        [], stream, []⟩ := by
  refine .of_clear rfl ?_ ?_ (fun a ha => by cases ha)
  · dsimp only
    split_ifs <;> exact fun hw => by cases hw
  · dsimp only
    split_ifs <;> exact fun hr => by cases hr

end Control

namespace Session

variable {cfg : Config} {udp : Bool} {stream : List UInt8} {w w₀ : Session}

/-- A UDP connection is not closed while the client wants no reply. -/
def Unmuted (w : Session) (_ : SessionLabel) (_ : Session) : Prop :=
  w.conn.state = .close → w.conn.udp = true → w.conn.noreply = false

/-- No allocation fails. -/
def Whole (w : Session) (_ : SessionLabel) (w' : Session) :
    Prop := w.conn.wire.fails ≤ w'.conn.wire.fails

/-- No allocation fails while a request is handled. -/
def Supplied (w : Session) (_ : SessionLabel) (w' : Session) : Prop :=
  w.conn.state = .parse → w.conn.wire.fails ≤ w'.conn.wire.fails

/-- Every run is fair. -/
theorem Opened.fair {whole : Prop} {C : Session → SessionLabel → Session → Prop}
    (h₀ : w₀.Opened udp stream) (h : (session cfg).Reaches C w₀ w)
    (hunmuted : ∀ v l v', C v l v' → Unmuted v l v')
    (hwhole : ∀ v l v', C v l v' → whole → Supplied v l v') : w.control.Fair whole := by
  refine reaches_control (I := Control.Fair whole) h h₀.sized ?_ ?_ ?_
  · rw [h₀.control]
    exact Control.fair_init whole udp stream
  · intro c hc hs
    exact hc.clear hs (by decide) (by decide)
  · intro v v' io hv hC ht
    exact hv.turn (hwhole v _ v' hC) (hunmuted v _ v' hC) ht

instance (w w' : Session) (l : SessionLabel) :
    Decidable (Unmuted w l w') := inferInstanceAs (Decidable (_ → _ → _))

instance (w w' : Session) (l : SessionLabel) :
    Decidable (Whole w l w') := inferInstanceAs (Decidable (_ ≤ _))

/-- A connection to the small server, whose peer sends `stream`. -/
def piped (stream : List UInt8) : Session :=
  { Session.fresh .tiny (.initial fun _ => 0) with input := stream, running := false }

theorem opened_piped (stream : List UInt8) : (piped stream).Opened false stream :=
  ⟨⟨_, _, _, _, _, _, rfl⟩, rfl, rfl⟩

/-- A `set` that wants no reply, and a `get`. -/
def setAndGet :
    List UInt8 := ascii "set a 0 0 1 noreply" ++ crlf ++ ascii "X" ++ crlf ++ ascii "get a" ++ crlf

/-- They arrive together. -/
def setAndGetRun : List SessionLabel :=
  [.event 20, .turn (.newCmd true), .turn (.wait true), .event 20,
    .turn (.readTcp [.data setAndGet]),
    .turn (.parse {}), .turn (.nread none true {}), .turn (.nread none true {}),
      .turn (.newCmd true),
    .turn (.parse { fuel := 2 })]

/-- The session after that. -/
def servedBoth : Session :=
  (session .tiny).exec (fun v l v' => decide (Unmuted v l v' ∧ Whole v l v'))
    (piped setAndGet) setAndGetRun

theorem reaches_servedBoth :
    (session .tiny).Reaches (fun v l v' => Unmuted v l v' ∧ Whole v l v') (piped setAndGet)
    servedBoth :=
  (Machine.reaches_exec (by decide +kernel)).mono fun _ _ _ => of_decide_eq_true

/-- **A client that wants no reply gets none, and every other request is answered**: in every run of
a connection, the flag is clear whenever a request is parsed, no reply is queued for a request that
was recognised as `noreply`, for `quit`, or for one whose data block is awaited, and at least one is
queued for every other.  This needs that a UDP connection is not closed while the flag is set. -/
theorem requests_answered (cfg : Config) (udp : Bool) (stream : List UInt8) (w₀ w : Session)
    (h₀ : w₀.Opened udp stream) (h : (session cfg).Reaches Unmuted w₀ w) :
    (w.conn.state = .parse → w.conn.noreply = false) ∧
      ∀ a ∈ Asked.ofLog w.conn.log,
        if a.noreply ∨ a.awaited ∨ a.quits then a.queued = 0 else 1 ≤ a.queued := by
  have hfair : w.control.Fair False := h₀.fair h (fun _ _ _ hC => hC) fun _ _ _ _ hF => hF.elim
  refine ⟨fun hs => hfair.clear hs (by decide) (by decide), fun a ha => ?_⟩
  have hanswered := hfair.answered a ha
  unfold Asked.Answered at hanswered
  split_ifs at hanswered ⊢
  · exact hanswered
  · exact hanswered.1

theorem requests_answered_served :
    (servedBoth.conn.state = .parse → servedBoth.conn.noreply = false) ∧
    (∀ a ∈ Asked.ofLog servedBoth.conn.log, if a.noreply ∨ a.awaited ∨
      a.quits then a.queued = 0 else 1 ≤ a.queued) ∧
    (Asked.ofLog servedBoth.conn.log).map Asked.queued = [0, 1] := by
  obtain ⟨hclear, hall⟩ :=
    requests_answered .tiny false setAndGet (piped setAndGet) servedBoth (opened_piped setAndGet)
    (reaches_servedBoth.mono fun _ _ _ hC => hC.1)
  exact ⟨hclear, hall, by decide +kernel⟩

/-- **If no allocation fails, no request has two replies.** -/
theorem requests_answered_once (cfg : Config) (udp : Bool) (stream : List UInt8) (w₀ w : Session)
    (h₀ : w₀.Opened udp stream)
    (h : (session cfg).Reaches (fun v l v' => Unmuted v l v' ∧ Whole v l v') w₀ w) :
    ∀ a ∈ Asked.ofLog w.conn.log, a.queued = if a.noreply ∨ a.awaited ∨ a.quits then 0 else 1 := by
  have hfair : w.control.Fair True := h₀.fair h (fun _ _ _ hC => hC.1) fun _ _ _ hC _ _ => hC.2
  intro a ha
  have hanswered := hfair.answered a ha
  unfold Asked.Answered at hanswered
  split_ifs at hanswered ⊢
  · exact hanswered
  · exact hanswered.2 trivial

theorem requests_answered_once_served :
    (∀ a ∈ Asked.ofLog servedBoth.conn.log, a.queued = if a.noreply ∨ a.awaited ∨
      a.quits then 0 else 1) ∧ (Asked.ofLog servedBoth.conn.log).length = 2 :=
  ⟨requests_answered_once .tiny false setAndGet (piped setAndGet) servedBoth
    (opened_piped setAndGet) reaches_servedBoth, by decide +kernel⟩

/-- The connection is closed only in the state `CONN_CLOSE`. -/
theorem turn_close {w w' : Session} (h : w.turn cfg .close = some w') :
    w.conn.state = .close ∧ w.coreClose = w' := by
  unfold turn at h
  cases hstate : w.conn.state <;> rw [hstate] at h <;> dsimp only at h <;> try cases h
  exact ⟨rfl, rfl⟩

/-- A `set` that wants no reply and whose data block does not come, a datagram without a byte, which
closes the connection, and a `delete`. -/
def mutedRun : List SessionLabel :=
  let header : List UInt8 := [0, 7, 0, 0, 0, 1, 0, 0]
  [.event 20, .turn (.readUdp (some (header ++ ascii "set a 0 0 1 noreply" ++ crlf))),
    .turn (.parse {}), .turn (.nread (some .eof) true {}), .turn .close, .event 20,
    .turn (.readUdp (some (header ++ ascii "delete a" ++ crlf)))]

/-- A UDP connection of the small server. -/
def datagrams : Session :=
  { piped [] with
    conn := .init true (fun _ => 0) (fun _ => ⟨0, 0⟩) (fun _ => 0) (fun _ => []) (fun _ => ⟨0, 0⟩)
      [] }

/-- The connection before the `delete` is parsed. -/
def muted : Session := (session .tiny).exec (fun _ _ _ => true) datagrams mutedRun

/-- The connection after it. -/
def unheard : Session := (session .tiny).exec (fun _ _ _ => true) muted [.turn (.parse {})]

/-- **When the flag is that of the request at hand, and every request has its reply**: in every run
in which no UDP connection is closed while the flag is set, and no allocation fails while a request
is handled.  A UDP connection that is closed while the flag is set goes on with the next datagram,
and the flag is still set. -/
theorem noreply_exact (cfg : Config) (udp : Bool) (stream : List UInt8) (w₀ : Session)
    (h₀ : w₀.Opened udp stream) :
    (∀ w, (session cfg).Reaches (fun v l v' => Unmuted v l v' ∧ Supplied v l v') w₀ w →
      (w.conn.state = .parse → w.conn.noreply = false) ∧
        ∀ a ∈ Asked.ofLog w.conn.log,
          a.queued = if a.noreply ∨ a.awaited ∨ a.quits then 0 else 1) ∧
      ∀ w w' l, (session cfg).Reaches Machine.Unguarded w₀ w →
        (session cfg).step w (.turn .close) = some ((), w') → ¬ Unmuted w l w' →
        w'.conn.state = .read ∧ w'.conn.noreply = true := by
  refine ⟨fun w h => ?_, fun w w' l _ hst hmuted => ?_⟩
  · have hfair : w.control.Fair True :=
      h₀.fair h (fun _ _ _ hC => hC.1) fun _ _ _ hC _ => hC.2
    refine ⟨fun hs => hfair.clear hs (by decide) (by decide), fun a ha => ?_⟩
    have hanswered := hfair.answered a ha
    unfold Asked.Answered at hanswered
    split_ifs at hanswered ⊢
    · exact hanswered
    · exact hanswered.2 trivial
  · obtain ⟨hclose, hudp, hno⟩ : w.conn.state = .close ∧ w.conn.udp = true ∧
        ¬ w.conn.noreply = false := by simpa [Unmuted] using hmuted
    obtain ⟨-, heq⟩ := Option.ite_none_right_eq_some.1 hst
    obtain ⟨u, hu, heq⟩ := Option.map_eq_some_iff.1 heq
    obtain ⟨-, rfl⟩ := Prod.mk.inj heq
    have hcontrol : u.control =
        { w.control with hasItem := false, state := if w.conn.udp then .read else .close } := by
      rw [← (turn_close hu).2]
      exact control_coreClose hclose
    rw [if_pos hudp] at hcontrol
    exact ⟨congrArg Control.state hcontrol,
      (congrArg Control.noreply hcontrol).trans (Bool.not_eq_false _ ▸ hno)⟩

theorem noreply_exact_served :
    ((servedBoth.conn.state = .parse → servedBoth.conn.noreply = false) ∧
      ∀ a ∈ Asked.ofLog servedBoth.conn.log,
        a.queued = if a.noreply ∨ a.awaited ∨ a.quits then 0 else 1) ∧
      (Asked.ofLog servedBoth.conn.log).map Asked.queued = [0, 1] :=
  ⟨(noreply_exact .tiny false setAndGet (piped setAndGet) (opened_piped setAndGet)).1 servedBoth
    (reaches_servedBoth.mono fun _ _ _ hC => ⟨hC.1, fun _ => hC.2⟩), by decide +kernel⟩

/-- The `delete` is not answered. -/
theorem noreply_leaks : datagrams.Opened true [] ∧
    (session .tiny).Reaches Machine.Unguarded datagrams muted ∧
    muted.conn.state = .parse ∧ muted.conn.noreply = true ∧
    (session .tiny).Reaches Machine.Unguarded muted unheard ∧
    unheard.conn.state = .newCmd ∧ Event.queued ∉ unheard.conn.log := by
  have hmuted : (session .tiny).Reaches Machine.Unguarded datagrams muted :=
    (Machine.reaches_exec (by decide +kernel)).mono fun _ _ _ _ => trivial
  have hunheard : (session .tiny).Reaches Machine.Unguarded muted unheard :=
    (Machine.reaches_exec (by decide +kernel)).mono fun _ _ _ _ => trivial
  exact ⟨⟨⟨_, _, _, _, _, _, rfl⟩, rfl, rfl⟩, hmuted, by decide +kernel, by decide +kernel,
    hunheard, by decide +kernel, by decide +kernel⟩

end Session

end Twemcache
