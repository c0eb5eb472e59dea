import Twemcache.Conn.Framing

/-!
# When a connection is closed

If nothing fails and the stream does not end, a connection is closed only when its client has said
`quit`.  When the stream ends, a request is lost if the end is found by a call of `core_read_tcp`
that has read a newline before.

## Main definitions

* `Scans` : every line of a stream is short enough for the parser.
* `Session.Clean` : nothing fails, and the stream does not end.
* `Session.Through` : everything that is complete in a stream was dispatched or taken.

## Main results

* `Control.Framed.closes` : in a clean turn, only `quit` closes the connection.
* `Session.Opened.closing` : in a clean run, only `quit` closes the connection.
* `Session.requests_before_eof` : when a request is lost at the end of a stream.
-/

namespace Twemcache

/-! ### Long lines -/

/-- The parser waits for the end of the line, however little of it has been read. -/
def Scannable (line : List UInt8) : Prop :=
  line.length ≤ 1024 ∨ Session.largeGet line = true

instance (line : List UInt8) : Decidable (Scannable line) := inferInstanceAs (Decidable (_ ∨ _))

/-- Every line of the stream that the parser looks for is such a line. -/
def Scans (cfg : Config) (granted : ℕ → Bool) (stream : List UInt8) : Prop :=
  ∀ ps k rest, (framer cfg granted).Cuts (0, .line) stream ps (k, .line) rest →
    Scannable (rest.takeWhile (· ≠ 10))

/-- A long `get` is known by its first bytes. -/
theorem largeGet_of_append {bytes t : List UInt8} (hlong : 1024 < bytes.length)
    (h : Session.largeGet (bytes ++ t) = true) : Session.largeGet bytes = true := by
  unfold Session.largeGet at h ⊢
  dsimp only at h ⊢
  simp only [Bool.and_eq_true, Bool.or_eq_true, decide_eq_true_eq] at h ⊢
  obtain ⟨hspaces, hget⟩ := h
  have hle : (bytes.dropWhile (· = 32)).length ≤ bytes.length :=
    (List.dropWhile_sublist _).length_le
  rw [List.dropWhile_append] at hspaces hget
  by_cases hnil : (bytes.dropWhile (· = 32)).isEmpty = true
  · -- all that was read would be spaces
    rw [if_pos hnil, List.length_append] at hspaces
    have hle' : (t.dropWhile (· = 32)).length ≤ t.length := (List.dropWhile_sublist _).length_le
    omega
  · rw [if_neg hnil, List.length_append, List.length_append] at hspaces
    rw [if_neg hnil] at hget
    have hfour : 4 ≤ (bytes.dropWhile (· = 32)).length := by omega
    have hfive : 5 ≤ (bytes.dropWhile (· = 32)).length := by omega
    rw [List.take_append_of_le_length hfour, List.take_append_of_le_length hfive] at hget
    exact ⟨by omega, hget⟩

/-- A part of such a line that is long is the beginning of a `get`. -/
theorem Scannable.largeGet {bytes t : List UInt8} (h : Scannable ((bytes ++ t).takeWhile (· ≠ 10)))
    (hno : 10 ∉ bytes) (hlong : 1024 < bytes.length) : Session.largeGet bytes = true := by
  have hall : ∀ b ∈ bytes, decide (b ≠ 10) = true := fun b hb =>
    decide_eq_true fun heq => hno (heq ▸ hb)
  rw [List.takeWhile_append_of_pos hall] at h
  rcases h with hshort | hget
  · rw [List.length_append] at hshort
    omega
  · exact largeGet_of_append hlong hget

namespace Control

variable {cfg : Config} {stream : List UInt8} {c d : Control} {granted : ℕ → Bool}

/-! ### What closes a connection -/

theorem not_closing (hclose : c.state ≠ .close)
    (hwrite : c.state = .write → c.writeAndGo ≠ .close) : ¬ c.Closing := by
  rintro (hs | ⟨hs, hgo⟩)
  · exact hclose hs
  · exact hwrite hs hgo

/-- A reply does not close the connection. -/
theorem rsp_not_closing (c : Control) : ¬ c.rsp.Closing := by
  rcases c.rsp_state with hs | ⟨hs, hgo⟩
  · refine not_closing ?_ ?_ <;> rw [hs] <;> exact nofun
  · refine not_closing ?_ ?_
    · rw [hs]
      exact nofun
    · rw [hgo]
      exact fun _ => nofun

/-- Of the requests, only `quit` closes the connection. -/
theorem Handled.closes {whole : Prop} {line : List UInt8} (h : Handled cfg c whole line d)
    (hd : d.Closing) : d.Quit := by
  cases h with
  | @answered noreply es s go _ _ _ _ _ _ hs =>
    refine absurd hd (not_closing ?_ ?_)
    · rcases hs with rfl | rfl | ⟨rfl, -⟩ <;> exact nofun
    · rcases hs with rfl | rfl | ⟨rfl, rfl⟩ <;> exact nofun
  | stored => exact absurd hd (not_closing nofun nofun)
  | @unstored noreply us vlen =>
    generalize hb : ({ c with
      noreply := noreply
      log := c.log ++ .line line noreply :: (us.map .token ++ [.alloc false]) } : Control) = b at hd
    refine absurd hd (not_closing ?_ fun _ => nofun)
    rcases b.rsp_state with hs | ⟨hs, -⟩ <;> exact fun hw => nomatch hs.symm.trans hw
  | @quit us _ hquit => exact ⟨line, false, by simp, hquit⟩

/-- **Without a failure, only `quit` closes the connection.** -/
theorem Framed.closes {faulty handled : Prop} (h : c.Framed cfg stream) (hf : ¬ faulty)
    (hscan : Scans cfg granted stream) (hc : Agrees granted c.log → c.Closing → c.Quit)
    (ht : c.Turn cfg faulty handled d) (hg : Agrees granted d.log) (hd : d.Closing) : d.Quit := by
  have hudp : ¬ c.udp = true := by rw [h.udp]; exact Bool.false_ne_true
  cases ht with
  | idle => exact hc hg hd
  | move hm =>
    cases hm with
    | readable => exact absurd hd (not_closing nofun nofun)
    | nothing => exact absurd hd (not_closing nofun nofun)
    | incomplete => exact absurd hd (not_closing nofun nofun)
    | endless hs hno hlong hget =>
      -- the parser gives up on what is the beginning of a `get`
      have hcut := h.cut_line hs nofun nofun nofun nofun hg
      have hlarge := (hscan _ _ _ hcut).largeGet hno hlong
      rw [hget] at hlarge
      cases hlarge
    | written hs =>
      rcases hd with hgo | ⟨hw, hgo⟩
      · exact hc hg (.inr ⟨hs, hgo⟩)
      · cases (show c.writeAndGo = .write from hw).symm.trans hgo
    | sent => exact absurd hd (not_closing nofun nofun)
    | unsent _ hudp' => exact absurd hudp' hudp
    | failed _ hfaulty => exact absurd hfaulty hf
  | reset =>
    refine absurd hd (not_closing ?_ ?_) <;> dsimp only <;> split_ifs <;> exact nofun
  | cleanup hs => exact hc hg (.inl hs)
  | receive _ _ _ hs =>
    rcases hs with rfl | ⟨rfl, -⟩ | ⟨hfaulty, -⟩
    · exact absurd hd (not_closing nofun nofun)
    · exact absurd hd (not_closing nofun nofun)
    · exact absurd hfaulty hf
  | ended _ _ hfaulty => exact absurd hfaulty hf
  | overflow _ _ _ hfaulty => exact absurd hfaulty hf
  | datagram _ _ hudp' => exact absurd hudp' hudp
  | part _ hudp' => exact absurd hudp' hudp
  | line _ _ _ hd' => exact hd'.closes hd
  | fill hs _ _ _ _ hends =>
    rcases hends with ⟨-, rfl | ⟨hfaulty, -⟩⟩ | ⟨hfaulty, -⟩
    · refine absurd hd (not_closing ?_ ?_) <;> dsimp only <;> rw [hs] <;> exact nofun
    · exact absurd hfaulty hf
    · exact absurd hfaulty hf
  | complete => exact absurd hd (rsp_not_closing _)
  | swallow hs _ _ _ _ hends =>
    rcases hends with ⟨-, rfl | ⟨hfaulty, -⟩⟩ | ⟨hfaulty, -⟩
    · refine absurd hd (not_closing ?_ ?_) <;> dsimp only <;> rw [hs] <;> exact nofun
    · exact absurd hfaulty hf
    · exact absurd hfaulty hf
  | swallowed => exact absurd hd (not_closing nofun nofun)

end Control

namespace Session

variable {cfg : Config} {stream : List UInt8} {granted : ℕ → Bool} {u v w w₀ : Session}

/-! ### Clean runs -/

instance (io : Io) : Decidable io.Faulty := by
  cases io <;> unfold Io.Faulty <;> infer_instance

/-- The stream does not end, and neither `read` nor `sendmsg` nor `core_update` nor an allocation
for the connection fails. -/
def Clean (w : Session) (l : SessionLabel) (_ : Session) : Prop :=
  match l with
  | .turn io => ¬ io.Faulty ∧ w.conn.wire.fails = 0
  | _ => True

instance (w w' : Session) (l : SessionLabel) : Decidable (Clean w l w') := by
  cases l <;> unfold Clean <;> infer_instance

/-- In a clean run, a connection is closed only after `quit`. -/
theorem Opened.closing (h₀ : w₀.Opened false stream) (hscan : Scans cfg granted stream)
    (h : (session cfg).Reaches Clean w₀ w) (hg : Agrees granted w.conn.log)
    (hclosing : w.control.Closing) : w.control.Quit := by
  have hstart : Agrees granted w₀.control.log → w₀.control.Closing → w₀.control.Quit := by
    rw [h₀.control]
    exact fun _ hc => absurd hc (Control.not_closing nofun nofun)
  refine (h₀.framed_and (I := fun c => Agrees granted c.log → c.Closing → c.Quit) h hstart
    fun v v' io hframed hI hC ht hg hd => ?_).2 hg hclosing
  obtain ⟨hio, hfails⟩ : ¬ io.Faulty ∧ v.conn.wire.fails = 0 := hC
  refine hframed.closes ?_ hscan hI ht hg hd
  rintro (hfaulty | hfaulty)
  · exact hio hfaulty
  · exact (Nat.lt_irrefl 0) (hfails ▸ hfaulty)

/-- Everything that is complete in the stream was dispatched or taken. -/
def Through (cfg : Config) (granted : ℕ → Bool) (stream : List UInt8) (w : Session) : Prop :=
  ∃ m rest, (framer cfg granted).Cuts (0, .line) stream (pieces w.conn.log) m rest ∧
    (framer cfg granted).cut m rest = none

/-! ### The end of the stream -/

/-- In every run of a TCP connection the flag is fair. -/
theorem Opened.fair_tcp (h₀ : w₀.Opened false stream)
    (h : (session cfg).Reaches Machine.Unguarded w₀ w) : w.control.Fair False := by
  refine (h₀.framed_and (I := Control.Fair False) h ?_
    fun v v' io hframed hI _ ht => hI.turn False.elim (fun _ hudp => ?_) ht).2
  · rw [h₀.control]
    exact Control.fair_init False false stream
  · exact absurd (hframed.udp.symm.trans hudp) Bool.false_ne_true

/-- In every run the arrays of the connection are as large as they should be. -/
theorem Opened.sized_run {udp : Bool} (h₀ : w₀.Opened udp stream)
    (h : (session cfg).Reaches Machine.Unguarded w₀ w) : w.conn.Sized := by
  refine h.invariant (I := fun v => v.conn.Sized) h₀.sized ?_
  rintro v l r v' hsized hst -
  cases l with
  | event n =>
    obtain ⟨-, heq⟩ := Option.ite_none_left_eq_some.1 hst
    obtain ⟨-, rfl⟩ := Prod.mk.inj (Option.some.inj heq)
    exact hsized
  | turn io =>
    obtain ⟨-, heq⟩ := Option.ite_none_right_eq_some.1 hst
    obtain ⟨u, hu, heq⟩ := Option.map_eq_some_iff.1 heq
    obtain ⟨-, rfl⟩ := Prod.mk.inj heq
    exact sized_turn hsized hu
  | world st set =>
    obtain ⟨-, rfl⟩ := Prod.mk.inj (Option.some.inj hst)
    exact hsized

/-- A step that finds the end of the stream is a turn. -/
theorem Opened.turn_of_eof {l : SessionLabel} (h₀ : w₀.Opened false stream)
    (h : (session cfg).Reaches Machine.Unguarded w₀ v)
    (hst : (session cfg).step v l = some ((), w)) (hnew : Event.eof ∉ v.conn.log)
    (heof : Event.eof ∈ w.conn.log) :
    ∃ faulty handled, v.control.Turn cfg faulty handled w.control := by
  cases l with
  | event n =>
    obtain ⟨-, heq⟩ := Option.ite_none_left_eq_some.1 hst
    obtain ⟨-, rfl⟩ := Prod.mk.inj (Option.some.inj heq)
    exact absurd heof hnew
  | turn io =>
    obtain ⟨-, heq⟩ := Option.ite_none_right_eq_some.1 hst
    obtain ⟨u, hu, heq⟩ := Option.map_eq_some_iff.1 heq
    obtain ⟨-, rfl⟩ := Prod.mk.inj heq
    exact ⟨_, _, turn_control (h₀.sized_run h)
      (fun hs => (h₀.fair_tcp h).clear hs (by decide) (by decide)) hu⟩
  | world st set =>
    obtain ⟨-, rfl⟩ := Prod.mk.inj (Option.some.inj hst)
    exact absurd heof hnew

/-- A call of `core_read_tcp` that finds the end of the stream has read everything before it. -/
theorem unread_of_eof {faulty handled : Prop} {c d : Control} (ht : c.Turn cfg faulty handled d)
    (hs : c.state = .read) (hudp : c.udp = false) (hnew : Event.eof ∉ c.log)
    (heof : Event.eof ∈ d.log) : d.unread = c.unread ++ c.input := by
  cases ht with
  | idle => exact absurd heof hnew
  | move => exact absurd heof hnew
  | reset => exact absurd heof hnew
  | cleanup => exact absurd heof hnew
  | receive => exact absurd heof hnew
  | ended => rfl
  | @overflow bytes rest =>
    obtain ⟨es, hlog, hes⟩ := ({ c with
      unread := [], input := rest, log := c.log ++ [.dropped] } : Control).log_rsp
    have hmem : Event.eof ∈ c.log ++ [.dropped] ++ es := hlog ▸ heof
    rcases List.mem_append.1 hmem with hmem | hmem
    · rcases List.mem_append.1 hmem with hmem | hmem
      · exact absurd hmem hnew
      · simp at hmem
    · cases hes _ hmem
  | datagram => exact absurd heof hnew
  | part _ hudp' => cases hudp.symm.trans hudp'
  | line hs' => cases hs.symm.trans hs'
  | fill hs' => cases hs.symm.trans hs'
  | complete hs' => cases hs.symm.trans hs'
  | swallow hs' => cases hs.symm.trans hs'
  | swallowed hs' => cases hs.symm.trans hs'

/-- **What is lost at the end of a stream**: everything that is complete in it has been dispatched
or taken when its end is found, if no newline is still unread when a call of `core_read_tcp` begins
that finds the end; otherwise something is lost. -/
theorem requests_before_eof (cfg : Config) (stream : List UInt8) (w₀ : Session)
    (granted : ℕ → Bool) (h₀ : w₀.Opened false stream) :
    (∀ w, (session cfg).Reaches Apart w₀ w → Agrees granted w.conn.log →
      Event.eof ∈ w.conn.log → w.Through cfg granted stream) ∧
      ∀ v l w, (session cfg).Reaches Machine.Unguarded w₀ v →
        (session cfg).step v l = some ((), w) → Agrees granted w.conn.log →
        Event.eof ∉ v.conn.log → Event.eof ∈ w.conn.log →
        w.conn.state = .close ∧ (w.Through cfg granted stream ↔ Apart v l w) := by
  refine ⟨fun w h hg heof => ?_, fun v l w h hst hg hnew heof => ?_⟩
  · obtain ⟨m, rest, hcut, hiff⟩ :=
      ((h₀.framed (h.mono fun _ _ _ _ => trivial)).eof heof).2 granted hg
    exact ⟨m, rest, hcut, hiff.2 (h₀.unlost h heof)⟩
  have hframed := h₀.framed h
  obtain ⟨hclose, hcuts⟩ := (h₀.framed (h.tail hst trivial)).eof heof
  obtain ⟨m, rest, hcut, hiff⟩ := hcuts granted hg
  obtain ⟨faulty, handled, ht⟩ := h₀.turn_of_eof h hst hnew heof
  refine ⟨hclose, fun ⟨m', rest', hcut', hnone⟩ hs _ hmem => ?_, fun hapart => ?_⟩
  · -- the newline has gone to the buffer, where nobody looks for it
    obtain ⟨rfl, rfl⟩ := hcut.unique hcut'
    refine hiff.1 hnone ?_
    rw [unread_of_eof ht hs hframed.udp hnew heof]
    exact List.mem_append_right _ hmem
  · exact ⟨m, rest, hcut, hiff.2 (hframed.unlost (fun h => absurd h hnew) hapart ht heof)⟩

theorem requests_before_eof_ended : endedCut.Through .tiny (fun _ => true) setAndGet ∧
    (pieces endedCut.conn.log).length = 3 := by
  have hreach : (session .tiny).Reaches Apart (piped setAndGet) endedCut :=
    (Machine.reaches_exec (by decide +kernel)).mono fun _ _ _ => of_decide_eq_true
  exact ⟨(requests_before_eof .tiny setAndGet (piped setAndGet) (fun _ => true)
    (opened_piped setAndGet)).1 endedCut hreach (agrees_true (by decide +kernel))
    (by decide +kernel), by decide +kernel⟩

/-- A `get` that fills the buffer is read together with the end of the stream. -/
theorem get_lost_at_eof : (piped longGet).Opened false longGet ∧
    (session .tiny).Reaches Machine.Unguarded (piped longGet) (after longGet lostRun) ∧
    Event.eof ∈ (after longGet lostRun).conn.log ∧ (after longGet lostRun).conn.state = .close ∧
    pieces (after longGet lostRun).conn.log = [] ∧
    ¬ (after longGet lostRun).Through .tiny (fun _ => true) longGet := by
  have hnone : pieces (after longGet lostRun).conn.log = [] := by decide +kernel
  refine ⟨opened_piped longGet, reaches_after longGet (by decide +kernel), by decide +kernel,
    by decide +kernel, hnone, ?_⟩
  rintro ⟨m, rest, hcuts, hstuck⟩
  rw [hnone] at hcuts
  cases hcuts
  have hcut : ∀ s, (framer .tiny fun _ => true).cut (0, .line) s =
      cutPiece .tiny (fun _ => true) s (0, .line) := fun _ => rfl
  have hsome : (cutPiece .tiny (fun _ => true) longGet (0, .line)).isSome = true := by
    decide +kernel
  rw [← hcut, hstuck] at hsome
  cases hsome

end Session

end Twemcache
