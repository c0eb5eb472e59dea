import Twemcache.Conn.Reply

/-!
# Dispatching a request

`asc_dispatch` as a whole: from the line to what has become of the connection and the store.

## Main results

* `parses_grammar` : the lines that are treated as the documentation says.
* `reads_properly` : the lines on which only words of the request are read.
-/

namespace Twemcache

namespace Session

variable {cfg : Config} {w w' : Session} {e : Circumstances} {line req : List UInt8} {r : Rsp}

/-- A request that is answered at once leaves the store alone. -/
theorem dispatch_respond (h : (ascDispatch cfg w.set e.stack req w.conn.noreply).1 = .respond r) :
    ∃ w', w.dispatch cfg e line req = some w' ∧ w'.store = w.store := by
  unfold dispatch
  dsimp only
  split
  · exact ⟨_, rfl, rfl⟩
  · rw [h]
    exact ⟨_, rfl, rfl⟩

end Session

/-- A request line is treated as the documentation says: if it has a documented form, that command
is run with exactly its fields, and with `noreply` exactly if that is its last word; and if it has a
wrong number of words, it is rejected and the store is not changed. -/
def AsDocumented (cfg : Config) (set : Settings) (stack : ℕ → Token) (req : List UInt8) : Prop :=
  (∀ (f : Form) (noreply : Bool), f.Valid → f.Spells noreply req →
    (ascDispatch cfg set stack req false).1 = f.command cfg set ∧
      (ascDispatch cfg set stack req false).2.noreply = noreply) ∧
  (Miscounted req → (ascDispatch cfg set stack req false).1 = .respond .clientError ∧
    ∀ (w : Session) (e : Session.Circumstances) (line : List UInt8), w.set = set → e.stack = stack →
      w.conn.noreply = false → ∃ w', w.dispatch cfg e line req = some w' ∧ w'.store = w.store)

/-- **The parser follows the documented grammar** except on two kinds of lines: `delete noreply`,
and a `cas` with `noreply` that is followed by more words. -/
theorem parses_grammar (cfg : Config) (set : Settings) (stack : ℕ → Token) (req : List UInt8) :
    AsDocumented cfg set stack req ↔
      words 32 req ≠ [ReqType.delete.commandWord, noreplyWord] ∧ ¬ Overrun cfg stack req := by
  constructor
  · rintro ⟨hform, hcount⟩
    refine ⟨fun hws => ?_, fun hover => ?_⟩
    · have hvalid : (Form.delete noreplyWord).Valid := by
        change noreplyWord.length ≤ keyMaxLen
        decide
      have hspells : (Form.delete noreplyWord).Spells false req := hws
      have hd := (ascDispatch_documented cfg set stack false (by decide) hws (by simp)).2
      rw [(hform _ _ hvalid hspells).2, lastIsNoreply_eq stack [_] hws (by simp)] at hd
      exact absurd hd (by decide)
    · obtain ⟨hmis, hne⟩ := hover.accepted cfg set stack
      exact hne (hcount hmis).1
  · rintro ⟨hdelete, hover⟩
    refine ⟨fun f noreply hf hs => hs.runs cfg set stack hf fun hfd => ?_, fun hmis => ?_⟩
    · cases noreply with
      | true => rfl
      | false => exact absurd (by simpa [hfd, Form.Spells, Form.words] using hs) hdelete
    · refine ⟨hmis.rejected cfg set stack hover, fun w e line hset hstack hnoreply => ?_⟩
      exact Session.dispatch_respond
        (by rw [hset, hstack, hnoreply]; exact hmis.rejected cfg set stack hover)

/-- The key `noreply` cannot be deleted: `delete noreply` is taken for a request without a key. -/
theorem delete_noreply_rejected :
    ¬ AsDocumented .tiny (.initial fun _ => 0) (fun _ => ⟨none, 0⟩) (ascii "delete noreply") := by
  intro h
  have hspells : (Form.delete noreplyWord).Spells false (ascii "delete noreply") := by
    change words 32 (ascii "delete noreply") = _
    decide
  have hvalid : (Form.delete noreplyWord).Valid := by
    change noreplyWord.length ≤ keyMaxLen
    decide
  exact absurd (h.1 _ _ hvalid hspells).1 (by decide +kernel)

/-! ### Accesses -/

/-- What was added to the record has proper accesses only. -/
def Conn.Extends (c c' : Conn) : Prop :=
  ∃ es, c'.log = c.log ++ es ∧ ∀ u : Use, Event.token u ∈ es → u.Proper

namespace Conn.Extends

variable {c c' c'' : Conn}

theorem of_log_eq (h : c'.log = c.log) : Extends c c' := ⟨[], by simp [h], by simp⟩

theorem trans (h : Extends c c') (h' : Extends c' c'') : Extends c c'' := by
  obtain ⟨es, hlog, hes⟩ := h
  obtain ⟨es', hlog', hes'⟩ := h'
  refine ⟨es ++ es', by rw [hlog', hlog, List.append_assoc], fun u hu => ?_⟩
  rcases List.mem_append.1 hu with hu | hu
  · exact hes u hu
  · exact hes' u hu

theorem rsp (c : Conn) (r : Rsp) : Extends c (c.ascRsp r) := by
  refine ⟨_, log_ascRsp c r, fun u hu => ?_⟩
  split_ifs at hu <;> simp at hu

theorem record {e : Event} (he : ∀ u, e ≠ .token u) : Extends c (c.record [e]) := by
  refine ⟨[e], rfl, fun u hu => ?_⟩
  exact absurd (List.mem_singleton.1 hu).symm (he u)

theorem replying (h : Replying c c') : Extends c c' := by
  obtain ⟨es, hlog, hes⟩ := h.log
  refine ⟨es, hlog, fun u hu => ?_⟩
  obtain h | ⟨u', hu', h⟩ := hes _ hu
  · cases h
  · exact Event.token.inj h ▸ hu'

end Conn.Extends

namespace Session

open Conn

variable {cfg : Config} {w w' : Session} {e : Circumstances} {line req : List UInt8}

theorem applySetting_conn (reallocOk : Bool) (s : Setting) :
    (w.applySetting reallocOk s).2.conn = w.conn := by
  unfold applySetting
  cases s <;> dsimp only
  all_goals split_ifs <;> rfl

theorem allocItem_extends (ch : Choice) (key : Key) (dataflags exptime vlen : ℕ)
    (casId : Option ℕ) :
    Extends w.conn (w.allocItem cfg ch key dataflags exptime vlen casId).conn := by
  unfold allocItem
  generalize w.store.itemAlloc cfg ch _ key dataflags exptime vlen = r
  obtain ⟨_ | it, st⟩ := r
  · exact (Extends.record (e := .alloc false) (by simp)).trans
      ((Extends.rsp _ .serverError).trans (.of_log_eq rfl))
  · exact (Extends.record (e := .alloc true) (by simp)).trans (.of_log_eq rfl)

/-- Carrying out a command reads no tokens but those of `get`. -/
theorem execute_extends {cmd : Command} {left : ℕ} {ws : List (List UInt8)} {ts : List Token}
    (hts : ∀ returnCas, cmd = .read returnCas → Filled left ws (ts.drop tokenKey))
    (h : w.execute cfg e ts cmd = some w') : Extends w.conn w'.conn := by
  cases cmd with
  | read returnCas =>
    obtain ⟨-, d, hd, ⟨r, he⟩ | he⟩ := readLoop_replying (hts _ rfl) h
    · exact (Extends.replying hd).trans (he ▸ Extends.rsp d r)
    · refine (Extends.replying hd).trans ((Extends.record (e := .queued) (by simp)).trans ?_)
      exact .of_log_eq (by rw [he])
  | respond r =>
    obtain rfl := Option.some.inj h
    exact .rsp _ _
  | update type key dataflags exptime vlen casId =>
    obtain rfl := Option.some.inj h
    exact allocItem_extends _ _ _ _ _ _
  | annex type key vlen =>
    obtain rfl := Option.some.inj h
    exact allocItem_extends _ _ _ _ _ _
  | delta incr key delta =>
    obtain rfl := Option.some.inj h
    exact .rsp _ _
  | delete key =>
    obtain rfl := Option.some.inj h
    exact .rsp _ _
  | stats sub =>
    obtain rfl := Option.some.inj h
    unfold setConn coreWriteAndFree
    cases e.stats with
    | none => exact .rsp _ _
    | some buf => exact (Extends.record (e := .queued) (by simp)).trans (.of_log_eq rfl)
  | flush exptime =>
    obtain rfl := Option.some.inj h
    exact .rsp _ _
  | configure s =>
    obtain rfl := Option.some.inj h
    have hconn := applySetting_conn (w := w) e.reallocOk s
    exact (Extends.of_log_eq (by rw [hconn])).trans (.rsp _ _)
  | quit =>
    obtain rfl := Option.some.inj h
    exact .of_log_eq rfl

/-- The tokens from which a `get` is served. -/
theorem filled_keys {set : Settings} {stack : ℕ → Token} {noreply returnCas : Bool}
    (h : (ascDispatch cfg set stack req noreply).1 = .read returnCas) :
    Filled (tokenMax - 2) (words 32 req).tail ((ascTokenize req tokenMax).drop tokenKey) := by
  have hfilled := filled_ascTokenize req
  generalize hws : words 32 req = ws at hfilled ⊢
  generalize hts : ascTokenize req tokenMax = ts at hfilled ⊢
  generalize hleft : tokenMax - 1 = left at hfilled
  cases hfilled with
  | scanned =>
    have htype : reqTypeOf req = .unknown := by
      rw [reqTypeOf, hts]
    have hplain : (ascDispatch cfg set stack req noreply).1.plain = true :=
      ascDispatch_plain (by rw [htype]; decide)
    rw [h] at hplain
    cases hplain
  | stopped => cases hleft
  | word _ _ _ _ hfilled =>
    obtain rfl := Nat.succ.inj hleft
    exact hfilled

/-- The connection when the handler has read the fields of the request. -/
def handled (cfg : Config) (w : Session) (e : Circumstances) (line req : List UInt8) (wire : Wire) :
    Session :=
  let a := (ascDispatch cfg w.set e.stack req w.conn.noreply).2
  w.setConn fun c => { c with wire := wire, noreply := a.noreply, reqType := reqTypeOf req }.record
    (.line line a.noreply :: a.uses.map .token)

/-- Without a message the request is answered with an error. -/
theorem dispatch_enomem {wire : Wire}
    (h : Wire.connAddMsghdr { w.conn.wire with msgCurr := 0, msgUsed := 0, iovUsed := 0 } =
      (.enomem, wire)) : w.dispatch cfg e line req = some (w.setConn fun c =>
        ({ c with wire := wire }.record [.line line c.noreply]).ascRsp .serverError) := by
  unfold dispatch
  dsimp only
  rw [h]

/-- With a message the request is handled. -/
theorem dispatch_ok {wire : Wire}
    (h : Wire.connAddMsghdr { w.conn.wire with msgCurr := 0, msgUsed := 0, iovUsed := 0 } =
      (.ok, wire)) : w.dispatch cfg e line req = (w.handled cfg e line req wire).execute cfg e
        (ascTokenize req tokenMax) (ascDispatch cfg w.set e.stack req w.conn.noreply).1 := by
  unfold dispatch
  dsimp only
  rw [h]
  rfl

theorem handled_log (wire : Wire) : (w.handled cfg e line req wire).conn.log = w.conn.log ++
    (.line line (ascDispatch cfg w.set e.stack req w.conn.noreply).2.noreply ::
      (ascDispatch cfg w.set e.stack req w.conn.noreply).2.uses.map .token) := rfl

/-- Plain commands are carried out without a loop. -/
theorem execute_plain (w : Session) (cfg : Config) (e : Circumstances) (ts : List Token)
    {cmd : Command} (h : cmd.plain = true) :
    ∃ w', w.execute cfg e ts cmd = some w' := by
  cases cmd with
  | read | update | annex | quit => cases h
  | _ => exact ⟨_, rfl⟩

end Session

/-- No handler reads an element of the token array that was not filled, or uses the terminal one as
a word, while the request is dispatched. -/
def ReadsProperly (cfg : Config) (set : Settings) (stack : ℕ → Token) (req : List UInt8) : Prop :=
  ∀ (w w' : Session) (e : Session.Circumstances) (line : List UInt8), w.set = set →
    e.stack = stack → w.dispatch cfg e line req = some w' →
    ∀ u : Use, Event.token u ∈ w'.conn.log → Event.token u ∈ w.conn.log ∨ u.Proper

/-- A connection that was just accepted, on a server without data. -/
def Session.fresh (cfg : Config) (set : Settings) : Session where
  conn := .init false (fun _ => 0) (fun _ => ⟨0, 0⟩) (fun _ => 0) (fun _ => []) (fun _ => ⟨0, 0⟩) []
  store := (Server.init cfg 2 0 (fun _ => ⟨0, 0, 0, 0⟩)
    fun _ => ⟨0, 0, 0, 0, 0, {}, 0, [], 0, fun _ => 0, 0⟩).store
  set := set
  input := []
  running := true
  nreqs := 0

/-- **Only words of the request are read**, except for a `config` or `config klog` command without
its arguments. -/
theorem reads_properly (cfg : Config) (set : Settings) (stack : ℕ → Token) (req : List UInt8) :
    ReadsProperly cfg set stack req ↔ ¬ Misread set req := by
  constructor
  · -- a misread request is dispatched on a new connection, where no access is on record
    intro h hmis
    have hplain : (ascDispatch cfg set stack req false).1.plain = true :=
      ascDispatch_plain (by rw [hmis.reqTypeOf_eq]; decide)
    obtain ⟨wire, hwire⟩ : ∃ wire, Wire.connAddMsghdr { (Session.fresh cfg set).conn.wire with
      msgCurr := 0, msgUsed := 0, iovUsed := 0 } = (.ok, wire) := ⟨_, rfl⟩
    obtain ⟨w', hw'⟩ :=
      ((Session.fresh cfg set).handled cfg { stack := stack } [] req wire).execute_plain
      cfg { stack := stack } (ascTokenize req tokenMax) hplain
    obtain ⟨es, hlog, hes⟩ :=
      Session.execute_extends (fun returnCas hcmd => Session.filled_keys hcmd) hw'
    refine (uses_ascDispatch cfg set stack req false).1 (fun u hu => ?_) hmis
    have hdispatch := h (Session.fresh cfg set) w' { stack := stack } [] rfl rfl
      ((Session.dispatch_ok hwire).trans hw') u
    refine (hdispatch ?_).resolve_left (by simp [Session.fresh, Conn.init])
    rw [hlog, Session.handled_log]
    exact List.mem_append_left _ (List.mem_append_right _ (List.mem_cons_of_mem _
      (List.mem_map.2 ⟨u, hu, rfl⟩)))
  · intro hmis w w' e line hset hstack hd u hu
    subst hset
    generalize hwire : Wire.connAddMsghdr
      { w.conn.wire with msgCurr := 0, msgUsed := 0, iovUsed := 0 } = r
    obtain ⟨_ | _, wire⟩ := r
    · rw [Session.dispatch_ok hwire] at hd
      obtain ⟨es, hlog, hes⟩ :=
        Session.execute_extends (fun returnCas hcmd => Session.filled_keys hcmd) hd
      rw [hlog, Session.handled_log] at hu
      rcases List.mem_append.1 hu with hu | hu
      · rcases List.mem_append.1 hu with hu | hu
        · exact .inl hu
        · obtain ⟨u', hu', he⟩ := List.mem_map.1 ((List.mem_cons.1 hu).resolve_left nofun)
          obtain rfl := Event.token.inj he
          exact .inr ((uses_ascDispatch ..).2 hmis u' hu')
      · exact .inr (hes u hu)
    · rw [Session.dispatch_enomem hwire] at hd
      obtain rfl := Option.some.inj hd
      obtain ⟨es, hlog, hes⟩ := (Conn.Extends.record (c := { w.conn with wire := wire })
        (e := .line line w.conn.noreply) (by simp)).trans (.rsp _ .serverError)
      exact (List.mem_append.1 (hlog ▸ hu)).imp_right (hes u)

/-- For the request `config` the terminal token is compared with the subcommands. -/
theorem config_bare_misread :
    ¬ ReadsProperly .tiny (.initial fun _ => 0) (fun _ => ⟨none, 0⟩) (ascii "config") := by
  intro h
  obtain ⟨w', hw', hlog⟩ : ∃ w', (Session.fresh .tiny (.initial fun _ => 0)).dispatch .tiny {} []
      (ascii "config") = some w' ∧ Event.token ⟨1, 2, true⟩ ∈ w'.conn.log :=
    ⟨_, rfl, by decide +kernel⟩
  exact absurd (h _ w' {} [] rfl rfl hw' _ hlog) (by decide +kernel)

end Twemcache
