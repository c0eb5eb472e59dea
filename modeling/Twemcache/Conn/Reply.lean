import Twemcache.Ascii.Access
import Twemcache.Conn.Machine

/-!
# Building replies

While a reply is put together, only a few fields of the connection change.

## Main definitions

* `Conn.Quiet` : two connections differ in the lists and the messages at most.
* `Conn.Replying` : how a connection changes while a `get` is served.

## Main results

* `Session.readLoop_replying` : the loop of `asc_process_read` changes the connection in this way.
-/

namespace Twemcache

namespace Conn

/-- The connections differ in their messages and in the lists of items and suffixes at most. -/
def Quiet (c c' : Conn) : Prop :=
  c' = { c with
    wire := c'.wire, udpHsize := c'.udpHsize, ilist := c'.ilist, isize :=
      c'.isize, icurr := c'.icurr
    ileft := c'.ileft, slist := c'.slist, ssize := c'.ssize, scurr := c'.scurr, sleft := c'.sleft
    suffixes := c'.suffixes, nsuffix := c'.nsuffix }

namespace Quiet

variable {c c' c'' : Conn}

theorem refl (c : Conn) : Quiet c c := rfl

theorem trans (h : Quiet c c') (h' : Quiet c' c'') : Quiet c c'' := by
  unfold Quiet at *
  rw [h']
  rw [h]

theorem udp (h : Quiet c c') : c'.udp = c.udp := by rw [h]

theorem state (h : Quiet c c') : c'.state = c.state := by rw [h]

theorem rbuf (h : Quiet c c') : c'.rbuf = c.rbuf := by rw [h]

theorem noreply (h : Quiet c c') : c'.noreply = c.noreply := by rw [h]

theorem item (h : Quiet c c') : c'.item = c.item := by rw [h]

theorem log (h : Quiet c c') : c'.log = c.log := by rw [h]

end Quiet

section

variable {c c' : Conn} (iter : ℕ)

theorem quiet_alloc (c : Conn) : Quiet c c.alloc.2 := rfl

theorem quiet_connAddIovs (bufs : List (List UInt8)) : Quiet c (c.connAddIovs bufs).2 := rfl

theorem quiet_growSlist : Quiet c (c.growSlist iter).2 := by
  unfold growSlist alloc
  split
  · cases (c.wire.realloc).1 <;> rfl
  · rfl

theorem quiet_growIlist : Quiet c (c.growIlist iter).2 := by
  unfold growIlist alloc
  split
  · cases (c.wire.realloc).1 <;> rfl
  · rfl

theorem quiet_connBuildUdpHeaders : Quiet c c.connBuildUdpHeaders.2 := by
  unfold connBuildUdpHeaders alloc
  dsimp only
  split
  · rename_i d hd
    split at hd
    · rw [← (Prod.mk.inj hd).2]
      rfl
    · cases hd
  · rename_i d hd
    split at hd
    · rw [← (Prod.mk.inj hd).2]
      rfl
    · rw [← (Prod.mk.inj hd).2]
      rfl

end

/-- A reply that the client does not want. -/
theorem ascRsp_of_noreply {c : Conn} (h : c.noreply = true) (r : Rsp) :
    c.ascRsp r = { c with noreply := false, state := .newCmd } := by
  unfold ascRsp ascWriteString
  rw [if_pos h]

/-- A reply that is to be written. -/
theorem ascRsp_of_reply {c : Conn} (h : c.noreply = false) (r : Rsp) :
    c.ascRsp r = { c.record [.queued] with
      wbuf := (if r.text.length + crlfLen > tcpBufferSize then ascii "SERVER_ERROR" else r.text) ++
        crlf
      state := .write, writeAndGo := .newCmd } := by
  unfold ascRsp ascWriteString
  rw [if_neg (by simp [h])]

/-- A reply is recorded unless it is suppressed. -/
theorem log_ascRsp (c : Conn) (r : Rsp) :
    (c.ascRsp r).log = c.log ++ if c.noreply then [] else [.queued] := by
  cases h : c.noreply with
  | true => simp [ascRsp_of_noreply h]
  | false => simp [ascRsp_of_reply h, record]

/-- How a connection changes while a `get` is served: quietly, by accesses to tokens, and by error
replies. -/
inductive Replying : Conn → Conn → Prop where
  /-- Nothing has happened. -/
  | refl (c : Conn) : Replying c c
  /-- The lists or the messages change. -/
  | quiet {c d d' : Conn} (h : Replying c d) (hq : Quiet d d') : Replying c d'
  /-- A token is read. -/
  | used {c d : Conn} (h : Replying c d) {u : Use} (hu : u.Proper) : Replying c
      (d.record [.token u])
  /-- An error is queued. -/
  | rsp {c d : Conn} (h : Replying c d) (r : Rsp) : Replying c (d.ascRsp r)

namespace Replying

variable {c d e : Conn}

theorem trans (h : Replying c d) (h' : Replying d e) : Replying c e := by
  induction h' with
  | refl => exact h
  | quiet _ hq ih => exact ih.quiet hq
  | used _ hu ih => exact ih.used hu
  | rsp _ r ih => exact ih.rsp r

/-- What is recorded while a `get` is served. -/
theorem log (h : Replying c d) :
    ∃ es, d.log = c.log ++ es ∧ ∀ e ∈ es, e = .queued ∨ ∃ u : Use, u.Proper ∧ e = .token u := by
  induction h with
  | refl => exact ⟨[], by simp, by simp⟩
  | quiet _ hq ih => rwa [hq.log]
  | @used d _ u hu ih =>
    obtain ⟨es, hlog, hes⟩ := ih
    refine ⟨es ++ [.token u], by simp [record, hlog], ?_⟩
    rw [List.forall_mem_append, List.forall_mem_singleton]
    exact ⟨hes, .inr ⟨u, hu, rfl⟩⟩
  | @rsp d _ r ih =>
    obtain ⟨es, hlog, hes⟩ := ih
    rw [log_ascRsp, hlog]
    refine ⟨es ++ if d.noreply then [] else [.queued], by simp, ?_⟩
    rw [List.forall_mem_append]
    refine ⟨hes, ?_⟩
    split_ifs <;> simp

end Replying

section

variable {cfg : Config} {c c' : Conn} {iter : ℕ}

theorem ascCreateSuffix_some {suffix : ℕ} (h : c.ascCreateSuffix iter = (some suffix, c')) :
    Quiet c c' := by
  have hgrow := quiet_growSlist iter (c := c)
  unfold ascCreateSuffix at h
  generalize c.growSlist iter = r at h hgrow
  obtain ⟨_ | _, d⟩ := r
  · cases h
  · have halloc := quiet_alloc d
    dsimp only at h
    generalize d.alloc = r at h halloc
    obtain ⟨_ | _, e⟩ := r
    · cases h
    · rw [← (Prod.mk.inj h).2]
      exact (hgrow.trans halloc).trans rfl

theorem ascCreateSuffix_none (h : c.ascCreateSuffix iter = (none, c')) : Replying c c' := by
  have hgrow := quiet_growSlist iter (c := c)
  unfold ascCreateSuffix at h
  generalize c.growSlist iter = r at h hgrow
  obtain ⟨_ | _, d⟩ := r
  · rw [← (Prod.mk.inj h).2]
    exact (Replying.refl c).quiet hgrow
  · have halloc := quiet_alloc d
    dsimp only at h
    generalize d.alloc = r at h halloc
    obtain ⟨_ | _, e⟩ := r
    · rw [← (Prod.mk.inj h).2]
      exact ((Replying.refl c).quiet (hgrow.trans halloc)).rsp _
    · cases h

theorem ascRespondGet_ok {it : Item} {returnCas : Bool}
    (h : c.ascRespondGet cfg iter it returnCas = (.ok, c')) : Quiet c c' := by
  have hfirst := quiet_connAddIovs [ascii "VALUE ", it.key] (c := c)
  unfold ascRespondGet at h
  generalize c.connAddIovs [ascii "VALUE ", it.key] = r at h hfirst
  obtain ⟨_ | _, d⟩ := r
  · dsimp only at h
    cases hs : d.ascCreateSuffix iter with
    | mk s e =>
      rw [hs] at h
      cases s with
      | none => cases h
      | some suffix =>
        have hlast := quiet_connAddIovs [suffixText it returnCas, crlf, it.value cfg, crlf] (c := e)
        dsimp only at h
        generalize e.connAddIovs [suffixText it returnCas, crlf, it.value cfg, crlf] = r at h hlast
        obtain ⟨_ | _, g⟩ := r
        · rw [← (Prod.mk.inj h).2]
          exact (hfirst.trans (ascCreateSuffix_some hs)).trans hlast
        · cases h
  · cases h

theorem ascRespondGet_replying (cfg : Config) (c : Conn) (iter : ℕ) (it : Item) (returnCas : Bool) :
    Replying c (c.ascRespondGet cfg iter it returnCas).2 := by
  have hfirst := quiet_connAddIovs [ascii "VALUE ", it.key] (c := c)
  unfold ascRespondGet
  generalize c.connAddIovs [ascii "VALUE ", it.key] = r at hfirst ⊢
  obtain ⟨_ | _, d⟩ := r
  · dsimp only
    cases hs : d.ascCreateSuffix iter with
    | mk s e =>
      cases s with
      | none => exact ((Replying.refl c).quiet hfirst).trans (ascCreateSuffix_none hs)
      | some suffix =>
        have hlast := quiet_connAddIovs [suffixText it returnCas, crlf, it.value cfg, crlf] (c := e)
        dsimp only
        generalize e.connAddIovs [suffixText it returnCas, crlf, it.value cfg, crlf] = r at hlast ⊢
        obtain ⟨_ | _, g⟩ := r
        · exact (Replying.refl c).quiet ((hfirst.trans (ascCreateSuffix_some hs)).trans hlast)
        · exact (Replying.refl c).quiet
            (((hfirst.trans (ascCreateSuffix_some hs)).trans hlast).trans rfl)
  · exact (Replying.refl c).quiet hfirst

end

end Conn

namespace Session

open Conn

variable {cfg : Config} {returnCas : Bool} {w w' : Session}

/-- The session differs in its connection and its store at most. -/
def SameWorld (w w' : Session) : Prop := w' = { w with conn := w'.conn, store := w'.store }

theorem SameWorld.trans {w w' w'' : Session} (h : SameWorld w w') (h' : SameWorld w' w'') :
    SameWorld w w'' := by
  unfold SameWorld at *
  rw [h']
  rw [h]

/-- **A run of the inner loop of `asc_process_read`** reads filled tokens only, and ends in an error
reply if the handler returns. -/
theorem readKeys_replying {left ntoken i iter iter' : ℕ} {ws : List (List UInt8)} {ts : List Token}
    {walk : Walk} (hts : Filled left ws ts) (hn : ntoken = i + ts.length)
    (h : readKeys cfg returnCas ntoken ts i iter w = (walk, iter', w')) :
    SameWorld w w' ∧ Replying w.conn w'.conn ∧
      (walk = .returned → ∃ d, Replying w.conn d ∧ w'.conn = d.ascRsp .clientError) := by
  induction hts generalizing i iter w with
  | scanned =>
    obtain ⟨rfl, -, rfl⟩ := Prod.mk.inj h |>.imp_right Prod.mk.inj
    refine ⟨rfl, (Replying.refl _).used ?_, fun h => by cases h⟩
    exact ⟨by simp [hn], fun h => by cases h⟩
  | stopped hne hws =>
    obtain ⟨rfl, -, rfl⟩ := Prod.mk.inj h |>.imp_right Prod.mk.inj
    refine ⟨rfl, (Replying.refl _).used ?_, fun h => by cases h⟩
    exact ⟨by simp [hn], fun h => by cases h⟩
  | @word left k rest ws ts hw hspace hsep hws hts ih =>
    have hpos : 0 < ts.length := by
      rw [hts.length]
      omega
    have hused : Replying w.conn (w.conn.record [.token ⟨i, ntoken, true⟩]) := by
      refine (Replying.refl _).used ⟨?_, fun _ => ?_⟩
      · simp only [hn, List.length_cons]
        omega
      · simp only [hn, List.length_cons]
        omega
    unfold readKeys at h
    rw [if_neg (by simpa using hw)] at h
    dsimp only at h
    split_ifs at h with hlong
    · obtain ⟨rfl, -, rfl⟩ := Prod.mk.inj h |>.imp_right Prod.mk.inj
      exact ⟨rfl, hused.rsp _, fun _ => ⟨_, hused, rfl⟩⟩
    -- what the rest of the loop does, after the connection has changed
    have hrest : ∀ {iter : ℕ} {c : Conn} {st : Store}, Replying w.conn c →
        readKeys cfg returnCas ntoken ts (i + 1) iter { w with conn := c, store := st } =
          (walk, iter', w') →
        SameWorld w w' ∧ Replying w.conn w'.conn ∧
          (walk = .returned → ∃ d, Replying w.conn d ∧ w'.conn = d.ascRsp .clientError) := by
      intro iter c st hc h
      obtain ⟨hsame, hrep, hret⟩ := ih (by rw [hn, List.length_cons]; omega) h
      refine ⟨SameWorld.trans (show SameWorld w { w with conn := c, store := st } from rfl) hsame,
        hc.trans hrep, fun hwalk => ?_⟩
      obtain ⟨d, hd, he⟩ := hret hwalk
      exact ⟨d, hc.trans hd, he⟩
    generalize Store.itemGet _ _ _ = r at h
    obtain ⟨_ | it, st⟩ := r
    · exact hrest hused h
    · dsimp only at h
      have hgrow := quiet_growIlist iter (c := w.conn.record [.token ⟨i, ntoken, true⟩])
      simp only [setConn] at h
      generalize (w.conn.record [.token ⟨i, ntoken, true⟩]).growIlist iter = r at h hgrow
      obtain ⟨_ | _, c⟩ := r
      · obtain ⟨rfl, -, rfl⟩ := Prod.mk.inj h |>.imp_right Prod.mk.inj
        exact ⟨rfl, hused.quiet hgrow, fun h => by cases h⟩
      · dsimp only at h
        have hresp := ascRespondGet_replying cfg c iter (st.items it) returnCas
        generalize c.ascRespondGet cfg iter (st.items it) returnCas = r at h hresp
        have hc : Replying w.conn r.2 := (hused.quiet hgrow).trans hresp
        obtain ⟨_ | _, c'⟩ := r
        · have hlist : Quiet c' { c' with ilist := Function.update c'.ilist iter it } := rfl
          exact hrest (hc.quiet hlist) h
        · obtain ⟨rfl, -, rfl⟩ := Prod.mk.inj h |>.imp_right Prod.mk.inj
          exact ⟨rfl, hc.rsp _, fun h => by cases h⟩

/-- The end of `asc_process_read`: an error reply, or the reply that was put together. -/
theorem finishRead_quiet (iter : ℕ) : SameWorld w (w.finishRead iter) ∧ ∃ d, Quiet w.conn d ∧
    ((w.finishRead iter).conn = d.ascRsp .serverError ∨
      (w.finishRead iter).conn = { d.record [.queued] with
        state := .mwrite, wire := { d.wire with msgCurr := 0 } }) := by
  have hlists : Quiet w.conn { w.conn with icurr := 0, ileft := iter, scurr := 0, sleft := iter } :=
    rfl
  have hend := hlists.trans (quiet_connAddIovs [ascii "END" ++ crlf])
  unfold finishRead setConn
  dsimp only
  generalize connAddIovs _ _ = r at hend ⊢
  obtain ⟨_ | _, c⟩ := r
  · have hudp : Quiet c (if c.udp then c.connBuildUdpHeaders else (.ok, c)).2 := by
      split_ifs
      · exact quiet_connBuildUdpHeaders
      · rfl
    dsimp only
    generalize (if c.udp then c.connBuildUdpHeaders else (.ok, c)) = r at hudp ⊢
    have hd := hend.trans hudp
    obtain ⟨_ | _, d⟩ := r
    · exact ⟨rfl, d, hd, .inr rfl⟩
    · exact ⟨rfl, d, hd, .inl rfl⟩
  · exact ⟨rfl, c, hend, .inl rfl⟩

/-- **The loop of `asc_process_read`** reads filled tokens only; it ends in an error reply, or in
the reply that it has put together. -/
theorem readLoop_replying {fuel left i iter : ℕ} {ws : List (List UInt8)} {ts : List Token}
    (hts : Filled left ws ts) (h : readLoop cfg returnCas fuel ts i iter w = some w') :
    SameWorld w w' ∧ ∃ d, Replying w.conn d ∧ ((∃ r, w'.conn = d.ascRsp r) ∨
      w'.conn =
          { d.record [.queued] with state := .mwrite, wire := { d.wire with msgCurr := 0 } }) := by
  induction fuel generalizing left ws ts i iter w with
  | zero => cases h
  | succ fuel ih =>
    unfold readLoop at h
    generalize hkeys : readKeys cfg returnCas (i + ts.length) ts i iter w = r at h
    obtain ⟨walk, iter, v⟩ := r
    obtain ⟨hsame, hrep, hret⟩ := readKeys_replying hts rfl hkeys
    have hfinish : w' = v.finishRead iter → SameWorld w w' ∧ ∃ d, Replying w.conn d ∧
        ((∃ r, w'.conn = d.ascRsp r) ∨
          w'.conn =
              { d.record [.queued] with state := .mwrite, wire := { d.wire with msgCurr := 0 }
              }) := by
      rintro rfl
      obtain ⟨hsame', d, hd, hend⟩ := finishRead_quiet (w := v) iter
      exact ⟨hsame.trans hsame', d, hrep.quiet hd, hend.imp (fun h => ⟨_, h⟩) id⟩
    cases walk with
    | returned =>
      obtain rfl := Option.some.inj h
      obtain ⟨d, hd, he⟩ := hret rfl
      exact ⟨hsame, d, hd, .inl ⟨_, he⟩⟩
    | ended t =>
      dsimp only at h
      split at h
      · exact hfinish (Option.some.inj h).symm
      · split at h
        · exact hfinish (Option.some.inj h).symm
        · obtain ⟨hsame', d, hd, hend⟩ := ih (filled_ascTokenize _) h
          exact ⟨hsame.trans hsame', d, hrep.trans hd, hend⟩

end Session

end Twemcache
