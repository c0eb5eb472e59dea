import Twemcache.Conn.Dispatch
import Twemcache.Server.Evict
import Twemcache.Server.Refine
import Twemcache.Store.Fail

/-!
# Storage commands without memory

If there is no memory for the item of a storage command, the request is answered with
`SERVER_ERROR`, its data block is swallowed, and the key that it names is deleted, whatever the
command.

## Main results

* `oom_deletes_key` : what such a command does to the store.
-/

namespace Twemcache

/-- The type and the key of a storage command. -/
def Command.stores : Command → Option (ReqType × Key)
  | .update type key .. | .annex type key _ => some (type, key)
  | _ => none

namespace Session

variable {cfg : Config} {w w' : Session} {e : Circumstances} {line req : List UInt8} {key : Key}

/-- Memory was found for the item, or the key is deleted. -/
theorem allocItem_cases (w : Session) (cfg : Config) (key : Key) (ch : Choice)
    (dataflags exptime vlen : ℕ) (casId : Option ℕ) :
    (w.allocItem cfg ch key dataflags exptime vlen casId).conn.log = w.conn.log ++ [.alloc true] ∨
      ((w.allocItem cfg ch key dataflags exptime vlen casId).store =
        (w.store.itemDelete cfg key).2 ∧
        (w.allocItem cfg ch key dataflags exptime vlen casId).conn =
          { (w.conn.record [.alloc false]).ascRsp .serverError with
            writeAndGo := .swallow, sbytes := vlen + crlfLen, rdata := [] }) := by
  unfold allocItem
  generalize halloc : w.store.itemAlloc cfg ch _ key dataflags exptime vlen = r
  obtain ⟨_ | it, st⟩ := r
  · obtain rfl := Store.itemAlloc_none halloc
    exact .inr ⟨rfl, rfl⟩
  · exact .inl rfl

/-- A storage command comes down to `item_alloc`. -/
theorem execute_stores (w : Session) (cfg : Config) (e : Circumstances) {cmd : Command}
    {type : ReqType} (ts : List Token) (hcmd : cmd.stores = some (type, key)) :
    ∃ dataflags exptime vlen casId,
      w.execute cfg e ts cmd = some (w.allocItem cfg e.ch key dataflags exptime vlen casId) := by
  cases cmd with
  | update type' key' dataflags exptime vlen casId =>
    obtain ⟨-, rfl⟩ := Prod.mk.inj (Option.some.inj hcmd)
    exact ⟨_, _, _, _, rfl⟩
  | annex type' key' vlen =>
    obtain ⟨-, rfl⟩ := Prod.mk.inj (Option.some.inj hcmd)
    exact ⟨_, _, _, _, rfl⟩
  | _ => cases hcmd

end Session

/-- **A storage command that finds no memory deletes the key that it names and nothing else.**  It
is answered with `SERVER_ERROR`; every other key has the same value, flags and cas id as before, and
the named key has none, unless counts of references have wrapped. -/
theorem oom_deletes_key (cfg : Config) (w w' : Session) (e : Session.Circumstances)
    (line req : List UInt8) (type : ReqType) (key : Key) (es : List Event)
    (h : w.dispatch cfg e line req = some w')
    (hcmd : (ascDispatch cfg w.set e.stack req w.conn.noreply).1.stores = some (type, key))
    (hlog : w'.conn.log = w.conn.log ++ es) (hoom : Event.alloc false ∈ es) :
    (∀ k ≠ key, w'.store.view cfg k = w.store.view cfg k) ∧
      w'.store = (w.store.itemDelete cfg key).2 ∧
      (w'.conn.state = .write → w'.conn.wbuf = ascii "SERVER_ERROR" ++ crlf) ∧
      ∀ (now evictOpt : ℕ) (slabs : ℕ → Slab) (items : ItemPtr → Item) (s : Server),
        (server cfg).Reaches Server.NoWrap (.init cfg now evictOpt slabs items) s →
          s.store = w.store →
        w'.store.overflow = false → w'.store.view cfg key = none := by
  generalize hwire : Wire.connAddMsghdr
    { w.conn.wire with msgCurr := 0, msgUsed := 0, iovUsed := 0 } = r
  obtain ⟨_ | _, wire⟩ := r
  · rw [Session.dispatch_ok hwire] at h
    obtain ⟨dataflags, exptime, vlen, casId, hexec⟩ :=
      (w.handled cfg e line req wire).execute_stores
      cfg e (ascTokenize req tokenMax) hcmd
    obtain rfl := Option.some.inj (hexec.symm.trans h)
    rcases (w.handled cfg e line req wire).allocItem_cases cfg key e.ch dataflags exptime
        vlen casId with
      hgot | ⟨hstore, hconn⟩
    · -- memory was found, and no failure is on record
      rw [hgot, Session.handled_log, List.append_assoc, List.append_cancel_left_eq] at hlog
      rw [← hlog] at hoom
      simp at hoom
    · rw [hstore]
      refine ⟨fun k hk => Store.view_itemDelete_of_ne hk, rfl, ?_, ?_⟩
      · intro hwrite
        rw [hconn] at hwrite ⊢
        generalize (w.handled cfg e line req wire).conn.record [.alloc false] = c at hwrite ⊢
        cases hc : c.noreply with
        | true =>
          rw [Conn.ascRsp_of_noreply hc] at hwrite
          cases hwrite
        | false =>
          rw [Conn.ascRsp_of_reply hc]
          rfl
      · intro now evictOpt slabs items s hs hst hov
        have hkept : (w.handled cfg e line req wire).store = s.store := hst.symm
        rw [hkept] at hov
        rw [hkept]
        have hview := ((Server.inv_of_reaches hs).guarded (.delete key) none).view_itemDelete
          (.inl hov) 0 0
        exact Cache.apply_delete_self hview
  · -- without memory for the message nothing is allocated
    rw [Session.dispatch_enomem hwire] at h
    obtain rfl := Option.some.inj h
    have hother : es = [.line line w.conn.noreply] ++ if w.conn.noreply then [] else [.queued] := by
      refine List.append_cancel_left (hlog.symm.trans ?_)
      rw [← List.append_assoc]
      exact Conn.log_ascRsp _ _
    rw [hother] at hoom
    split_ifs at hoom <;> simp at hoom

/-- The small server is full, and `evict_opt` is zero. -/
def Server.tinyExhausted : Server :=
  (server .tiny).exec (fun s l s' => decide (NoWrap s l s')) (.tiny evictLru)
    (fullRun ++ [.evict 0])

/-- A new connection to the full server. -/
def Session.exhausted : Session :=
  { Session.fresh .tiny (.initial fun _ => 0) with store := Server.tinyExhausted.store }

/-- `add a 0 0 1` is sent to the full server, which has `a`. -/
theorem oom_deletes_key_full : ∃ w' : Session,
    Session.exhausted.dispatch .tiny {} [] (ascii "add a 0 0 1") = some w' ∧
      (∀ k ≠ [97], w'.store.view .tiny k = Session.exhausted.store.view .tiny k) ∧
      w'.store.view .tiny [97] = none := by
  obtain ⟨w', hw', hlog, hov⟩ : ∃ w', Session.exhausted.dispatch .tiny {} [] (ascii "add a 0 0 1") =
      some w' ∧ Event.alloc false ∈ w'.conn.log ∧ w'.store.overflow = false :=
    ⟨_, rfl, by decide +kernel, by decide +kernel⟩
  have hreach : (server .tiny).Reaches Server.NoWrap (.tiny evictLru) Server.tinyExhausted :=
    (Machine.reaches_exec (by decide +kernel)).mono fun _ _ _ => of_decide_eq_true
  obtain ⟨hother, -, -, hkey⟩ :=
    oom_deletes_key .tiny Session.exhausted w' {} [] (ascii "add a 0 0 1") .add
    [97] w'.conn.log hw' (by decide +kernel) rfl hlog
  exact ⟨w', hw', hother, hkey 2 evictLru _ _ _ hreach rfl hov⟩

/-- `a` is lost when `add a 0 0 1` is sent to the full server. -/
theorem oom_loses_key : ∃ w' : Session,
    (server .tiny).Reaches Server.NoWrap (.tiny evictLru) Server.tinyExhausted ∧
      Session.exhausted.store = Server.tinyExhausted.store ∧
      Session.exhausted.dispatch .tiny {} [] (ascii "add a 0 0 1") = some w' ∧
      (Event.alloc false ∈ w'.conn.log ∧ w'.conn.wbuf = ascii "SERVER_ERROR" ++ crlf) ∧
      (Session.exhausted.store.view .tiny [97]).isSome ∧ w'.store.view .tiny [97] = none :=
  ⟨_, (Machine.reaches_exec (by decide +kernel)).mono fun _ _ _ => of_decide_eq_true, rfl, rfl,
    by decide +kernel, by decide +kernel, by decide +kernel⟩

end Twemcache
