import Twemcache.Conn.Share

/-!
# Suffix buffers

A `get` takes a suffix buffer for each item that it finds, and puts it into the suffix list; the
buffers are given back when the reply has been sent, or the connection is closed.  As long as no
reference to an item is lost, no suffix buffer is lost either, and none is given back twice.

## Main definitions

* `Loans` : what a connection knows of the suffix buffers that it has taken.
* `Loans.Listed` : the buffers that were taken are those that remain in the list.

## Main results

* `Session.turn_loans` : nothing is taken but by a `get`, and the list is given back as a whole.
* `Session.turn_listed` : orderly turns lose no suffix buffer.
-/

namespace Twemcache

/-- What a connection knows of the suffix buffers that it has taken. -/
structure Loans where
  /-- Suffix list. -/
  slist : ℕ → ℕ
  /-- The current entry of the suffix list. -/
  scurr : ℕ
  /-- The number of entries that remain in the suffix list. -/
  sleft : ℕ
  /-- The number of entries that remain in the item list. -/
  ileft : ℕ
  /-- The suffix buffers that were taken and not given back. -/
  suffixes : List ℕ
  /-- How many suffix buffers were taken. -/
  nsuffix : ℕ

/-- What the connection knows of the suffix buffers. -/
def Conn.loans (c : Conn) : Loans := ⟨c.slist, c.scurr, c.sleft, c.ileft, c.suffixes, c.nsuffix⟩

namespace Loans

variable {l : Loans}

/-- The suffix buffers that remain in the suffix list. -/
def left (l : Loans) : List ℕ := (List.range l.sleft).map fun i => l.slist (l.scurr + i)

/-- They are given back, and so are the items. -/
def release (l : Loans) : Loans :=
  { l with
    suffixes := l.left.foldl List.erase l.suffixes
    scurr := l.scurr + l.sleft
    sleft := 0
    ileft := 0 }

/-- The lists are those of a reply of `iter` items. -/
def enlist (l : Loans) (iter : ℕ) : Loans := { l with scurr := 0, sleft := iter, ileft := iter }

/-- One more is taken, for the entry `iter` of the list. -/
def take (l : Loans) (iter : ℕ) : Loans :=
  { l with
    slist := Function.update l.slist iter l.nsuffix
    suffixes := l.nsuffix :: l.suffixes
    nsuffix := l.nsuffix + 1 }

/-- One is given back. -/
def free (l : Loans) (s : ℕ) : Loans := { l with suffixes := l.suffixes.erase s }

/-- Every suffix buffer that was taken remains in the list, once, and the list is as long as that of
the items. -/
structure Listed (l : Loans) : Prop where
  /-- Those that were taken are those in the list. -/
  perm : l.suffixes.Perm l.left
  /-- None was taken twice. -/
  nodup : l.suffixes.Nodup
  /-- The next one is not one of them. -/
  fresh : ∀ s ∈ l.suffixes, s < l.nsuffix
  /-- There is one for each item. -/
  paired : l.sleft = l.ileft

/-- What is taken away from a list is not left of it. -/
theorem foldl_erase_perm {α : Type*} [DecidableEq α] {xs ys : List α} (h : xs.Perm ys) :
    ys.foldl List.erase xs = [] := by
  induction ys generalizing xs with
  | nil => exact h.eq_nil
  | cons y ys ih =>
    refine ih ?_
    have herase := h.erase y
    rwa [List.erase_cons_head] at herase

theorem left_of_zero (h : l.sleft = 0) : l.left = [] := by
  unfold left
  rw [h]
  rfl

/-- When the list has been worked off, nothing is borrowed. -/
theorem Listed.suffixes_nil (h : l.Listed) (hleft : l.sleft = 0) : l.suffixes = [] := by
  have hperm := h.perm
  rw [left_of_zero hleft] at hperm
  exact hperm.eq_nil

/-- The list is worked off. -/
theorem Listed.release (h : l.Listed) : l.release.Listed := by
  have hnil : l.release.suffixes = [] := foldl_erase_perm h.perm
  refine ⟨?_, ?_, ?_, rfl⟩
  · rw [hnil, left_of_zero rfl]
  · rw [hnil]
    exact List.nodup_nil
  · rw [hnil]
    exact fun s hs => absurd hs List.not_mem_nil

/-- An entry behind the list does not matter. -/
theorem left_update {f : ℕ → ℕ} {iter s : ℕ} :
    (List.range iter).map (fun i => Function.update f iter s (0 + i)) =
      (List.range iter).map fun i => f (0 + i) := by
  refine List.map_congr_left fun j hj => ?_
  rw [Nat.zero_add, Function.update_of_ne (List.mem_range.1 hj).ne]

/-- Another buffer is taken, and becomes the last one. -/
theorem Listed.take {iter : ℕ} (h : (l.enlist iter).Listed) :
    ((l.take iter).enlist (iter + 1)).Listed := by
  have hnew : (List.range (iter + 1)).map
      (fun i => Function.update l.slist iter l.nsuffix (0 + i)) =
      ((List.range iter).map fun i => l.slist (0 + i)) ++ [l.nsuffix] := by
    rw [List.range_succ, List.map_append, List.map_singleton, left_update, Nat.zero_add,
      Function.update_self]
  refine ⟨?_, ?_, ?_, rfl⟩
  · change (l.nsuffix :: l.suffixes).Perm
      ((List.range (iter + 1)).map fun i => Function.update l.slist iter l.nsuffix (0 + i))
    rw [hnew]
    have hperm : l.suffixes.Perm ((List.range iter).map fun i => l.slist (0 + i)) := h.perm
    exact (hperm.cons l.nsuffix).trans (List.perm_append_singleton _ _).symm
  · exact List.nodup_cons.2 ⟨fun hmem => Nat.lt_irrefl _ (h.fresh _ hmem), h.nodup⟩
  · intro s hs
    rcases List.mem_cons.1 hs with rfl | hs
    · exact Nat.lt_succ_self _
    · exact Nat.lt_succ_of_lt (h.fresh s hs)

/-- It is given back at once. -/
theorem Listed.take_free {iter : ℕ} (h : (l.enlist iter).Listed) :
    (((l.take iter).free l.nsuffix).enlist iter).Listed := by
  have hsame : (l.nsuffix :: l.suffixes).erase l.nsuffix = l.suffixes := List.erase_cons_head ..
  refine ⟨?_, ?_, ?_, rfl⟩
  · change ((l.nsuffix :: l.suffixes).erase l.nsuffix).Perm
      ((List.range iter).map fun i => Function.update l.slist iter l.nsuffix (0 + i))
    rw [hsame, left_update]
    exact h.perm
  · change ((l.nsuffix :: l.suffixes).erase l.nsuffix).Nodup
    rw [hsame]
    exact h.nodup
  · intro s hs
    have hmem : s ∈ (l.nsuffix :: l.suffixes).erase l.nsuffix := hs
    rw [hsame] at hmem
    exact Nat.lt_succ_of_lt (h.fresh s hmem)

end Loans

namespace Conn

variable {cfg : Config} {c c' : Conn} {it : Item} {iter : ℕ} {returnCas : Bool}

/-! ### What does not touch the suffix buffers -/

@[simp] theorem loans_ascRsp (c : Conn) (r : Rsp) : (c.ascRsp r).loans = c.loans := by
  cases hn : c.noreply with
  | true =>
    rw [ascRsp_of_noreply hn]
    rfl
  | false =>
    rw [ascRsp_of_reply hn]
    rfl

@[simp] theorem loans_growIlist (c : Conn) (iter : ℕ) : (c.growIlist iter).2.loans = c.loans := by
  obtain ⟨b, n, as, heq, -⟩ := c.growIlist_eq iter
  rw [heq]
  rfl

@[simp] theorem loans_growSlist (c : Conn) (iter : ℕ) : (c.growSlist iter).2.loans = c.loans := by
  obtain ⟨b, n, as, heq, -⟩ := c.growSlist_eq iter
  rw [heq]
  rfl

@[simp] theorem loans_connBuildUdpHeaders (c : Conn) :
    c.connBuildUdpHeaders.2.loans = c.loans := by
  have halloc : (if c.wire.msgUsed > c.udpHsize then c.alloc else (true, c)).2.loans = c.loans := by
    split_ifs <;> rfl
  unfold connBuildUdpHeaders
  generalize (if c.wire.msgUsed > c.udpHsize then c.alloc else (true, c)) = r at halloc ⊢
  obtain ⟨_ | _, d⟩ := r <;> exact halloc

theorem loans_shrinkRbuf (c : Conn) : c.shrinkRbuf.loans = c.loans := by
  unfold shrinkRbuf
  dsimp only
  split_ifs with hsize hcurr
  · generalize hd : ({ c with rbuf := c.rbuf.moveToFront } : Conn) = d
    have hloans : d.loans = c.loans := by rw [← hd]; rfl
    obtain ⟨b, as, heq, -⟩ := d.alloc_eq
    rw [heq]
    cases b <;> exact hloans
  · obtain ⟨b, as, heq, -⟩ := c.alloc_eq
    rw [heq]
    cases b <;> rfl
  · rfl

theorem loans_shrinkIlist (c : Conn) : c.shrinkIlist.loans = c.loans := by
  unfold shrinkIlist
  obtain ⟨b, as, heq, -⟩ := c.alloc_eq
  rw [heq]
  split_ifs
  · cases b <;> rfl
  · rfl

theorem loans_shrinkMsg (c : Conn) : c.shrinkMsg.loans = c.loans := by
  unfold shrinkMsg
  obtain ⟨b, as, heq, -⟩ := c.alloc_eq
  rw [heq]
  split_ifs
  · cases b <;> rfl
  · rfl

theorem loans_shrinkIov (c : Conn) : c.shrinkIov.loans = c.loans := by
  unfold shrinkIov
  obtain ⟨b, as, heq, -⟩ := c.alloc_eq
  rw [heq]
  split_ifs
  · cases b <;> rfl
  · rfl

@[simp] theorem loans_connShrink (c : Conn) : c.connShrink.loans = c.loans := by
  unfold connShrink
  split_ifs
  · rfl
  · rw [loans_shrinkIov, loans_shrinkMsg, loans_shrinkIlist, loans_shrinkRbuf]

/-! ### What takes them and gives them back -/

/-- A suffix buffer is taken for an item. -/
theorem loans_ascCreateSuffix (c : Conn) (iter : ℕ) :
    (∃ d, c.ascCreateSuffix iter = (none, d) ∧ d.loans = c.loans) ∨
      ∃ d, c.ascCreateSuffix iter = (some c.nsuffix, d) ∧ d.loans = c.loans.take iter := by
  obtain ⟨b, n, as, heq, -⟩ := c.growSlist_eq iter
  unfold ascCreateSuffix
  rw [heq]
  cases b with
  | false => exact .inl ⟨_, rfl, rfl⟩
  | true =>
    dsimp only
    obtain ⟨b, as', halloc, -⟩ :=
      alloc_eq { c with ssize := n, wire := { c.wire with allocs := as } }
    rw [halloc]
    cases b with
    | false => exact .inl ⟨_, rfl, loans_ascRsp _ _⟩
    | true => exact .inr ⟨_, rfl, rfl⟩

/-- So it is when the item has become a part of the reply; otherwise it has been given back. -/
theorem loans_ascRespondGet {st : Rstatus}
    (h : c.ascRespondGet cfg iter it returnCas = (st, c')) :
    st = .ok ∧ c'.loans = c.loans.take iter ∨
      st = .enomem ∧ (c'.loans = c.loans ∨ c'.loans = (c.loans.take iter).free c.nsuffix) := by
  unfold ascRespondGet at h
  have hfirst : (c.connAddIovs [ascii "VALUE ", it.key]).2.loans = c.loans := rfl
  generalize c.connAddIovs _ = r at h hfirst
  obtain ⟨_ | _, d⟩ := r
  · dsimp only at h hfirst
    have hnsuffix : d.nsuffix = c.nsuffix := congrArg Loans.nsuffix hfirst
    rcases loans_ascCreateSuffix d iter with ⟨e, heq, hloans⟩ | ⟨e, heq, hloans⟩
    · rw [heq] at h
      obtain ⟨rfl, rfl⟩ := Prod.mk.inj h
      exact .inr ⟨rfl, .inl (hloans.trans hfirst)⟩
    · rw [heq] at h
      dsimp only at h
      rw [hfirst] at hloans
      have hlast : ∀ bufs, (e.connAddIovs bufs).2.loans = e.loans := fun _ => rfl
      have hlast' := hlast [suffixText it returnCas, crlf, it.value cfg, crlf]
      generalize e.connAddIovs _ = r at h hlast'
      obtain ⟨_ | _, f⟩ := r
      · obtain ⟨rfl, rfl⟩ := Prod.mk.inj h
        exact .inl ⟨rfl, hlast'.trans hloans⟩
      · -- the suffix is there, but there is no memory for the rest of the reply
        obtain ⟨rfl, rfl⟩ := Prod.mk.inj h
        refine .inr ⟨rfl, .inr ?_⟩
        rw [hnsuffix, ← hloans, ← hlast']
        rfl
  · obtain ⟨rfl, rfl⟩ := Prod.mk.inj h
    exact .inr ⟨rfl, .inl hfirst⟩

end Conn

/-! ### The loop of get -/

/-- A suffix buffer was taken for each item that was found, and is at its place in the suffix list;
the lengths of the lists are still those that they had before. -/
structure Serving.Lent (w : Session) (x : Serving) : Prop where
  /-- The buffers that were taken. -/
  listed : (x.session.conn.loans.enlist x.iter).Listed
  /-- The length of the suffix list. -/
  sleft : x.session.conn.sleft = w.conn.sleft
  /-- The length of the item list. -/
  ileft : x.session.conn.ileft = w.conn.ileft

section

open Conn

variable {cfg : Config} {returnCas : Bool} {w : Session} {x y : Serving}

/-- Nothing new was found. -/
theorem Serving.Lent.of_same {keys : List Key} {v : Session} (h : x.Lent w)
    (hloans : v.conn.loans = x.session.conn.loans) : Serving.Lent w ⟨keys, x.iter, v⟩ := by
  refine ⟨?_, (congrArg Loans.sleft hloans).trans h.sleft,
    (congrArg Loans.ileft hloans).trans h.ileft⟩
  dsimp only
  rw [hloans]
  exact h.listed

theorem Serving.Lent.step {l : ServeLabel} (h : x.Lent w)
    (hst : (serving cfg returnCas).step x l = some ((), y)) : y.Lent w := by
  have hgrow : (x.session.conn.growIlist x.iter).2.loans = x.session.conn.loans :=
    loans_growIlist _ _
  rcases serving_cases hst with ⟨u, -, rfl⟩ | ⟨key, keys, -, -, hcases⟩
  · exact h.of_same rfl
  rcases hcases with ⟨st, -, rfl⟩ | ⟨it, st, c, -, hgrown, rfl⟩ |
    ⟨it, st, c, c', -, hgrown, hresp, rfl⟩ | ⟨it, st, c, c', -, hgrown, hresp, rfl⟩
  · exact h.of_same rfl
  all_goals rw [hgrown] at hgrow
  · exact h.of_same hgrow
  · -- a suffix buffer that was taken has been given back at once
    rcases loans_ascRespondGet hresp with ⟨hok, -⟩ | ⟨-, hsame | hfree⟩
    · cases hok
    · exact h.of_same ((loans_ascRsp _ _).trans (hsame.trans hgrow))
    · have hnsuffix : c.nsuffix = x.session.conn.nsuffix := congrArg Loans.nsuffix hgrow
      have hloans : (c'.ascRsp .serverError).loans =
          (x.session.conn.loans.take x.iter).free x.session.conn.nsuffix := by
        rw [loans_ascRsp, hfree, hnsuffix, hgrow]
      refine ⟨?_, (congrArg Loans.sleft hloans).trans h.sleft,
        (congrArg Loans.ileft hloans).trans h.ileft⟩
      dsimp only
      rw [hloans]
      exact h.listed.take_free
  · rcases loans_ascRespondGet hresp with ⟨-, hloans⟩ | ⟨hno, -⟩
    · rw [hgrow] at hloans
      refine ⟨?_, (congrArg Loans.sleft hloans).trans h.sleft,
        (congrArg Loans.ileft hloans).trans h.ileft⟩
      change (c'.loans.enlist (x.iter + 1)).Listed
      rw [hloans]
      exact h.listed.take
    · cases hno

theorem Serving.Lent.reaches (h : x.Lent w)
    (hr : (serving cfg returnCas).Reaches Machine.Unguarded x y) : y.Lent w :=
  hr.invariant h fun _ _ _ _ hx hst _ => hx.step hst

end

namespace Session

open Conn

variable {cfg : Config} {w w' v : Session} {returnCas : Bool} {e : Circumstances}
  {line : List UInt8}

/-- The list of a `get` is what it has found. -/
theorem finishRead_loans (w : Session) (iter : ℕ) :
    (w.finishRead iter).conn.loans = w.conn.loans.enlist iter := by
  unfold finishRead setConn
  have hend : ∀ c : Conn, (c.connAddIovs [ascii "END" ++ crlf]).2.loans = c.loans := fun _ => rfl
  have hlists := hend { w.conn with icurr := 0, ileft := iter, scurr := 0, sleft := iter }
  dsimp only at hlists ⊢
  generalize Conn.connAddIovs _ _ = r at hlists ⊢
  obtain ⟨_ | _, c⟩ := r
  · have hudp : (if c.udp then c.connBuildUdpHeaders else (.ok, c)).2.loans = c.loans := by
      split_ifs
      · exact loans_connBuildUdpHeaders c
      · rfl
    dsimp only
    generalize (if c.udp then c.connBuildUdpHeaders else (.ok, c)) = r at hudp ⊢
    obtain ⟨_ | _, d⟩ := r
    · exact hudp.trans hlists
    · exact (loans_ascRsp d _).trans (hudp.trans hlists)
  · exact (loans_ascRsp c _).trans hlists

/-- A `get` that has found nothing when it comes to a key that is too long. -/
theorem readLoop_listed {fuel left i : ℕ} {ws : List (List UInt8)} {ts : List Token}
    (hl : w.conn.loans.Listed) (hleft : w.conn.ileft = 0) (hts : Filled left ws ts)
    (htimely : lateKey cfg ws false w.store = false)
    (h : readLoop cfg returnCas fuel ts i 0 w = some w') : w'.conn.loans.Listed := by
  obtain ⟨x, hreach, hends⟩ := readLoop_serving hts h
  have hsleft : w.conn.sleft = 0 := hl.paired.trans hleft
  have hnil : w.conn.suffixes = [] := hl.suffixes_nil hsleft
  have hstart : Serving.Lent w ⟨ws, 0, w⟩ := by
    refine ⟨⟨?_, hl.nodup, hl.fresh, rfl⟩, rfl, rfl⟩
    change w.conn.suffixes.Perm []
    rw [hnil]
  have hlent := hstart.reaches hreach
  rcases hends with ⟨-, rfl⟩ | ⟨key, keys, hkeys, hlong, rfl⟩
  · exact finishRead_loans x.session x.iter ▸ hlent.listed
  · -- no suffix buffer has been taken
    have hstart' : Serving.Timely cfg ⟨ws, 0, w⟩ := htimely
    have hlisted := hlent.listed
    rw [(hstart'.reaches hreach).iter_eq hkeys hlong] at hlisted
    change (x.session.conn.ascRsp .clientError).loans.Listed
    rw [loans_ascRsp]
    refine ⟨?_, hlisted.nodup, hlisted.fresh, ?_⟩
    · rw [Loans.left_of_zero (hlent.sleft.trans hsleft)]
      exact hlisted.perm
    · exact (hlent.sleft.trans hl.paired).trans hlent.ileft.symm

theorem allocItem_loans (ch : Choice) (key : Key) (dataflags exptime vlen : ℕ)
    (casId : Option ℕ) :
    (w.allocItem cfg ch key dataflags exptime vlen casId).conn.loans = w.conn.loans := by
  unfold allocItem
  generalize w.store.itemAlloc cfg ch _ key dataflags exptime vlen = r
  obtain ⟨_ | it, st⟩ := r
  · exact loans_ascRsp _ _
  · rfl

/-- The handlers, from where they act. -/
theorem execute_listed {cmd : Command} {left : ℕ} {ws : List (List UInt8)} {ts : List Token}
    (hl : w.conn.loans.Listed) (hleft : w.conn.ileft = 0)
    (hts : ∀ returnCas, cmd = .read returnCas → Filled left ws (ts.drop tokenKey))
    (htimely : ∀ returnCas, cmd = .read returnCas → lateKey cfg ws false w.store = false)
    (h : w.execute cfg e ts cmd = some w') : w'.conn.loans.Listed := by
  have hsame : ∀ {v : Session}, v.conn.loans = w.conn.loans → some v = some w' →
      w'.conn.loans.Listed := by
    intro v hv heq
    obtain rfl := Option.some.inj heq
    exact hv ▸ hl
  cases cmd with
  | respond r => exact hsame (loans_ascRsp _ _) h
  | read returnCas => exact readLoop_listed hl hleft (hts _ rfl) (htimely _ rfl) h
  | update type key dataflags exptime vlen casId => exact hsame (allocItem_loans _ _ _ _ _ _) h
  | annex type key vlen => exact hsame (allocItem_loans _ _ _ _ _ _) h
  | delta incr key delta => exact hsame (loans_ascRsp _ _) h
  | delete key => exact hsame (loans_ascRsp _ _) h
  | stats sub =>
    refine hsame ?_ h
    change (w.conn.coreWriteAndFree e.stats).loans = w.conn.loans
    unfold coreWriteAndFree
    cases e.stats with
    | none => exact loans_ascRsp _ _
    | some buf => rfl
  | flush exptime => exact hsame (loans_ascRsp _ _) h
  | configure s =>
    refine hsame ?_ h
    change ((w.applySetting e.reallocOk s).2.conn.ascRsp _).loans = w.conn.loans
    rw [loans_ascRsp, applySetting_conn]
  | quit => exact hsame (v := w.setState .close) rfl h

/-- `asc_dispatch`. -/
theorem dispatch_listed (hl : w.conn.loans.Listed) (hleft : w.conn.ileft = 0)
    (htimely : ¬ LateKey cfg w.store (request line))
    (h : w.dispatch cfg e line (request line) = some w') : w'.conn.loans.Listed := by
  unfold dispatch at h
  dsimp only at h
  generalize Wire.connAddMsghdr _ = r at h
  obtain ⟨_ | _, wire⟩ := r
  · dsimp only at h
    generalize hd : ascDispatch cfg w.set e.stack (request line) w.conn.noreply = r at h
    obtain ⟨cmd, a⟩ := r
    have hcmd : (ascDispatch cfg w.set e.stack (request line) w.conn.noreply).1 = cmd :=
      congrArg Prod.fst hd
    dsimp only at h
    generalize hv : w.setConn _ = v at h
    obtain ⟨hloans, hstore⟩ : v.conn.loans = w.conn.loans ∧ v.store = w.store := by
      rw [← hv]
      exact ⟨rfl, rfl⟩
    refine execute_listed (hloans ▸ hl) ((congrArg Loans.ileft hloans).trans hleft)
      (fun returnCas hread => filled_keys (hcmd.trans hread)) (fun returnCas hread => ?_) h
    rw [hstore]
    exact Bool.eq_false_iff.2 fun htrue => htimely ⟨type_of_read (hcmd.trans hread), htrue⟩
  · obtain rfl := Option.some.inj h
    change (Conn.ascRsp _ _).loans.Listed
    rw [loans_ascRsp]
    exact hl

/-- The state `CONN_PARSE`. -/
theorem coreParse_listed (hl : w.conn.loans.Listed) (hleft : w.conn.ileft = 0)
    (htimely : ¬ LateKey cfg w.store (request (w.conn.rbuf.unread.takeWhile (· ≠ 10))))
    (h : w.coreParse cfg e = some w') : w'.conn.loans.Listed := by
  unfold coreParse at h
  dsimp only at h
  split_ifs at h
  · obtain ⟨v, hv, rfl⟩ := Option.map_eq_some_iff.1 h
    have hlisted : v.conn.loans.Listed := dispatch_listed hl hleft htimely hv
    exact hlisted
  · obtain rfl := Option.some.inj h
    exact hl
  · obtain rfl := Option.some.inj h
    exact hl

/-! ### The other turns -/

theorem readFailed_loans (w : Session) (updated : Bool) (r : ReadResult) :
    (w.readFailed updated r).conn.loans = w.conn.loans := by
  unfold readFailed
  cases r with
  | eagain =>
    dsimp only
    split_ifs <;> rfl
  | _ => rfl

theorem ascCompleteNread_loans (w : Session) (ch : Choice) :
    (w.ascCompleteNread cfg ch).conn.loans = w.conn.loans := by
  unfold ascCompleteNread
  cases w.conn.item with
  | none => rfl
  | some it => exact loans_ascRsp _ _

theorem consume_loans (w : Session) (bytes : List UInt8) :
    (w.consume bytes).conn.loans = w.conn.loans := by rw [(consume_conn w bytes).1]

/-- The states `CONN_NREAD` and `CONN_SWALLOW`. -/
theorem turnNread_loans {ch : Choice} {result : Option ReadResult} {updated : Bool}
    (h : w.turnNread cfg ch result updated = some w') : w'.conn.loans = w.conn.loans := by
  unfold turnNread at h
  by_cases hrl : w.conn.rlbytes = 0
  · rw [if_pos hrl] at h
    obtain ⟨-, heq⟩ := Option.ite_none_right_eq_some.1 h
    rw [← Option.some.inj heq]
    exact ascCompleteNread_loans w ch
  rw [if_neg hrl] at h
  dsimp only at h
  generalize hv : ((w.fillItem cfg (w.conn.rbuf.unread.take _)).setConn fun c =>
    { c with rbuf := c.rbuf.skip _ }) = v at h
  have hloans : v.conn.loans = w.conn.loans := by
    rw [← hv]
    rfl
  by_cases hdone : v.conn.rlbytes = 0
  · rw [if_pos hdone] at h
    obtain ⟨-, heq⟩ := Option.ite_none_right_eq_some.1 h
    rwa [← Option.some.inj heq]
  rw [if_neg hdone] at h
  cases result with
  | none => cases h
  | some r =>
    dsimp only at h
    obtain ⟨-, heq⟩ := Option.ite_none_right_eq_some.1 h
    rw [← hloans]
    cases r with
    | data bytes =>
      rw [← Option.some.inj heq]
      exact consume_loans v bytes
    | _ =>
      rw [← Option.some.inj heq]
      exact readFailed_loans v updated _

theorem turnSwallow_loans {result : Option ReadResult} {updated : Bool}
    (h : w.turnSwallow result updated = some w') : w'.conn.loans = w.conn.loans := by
  unfold turnSwallow at h
  by_cases hs : w.conn.sbytes = 0
  · rw [if_pos hs] at h
    obtain ⟨-, heq⟩ := Option.ite_none_right_eq_some.1 h
    rw [← Option.some.inj heq]
    rfl
  rw [if_neg hs] at h
  by_cases hbytes : w.conn.rbytes > 0
  · rw [if_pos hbytes] at h
    obtain ⟨-, heq⟩ := Option.ite_none_right_eq_some.1 h
    rw [← Option.some.inj heq]
    rfl
  rw [if_neg hbytes] at h
  cases result with
  | none => cases h
  | some r =>
    dsimp only at h
    obtain ⟨-, heq⟩ := Option.ite_none_right_eq_some.1 h
    cases r with
    | data bytes =>
      rw [← Option.some.inj heq]
      exact consume_loans w bytes
    | _ =>
      rw [← Option.some.inj heq]
      exact readFailed_loans w updated _

/-- The state `CONN_READ`. -/
theorem coreReadTcp_loans {results : List ReadResult} (hudp : w.conn.udp = false)
    (h : (w.coreReadTcp results).map coreRead = some w') : w'.conn.loans = w.conn.loans := by
  obtain ⟨⟨r, v⟩, hloop, rfl⟩ := Option.map_eq_some_iff.1 h
  obtain ⟨bytes, rest, b, as, -, -, hrec⟩ := coreReadTcp_received hudp hloop
  have hsame : (w.conn.rebuf b as).loans = w.conn.loans := rfl
  generalize w.conn.rebuf b as = c at hrec hsame
  cases hrec with
  | none => exact hsame
  | data => exact hsame
  | eof => exact hsame
  | error => exact hsame
  | oom => exact (loans_ascRsp _ _).trans hsame

theorem coreReadUdp_loans (w : Session) (datagram : Option (List UInt8)) :
    (coreRead (w.coreReadUdp datagram)).conn.loans = w.conn.loans := by
  unfold coreReadUdp
  generalize datagram.map (List.take w.conn.rbuf.size) = r
  cases r with
  | none => rfl
  | some buf =>
    dsimp only
    split_ifs
    · exact loans_ascRsp _ _
    · rfl
    · rfl

theorem coreResetCmdHandler_loans (w : Session) :
    w.coreResetCmdHandler.conn.loans = w.conn.loans := by
  have hrelease : (w.setConn fun c => { c with reqType := .unknown }).releaseItem.conn.loans =
      w.conn.loans := by
    unfold releaseItem
    cases (w.setConn fun c => { c with reqType := .unknown }).conn.item <;> rfl
  exact (loans_connShrink _).trans hrelease

/-- The connection is closed: all suffix buffers are given back. -/
theorem coreClose_loans (w : Session) : w.coreClose.conn.loans = w.conn.loans.release := by
  have hrelease : w.releaseItem.conn.loans = w.conn.loans := by
    unfold releaseItem
    cases w.conn.item <;> rfl
  have hall : (w.releaseItem.releaseItems.setConn Conn.releaseSuffixes).stop.conn.loans =
      w.conn.loans.release := by
    rw [← hrelease]
    rfl
  unfold coreClose
  dsimp only
  split_ifs <;> exact hall

/-- A reply is sent, in part or in whole, or given up. -/
theorem transmit_loans (w : Session) (res : Wire.SendResult) :
    (w.transmit res).conn.loans = w.conn.loans ∨
      (w.transmit res).conn.loans = w.conn.loans.release := by
  unfold transmit
  dsimp only
  cases (w.conn.wire.coreTransmit res).1 with
  | complete =>
    dsimp only
    split_ifs
    · exact .inr rfl
    · exact .inl rfl
  | incomplete => exact .inl rfl
  | softError => exact .inl rfl
  | hardError => cases res <;> exact .inl rfl

/-- The states `CONN_WRITE` and `CONN_MWRITE`. -/
theorem turnWrite_loans (w : Session) (res : Wire.SendResult) :
    (w.turnWrite res).conn.loans = w.conn.loans ∨
      (w.turnWrite res).conn.loans = w.conn.loans.release := by
  obtain ⟨wire, hadd⟩ := addResponse_eq w
  unfold turnWrite
  generalize w.addResponse = r at hadd
  obtain ⟨_ | _, v⟩ := r
  · obtain rfl : v = { w with conn := { w.conn with wire := wire } } := hadd
    have hready : (if w.conn.udp ∧ wire.msgCurr = 0 then
        Conn.connBuildUdpHeaders { w.conn with wire := wire } else
          (.ok, { w.conn with wire := wire })).2.loans = w.conn.loans := by
      split_ifs
      · exact loans_connBuildUdpHeaders _
      · rfl
    dsimp only
    generalize (if w.conn.udp ∧ wire.msgCurr = 0 then
        Conn.connBuildUdpHeaders { w.conn with wire := wire } else
          (.ok, { w.conn with wire := wire })) = r at hready
    obtain ⟨_ | _, c⟩ := r
    · rw [← (hready : c.loans = w.conn.loans)]
      exact transmit_loans { w with conn := c } res
    · exact .inl hready
  · obtain rfl : v = { w with conn := { w.conn with wire := wire } } := hadd
    exact .inl rfl

/-- **Nothing is taken but by a `get`, and the lists are given back as a whole.** -/
theorem turn_loans {io : Io} (h : w.turn cfg io = some w') (hparse : w.conn.state ≠ .parse) :
    w'.conn.loans = w.conn.loans ∨ w'.conn.loans = w.conn.loans.release := by
  unfold turn at h
  cases hstate : w.conn.state <;> rw [hstate] at h <;> cases io <;> dsimp only at h <;> try cases h
  case wait.wait updated =>
    left
    split_ifs <;> rfl
  case read.readTcp results =>
    split_ifs at h with hudp
    exact .inl (coreReadTcp_loans (Bool.not_eq_true _ ▸ hudp) h)
  case read.readUdp datagram =>
    split_ifs at h
    obtain rfl := Option.some.inj h
    exact .inl (coreReadUdp_loans w datagram)
  case parse.parse e => exact absurd hstate hparse
  case newCmd.newCmd updated =>
    left
    split_ifs
    · exact coreResetCmdHandler_loans _
    · rfl
    · rfl
  case nread.nread result updated ch => exact .inl (turnNread_loans h)
  case swallow.swallow result updated => exact .inl (turnSwallow_loans h)
  case write.send res => exact turnWrite_loans w res
  case mwrite.send res => exact turnWrite_loans w res
  case close.close => exact .inr (coreClose_loans w)

/-- **Orderly turns lose no suffix buffer.** -/
theorem turn_listed {io : Io} (hl : w.conn.loans.Listed) (hdue : w.conn.ListDue)
    (ho : Orderly cfg w w') (h : w.turn cfg io = some w') : w'.conn.loans.Listed := by
  by_cases hparse : w.conn.state = .parse
  · obtain ⟨hleft, htimely⟩ := ho.tidy hdue hparse
    unfold turn at h
    rw [hparse] at h
    cases io with
    | parse e => exact coreParse_listed hl hleft htimely h
    | _ => cases h
  rcases turn_loans h hparse with hsame | hrelease
  · exact hsame ▸ hl
  · exact hrelease ▸ hl.release

end Session

end Twemcache
