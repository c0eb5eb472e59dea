import Twemcache.Conn.Fetch
import Twemcache.Wire.Partial

/-!
# The loop of get

The loop of `asc_process_read` is two loops: the inner one ends at the end of a batch of keys, but
also if an allocation has failed, and the outer one goes on with what is left of the line, which
then starts with the key that could not be served.  Flattened, it is a machine that takes up one key
after another (`serving`), and every step of it brings the loop nearer to its end.

## Main definitions

* `Serving`, `serving` : the loop as a machine.
* `Serving.measure` : the keys to come and the allocations that fail.

## Main results

* `readLoop_serving` : the loop follows the machine.
* `readLoop_total` : the loop ends.
-/

namespace Twemcache

/-- The loop of `asc_process_read`, between two keys. -/
structure Serving where
  /-- The keys that are not yet served. -/
  keys : List Key
  /-- How many keys were found. -/
  iter : ℕ
  /-- The connection and the store. -/
  session : Session

/-- The steps of the loop. -/
inductive ServeLabel where
  /-- A token is looked at. -/
  | token (u : Use)
  /-- The next key is taken up. -/
  | key

/-- The loop of `asc_process_read`.  A key that could not be served stays the next one. -/
def serving (cfg : Config) (returnCas : Bool) : Machine Serving ServeLabel Unit where
  step x l :=
    let w := x.session
    match l, x.keys with
    | .token u, keys => some ((), ⟨keys, x.iter, w.setConn (·.record [.token u])⟩)
    | .key, [] => none
    | .key, key :: keys =>
      if key.length > keyMaxLen then none
      else
        match w.store.itemGet cfg key with
        | (none, st) => some ((), ⟨keys, x.iter, { w with store := st }⟩)
        | (some it, st) =>
          match w.conn.growIlist x.iter with
          | (false, c) =>
            some ((), ⟨key :: keys, x.iter, { w with conn := c, store := st.itemRemove it }⟩)
          | (true, c) =>
            match c.ascRespondGet cfg x.iter (st.items it) returnCas with
            | (.enomem, c) => some ((), ⟨key :: keys, x.iter,
                { w with conn := c.ascRsp .serverError, store := st.itemRemove it }⟩)
            | (.ok, c) => some ((), ⟨keys, x.iter + 1, { w with
                conn := { c with ilist := Function.update c.ilist x.iter it }
                store := st.itemTouch cfg it }⟩)

namespace Serving

/-- What bounds the turns of the loop: the keys to come, and the allocations that fail. -/
def measure (x : Serving) : ℕ := x.keys.length + x.session.conn.wire.fails

end Serving

/-! ### Allocations -/

namespace Wire

variable {c c' : Wire} {buf rest : List UInt8} {bufs : List (List UInt8)}

/-- Buffers that could not be added have used up a failing allocation. -/
theorem fails_connAddIov {st : Rstatus} (h : c.connAddIov buf = (st, c')) :
    c'.fails ≤ c.fails ∧ (st = .enomem → c'.fails < c.fails) := by
  induction hn : buf.length using Nat.strong_induction_on generalizing c buf with
  | _ n ih =>
    subst hn
    rw [connAddIov] at h
    generalize hpass : c.iovPass connAddMsghdr buf = r at h
    obtain ⟨st', d, rest⟩ := r
    have hpass' := iovPass_ample connAddMsghdr_ample hpass
    dsimp only at h
    split_ifs at h with hmore
    · obtain ⟨rfl, hrest⟩ := hmore
      have hlt : (c.iovPass connAddMsghdr buf).2.2.length < buf.length :=
        length_iovPass_lt (by rw [hpass]) (by rw [hpass]; exact hrest)
      rw [hpass] at hlt
      obtain ⟨hle, hlt'⟩ := ih rest.length hlt h rfl
      have hfirst := (hpass'.1 rfl).2
      exact ⟨hle.trans hfirst, fun hst => (hlt' hst).trans_le hfirst⟩
    · obtain ⟨rfl, rfl⟩ := Prod.mk.inj h
      cases st' with
      | ok => exact ⟨(hpass'.1 rfl).2, fun h => by cases h⟩
      | enomem => exact ⟨(hpass'.2 rfl).1.le, fun _ => (hpass'.2 rfl).1⟩

theorem fails_connAddIovs {st : Rstatus} (h : c.connAddIovs bufs = (st, c')) :
    c'.fails ≤ c.fails ∧ (st = .enomem → c'.fails < c.fails) := by
  induction bufs generalizing c with
  | nil =>
    obtain ⟨rfl, rfl⟩ := Prod.mk.inj h
    exact ⟨le_rfl, nofun⟩
  | cons buf bufs ih =>
    rw [connAddIovs] at h
    generalize hadd : c.connAddIov buf = r at h
    obtain ⟨_ | _, d⟩ := r
    · have hle := (fails_connAddIov hadd).1
      obtain ⟨hle', hlt⟩ := ih h
      exact ⟨hle'.trans hle, fun hst => (hlt hst).trans_le hle⟩
    · obtain ⟨rfl, rfl⟩ := Prod.mk.inj h
      exact ⟨(fails_connAddIov hadd).1, (fails_connAddIov hadd).2⟩

end Wire

namespace Conn

variable {cfg : Config} {c c' : Conn} {iter : ℕ} {it : Item} {returnCas : Bool} {udp : Bool}
  {bytes : List UInt8}

theorem alloc_eq (c : Conn) :
    ∃ b as, c.alloc = (b, { c with wire := { c.wire with allocs := as } }) ∧
    as.count false + (!b).toNat ≤ c.wire.fails := by
  obtain ⟨b, as, hrealloc, hcount⟩ := Wire.realloc_eq c.wire
  refine ⟨b, as, ?_, hcount⟩
  unfold alloc
  rw [hrealloc]

/-- The item list has room, or nothing has changed. -/
theorem growIlist_eq (c : Conn) (iter : ℕ) : ∃ b n as,
    c.growIlist iter = (b, { c with isize := n, wire := { c.wire with allocs := as } }) ∧
    as.count false + (!b).toNat ≤ c.wire.fails := by
  unfold growIlist
  split_ifs
  · obtain ⟨b, as, halloc, hcount⟩ := c.alloc_eq
    rw [halloc]
    cases b with
    | false => exact ⟨_, c.isize, as, rfl, hcount⟩
    | true => exact ⟨_, _, as, rfl, hcount⟩
  · exact ⟨true, c.isize, c.wire.allocs, rfl, le_rfl⟩

theorem growSlist_eq (c : Conn) (iter : ℕ) : ∃ b n as,
    c.growSlist iter = (b, { c with ssize := n, wire := { c.wire with allocs := as } }) ∧
    as.count false + (!b).toNat ≤ c.wire.fails := by
  unfold growSlist
  split_ifs
  · obtain ⟨b, as, halloc, hcount⟩ := c.alloc_eq
    rw [halloc]
    cases b with
    | false => exact ⟨_, c.ssize, as, rfl, hcount⟩
    | true => exact ⟨_, _, as, rfl, hcount⟩
  · exact ⟨true, c.ssize, c.wire.allocs, rfl, le_rfl⟩

@[simp] theorem ascRsp_wire (c : Conn) (r : Rsp) : (c.ascRsp r).wire = c.wire := by
  cases h : c.noreply with
  | true => rw [ascRsp_of_noreply h]
  | false =>
    rw [ascRsp_of_reply h]
    rfl

@[simp] theorem ascRsp_udp (c : Conn) (r : Rsp) : (c.ascRsp r).udp = c.udp := by
  cases h : c.noreply with
  | true => rw [ascRsp_of_noreply h]
  | false =>
    rw [ascRsp_of_reply h]
    rfl

@[simp] theorem ascRsp_ilist (c : Conn) (r : Rsp) : (c.ascRsp r).ilist = c.ilist := by
  cases h : c.noreply with
  | true => rw [ascRsp_of_noreply h]
  | false =>
    rw [ascRsp_of_reply h]
    rfl

theorem ascRsp_noreply (c : Conn) (r : Rsp) : (c.ascRsp r).noreply = false := by
  cases h : c.noreply with
  | true => rw [ascRsp_of_noreply h]
  | false =>
    rw [ascRsp_of_reply h]
    exact h

/-- While a `get` is served, the connection stays what it is. -/
theorem Replying.keeps (h : Replying c c') :
    c'.udp = c.udp ∧ (c.noreply = false → c'.noreply = false) := by
  induction h with
  | refl => exact ⟨rfl, id⟩
  | quiet _ hq ih => exact ⟨hq.udp.trans ih.1, fun hn => hq.noreply.trans (ih.2 hn)⟩
  | used _ _ ih => exact ih
  | rsp _ r ih => exact ⟨(ascRsp_udp _ r).trans ih.1, fun _ => ascRsp_noreply _ r⟩

/-- Taking a suffix buffer leaves the messages alone. -/
theorem ascCreateSuffix_ample {r : Option ℕ} (h : c.ascCreateSuffix iter = (r, c')) :
    c'.wire.ample = c.wire.ample ∧ c'.ilist = c.ilist ∧ c'.wire.fails ≤ c.wire.fails ∧
      (r = none → c'.wire.fails < c.wire.fails) := by
  obtain ⟨b, n, as, hgrow, hcount⟩ := c.growSlist_eq iter
  unfold ascCreateSuffix at h
  rw [hgrow] at h
  cases b with
  | false =>
    obtain ⟨rfl, rfl⟩ := Prod.mk.inj h
    exact ⟨rfl, rfl, Nat.le_of_succ_le hcount, fun _ => hcount⟩
  | true =>
    obtain ⟨b, as', halloc, hcount'⟩ :=
      ({ c with ssize := n, wire := { c.wire with allocs := as } } : Conn).alloc_eq
    simp only [halloc] at h
    have hle : as'.count false + (!b).toNat ≤ c.wire.fails := hcount'.trans hcount
    cases b with
    | false =>
      obtain ⟨rfl, rfl⟩ := Prod.mk.inj h
      rw [ascRsp_wire]
      refine ⟨rfl, ?_, Nat.le_of_succ_le hle, fun _ => hle⟩
      exact ascRsp_ilist _ _
    | true =>
      obtain ⟨rfl, rfl⟩ := Prod.mk.inj h
      exact ⟨rfl, rfl, hle, nofun⟩

/-- A value that could not be added has used up a failing allocation. -/
theorem fails_ascRespondGet {st : Rstatus} (h : c.ascRespondGet cfg iter it returnCas = (st, c')) :
    c'.wire.fails ≤ c.wire.fails ∧ (st = .enomem → c'.wire.fails < c.wire.fails) := by
  unfold ascRespondGet connAddIovs at h
  generalize hfirst : c.wire.connAddIovs [ascii "VALUE ", it.key] = r at h
  obtain ⟨_ | _, wire⟩ := r
  · have hle := (Wire.fails_connAddIovs hfirst).1
    dsimp only at h
    generalize hsuffix : ascCreateSuffix _ _ = r at h
    obtain ⟨_ | suffix, d⟩ := r
    · obtain ⟨-, -, -, hlt⟩ := ascCreateSuffix_ample hsuffix
      obtain ⟨rfl, rfl⟩ := Prod.mk.inj h
      exact ⟨(hlt rfl).le.trans hle, fun _ => (hlt rfl).trans_le hle⟩
    · obtain ⟨-, -, hle', -⟩ := ascCreateSuffix_ample hsuffix
      dsimp only at h
      generalize hlast : d.wire.connAddIovs _ = r at h
      obtain ⟨_ | _, wire'⟩ := r
      · obtain ⟨rfl, rfl⟩ := Prod.mk.inj h
        exact ⟨((Wire.fails_connAddIovs hlast).1.trans hle').trans hle, nofun⟩
      · have hlt := (Wire.fails_connAddIovs hlast).2 rfl
        obtain ⟨rfl, rfl⟩ := Prod.mk.inj h
        exact ⟨(hlt.le.trans hle').trans hle, fun _ => hlt.trans_le (hle'.trans hle)⟩
  · have hlt := (Wire.fails_connAddIovs hfirst).2 rfl
    obtain ⟨rfl, rfl⟩ := Prod.mk.inj h
    exact ⟨hlt.le, fun _ => hlt⟩

/-- A value that was added. -/
theorem ascRespondGet_added (hit : Hit)
    (h : c.ascRespondGet cfg iter hit.item returnCas = (.ok, c')) (hc : c.wire.ample.Open udp bytes)
    (hkey : hit.item.key = hit.key) :
    c'.wire.ample.Open udp (bytes ++ hit.block cfg returnCas) := by
  unfold ascRespondGet connAddIovs at h
  generalize hfirst : c.wire.connAddIovs [ascii "VALUE ", hit.item.key] = r at h
  obtain ⟨_ | _, wire⟩ := r
  · obtain ⟨hopen, -⟩ := Wire.connAddIovs_added hfirst hc
    dsimp only at h
    generalize hsuffix : ascCreateSuffix _ _ = r at h
    obtain ⟨_ | suffix, d⟩ := r
    · cases h
    · obtain ⟨hample, -⟩ := ascCreateSuffix_ample hsuffix
      dsimp only at h
      generalize hlast : d.wire.connAddIovs _ = r at h
      obtain ⟨_ | _, wire'⟩ := r
      · rw [show wire.ample = d.wire.ample from hample.symm] at hopen
        obtain ⟨hopen', -⟩ := Wire.connAddIovs_added hlast hopen
        obtain ⟨-, rfl⟩ := Prod.mk.inj h
        simpa [Hit.block, suffixText, hkey, List.append_assoc] using hopen'
      · cases h
  · cases h

/-- A value that could not be added and has left nothing. -/
theorem ascRespondGet_unspoiled (h : c.ascRespondGet cfg iter it returnCas = (.enomem, c'))
    (hc : c.wire.ample.Open udp bytes) (hpay : c'.wire.payload = c.wire.payload)
    (hheader : ¬ c'.wire.Headless) :
    c'.wire.ample.Open udp bytes ∧
      (c.wire.full (c.wire.udp || c.wire.msgUsed = 1) = false → c'.wire.ample = c.wire.ample) := by
  have hbytes : c.wire.payload = bytes := hc.payload
  -- a value is never empty, so a part of it is noticed
  have hvalue : ∀ added : List UInt8, bytes ++ (ascii "VALUE " ++ it.key ++ added) ≠ bytes := by
    intro added heq
    have hlen := congrArg List.length heq
    have hsix : (ascii "VALUE ").length = 6 := rfl
    simp only [List.length_append, hsix] at hlen
    omega
  unfold ascRespondGet connAddIovs at h
  generalize hfirst : c.wire.connAddIovs [ascii "VALUE ", it.key] = r at h
  obtain ⟨_ | _, wire⟩ := r
  · -- a part of the value is there, whatever has failed after it
    exfalso
    obtain ⟨hopen, -⟩ := Wire.connAddIovs_added hfirst hc
    dsimp only at h
    generalize hsuffix : ascCreateSuffix _ _ = r at h
    obtain ⟨_ | suffix, d⟩ := r
    · obtain ⟨hample, -⟩ := ascCreateSuffix_ample hsuffix
      obtain ⟨-, rfl⟩ := Prod.mk.inj h
      have hpay' : wire.ample.payload = bytes := by
        rw [show wire.ample = d.wire.ample from hample.symm, Wire.ample_payload, hpay, hbytes]
      rw [hopen.payload] at hpay'
      exact hvalue [] (by simpa using hpay')
    · obtain ⟨hample, -⟩ := ascCreateSuffix_ample hsuffix
      dsimp only at h
      generalize hlast : d.wire.connAddIovs _ = r at h
      obtain ⟨_ | _, wire'⟩ := r
      · cases h
      · obtain ⟨-, rfl⟩ := Prod.mk.inj h
        rw [show wire.ample = d.wire.ample from hample.symm] at hopen
        have hne : suffixText it returnCas ≠ [] := by simp [suffixText, ascii]
        obtain ⟨-, hheadless | ⟨added, hadded, -⟩⟩ := Wire.connAddIovs_enomem hlast hopen
          (fun buf hbuf => by obtain rfl := Option.some.inj hbuf; exact hne)
        · exact hheader hheadless
        · have hpay' : wire'.ample.payload = bytes := hpay.trans hbytes
          rw [hadded.payload] at hpay'
          exact hvalue added (by simpa using hpay')
  · obtain ⟨-, rfl⟩ := Prod.mk.inj h
    obtain ⟨-, hheadless | ⟨added, hadded, hsame⟩⟩ := Wire.connAddIovs_enomem hfirst hc
      (fun buf hbuf => by obtain rfl := Option.some.inj hbuf; decide)
    · exact absurd hheadless hheader
    · have hpay' : wire.payload = bytes := hpay.trans hbytes
      rw [← Wire.ample_payload, hadded.payload] at hpay'
      obtain rfl : added = [] := List.append_right_eq_self.1 hpay'
      rw [List.append_nil] at hadded
      exact ⟨hadded, hsame rfl⟩

end Conn

/-! ### The loop follows the machine -/

section

variable {cfg : Config} {returnCas : Bool} {x y : Serving} {w w' : Session}

/-- What a step does: a token is looked at, or a key is missed, or it cannot be served yet, or it is
found. -/
theorem serving_cases {l : ServeLabel} (h : (serving cfg returnCas).step x l = some ((), y)) :
    (∃ u, l = .token u ∧ y = ⟨x.keys, x.iter, x.session.setConn (·.record [.token u])⟩) ∨
    ∃ key keys, x.keys = key :: keys ∧ key.length ≤ keyMaxLen ∧
      ((∃ st, x.session.store.itemGet cfg key = (none, st) ∧
          y = ⟨keys, x.iter, { x.session with store := st }⟩) ∨
        (∃ it st c, x.session.store.itemGet cfg key = (some it, st) ∧
          x.session.conn.growIlist x.iter = (false, c) ∧
          y = ⟨key :: keys, x.iter, { x.session with conn := c, store := st.itemRemove it }⟩) ∨
        (∃ it st c c', x.session.store.itemGet cfg key = (some it, st) ∧
          x.session.conn.growIlist x.iter = (true, c) ∧
          c.ascRespondGet cfg x.iter (st.items it) returnCas = (.enomem, c') ∧
          y = ⟨key :: keys, x.iter,
            { x.session with conn := c'.ascRsp .serverError, store := st.itemRemove it }⟩) ∨
        ∃ it st c c', x.session.store.itemGet cfg key = (some it, st) ∧
          x.session.conn.growIlist x.iter = (true, c) ∧
          c.ascRespondGet cfg x.iter (st.items it) returnCas = (.ok, c') ∧
          y = ⟨keys, x.iter + 1, { x.session with
            conn := { c' with ilist := Function.update c'.ilist x.iter it }
            store := st.itemTouch cfg it }⟩) := by
  obtain ⟨keys, iter, w⟩ := x
  cases l with
  | token u => exact .inl ⟨u, rfl, (Prod.mk.inj (Option.some.inj h)).2.symm⟩
  | key =>
    right
    cases keys with
    | nil => cases h
    | cons key keys =>
      simp only [serving] at h
      split_ifs at h with hlong
      refine ⟨key, keys, rfl, Nat.le_of_not_lt hlong, ?_⟩
      generalize hget : w.store.itemGet cfg key = r at h
      obtain ⟨_ | it, st⟩ := r
      · exact .inl ⟨st, rfl, (Prod.mk.inj (Option.some.inj h)).2.symm⟩
      · right
        dsimp only at h
        generalize hgrow : w.conn.growIlist iter = r at h
        obtain ⟨_ | _, c⟩ := r
        · exact .inl ⟨it, st, c, rfl, rfl, (Prod.mk.inj (Option.some.inj h)).2.symm⟩
        · right
          dsimp only at h
          generalize hresp : c.ascRespondGet cfg iter (st.items it) returnCas = r at h
          obtain ⟨_ | _, c'⟩ := r
          · exact .inr ⟨it, st, c, c', rfl, rfl, hresp, (Prod.mk.inj (Option.some.inj h)).2.symm⟩
          · exact .inl ⟨it, st, c, c', rfl, rfl, hresp, (Prod.mk.inj (Option.some.inj h)).2.symm⟩

/-- A token is looked at. -/
theorem reaches_token (x : Serving) (u : Use) : (serving cfg returnCas).Reaches Machine.Unguarded x
    ⟨x.keys, x.iter, x.session.setConn (·.record [.token u])⟩ :=
  Machine.Reaches.tail (l := .token u) (r := ()) .refl rfl trivial

/-- Every key that is taken up brings the loop nearer to its end. -/
theorem Serving.measure_step {l : ServeLabel}
    (h : (serving cfg returnCas).step x l = some ((), y)) :
    y.measure ≤ x.measure ∧ (l = .key → y.measure < x.measure) := by
  have hgrow' := x.session.conn.growIlist_eq x.iter
  rcases serving_cases h with ⟨u, rfl, rfl⟩ | ⟨key, keys, hkeys, -, hcases⟩
  · exact ⟨le_rfl, nofun⟩
  · suffices hlt : y.measure < x.measure from ⟨hlt.le, fun _ => hlt⟩
    unfold measure
    rw [hkeys, List.length_cons]
    rcases hcases with ⟨st, -, rfl⟩ | ⟨it, st, c, -, hgrow, rfl⟩ | ⟨it, st, c, c', -, hgrow,
      hresp, rfl⟩ |
      ⟨it, st, c, c', -, hgrow, hresp, rfl⟩
    · simp only
      omega
    · obtain ⟨b, n, as, heq, hcount⟩ := hgrow'
      rw [hgrow] at heq
      obtain ⟨rfl, rfl⟩ := Prod.mk.inj heq
      have hlt : as.count false < x.session.conn.wire.fails := hcount
      change (key :: keys).length + as.count false < _
      rw [List.length_cons]
      omega
    all_goals
      obtain ⟨b, n, as, heq, hcount⟩ := hgrow'
      rw [hgrow] at heq
      obtain ⟨rfl, rfl⟩ := Prod.mk.inj heq
      have hle : as.count false ≤ x.session.conn.wire.fails := hcount
      have hfails := Conn.fails_ascRespondGet hresp
      change c'.wire.fails ≤ as.count false ∧ (_ → c'.wire.fails < as.count false) at hfails
    · have hlt := hfails.2 rfl
      simp only [List.length_cons, Conn.ascRsp_wire]
      omega
    · have hle' := hfails.1
      change keys.length + c'.wire.fails < _
      omega

theorem Serving.measure_reaches (h : (serving cfg returnCas).Reaches Machine.Unguarded x y) :
    y.measure ≤ x.measure :=
  h.invariant (I := fun z => z.measure ≤ x.measure) le_rfl
    fun _ _ _ _ hI hst _ => (measure_step hst).1.trans hI

/-- Where the loop has come to when the inner loop ends. -/
def Session.Walk.At (x : Serving) (iter : ℕ) (w : Session) : Session.Walk → Prop
  | .returned => ∃ key keys, x.keys = key :: keys ∧ keyMaxLen < key.length ∧
    w = x.session.setConn (·.ascRsp .clientError)
  | .ended t => x = ⟨words 32 (t.val.getD []), iter, w⟩

/-- The inner loop. -/
theorem readKeys_serving {left ntoken i iter iter' : ℕ} {ws : List (List UInt8)} {ts : List Token}
    {walk : Session.Walk} (hts : Filled left ws ts)
    (h : Session.readKeys cfg returnCas ntoken ts i iter w = (walk, iter', w')) :
    ∃ x, (serving cfg returnCas).Reaches Machine.Unguarded ⟨ws, iter, w⟩ x ∧ walk.At x iter' w' ∧
      (ws ≠ [] → 0 < left → walk = .returned ∨ x.measure < (⟨ws, iter, w⟩ : Serving).measure) := by
  induction hts generalizing i iter w with
  | scanned =>
    obtain ⟨rfl, rfl, rfl⟩ := Prod.mk.inj h |>.imp_right Prod.mk.inj
    exact ⟨_, reaches_token _ ⟨i, ntoken, false⟩, rfl, nofun⟩
  | stopped hne hws =>
    obtain ⟨rfl, rfl, rfl⟩ := Prod.mk.inj h |>.imp_right Prod.mk.inj
    refine ⟨_, reaches_token _ ⟨i, ntoken, false⟩, ?_,
      fun _ hleft => absurd hleft (Nat.lt_irrefl 0)⟩
    rw [← hws]
    rfl
  | @word left key rest ws ts hkey hspace hsep hws hts ih =>
    let v := w.setConn (·.record [.token ⟨i, ntoken, true⟩])
    have htoken : (serving cfg returnCas).Reaches Machine.Unguarded ⟨key :: ws, iter, w⟩
        ⟨key :: ws, iter, v⟩ :=
      reaches_token _ _
    -- the key is taken up, and the loop goes on
    have hnext : ∀ {iter₁ : ℕ} {w₁ : Session},
        (serving cfg returnCas).step ⟨key :: ws, iter, v⟩ .key = some ((), ⟨ws, iter₁, w₁⟩) →
        Session.readKeys cfg returnCas ntoken ts (i + 1) iter₁ w₁ = (walk, iter', w') →
        ∃ x, (serving cfg returnCas).Reaches Machine.Unguarded ⟨key :: ws, iter, w⟩ x ∧
          walk.At x iter' w' ∧ (key :: ws ≠ [] → 0 < left + 1 →
            walk = .returned ∨ x.measure < (⟨key :: ws, iter, w⟩ : Serving).measure) := by
      intro iter₁ w₁ hstep hloop
      obtain ⟨x, hx, hat, -⟩ := ih hloop
      exact ⟨x, (htoken.tail hstep trivial).trans hx, hat, fun _ _ =>
        .inr ((Serving.measure_reaches hx).trans_lt ((Serving.measure_step hstep).2 rfl))⟩
    -- the key is taken up, and could not be served
    have hstop : ∀ {w₁ : Session},
        (serving cfg returnCas).step ⟨key :: ws, iter, v⟩ .key = some ((), ⟨key :: ws, iter, w₁⟩) →
        (Session.Walk.ended ⟨some (key ++ rest), key.length⟩, iter, w₁) = (walk, iter', w') →
        ∃ x, (serving cfg returnCas).Reaches Machine.Unguarded ⟨key :: ws, iter, w⟩ x ∧
          walk.At x iter' w' ∧ (key :: ws ≠ [] → 0 < left + 1 →
            walk = .returned ∨ x.measure < (⟨key :: ws, iter, w⟩ : Serving).measure) := by
      intro w₁ hstep hloop
      obtain ⟨rfl, rfl, rfl⟩ := Prod.mk.inj hloop |>.imp_right Prod.mk.inj
      refine ⟨_, htoken.tail hstep trivial, ?_,
        fun _ _ => .inr ((Serving.measure_step hstep).2 rfl)⟩
      change _ = (⟨words 32 (key ++ rest), iter, w₁⟩ : Serving)
      rw [hws]
    unfold Session.readKeys at h
    rw [if_neg (by simpa using hkey)] at h
    dsimp only at h
    simp only [serving] at hnext hstop
    split_ifs at h with hlong
    · obtain ⟨rfl, rfl, rfl⟩ := Prod.mk.inj h |>.imp_right Prod.mk.inj
      exact ⟨_, htoken, ⟨key, ws, rfl, hlong, rfl⟩, fun _ _ => .inl rfl⟩
    · rw [if_neg hlong] at hnext hstop
      rw [Token.text_word] at h
      change (match v.store.itemGet cfg key with
        | (none, st) => Session.readKeys cfg returnCas ntoken ts (i + 1) iter { v with store := st }
        | (some it, st) => _) = _ at h
      generalize v.store.itemGet cfg key = r at h hnext hstop
      obtain ⟨_ | it, st⟩ := r
      · exact hnext rfl h
      · dsimp only at h hnext hstop
        generalize v.conn.growIlist iter = r at h hnext hstop
        obtain ⟨_ | _, c⟩ := r
        · exact hstop rfl h
        · dsimp only at h hnext hstop
          generalize c.ascRespondGet cfg iter (st.items it) returnCas = r at h hnext hstop
          obtain ⟨_ | _, c'⟩ := r
          · exact hnext rfl h
          · exact hstop rfl h

/-- How the loop ends. -/
def Serving.Ends (x : Serving) (w : Session) : Prop :=
  (x.keys = [] ∧ w = x.session.finishRead x.iter) ∨
    ∃ key keys, x.keys = key :: keys ∧ keyMaxLen < key.length ∧
      w = x.session.setConn (·.ascRsp .clientError)

/-- What is left of the line is empty, or starts with a word. -/
theorem head_ascTokenize (rest : List UInt8) :
    (ascTokenize rest tokenMax).head?.bind Token.val = none ↔ words 32 rest = [] := by
  have hfilled := filled_ascTokenize rest
  generalize ascTokenize rest tokenMax = ts at hfilled ⊢
  generalize words 32 rest = ws at hfilled ⊢
  generalize hleft : tokenMax - 1 = left at hfilled
  cases hfilled with
  | scanned => simp
  | stopped => cases hleft
  | word => simp

/-- **The loop of `asc_process_read` follows the machine.** -/
theorem readLoop_serving {fuel left i iter : ℕ} {ws : List (List UInt8)} {ts : List Token}
    (hts : Filled left ws ts) (h : Session.readLoop cfg returnCas fuel ts i iter w = some w') :
    ∃ x, (serving cfg returnCas).Reaches Machine.Unguarded ⟨ws, iter, w⟩ x ∧ x.Ends w' := by
  induction fuel generalizing left ws ts i iter w with
  | zero => cases h
  | succ fuel ih =>
    unfold Session.readLoop at h
    generalize hkeys : Session.readKeys cfg returnCas (i + ts.length) ts i iter w = r at h
    obtain ⟨walk, iter', v⟩ := r
    obtain ⟨x, hx, hat, -⟩ := readKeys_serving hts hkeys
    cases walk with
    | returned =>
      obtain rfl := Option.some.inj h
      exact ⟨x, hx, .inr hat⟩
    | ended t =>
      have hx' : x = ⟨words 32 (t.val.getD []), iter', v⟩ := hat
      subst hx'
      dsimp only at h
      split at h
      · rename_i hval
        rw [hval, Option.getD_none, words_nil] at hx
        exact ⟨_, hx, .inl ⟨rfl, (Option.some.inj h).symm⟩⟩
      · rename_i rest hval
        rw [hval, Option.getD_some] at hx
        split at h
        · rename_i hnone
          rw [(head_ascTokenize rest).1 hnone] at hx
          exact ⟨_, hx, .inl ⟨rfl, (Option.some.inj h).symm⟩⟩
        · obtain ⟨y, hy, hends⟩ := ih (filled_ascTokenize rest) h
          exact ⟨y, hx.trans hy, hends⟩

/-- **The loop of `asc_process_read` ends** after a number of turns that the keys and the failing
allocations bound. -/
theorem readLoop_total {fuel left i iter : ℕ} {ws : List (List UInt8)} {ts : List Token}
    (hts : Filled (left + 1) ws ts) (hne : ws ≠ [])
    (hfuel : (⟨ws, iter, w⟩ : Serving).measure ≤ fuel) :
    ∃ w', Session.readLoop cfg returnCas fuel ts i iter w = some w' := by
  induction fuel generalizing left ws ts i iter w with
  | zero =>
    have hpos := List.length_pos_iff.2 hne
    change ws.length + _ ≤ 0 at hfuel
    omega
  | succ fuel ih =>
    unfold Session.readLoop
    generalize hkeys : Session.readKeys cfg returnCas (i + ts.length) ts i iter w = r
    obtain ⟨walk, iter', v⟩ := r
    obtain ⟨x, -, hat, hless⟩ := readKeys_serving hts hkeys
    cases walk with
    | returned => exact ⟨v, rfl⟩
    | ended t =>
      have hx : x = ⟨words 32 (t.val.getD []), iter', v⟩ := hat
      subst hx
      have hlt := (hless hne (Nat.succ_pos left)).resolve_left (fun h => by cases h)
      dsimp only
      split
      · exact ⟨_, rfl⟩
      · rename_i rest hval
        rw [hval, Option.getD_some] at hlt
        split
        · exact ⟨_, rfl⟩
        · rename_i hsome
          refine ih (filled_ascTokenize rest) (fun hnil => ?_)
            (Nat.le_of_lt_succ (hlt.trans_le hfuel))
          rw [(head_ascTokenize rest).2 hnil] at hsome
          cases hsome

end

end Twemcache
