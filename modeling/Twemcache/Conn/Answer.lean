import Twemcache.Conn.Serve
import Twemcache.Server.Ownership

/-!
# Answers to a get

With enough memory, a `get` looks up all its keys, in their order, and is answered with a block for
each key that was found, and `END`.  A failed allocation is made up for if it leaves nothing in the
reply.  If it leaves a part of a value, or if the loop is left with values in the reply, no error
reaches the client: `core_drive_machine` sends the error line only if nothing else is to be sent.

## Main definitions

* `Serving.Unspoiled` : what is left of the reply if something fails can be made up for.
* `Session.sends`, `Session.Replies` : what is sent, and that it is a proper answer.

## Main results

* `get_answered` : what a `get` does with enough memory.
* `get_replies` : the loop ends, and with a proper answer unless the reply is spoiled.
-/

namespace Twemcache

/-! ### What is sent -/

/-- What the lookups of keys, one after another, find.  A lookup that could not be made use of is
repeated. -/
inductive Fetched (cfg : Config) : List Key → Store → List Hit → Store → Prop where
  /-- There are no keys. -/
  | nil (s : Store) : Fetched cfg [] s [] s
  /-- The first key is not found. -/
  | miss {key : Key} {keys : List Key} {s s' t : Store} {hits : List Hit}
      (hget : s.itemGet cfg key = (none, s'))
    (h : Fetched cfg keys s' hits t) : Fetched cfg (key :: keys) s hits t
  /-- The first key is found. -/
  | hit {key : Key} {keys : List Key} {s s' t : Store} {it : ItemPtr} {hits : List Hit}
    (hget : s.itemGet cfg key = (some it, s')) (h : Fetched cfg keys (s'.itemTouch cfg it) hits t) :
    Fetched cfg (key :: keys) s (⟨key, it, s'.items it⟩ :: hits) t
  /-- The first key is found, and looked up again. -/
  | again {key : Key} {keys : List Key} {s s' t : Store} {it : ItemPtr} {hits : List Hit}
    (hget : s.itemGet cfg key = (some it, s'))
      (h : Fetched cfg (key :: keys) (s'.itemRemove it) hits t) :
    Fetched cfg (key :: keys) s hits t

namespace Session

/-- What is sent once the handler has returned; `none` if the connection is closed instead. -/
def sends (w : Session) : Option (List UInt8) :=
  match w.addResponse with
  | (.ok, w) => some w.conn.wire.payload
  | (.enomem, _) => none

/-- What is sent is the blocks of all keys that were found, and `END`, or one line that says that
there was an error. -/
def Replies (cfg : Config) (returnCas : Bool) (keys : List Key) (s : Store) (w : Session) : Prop :=
  (w.conn.state = .write ∨ w.conn.state = .mwrite) ∧
    ((∃ hits t, Fetched cfg keys s hits t ∧
        w.sends = some ((hits.map (Hit.block cfg returnCas)).flatten ++ (ascii "END" ++ crlf))) ∨
      ∃ r, (r = .clientError ∨ r = .serverError) ∧ w.sends = some (Rsp.text r ++ crlf))

end Session

namespace Serving

/-- An allocation that fails while a value is added leaves nothing of it, and no datagram without
the place of its header. -/
def KeepsReply (cfg : Config) (returnCas : Bool) (x : Serving) : Prop :=
  ∀ key keys it st c c', x.keys = key :: keys → x.session.store.itemGet cfg key = (some it, st) →
    x.session.conn.growIlist x.iter = (true, c) →
    c.ascRespondGet cfg x.iter (st.items it) returnCas = (.enomem, c') →
    c'.wire.payload = c.wire.payload ∧ ¬ c'.wire.Headless

/-- What is left of the reply if something fails can be made up for. -/
structure Unspoiled (cfg : Config) (returnCas : Bool) (x : Serving) : Prop where
  /-- A key that is too long comes before all values. -/
  long : ∀ key keys, x.keys = key :: keys → key.length > keyMaxLen → x.iter = 0
  /-- A failed allocation leaves nothing of a value. -/
  value : x.KeepsReply cfg returnCas
  /-- Without memory for `END` there are no values. -/
  last : ∀ c', x.keys = [] → x.session.conn.connAddIovs [ascii "END" ++ crlf] = (.enomem, c') →
    x.iter = 0 ∧ c'.wire.payload = x.session.conn.wire.payload ∧ ¬ c'.wire.Headless

end Serving

/-- Whatever fails while the keys are served can be made up for. -/
def Session.Unspoiled (cfg : Config) (returnCas : Bool) (keys : List Key) (w : Session) : Prop :=
  ∀ x, (serving cfg returnCas).Reaches Machine.Unguarded ⟨keys, 0, w⟩ x → x.Unspoiled cfg returnCas

section

variable {cfg : Config} {returnCas : Bool} {keys : List Key} {s : Store} {wire : Wire}
  {x y : Serving} {hits : List Hit} {w w' : Session}

/-- How far a reply has been put together when the loop has come to `x`. -/
structure Served (cfg : Config) (returnCas : Bool) (keys : List Key) (s : Store) (wire : Wire)
    (x : Serving) (hits : List Hit) : Prop where
  /-- It is a UDP connection or not. -/
  udp : x.session.conn.udp = wire.udp
  /-- These keys were found. -/
  count : x.iter = hits.length
  /-- The reply has a block for each of them. -/
  built : x.session.conn.wire.ample.Open wire.udp (hits.map (Hit.block cfg returnCas)).flatten
  /-- If there are none, the messages are as they were. -/
  blank : hits = [] → x.session.conn.wire.ample = wire.ample
  /-- The keys to come are looked up next. -/
  rest : ∀ hits' t, Fetched cfg x.keys x.session.store hits' t →
    Fetched cfg keys s (hits ++ hits') t

/-- **One step of the loop**, if what fails can be made up for. -/
theorem Served.step (h : Served cfg returnCas keys s wire x hits) (hblank : wire.Blank)
    (hkeeps : x.KeepsReply cfg returnCas) {l : ServeLabel}
    (hst : (serving cfg returnCas).step x l = some ((), y)) :
    ∃ hits', Served cfg returnCas keys s wire y hits' := by
  have hgrow' := x.session.conn.growIlist_eq x.iter
  -- growing the item list leaves the messages alone
  have hgrown : ∀ {b c}, x.session.conn.growIlist x.iter = (b, c) → c.udp = wire.udp ∧
      c.wire.ample = x.session.conn.wire.ample := by
    intro b c hgrow
    obtain ⟨b, n, as, heq, -⟩ := hgrow'
    rw [hgrow] at heq
    obtain ⟨rfl, rfl⟩ := Prod.mk.inj heq
    exact ⟨h.udp, rfl⟩
  rcases serving_cases hst with ⟨u, -, rfl⟩ | ⟨key, ks, hkeys, -, hcases⟩
  · exact ⟨hits, h.udp, h.count, h.built, h.blank, h.rest⟩
  · have hrest := h.rest
    rw [hkeys] at hrest
    rcases hcases with ⟨st, hget, rfl⟩ | ⟨it, st, c, hget, hgrow, rfl⟩ | ⟨it, st, c, c', hget,
      hgrow, hresp, rfl⟩ |
      ⟨it, st, c, c', hget, hgrow, hresp, rfl⟩
    · exact ⟨hits, h.udp, h.count, h.built, h.blank, fun hits' t ht => hrest _ _ (.miss hget ht)⟩
    · obtain ⟨hudp, hample⟩ := hgrown hgrow
      refine ⟨hits, hudp, h.count, ?_, fun hnil => hample.trans (h.blank hnil),
        fun hits' t ht => hrest _ _ (.again hget ht)⟩
      change c.wire.ample.Open _ _
      rw [hample]
      exact h.built
    · obtain ⟨hudp, hample⟩ := hgrown hgrow
      obtain ⟨hpay, hheader⟩ := hkeeps key ks it st c c' hkeys hget hgrow hresp
      have hreply := Conn.ascRespondGet_replying cfg c x.iter (st.items it) returnCas
      rw [hresp] at hreply
      have hopen : c.wire.ample.Open wire.udp (hits.map (Hit.block cfg returnCas)).flatten := by
        rw [hample]
        exact h.built
      obtain ⟨hopen', hsame⟩ := Conn.ascRespondGet_unspoiled hresp hopen hpay hheader
      refine ⟨hits, (Conn.ascRsp_udp _ _).trans (hreply.keeps.1.trans hudp), h.count, ?_,
        fun hnil => ?_, fun hits' t ht => hrest _ _ (.again hget ht)⟩
      · change (c'.ascRsp .serverError).wire.ample.Open _ _
        rw [Conn.ascRsp_wire]
        exact hopen'
      · have hb : c.wire.Blank := hblank.of_ample (hample.trans (h.blank hnil))
        change (c'.ascRsp .serverError).wire.ample = _
        rw [Conn.ascRsp_wire, hsame (hb.not_full _), hample]
        exact h.blank hnil
    · obtain ⟨hudp, hample⟩ := hgrown hgrow
      have hquiet := Conn.ascRespondGet_ok hresp
      have hopen : c.wire.ample.Open wire.udp (hits.map (Hit.block cfg returnCas)).flatten := by
        rw [hample]
        exact h.built
      have hopen' :=
        Conn.ascRespondGet_added ⟨key, it, st.items it⟩ hresp hopen (Store.itemGet_key hget)
      refine ⟨hits ++ [⟨key, it, st.items it⟩], hquiet.udp.trans hudp, ?_, ?_, ?_, ?_⟩
      · simp [h.count]
      · simpa using hopen'
      · simp
      · intro hits' t ht
        rw [List.append_assoc]
        exact hrest _ _ (.hit hget ht)

/-- The client goes on wanting a reply. -/
theorem noreply_of_serving {l : ServeLabel} (hst : (serving cfg returnCas).step x l = some ((), y))
    (hn : x.session.conn.noreply = false) : y.session.conn.noreply = false := by
  have hgrown : ∀ {b c}, x.session.conn.growIlist x.iter = (b, c) → c.noreply = false := by
    intro b c hgrow
    obtain ⟨b, n, as, heq, -⟩ := x.session.conn.growIlist_eq x.iter
    rw [hgrow] at heq
    obtain ⟨rfl, rfl⟩ := Prod.mk.inj heq
    exact hn
  rcases serving_cases hst with ⟨u, -, rfl⟩ | ⟨key, ks, -, -, hcases⟩
  · exact hn
  · rcases hcases with ⟨st, -, rfl⟩ | ⟨it, st, c, -, hgrow, rfl⟩ | ⟨it, st, c, c', -, -, -, rfl⟩ |
      ⟨it, st, c, c', -, hgrow, hresp, rfl⟩
    · exact hn
    · exact hgrown hgrow
    · exact Conn.ascRsp_noreply _ _
    · exact (Conn.ascRespondGet_ok hresp).noreply.trans (hgrown hgrow)

/-- After an error the reply is not sent as a list. -/
theorem ascRsp_state_ne (c : Conn) (r : Rsp) : (c.ascRsp r).state ≠ .mwrite := by
  cases h : c.noreply with
  | true =>
    rw [Conn.ascRsp_of_noreply h]
    exact nofun
  | false =>
    rw [Conn.ascRsp_of_reply h]
    exact nofun

/-- An error line is sent if there is nothing else in the messages. -/
theorem sends_error (hn : w.conn.noreply = false) (hudp : w.conn.udp = w.conn.wire.udp)
    (hb : w.conn.wire.Blank) {r : Rsp} (hr : r = .clientError ∨ r = .serverError) :
    (w.setConn (·.ascRsp r)).conn.state = .write ∧
      (w.setConn (·.ascRsp r)).sends = some (r.text ++ crlf) := by
  have hlen : r.text.length ≤ 20 := by
    rcases hr with rfl | rfl <;> decide
  have hrsp : w.conn.ascRsp r = { w.conn.record [.queued] with
      wbuf := r.text ++ crlf, state := .write, writeAndGo := .newCmd } := by
    rw [Conn.ascRsp_of_reply hn, if_neg (by rw [crlfLen, tcpBufferSize]; omega)]
  have hfew : w.conn.wire.iovUsed = 0 ∨ w.conn.udp = true ∧ w.conn.wire.iovUsed = 1 := by
    rw [hudp, hb.used]
    cases w.conn.wire.udp <;> simp
  obtain ⟨wire', hadd, hpay⟩ := hb.addLine (r.text ++ crlf) (by
    rw [List.length_append, show crlf.length = 2 from rfl]
    omega)
  unfold Session.setConn
  simp only [hrsp]
  refine ⟨trivial, ?_⟩
  unfold Session.sends Session.addResponse
  simp only [true_and, Conn.record]
  rw [if_pos hfew]
  unfold Conn.connAddIovs
  simp only [hadd, hpay]

/-- A reply is sent as it is, whatever error line has been written. -/
theorem sends_reply (wire : Wire) {bytes : List UInt8} (hudp : w.conn.udp = wire.udp)
    (hopen : w.conn.wire.ample.Open wire.udp bytes) (hne : bytes ≠ []) : w.sends = some bytes := by
  have hmany := Wire.iovUsed_of_payload hopen hne
  rw [← hudp] at hmany
  unfold Session.sends Session.addResponse
  rw [if_neg (fun h => hmany h.2)]
  exact congrArg some hopen.payload

/-- The headers of datagrams are written, or nothing has changed. -/
theorem connBuildUdpHeaders_cases {c : Conn} {bytes : List UInt8}
    (h : c.wire.ample.Open true bytes) :
    (∃ as, c.connBuildUdpHeaders = (.enomem, { c with wire := { c.wire with allocs := as } })) ∨
      ∃ n wire, c.connBuildUdpHeaders = (.ok, { c with udpHsize := n, wire := wire }) ∧
          wire.payload = bytes := by
  obtain ⟨b, as, halloc, -⟩ : ∃ b as, (if c.wire.msgUsed > c.udpHsize then c.alloc else (true, c)) =
      (b, { c with wire := { c.wire with allocs := as } }) ∧ True := by
    split_ifs
    · obtain ⟨b, as, halloc, -⟩ := c.alloc_eq
      exact ⟨b, as, halloc, trivial⟩
    · exact ⟨true, c.wire.allocs, rfl, trivial⟩
  unfold Conn.connBuildUdpHeaders
  rw [halloc]
  cases b with
  | false => exact .inl ⟨as, rfl⟩
  | true =>
    have hready : Wire.Ready { c.wire with allocs := as } := ⟨h.ready.curr, h.ready.apart⟩
    exact .inr
      ⟨_, _, rfl, (Conn.payload_headers (c := { c.wire with allocs := as }) h.udp_eq hready h.curr
      (fun _ hi => Conn.header_pos h hi) _).trans h.payload⟩

/-- `END` is added, or there is no memory for it. -/
theorem Served.finish (h : Served cfg returnCas keys s wire x hits) (hblank : wire.Blank)
    (hun : x.Unspoiled cfg returnCas) (hkeys : x.keys = [])
    (hn : x.session.conn.noreply = false ∨ (x.session.finishRead x.iter).conn.state = .mwrite) :
    (x.session.finishRead x.iter).Replies cfg returnCas keys s := by
  let c : Conn := { x.session.conn with icurr := 0, ileft := x.iter, scurr := 0, sleft := x.iter }
  generalize hend : x.session.conn.wire.connAddIovs [ascii "END" ++ crlf] = r
  obtain ⟨st, wire'⟩ := r
  have hc : c.connAddIovs [ascii "END" ++ crlf] = (st, { c with wire := wire' }) := by
    unfold Conn.connAddIovs
    rw [show c.wire.connAddIovs [ascii "END" ++ crlf] = (st, wire') from hend]
  cases st with
  | ok =>
    obtain ⟨hopen, -⟩ := Wire.connAddIovs_added hend h.built
    have hfetched : Fetched cfg keys s (hits ++ []) x.session.store := h.rest [] _ (hkeys ▸ .nil _)
    rw [List.append_nil] at hfetched
    rw [List.flatten_singleton] at hopen
    have hne : (hits.map (Hit.block cfg returnCas)).flatten ++ (ascii "END" ++ crlf) ≠ [] := by
      simp [crlf]
    -- the reply is there, and the error line is not added to it
    have herror : ∀ {e : Conn} {w : Session}, e.udp = wire.udp → e.noreply = false ∨
        w.conn.state = .mwrite →
        e.wire.ample.Open wire.udp
          ((hits.map (Hit.block cfg returnCas)).flatten ++ (ascii "END" ++ crlf)) →
        w.conn = e.ascRsp .serverError → w.Replies cfg returnCas keys s := by
      intro e w hudp hno hopen hw
      have hno : e.noreply = false := hno.resolve_right (hw ▸ ascRsp_state_ne e .serverError)
      refine ⟨.inl ?_, .inl ⟨hits, _, hfetched, sends_reply wire ?_ ?_ hne⟩⟩
      · rw [hw, Conn.ascRsp_of_reply hno]
      · rw [hw, Conn.ascRsp_udp, hudp]
      · rw [hw, Conn.ascRsp_wire]
        exact hopen
    have hmwrite : ∀ {w : Session}, w.conn.state = .mwrite →
        w.conn.wire.payload = (hits.map (Hit.block cfg returnCas)).flatten ++
          (ascii "END" ++ crlf) →
        w.Replies cfg returnCas keys s := by
      intro w hstate hpay
      refine ⟨.inr hstate, .inl ⟨hits, _, hfetched, ?_⟩⟩
      unfold Session.sends Session.addResponse
      rw [if_neg (fun h => by rw [hstate] at h; cases h.1)]
      exact congrArg some hpay
    revert hn
    unfold Session.finishRead Session.setConn
    simp only
    rw [hc]
    simp only
    by_cases hudp : x.session.conn.udp = true
    · rw [if_pos hudp]
      have hopen' := hopen
      rw [← h.udp, hudp] at hopen'
      rcases connBuildUdpHeaders_cases (c := { c with wire := wire' })
        hopen' with ⟨as, hbuild⟩ | ⟨n, wire'', hbuild, hpay⟩
      · rw [hbuild]
        exact fun hn => herror (e := { c with wire := { wire' with allocs := as } })
          h.udp hn hopen rfl
      · rw [hbuild]
        exact fun _ => hmwrite rfl hpay
    · rw [if_neg hudp]
      exact fun _ => hmwrite rfl hopen.payload
  | enomem =>
    obtain ⟨hiter, hpay, hheader⟩ := hun.last { x.session.conn with wire := wire' } hkeys (by
      unfold Conn.connAddIovs
      rw [hend])
    have hnil : hits = [] := by rw [← List.length_eq_zero_iff, ← h.count, hiter]
    have hample := h.blank hnil
    -- nothing of `END` is in the messages
    have hsame : wire'.ample = wire.ample := by
      obtain ⟨-, hheadless | ⟨added, hadded, hsame⟩⟩ := Wire.connAddIovs_enomem hend h.built
        (fun buf hbuf => by obtain rfl := Option.some.inj hbuf; decide)
      · exact absurd hheadless hheader
      · have hbytes := hadded.payload
        rw [Wire.ample_payload, show wire'.payload = x.session.conn.wire.payload from hpay,
          ← Wire.ample_payload, h.built.payload] at hbytes
        obtain rfl : added = [] := List.append_right_eq_self.1 hbytes.symm
        exact (hsame rfl ((hblank.of_ample hample).not_full _)).trans hample
    have hudp : c.udp = wire'.udp := h.udp.trans (congrArg Wire.udp hsame :).symm
    have hfinish : x.session.finishRead x.iter = Session.setConn
        { x.session with conn := { c with wire := wire' } } (·.ascRsp .serverError) := by
      unfold Session.finishRead Session.setConn
      simp only
      rw [hc]
    rw [hfinish] at hn ⊢
    obtain ⟨hstate, hsends⟩ :=
      sends_error (w := { x.session with conn := { c with wire := wire' } })
      (hn.resolve_right (ascRsp_state_ne _ _)) hudp (hblank.of_ample hsame) (.inr rfl)
    exact ⟨.inl hstate, .inr ⟨_, .inr rfl, hsends⟩⟩

/-- **How a reply ends** if what has failed could be made up for. -/
theorem Served.replies (h : Served cfg returnCas keys s wire x hits) (hblank : wire.Blank)
    (hun : x.Unspoiled cfg returnCas) (hends : x.Ends w)
    (hn : x.session.conn.noreply = false ∨ w.conn.state = .mwrite) :
    w.Replies cfg returnCas keys s := by
  rcases hends with ⟨hkeys, rfl⟩ | ⟨key, ks, hkeys, hlong, rfl⟩
  · exact h.finish hblank hun hkeys hn
  · -- no value is in the reply
    have hnil : hits = [] := by
      rw [← List.length_eq_zero_iff, ← h.count]
      exact hun.long key ks hkeys hlong
    have hample := h.blank hnil
    have hudp : x.session.conn.udp = x.session.conn.wire.udp :=
      h.udp.trans (congrArg Wire.udp hample :).symm
    obtain ⟨hstate, hsends⟩ := sends_error (hn.resolve_right (ascRsp_state_ne _ _)) hudp
      (hblank.of_ample hample) (.inl rfl)
    exact ⟨.inl hstate, .inr ⟨_, .inl rfl, hsends⟩⟩

end

/-! ### Enough memory -/

section

variable {cfg : Config} {returnCas udp : Bool} {keys : List Key} {s : Store} {x y : Serving}
  {w : Session}

/-- The loop has come to `x` without a failure. -/
def Serving.Exact (cfg : Config) (returnCas udp : Bool) (keys : List Key) (s : Store)
    (x : Serving) : Prop :=
  ∃ front, keys = front ++ x.keys ∧ (∀ k ∈ front, k.length ≤ keyMaxLen) ∧
    x.session.store = (s.fetchAll cfg front).2 ∧ x.iter = (s.fetchAll cfg front).1.length ∧
    Session.Collected cfg returnCas udp x.session (s.fetchAll cfg front).1

theorem Serving.Exact.step (h : x.Exact cfg returnCas udp keys s) {l : ServeLabel}
    (hst : (serving cfg returnCas).step x l = some ((), y)) : y.Exact cfg returnCas udp keys s := by
  obtain ⟨ks, iter, w⟩ := x
  obtain ⟨front, hkeys, hfront, hstore, rfl, hcoll⟩ := h
  cases l with
  | token u =>
    obtain ⟨-, rfl⟩ := Prod.mk.inj (Option.some.inj hst)
    exact ⟨front, hkeys, hfront, hstore, rfl, hcoll.token u⟩
  | key =>
    cases ks with
    | nil => cases hst
    | cons key ks =>
      simp only [serving] at hst
      split_ifs at hst with hlong
      have hkeys' : keys = (front ++ [key]) ++ ks := by simpa using hkeys
      have hfront' : ∀ k ∈ front ++ [key], k.length ≤ keyMaxLen := by
        rw [List.forall_mem_append, List.forall_mem_singleton]
        exact ⟨hfront, Nat.le_of_not_lt hlong⟩
      have hfetch := Store.fetchAll_append cfg front [key] s
      have hst' : w.store = (s.fetchAll cfg front).2 := hstore
      rcases hcoll.fetch key with ⟨st, hget, hc⟩ | ⟨it, st, c, c', hget, hgrow, hresp, hc⟩
      · rw [← hst', Store.fetchAll, hget] at hfetch
        simp only [Store.fetchAll, List.append_nil] at hfetch
        rw [hget] at hst
        obtain ⟨-, rfl⟩ := Prod.mk.inj (Option.some.inj hst)
        exact ⟨front ++ [key], hkeys',
          hfront', by rw [hfetch], by rw [hfetch], by rw [hfetch]; exact hc⟩
      · rw [← hst', Store.fetchAll, hget] at hfetch
        simp only [Store.fetchAll] at hfetch
        rw [hget] at hst
        simp only [hgrow, hresp] at hst
        obtain ⟨-, rfl⟩ := Prod.mk.inj (Option.some.inj hst)
        refine ⟨front ++ [key], hkeys',
          hfront', by rw [hfetch], by rw [hfetch]; simp, by rw [hfetch]; exact hc⟩

/-- With enough memory nothing goes wrong on the way to `x`. -/
theorem Serving.Exact.reaches (h : (serving cfg returnCas).Reaches Machine.Unguarded ⟨keys, 0, w⟩ x)
    (hw : Session.Collected cfg returnCas udp w []) : x.Exact cfg returnCas udp keys w.store :=
  h.invariant (I := fun y => y.Exact cfg returnCas udp keys w.store)
    ⟨[], rfl, nofun, rfl, rfl, hw⟩ fun _ _ _ _ hI hst _ => hI.step hst

end

/-- A request to read is handed to the loop. -/
theorem dispatch_get {cfg : Config} {w : Session} {req : List UInt8} {wire : Wire}
    {returnCas : Bool} {keys : List Key} (e : Session.Circumstances) (line : List UInt8)
    (hreq : words 32 req = getWord returnCas :: keys) (hne : keys ≠ [])
    (hwire : Wire.connAddMsghdr { w.conn.wire with msgCurr := 0, msgUsed := 0, iovUsed := 0 } =
      (.ok, wire)) :
    Filled (tokenMax - 2) keys ((ascTokenize req tokenMax).drop tokenKey) ∧
      w.dispatch cfg e line req = Session.readLoop cfg returnCas e.fuel
        ((ascTokenize req tokenMax).drop tokenKey)
        tokenKey 0 (w.handled cfg e line req wire) := by
  have hcmd := (ascDispatch_get cfg w.set e.stack w.conn.noreply hreq hne).1
  have hfilled := Session.filled_keys hcmd
  rw [hreq, List.tail_cons] at hfilled
  refine ⟨hfilled, ?_⟩
  rw [Session.dispatch_ok hwire, hcmd]
  rfl

/-- **A `get` looks up its keys in the order in which they are written, each once, and is answered
with what was found.**  The reply has one block for each key that was found, in the same order, and
`END` after them; the items whose blocks these are are held until the reply is sent. -/
theorem get_answered (cfg : Config) (w : Session) (e : Session.Circumstances)
    (line req : List UInt8) (returnCas : Bool) (keys : List Key)
    (hreq : words 32 req = getWord returnCas :: keys) (hne : keys ≠ [])
    (hlen : ∀ k ∈ keys, k.length ≤ keyMaxLen) (hallocs : w.conn.wire.allocs = [])
    (hudp : w.conn.wire.udp = w.conn.udp) (hfuel : keys.length ≤ e.fuel) :
    ∃ w', w.dispatch cfg e line req = some w' ∧ w'.store = (w.store.fetchAll cfg keys).2 ∧
      w'.conn.state = .mwrite ∧
      w'.conn.wire.payload =
        ((w.store.fetchAll cfg keys).1.map (Hit.block cfg returnCas)).flatten ++
        (ascii "END" ++ crlf) ∧
      w'.conn.itemsLeft = (w.store.fetchAll cfg keys).1.map Hit.ptr := by
  have hempty : Wire.Built { w.conn.wire with msgCurr := 0, msgUsed := 0, iovUsed := 0 } w.conn.udp
      [] :=
    ⟨hudp, rfl, ⟨fun _ hi => absurd hi (Nat.not_lt_zero _), rfl⟩, hallocs, nofun, rfl⟩
  obtain ⟨wire, hwire, hopen, -⟩ := hempty.connAddMsghdr
  obtain ⟨hfilled, hdispatch⟩ := dispatch_get e line hreq hne hwire
  have hstart : Session.Collected cfg returnCas w.conn.udp (w.handled cfg e line req wire) [] :=
    ⟨rfl, hopen, rfl⟩
  have hmeasure : (⟨keys, 0, w.handled cfg e line req wire⟩ : Serving).measure ≤ e.fuel := by
    have hfails : wire.fails = 0 := by rw [Wire.fails, hopen.allocs, List.count_nil]
    change keys.length + wire.fails ≤ _
    rw [hfails]
    exact hfuel
  obtain ⟨w', hloop⟩ : ∃ w',
      Session.readLoop cfg returnCas e.fuel ((ascTokenize req tokenMax).drop tokenKey) tokenKey 0
      (w.handled cfg e line req wire) = some w' :=
    readLoop_total hfilled hne hmeasure
  obtain ⟨x, hreach, hends⟩ := readLoop_serving hfilled hloop
  obtain ⟨front, hkeys, -, hstore, hiter, hcoll⟩ := Serving.Exact.reaches hreach hstart
  rcases hends with ⟨hnil, rfl⟩ | ⟨key, ks, hcons, hlong, -⟩
  · rw [hnil, List.append_nil] at hkeys
    subst hkeys
    obtain ⟨hst, hstate, hpay, hitems⟩ := hcoll.finishRead
    rw [← hiter] at hst hstate hpay hitems
    exact ⟨_, hdispatch.trans hloop, hst.trans hstore, hstate, hpay, hitems⟩
  · -- no key is too long
    exact absurd (hlen key (by simp [hkeys, hcons])) (Nat.not_le.2 hlong)

/-- `get a b a` is sent to a server that has `a`. -/
theorem get_answered_twice : ∃ w', Session.dispatch .tiny
      { Session.fresh .tiny (.initial fun _ => 0) with store := (Server.tinyStored evictLru).store }
      { fuel := 3 } [] (ascii "get  a b a ") = some w' ∧
    w'.conn.wire.payload = ascii "VALUE a 0 1\r\nx\r\nVALUE a 0 1\r\nx\r\nEND\r\n" := by
  obtain ⟨w', hw', -, -, hpay, -⟩ := get_answered .tiny
    { Session.fresh .tiny (.initial fun _ => 0) with store := (Server.tinyStored evictLru).store }
      { fuel := 3 } []
    (ascii "get  a b a ") false [ascii "a", ascii "b", ascii "a"] (by decide) (by decide)
      (by decide) rfl rfl le_rfl
  exact ⟨w', hw', hpay.trans (by decide +kernel)⟩

/-! ### Failing allocations -/

/-- The arrays of a connection have room for the start of a reply, and it knows what it is. -/
structure Conn.Sized (c : Conn) : Prop where
  /-- The connection is a UDP connection or not. -/
  udp : c.wire.udp = c.udp
  /-- There is room for a message. -/
  msgSize : 0 < c.wire.msgSize
  /-- There is room for the place of a header and an error line. -/
  iovSize : 1 < c.wire.iovSize

section

variable {cfg : Config} {returnCas udp : Bool} {keys : List Key} {s : Store} {wire : Wire}
  {x : Serving} {w : Session}

/-- How far the reply has been put together, if what fails on the way can be made up for. -/
theorem served_of_reaches (h : (serving cfg returnCas).Reaches Machine.Unguarded ⟨keys, 0, w⟩ x)
    (hblank : wire.Blank) (hun : w.Unspoiled cfg returnCas keys)
    (hw : Served cfg returnCas keys s wire ⟨keys, 0, w⟩ []) :
    ∃ hits, Served cfg returnCas keys s wire x hits := by
  refine (h.invariant
    (I := fun y => (serving cfg returnCas).Reaches Machine.Unguarded ⟨keys, 0, w⟩ y ∧
    ∃ hits, Served cfg returnCas keys s wire y hits) ⟨.refl, [], hw⟩ ?_).2
  rintro y l r z ⟨hy, hits, hserved⟩ hst -
  exact ⟨hy.tail hst trivial, hserved.step hblank (hun y hy).value hst⟩

/-- With enough memory only a key that is too long can spoil the reply. -/
theorem Serving.Exact.unspoiled (h : x.Exact cfg returnCas udp keys s)
    (hlong : ∀ front key back, keys = front ++ key :: back → keyMaxLen < key.length →
      (s.fetchAll cfg front).1 = []) : x.Unspoiled cfg returnCas := by
  obtain ⟨front, hkeys, -, -, hiter, hcoll⟩ := h
  have hfails : x.session.conn.wire.fails = 0 := by
    rw [Wire.fails, hcoll.wire.allocs, List.count_nil]
  refine ⟨fun key ks hcons hk => ?_, fun key ks it st c c' _ _ hgrow hresp => ?_,
    fun c' _ hend => ?_⟩
  · rw [hiter, hlong front key ks (by rw [hkeys, hcons]) hk, List.length_nil]
  · obtain ⟨b, n, as, heq, hcount⟩ := x.session.conn.growIlist_eq x.iter
    rw [hgrow] at heq
    obtain ⟨rfl, rfl⟩ := Prod.mk.inj heq
    have hlt := (Conn.fails_ascRespondGet hresp).2 rfl
    have hle : c'.wire.fails < as.count false := hlt
    simp only [Bool.not_true, Bool.toNat_false, Nat.add_zero] at hcount
    omega
  · unfold Conn.connAddIovs at hend
    generalize hadd : x.session.conn.wire.connAddIovs [ascii "END" ++ crlf] = r at hend
    obtain ⟨st, wire'⟩ := r
    obtain ⟨rfl, -⟩ := Prod.mk.inj hend
    have hlt := (Wire.fails_connAddIovs hadd).2 rfl
    omega

/-- Where the first key that is too long is. -/
theorem takeWhile_short {front : List Key} {key : Key} (hfront : ∀ k ∈ front, k.length ≤ keyMaxLen)
    (hkey : keyMaxLen < key.length) (back : List Key) :
    (front ++ key :: back).takeWhile (fun k => decide (k.length ≤ keyMaxLen)) = front := by
  rw [List.takeWhile_append_of_pos (fun k hk => decide_eq_true (hfront k hk)),
    List.takeWhile_cons_of_neg (by simpa using hkey), List.append_nil]

end

/-- **A `get` ends, and is answered properly unless something fails that cannot be made up for.**
The loop takes at most one turn for each key and each allocation that fails.  If what fails can be
made up for, the answer is either the blocks of all keys that were found, and `END`, or one error
line.  With enough memory that is so exactly as long as no key that is too long comes after one that
is found; otherwise the values before it are sent, without `END` and without an error.  Whether the
client wants a reply matters only where there is an error. -/
theorem get_replies (cfg : Config) (w : Session) (req : List UInt8) (returnCas : Bool)
    (keys : List Key) (hs : w.conn.Sized) (hreq : words 32 req = getWord returnCas :: keys)
    (hne : keys ≠ []) :
    (∀ e line, keys.length + w.conn.wire.fails ≤ e.fuel →
      ∃ w', w.dispatch cfg e line req = some w') ∧
    (∀ e line w', w.dispatch cfg e line req = some w' → w.conn.noreply = false ∨
      w'.conn.state = .mwrite →
      (∀ wire, Wire.connAddMsghdr { w.conn.wire with msgCurr := 0, msgUsed := 0, iovUsed := 0 } =
        (.ok, wire) → (w.handled cfg e line req wire).Unspoiled cfg returnCas keys) →
      w'.Replies cfg returnCas keys w.store) ∧
    (w.conn.wire.allocs = [] → ∀ e line w', w.dispatch cfg e line req = some w' →
      (w.conn.noreply = false ∨ (∀ k ∈ keys, k.length ≤ keyMaxLen) →
        (∀ front key back, keys = front ++ key :: back → keyMaxLen < key.length →
          (w.store.fetchAll cfg front).1 = []) → w'.Replies cfg returnCas keys w.store) ∧
      ∀ front key back, w.conn.noreply = false → keys = front ++ key :: back →
        (∀ k ∈ front, k.length ≤ keyMaxLen) →
        keyMaxLen < key.length → (w.store.fetchAll cfg front).1 ≠ [] →
        w'.conn.state = .write ∧
            w'.sends =
            some ((w.store.fetchAll cfg front).1.map (Hit.block cfg returnCas)).flatten) := by
  obtain ⟨wire, hwire, hblank, hudp, hallocs⟩ :=
    Wire.connAddMsghdr_blank w.conn.wire hs.msgSize hs.iovSize
  have hfails : wire.fails = w.conn.wire.fails := by rw [Wire.fails, hallocs, Wire.fails]
  have hserved : ∀ e line,
      Served cfg returnCas keys w.store wire ⟨keys, 0, w.handled cfg e line req wire⟩ [] := by
    intro e line
    exact ⟨(hudp.trans hs.udp).symm, rfl, hblank.open_ample, fun _ => rfl, fun _ _ ht => ht⟩
  -- the client wants a reply as long as the loop goes on
  have hwanted : ∀ e line x, w.conn.noreply = false →
      (serving cfg returnCas).Reaches Machine.Unguarded ⟨keys, 0, w.handled cfg e line req wire⟩ x →
      x.session.conn.noreply = false := by
    intro e line x hn hreach
    refine hreach.invariant (I := fun y => y.session.conn.noreply = false) ?_
      fun _ _ _ _ hI hst _ => noreply_of_serving hst hI
    exact (ascDispatch_get cfg w.set e.stack w.conn.noreply hreq hne).2.trans hn
  have hreplies : ∀ e line w', w.dispatch cfg e line req = some w' →
      w.conn.noreply = false ∨ w'.conn.state = .mwrite →
      (w.handled cfg e line req wire).Unspoiled cfg returnCas keys →
          w'.Replies cfg returnCas keys w.store := by
    intro e line w' hd hn hun
    obtain ⟨hfilled, hdispatch⟩ := dispatch_get e line hreq hne hwire
    obtain ⟨x, hreach, hends⟩ := readLoop_serving hfilled (hdispatch.symm.trans hd)
    obtain ⟨hits, hx⟩ := served_of_reaches hreach hblank hun (hserved e line)
    exact hx.replies hblank (hun x hreach) hends (hn.imp_left fun hn => hwanted e line x hn hreach)
  refine ⟨fun e line hfuel => ?_, fun e line w' hd hn hun => hreplies e line w' hd hn
    (hun wire hwire), fun hample e line w' hd => ?_⟩
  · obtain ⟨hfilled, hdispatch⟩ := dispatch_get e line hreq hne hwire
    rw [hdispatch]
    refine readLoop_total hfilled hne ?_
    change keys.length + wire.fails ≤ _
    rw [hfails]
    exact hfuel
  · -- no allocation fails
    have hwire' : wire.ample = wire := by
      have hnil : wire.allocs = [] := hallocs.trans hample
      rw [Wire.ample, ← hnil]
    have hstart : Session.Collected cfg returnCas wire.udp (w.handled cfg e line req wire) [] :=
      ⟨(hudp.trans hs.udp).symm, hwire' ▸ hblank.open_ample, rfl⟩
    refine ⟨fun hn hlong => hreplies e line w' hd (hn.imp_right fun hshort => ?_)
      fun x hreach => ?_, fun front key back hn hkeys hfront hkey hfound => ?_⟩
    · -- no key ends the loop
      obtain ⟨hfilled, hdispatch⟩ := dispatch_get e line hreq hne hwire
      obtain ⟨x, hreach, hends⟩ := readLoop_serving hfilled (hdispatch.symm.trans hd)
      obtain ⟨front, hkeys, -, -, hiter, hcoll⟩ := Serving.Exact.reaches hreach hstart
      rcases hends with ⟨-, rfl⟩ | ⟨key, ks, hcons, hkey, -⟩
      · rw [hiter]
        exact hcoll.finishRead.2.1
      · exact absurd (hshort key (by simp [hkeys, hcons])) (Nat.not_le.2 hkey)
    · exact (Serving.Exact.reaches hreach hstart).unspoiled hlong
    · obtain ⟨hfilled, hdispatch⟩ := dispatch_get e line hreq hne hwire
      obtain ⟨x, hreach, hends⟩ := readLoop_serving hfilled (hdispatch.symm.trans hd)
      obtain ⟨front', hkeys', hfront', -, -, hcoll⟩ := Serving.Exact.reaches hreach hstart
      rcases hends with ⟨hnil, -⟩ | ⟨key', ks, hcons, hkey', rfl⟩
      · rw [hnil, List.append_nil] at hkeys'
        exact absurd (hfront' key (by rw [← hkeys', hkeys]; simp)) (Nat.not_le.2 hkey)
      · -- the loop has come to the first key that is too long
        obtain rfl : front' = front := by
          rw [← takeWhile_short hfront' hkey' ks, ← takeWhile_short hfront hkey back, ← hcons,
            ← hkeys', hkeys]
        have hopen : x.session.conn.wire.ample.Open wire.udp
            ((w.store.fetchAll cfg front').1.map (Hit.block cfg returnCas)).flatten := by
          have hnil : x.session.conn.wire.ample = x.session.conn.wire := by
            rw [Wire.ample, ← hcoll.wire.allocs]
          rw [hnil]
          exact hcoll.wire
        refine ⟨?_, sends_reply wire ?_ ?_ ?_⟩
        · change (x.session.conn.ascRsp .clientError).state = .write
          rw [Conn.ascRsp_of_reply (hwanted e line x hn hreach)]
        · exact (Conn.ascRsp_udp _ _).trans hcoll.udp_eq
        · change (x.session.conn.ascRsp .clientError).wire.ample.Open _ _
          rw [Conn.ascRsp_wire]
          exact hopen
        · obtain ⟨hit, hits, hcons'⟩ := List.exists_cons_of_ne_nil hfound
          rw [hcons']
          simp [Hit.block, crlf]

/-- `get <251 bytes>` is answered with an error. -/
theorem get_replies_long :
    ∃ w', (Session.fresh .tiny (.initial fun _ => 0)).dispatch .tiny { fuel := 1 } []
      (ascii "get " ++ List.replicate 251 98) = some w' ∧
    w'.Replies .tiny false [List.replicate 251 98]
        (Session.fresh .tiny (.initial fun _ => 0)).store := by
  have hreq : words 32 (ascii "get " ++ List.replicate 251 98) = getWord false ::
      [List.replicate 251 98] := by
    decide +kernel
  obtain ⟨hends, -, hample⟩ := get_replies .tiny (Session.fresh .tiny (.initial fun _ => 0))
    (ascii "get " ++ List.replicate 251 98) false [List.replicate 251 98]
      ⟨rfl, by decide, by decide⟩ hreq nofun
  obtain ⟨w', hw'⟩ := hends { fuel := 1 } [] le_rfl
  refine ⟨w', hw', (hample rfl _ _ _ hw').1 (.inl rfl) fun front key back hkeys _ => ?_⟩
  cases front with
  | nil => rfl
  | cons k front =>
    have hlen := congrArg List.length hkeys
    simp only [List.length_append, List.length_cons, List.length_nil] at hlen
    omega

/-- `get a <251 bytes>` is sent to a server that has `a`: the value is sent, and neither `END` nor
an error. -/
theorem get_spoiled : ∃ w', Session.dispatch .tiny
      { Session.fresh .tiny (.initial fun _ => 0) with store := (Server.tinyStored evictLru).store }
      { fuel := 2 } [] (ascii "get a " ++ List.replicate 251 98) = some w' ∧
    w'.sends = some (ascii "VALUE a 0 1\r\nx\r\n") ∧
    ¬ w'.Replies .tiny false [ascii "a", List.replicate 251 98]
        (Server.tinyStored evictLru).store := by
  have hsends : (Session.dispatch .tiny
      { Session.fresh .tiny (.initial fun _ => 0) with store := (Server.tinyStored evictLru).store }
      { fuel := 2 } [] (ascii "get a " ++ List.replicate 251 98)).map Session.sends =
        some (some (ascii "VALUE a 0 1\r\nx\r\n")) := by
    decide +kernel
  obtain ⟨w', hw', hs⟩ := Option.map_eq_some_iff.1 hsends
  refine ⟨w', hw', hs, ?_⟩
  rintro ⟨-, ⟨hits, t, -, hend⟩ | ⟨r, hr, herror⟩⟩
  · -- what is sent does not end in `END`
    have hsuffix : (ascii "END" ++ crlf) <:+ ascii "VALUE a 0 1\r\nx\r\n" :=
      ⟨_, (Option.some.inj (hs.symm.trans hend)).symm⟩
    exact absurd hsuffix (by decide)
  · have heq := Option.some.inj (hs.symm.trans herror)
    rcases hr with rfl | rfl
    · exact absurd heq (by decide)
    · exact absurd heq (by decide)

end Twemcache
