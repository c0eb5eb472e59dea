import Twemcache.Conn.Dispatch
import Twemcache.Server.Ownership
import Twemcache.Store.Rewrite
import Twemcache.Wire.Transmit

/-!
# Serving a get

`asc_process_read` takes the keys of a `get` in batches, as many as fit into the token array, and
tokenizes the rest of the line again after each batch.  If no allocation fails, it looks up all keys
of the line, in their order, and the reply has a block for each key that was found, and `END` at its
end.

## Main definitions

* `Hit`, `Store.fetchAll` : looking up one key after another.
* `Hit.block` : the part of the reply for a key that was found.
* `Session.Collected` : a reply that is put together.

## Main results

* `get_answered` : a `get` looks up its keys in order, and is answered with what was found.
-/

namespace Twemcache

/-- A key that was found. -/
structure Hit where
  /-- The key, as it is written in the request. -/
  key : Key
  /-- Its item. -/
  ptr : ItemPtr
  /-- What the item holds when it is found. -/
  item : Item

/-- The part of the reply for a key that was found. -/
def Hit.block (cfg : Config) (returnCas : Bool) (h : Hit) : List UInt8 :=
  ascii "VALUE " ++ h.key ++
    (ascii " " ++ decimal h.item.dataflags ++ ascii " " ++ decimal h.item.nbyte ++
    if returnCas then ascii " " ++ decimal h.item.getCas else []) ++ crlf ++
      h.item.value cfg ++ crlf

namespace Store

variable (cfg : Config)

/-- Each of the keys is looked up, one after another, and touched if it is found. -/
def fetchAll : List Key → Store → List Hit × Store
  | [], s => ([], s)
  | key :: keys, s =>
    match s.itemGet cfg key with
    | (none, s) => fetchAll keys s
    | (some it, s) =>
      let r := fetchAll keys (s.itemTouch cfg it)
      (⟨key, it, s.items it⟩ :: r.1, r.2)

variable {cfg} {key : Key} {s s' : Store} {it : ItemPtr}

theorem fetchAll_append (cfg : Config) (keys keys' : List Key) (s : Store) :
    fetchAll cfg (keys ++ keys') s =
    ((fetchAll cfg keys s).1 ++ (fetchAll cfg keys' (fetchAll cfg keys s).2).1,
      (fetchAll cfg keys' (fetchAll cfg keys s).2).2) := by
  induction keys generalizing s with
  | nil => rfl
  | cons key keys ih =>
    rw [List.cons_append, fetchAll, fetchAll]
    generalize s.itemGet cfg key = r
    obtain ⟨_ | it, t⟩ := r
    · exact ih t
    · simp only [ih, List.cons_append]

/-- An item that is found has the key that was looked up. -/
theorem itemGet_key (h : s.itemGet cfg key = (some it, s')) : (s'.items it).key = key := by
  have hview : s.view cfg key = some ((s.items it).entry cfg) := by
    rw [view, h]
    rfl
  obtain ⟨p, hfind, -, hget, -⟩ := find_of_view hview
  rw [hget] at h
  obtain ⟨hp, rfl⟩ := Prod.mk.inj h
  obtain rfl := Option.some.inj hp
  exact (congrFun (keyOf_itemAcquireRefcount p) p).trans (keyOf_of_find hfind)

end Store

namespace Conn

variable {cfg : Config} {c : Conn} {iter : ℕ} {udp : Bool} {bytes : List UInt8}

/-! ### Connections with enough memory -/

/-- No allocation of the connection fails. -/
def Ample (c : Conn) : Prop := c.wire.allocs = []

theorem Ample.alloc (h : c.Ample) : c.alloc = (true, c) := by
  unfold Ample at h
  unfold Conn.alloc Wire.realloc
  rw [h, List.headD_nil, List.tail_nil, ← h]

theorem Ample.growIlist (h : c.Ample) (iter : ℕ) :
    ∃ n, c.growIlist iter = (true, { c with isize := n }) := by
  unfold Conn.growIlist
  split_ifs
  · exact ⟨c.isize * 2, by rw [h.alloc]⟩
  · exact ⟨c.isize, rfl⟩

theorem Ample.growSlist (h : c.Ample) (iter : ℕ) :
    ∃ n, c.growSlist iter = (true, { c with ssize := n }) := by
  unfold Conn.growSlist
  split_ifs
  · exact ⟨c.ssize * 2, by rw [h.alloc]⟩
  · exact ⟨c.ssize, rfl⟩

/-- A suffix buffer is found. -/
theorem Ample.ascCreateSuffix (h : c.Ample) (iter : ℕ) :
    ∃ c', c.ascCreateSuffix iter = (some c.nsuffix, c') ∧ c'.wire = c.wire ∧
        c'.ilist = c.ilist := by
  obtain ⟨n, hgrow⟩ := h.growSlist iter
  have halloc : { c with ssize := n }.alloc = (true, { c with ssize := n }) := Ample.alloc h
  unfold Conn.ascCreateSuffix
  rw [hgrow]
  simp only [halloc]
  exact ⟨_, rfl, rfl, rfl⟩

/-- Buffers are added to the messages. -/
theorem connAddIovs_open (h : c.wire.Open udp bytes) (bufs : List (List UInt8)) :
    ∃ wire, c.connAddIovs bufs = (.ok, { c with wire := wire }) ∧
        wire.Open udp (bytes ++ bufs.flatten) := by
  obtain ⟨wire, hadd, hopen, -⟩ := h.connAddIovs bufs
  unfold Conn.connAddIovs
  rw [hadd]
  exact ⟨wire, rfl, hopen⟩

/-- `asc_respond_get` adds the block of the item. -/
theorem ascRespondGet_open (h : c.wire.Open udp bytes) (iter : ℕ) (hit : Hit) (returnCas : Bool)
    (hkey : hit.item.key = hit.key) :
    ∃ c', c.ascRespondGet cfg iter hit.item returnCas = (.ok, c') ∧
      c'.wire.Open udp (bytes ++ hit.block cfg returnCas) ∧ c'.ilist = c.ilist := by
  obtain ⟨wire, hfirst, hopen⟩ := connAddIovs_open h [ascii "VALUE ", hit.item.key]
  obtain ⟨d, hsuffix, hwire, hlist⟩ :=
    Ample.ascCreateSuffix (c := { c with wire := wire }) hopen.allocs iter
  have hopen' : d.wire.Open udp (bytes ++ [ascii "VALUE ", hit.item.key].flatten) := by
    rw [hwire]
    exact hopen
  obtain ⟨wire', hlast, hopen''⟩ :=
    connAddIovs_open hopen' [suffixText hit.item returnCas, crlf, hit.item.value cfg, crlf]
  refine ⟨{ d with wire := wire' }, ?_, ?_, hlist⟩
  · unfold ascRespondGet
    simp only [hfirst, hsuffix, hlast]
  · simpa [Hit.block, suffixText, hkey, List.append_assoc] using hopen''

/-! ### The headers of datagrams -/

/-- Only the first vectors of the messages are overwritten. -/
theorem foldl_headers (msg : ℕ → Msghdr) (hdr : ℕ → List UInt8) {k : ℕ} (js : List ℕ)
    (iov : ℕ → List UInt8) (h : ∀ j ∈ js, (msg j).iov ≠ k) :
    js.foldl (fun iov j => Function.update iov (msg j).iov (hdr j)) iov k = iov k := by
  induction js generalizing iov with
  | nil => rfl
  | cons j js ih =>
    rw [List.foldl_cons, ih _ fun i hi => h i (List.mem_cons_of_mem _ hi),
      Function.update_of_ne (h j List.mem_cons_self).symm]

/-- What the datagrams carry does not change with their headers. -/
theorem payload_headers {c : Wire} (hudp : c.udp = true) (hready : c.Ready) (hcurr : c.msgCurr = 0)
    (hpos : ∀ i < c.msgUsed, 0 < (c.msg i).iovlen) (hdr : ℕ → List UInt8) :
    ({ c with
      iov := (List.range c.msgUsed).foldl (fun iov i => Function.update iov (c.msg i).iov (hdr i))
        c.iov } :
      Wire).payload = c.payload := by
  unfold Wire.payload Wire.messages Wire.entries
  simp only [List.map_map, hudp, if_true]
  refine congrArg List.flatten (List.map_congr_left fun i hi => ?_)
  rw [List.mem_range] at hi
  -- the first vector of a message is in front of its others, and the messages are apart
  obtain ⟨n, hn⟩ : ∃ n, (c.msg i).iovlen = n + 1 :=
    ⟨(c.msg i).iovlen - 1, by have := hpos i hi; omega⟩
  simp only [Function.comp]
  rw [hn, Wire.vectors_cons, Wire.vectors_cons, List.tail_cons, List.tail_cons]
  refine congrArg List.flatten
    (List.map_congr_left fun k hk => foldl_headers _ _ _ _ fun j hj => ?_)
  rw [List.mem_range] at hj hk
  rcases Nat.lt_trichotomy j i with hji | rfl | hij
  · have := hready.apart j i (hcurr.trans_le (Nat.zero_le _)) hji hi
    omega
  · omega
  · have := hready.apart i j (hcurr.trans_le (Nat.zero_le _)) hij hj
    omega

/-- Every datagram has the place of its header. -/
theorem header_pos {c : Wire} (h : c.Open true bytes) {i : ℕ} (hi : i < c.msgUsed) :
    0 < (c.msg i).iovlen := by
  obtain ⟨hd, ms, hentries, -⟩ :=
    (h.message (c.entries i) (List.mem_map.2 ⟨i, List.mem_range.2 hi, rfl⟩)).header rfl
  have hlen := congrArg List.length hentries
  rw [Wire.entries, Wire.length_vectors, List.length_cons] at hlen
  omega

/-- `conn_build_udp_headers` leaves alone what the datagrams carry. -/
theorem connBuildUdpHeaders_open (h : c.wire.Open true bytes) :
    ∃ n wire, c.connBuildUdpHeaders = (.ok, { c with udpHsize := n, wire := wire }) ∧
        wire.payload = bytes := by
  have halloc : (if c.wire.msgUsed > c.udpHsize then c.alloc else (true, c)) = (true, c) := by
    rw [Ample.alloc h.allocs, ite_self]
  unfold connBuildUdpHeaders
  rw [halloc]
  exact ⟨_, _, rfl,
    (payload_headers h.udp_eq h.ready h.curr (fun _ hi => header_pos h hi) _).trans h.payload⟩

end Conn

namespace Session

open Conn

variable {cfg : Config} {w w' : Session} {e : Circumstances} {line req : List UInt8}
  {returnCas udp : Bool} {hits : List Hit} {keys : List Key}

/-- The reply to a `get` after the given keys were found. -/
structure Collected (cfg : Config) (returnCas udp : Bool) (w : Session) (hits : List Hit) :
    Prop where
  /-- It is a UDP connection or not. -/
  udp_eq : w.conn.udp = udp
  /-- The reply has a block for each of them. -/
  wire : w.conn.wire.Open udp (hits.map (Hit.block cfg returnCas)).flatten
  /-- The item list has their items. -/
  items : (List.range hits.length).map w.conn.ilist = hits.map Hit.ptr

/-- A token is looked at. -/
theorem Collected.token (h : Collected cfg returnCas udp w hits) (u : Use) :
    Collected cfg returnCas udp (w.setConn (·.record [.token u])) hits :=
  ⟨h.udp_eq, h.wire, h.items⟩

/-- A key is looked up. -/
theorem Collected.fetch (h : Collected cfg returnCas udp w hits) (key : Key) :
    (∃ st, w.store.itemGet cfg key = (none, st) ∧
      Collected cfg returnCas udp { w with store := st } hits) ∨
    ∃ it st c c', w.store.itemGet cfg key = (some it, st) ∧
      w.conn.growIlist hits.length = (true, c) ∧
      c.ascRespondGet cfg hits.length (st.items it) returnCas = (.ok, c') ∧
      Collected cfg returnCas udp { w with
        conn := { c' with ilist := Function.update c'.ilist hits.length it }
        store := st.itemTouch cfg it } (hits ++ [⟨key, it, st.items it⟩]) := by
  generalize hget : w.store.itemGet cfg key = r
  obtain ⟨_ | it, st⟩ := r
  · exact .inl ⟨st, rfl, h.udp_eq, h.wire, h.items⟩
  · right
    have hample : w.conn.Ample := h.wire.allocs
    obtain ⟨n, hgrow⟩ := hample.growIlist hits.length
    have hopen : { w.conn with isize := n }.wire.Open udp
        (hits.map (Hit.block cfg returnCas)).flatten := h.wire
    obtain ⟨c', hresp, hopen', hlist⟩ := ascRespondGet_open hopen hits.length
      ⟨key, it, st.items it⟩ returnCas (Store.itemGet_key hget)
    refine ⟨it, st, _, c', rfl, hgrow, hresp, ?_, ?_, ?_⟩
    · exact (ascRespondGet_ok hresp).udp.trans h.udp_eq
    · simpa using hopen'
    · change (List.range (hits ++ [_]).length).map (Function.update c'.ilist hits.length it) = _
      rw [List.length_append, List.length_singleton, List.range_succ, List.map_append,
        List.map_append, List.map_singleton, List.map_singleton, Function.update_self, ← h.items]
      refine congrArg (· ++ [it]) (List.map_congr_left fun j hj => ?_)
      rw [Function.update_of_ne (List.mem_range.1 hj).ne, hlist]

/-- The reply is ended. -/
theorem Collected.finishRead (h : Collected cfg returnCas udp w hits) :
    (w.finishRead hits.length).store = w.store ∧ (w.finishRead hits.length).conn.state = .mwrite ∧
      (w.finishRead hits.length).conn.wire.payload =
        (hits.map (Hit.block cfg returnCas)).flatten ++ (ascii "END" ++ crlf) ∧
      (w.finishRead hits.length).conn.itemsLeft = hits.map Hit.ptr := by
  let c : Conn := { w.conn with icurr := 0, ileft := hits.length, scurr := 0, sleft := hits.length }
  have hc : c.wire.Open udp (hits.map (Hit.block cfg returnCas)).flatten := h.wire
  obtain ⟨wire, hend, hopen⟩ := connAddIovs_open hc [ascii "END" ++ crlf]
  have hitems : c.itemsLeft = hits.map Hit.ptr := by
    rw [← h.items]
    exact List.map_congr_left fun i _ => congrArg w.conn.ilist (Nat.zero_add i)
  obtain ⟨n, wire', hheaders, hpay⟩ : ∃ n wire',
      (if { c with wire := wire }.udp then { c with wire := wire }.connBuildUdpHeaders
        else (.ok, { c with wire := wire })) = (.ok, { c with udpHsize := n, wire := wire' }) ∧
      wire'.payload = (hits.map (Hit.block cfg returnCas)).flatten ++ (ascii "END" ++ crlf) := by
    by_cases hudp : c.udp = true
    · obtain rfl : udp = true := h.udp_eq.symm.trans hudp
      obtain ⟨n, wire', hbuild, hpay⟩ :=
        connBuildUdpHeaders_open (c := { c with wire := wire }) hopen
      exact ⟨n, wire', (if_pos hudp).trans hbuild, by simpa using hpay⟩
    · exact ⟨c.udpHsize, wire, if_neg hudp, by simpa using hopen.payload⟩
  have hfinish : w.finishRead hits.length = { w with conn :=
      { ({ c with udpHsize := n, wire := wire' } : Conn).record [.queued] with
        state := .mwrite, wire := { wire' with msgCurr := 0 } } } := by
    unfold Session.finishRead setConn
    simp only
    rw [hend]
    simp only
    rw [hheaders]
  rw [hfinish]
  exact ⟨rfl, rfl, hpay, hitems⟩

end Session

/-- The words of the commands that read. -/
def getWord (returnCas : Bool) : List UInt8 := if returnCas then ascii "gets" else ascii "get"

/-- The handler of `get` only counts the tokens. -/
theorem gives_read {cfg : Config} {set : Settings} {f : Frame} {type : ReqType} {a : Asc}
    (ht : type ∈ [ReqType.get, .gets]) (hb : f.Bounded type a.noreply) :
    Gives (ascHandler cfg set f type) a a.noreply (some (.read (type = .gets))) := by
  have hread : Gives (ascProcessRead type f) a a.noreply (some (.read (type = .gets))) := by
    refine .part (v := some ()) ?_ nofun fun _ _ => .pure rfl _
    rw [on_ascValidateNtoken]
    exact if_pos hb
  simp only [List.mem_cons, List.not_mem_nil, or_false] at ht
  rcases ht with rfl | rfl <;> exact hread

/-- A line that starts with `get` or `gets`, and has another word, is a request to read. -/
theorem ascDispatch_get (cfg : Config) (set : Settings) (stack : ℕ → Token) (noreply : Bool)
    {req : List UInt8} {returnCas : Bool} {keys : List Key}
    (hws : words 32 req = getWord returnCas :: keys) (hne : keys ≠ []) :
    (ascDispatch cfg set stack req noreply).1 = .read returnCas ∧
      (ascDispatch cfg set stack req noreply).2.noreply = noreply := by
  have hlen := ntoken_ofReq stack hws
  have hkeys := List.length_pos_iff.2 hne
  rw [List.length_cons] at hlen
  obtain ⟨rest, helem, hsep, hrest⟩ := elem_ofReq stack hws (i := 0) (by omega) rfl
  have hword : getWord returnCas ≠ [] ∧ 32 ∉ getWord returnCas := by
    cases returnCas <;> decide
  have htype := on_ascType stack req (by omega) ⟨noreply, []⟩
  rw [tokenCommand, helem] at htype
  cases rest with
  | nil =>
    rw [List.append_nil, words_self hword.1 hword.2] at hrest
    exact absurd (List.cons.inj hrest).2.symm hne
  | cons b rest =>
    obtain rfl : b = 32 := hsep b rfl
    have hbound : ∀ type ∈ [ReqType.get, .gets], (Frame.ofReq stack req).Bounded type noreply := by
      have h3 : 3 ≤ (Frame.ofReq stack req).ntoken := by omega
      have h8 : (Frame.ofReq stack req).ntoken ≤ intMax := by
        rw [intMax]
        omega
      simp only [List.mem_cons, List.not_mem_nil, or_false]
      rintro type (rfl | rfl) <;> exact ⟨h3, h8⟩
    cases returnCas with
    | false =>
      have hget := hbound .get (by simp)
      exact ascDispatch_of_gives htype
        (gives_read (by simp) hget : Gives (ascHandler cfg set _ .get) _ _ _)
    | true =>
      have hgets := hbound .gets (by simp)
      exact ascDispatch_of_gives htype
        (gives_read (by simp) hgets : Gives (ascHandler cfg set _ .gets) _ _ _)

end Twemcache
