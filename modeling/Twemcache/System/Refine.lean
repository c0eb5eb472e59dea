import Twemcache.Server.Ownership
import Twemcache.System.Basic

/-!
# The system is a server

Whatever connections do at once, the store sees an interleaving of calls: every run of the system is
matched by a run of `server`, in which each connection has the references that its state says, and
what all runs of `server` keep holds for the system.

## Main definitions

* `Client.Owns` : the state of a connection, in a state of the server.
* `Client.refs`, `System.refs` : the references that the states of connections say.

## Main results

* `System.serialized` : the store of the system is one that a run of locked calls leads to.
* `System.safe` : what connections hold is safe, whatever others do.
* `System.references_exact` : in orderly runs the store counts the references that connections have,
  and no others.
-/

namespace Twemcache

/-- The references that the state of a connection says. -/
def Client.refs (o : Client) : List ItemPtr := o.conn.item.toList ++ o.conn.itemsLeft

namespace System

open Session

variable {cfg : Config} {P : Conn → List ItemPtr → Prop} {i j : ℕ} {o o' : Client} {g g' : Commons}
  {s s' : Server} {now evictOpt : ℕ} {slabs : ℕ → Slab} {items : ItemPtr → Item} {set : Settings}
  {x y : Family ℕ Client Commons}

/-- What connection `i` has in a state of the server: the references that its state says, and those
that it has lost, which `P` may say more about; and what it knows about the item that it receives.
-/
def Owns (cfg : Config) (P : Conn → List ItemPtr → Prop) (i : ℕ) : Option Client → Server → Prop
  | none, s => s.Owns i none []
  | some o, s =>
    ∃ lost, s.Owns i o.conn.item (o.conn.itemsLeft ++ lost) ∧ o.conn.Receiving cfg s.store ∧
      o.conn.Asks cfg s.store ∧ P o.conn lost

/-- The state of the server that belongs to the shared state. -/
def Mirrors (cfg : Config) (g : Commons) (s : Server) :
    Prop := s.store = g.store ∧ s.Inv cfg ∧ s.Sound

theorem refs_of_owns {item : Option ItemPtr} {list : List ItemPtr} (h : s.Owns i item list)
    {p : ItemPtr} (hp : item = some p) : ⟨i, .item false, p⟩ ∈ s.refs := by
  subst hp
  exact Server.unstored_eq_some h.unstored

/-- A connection has the reference to the item that it receives. -/
theorem Owns.item_mem (h : Owns cfg P i (some o) s) {p : ItemPtr} (hp : o.conn.item = some p) :
    ⟨i, .item false, p⟩ ∈ s.refs := by
  obtain ⟨lost, howns, -⟩ := h
  exact refs_of_owns howns hp

/-- Calls of others leave alone what a connection has. -/
theorem Owns.of_calls {c : Option Client} (h : s.Inv cfg)
    (hr : (server cfg).Reaches (fun s l s' => l.conn ≠ some j ∧ Server.NoWrap s l s') s s')
    (hown : Owns cfg P j c s) : Owns cfg P j c s' := by
  refine (h.run (I := Owns cfg P j c) hown hr (fun _ _ _ hC => hC.2) fun s l a s' hi hI hst hC _ =>
    ?_).2
  cases c with
  | none => exact Server.Owns.of_step hI hst hC.1
  | some o =>
    obtain ⟨lost, howns, hrec, hasks, hP⟩ := hI
    have hitems : ∀ p, o.conn.item = some p → s'.store.items p = s.store.items p := fun p hp =>
      hi.items_of_step hst hC.2 (refs_of_owns howns hp) rfl hC.1
    exact ⟨lost, howns.of_step hst hC.1, hrec.of_items hitems, hasks.of_items hitems, hP⟩

section

variable {Ca : Client × Commons → Act → Client × Commons → Prop}
  {Ce : Commons → Beat → Commons → Prop}

/-- A step of a connection is a run of calls that it makes. -/
theorem act_calls (hcfg : ∀ key : Key, key.length ≤ keyMaxLen → cfg.DeltaFits key)
    (hturn : ∀ w w' io lost lost', P w.conn lost → w.turn cfg io = some w' →
      (w.Tidy cfg → lost' = []) → Relisted w w' →
      Ca (w.client, w.commons) (.turn io) (w'.client, w'.commons) → P w'.conn (lost' ++ lost))
    {a : Act} {u : Unit} (hag : Mirrors cfg g s) (hown : Owns cfg P i (some o) s)
    (hst : (connections cfg).step (o, g) a = some (u, (o', g'))) (hC : Ca (o, g) a (o', g'))
    (hov : g'.store.overflow = false) :
    ∃ s', (server cfg).Reaches (fun s l s' => l.By i ∧ Server.NoWrap s l s') s s' ∧
      Mirrors cfg g' s' ∧ Owns cfg P i (some o') s' := by
  obtain ⟨hstore, hinv, hsound⟩ := hag
  obtain ⟨lost, howns, hrec, hasks, hP⟩ := hown
  cases a with
  | event n =>
    obtain ⟨-, heq⟩ := Option.ite_none_left_eq_some.1 (connections_step hst)
    have hw := (Prod.mk.inj (Option.some.inj heq)).2
    have hconn : o.conn = o'.conn := congrArg Session.conn hw
    have hst' : g.store = g'.store := congrArg Session.store hw
    exact ⟨s, .refl, ⟨hstore.trans hst', hinv, hsound⟩,
      ⟨lost, hconn ▸ howns, hconn ▸ hrec, hconn ▸ hasks, hconn ▸ hP⟩⟩
  | turn io =>
    have ht := connections_turn hst
    have hrec' : o.conn.Receiving cfg g.store := hstore ▸ hrec
    have hasks₀ : o.conn.Asks cfg g.store := hstore ▸ hasks
    obtain ⟨lost', hadv, htidy, hlist, hasks'⟩ := turn_advances hcfg hrec' ht
    obtain ⟨s', hr, hst', howns'⟩ := hadv.calls i s lost hstore howns
    obtain ⟨hr', hsound'⟩ := Server.noWrap_of_reaches hr hsound (hst' ▸ hov)
    -- no count has wrapped on the way, since none has in the end
    have hinv' :=
      (hinv.run (I := fun _ => True) trivial hr' (fun _ _ _ hC => hC.2) fun _ _ _ _ _ _ _ _ _ =>
        trivial).1
    refine ⟨s', hr', ⟨hst', hinv', hsound'⟩,
      ⟨lost' ++ lost, ?_, hst' ▸ hadv.knows, hst' ▸ hasks' hasks₀, ?_⟩⟩
    · rw [← List.append_assoc]
      exact howns'
    · exact hturn _ _ io lost lost' hP ht htidy hlist hC

/-- What happens besides is a call of nobody. -/
theorem beat_calls {e : Beat} {u : Unit} (hag : Mirrors cfg g s)
    (hst : (beats cfg).step g e = some (u, g')) (hov : g'.store.overflow = false) :
    ∃ s', (server cfg).Reaches (fun s l s' => l.conn = none ∧ Server.NoWrap s l s') s s' ∧
        Mirrors cfg g' s' := by
  obtain ⟨hstore, hinv, hsound⟩ := hag
  have hstep : s.step cfg e.label = some (.done, ⟨g'.store, s.refs⟩) := by
    have hcall := beats_step hst s.refs
    rwa [← hstore] at hcall
  refine ⟨_, Machine.Reaches.tail .refl hstep ⟨?_, hov⟩, rfl, (hinv.step hstep hov).2,
    (hsound.step hstep).2⟩
  cases e <;> rfl

/-- **The system matches the server.** -/
theorem system_matches (hcfg : ∀ key : Key, key.length ≤ keyMaxLen → cfg.DeltaFits key)
    (hP : ∀ b : Arrival, P b.client.conn [])
    (hturn : ∀ w w' io lost lost', P w.conn lost → w.turn cfg io = some w' →
      (w.Tidy cfg → lost' = []) → Relisted w w' →
      Ca (w.client, w.commons) (.turn io) (w'.client, w'.commons) → P w'.conn (lost' ++ lost))
    (hCa : ∀ x a y, Ca x a y → ActNoWrap x a y) (hCe : ∀ x e y, Ce x e y → BeatNoWrap x e y) :
    (system cfg).Matches (Family.Allows Ca Ce) (server cfg) Server.NoWrap
      fun x s => Mirrors cfg x.shared s ∧ ∀ i, Owns cfg P i (x.member i) s := by
  refine Machine.Matches.family (fun i b s hs => ?_) (fun i a o g r o' g' s hag hown hst hC => ?_)
    fun e g r g' s hag hst hC => ?_
  · exact ⟨[], hs, Conn.receiving_none rfl, Conn.asks_none rfl, hP b⟩
  · obtain ⟨s', hr, hag', hown'⟩ := act_calls hcfg hturn hag hown hst hC (hCa _ _ _ hC)
    refine ⟨s', hr.mono fun _ _ _ hC => hC.2, hag', hown', fun j hj c hc => ?_⟩
    exact hc.of_calls hag.2.1 (hr.mono fun _ _ _ hC => ⟨fun hconn => hj (hC.1 j hconn), hC.2⟩)
  · obtain ⟨s', hr, hag'⟩ := beat_calls hag hst (hCe _ _ _ hC)
    refine ⟨s', hr.mono fun _ _ _ hC => hC.2, hag', fun j c hc => ?_⟩
    refine hc.of_calls hag.2.1 (hr.mono fun _ _ _ hC => ⟨?_, hC.2⟩)
    rw [hC.1]
    exact fun hj => by cases hj

/-- Every run of the system leads where a run of the server leads. -/
theorem reaches_matched (hcfg : ∀ key : Key, key.length ≤ keyMaxLen → cfg.DeltaFits key)
    (hP : ∀ b : Arrival, P b.client.conn [])
    (hturn : ∀ w w' io lost lost', P w.conn lost → w.turn cfg io = some w' →
      (w.Tidy cfg → lost' = []) → Relisted w w' →
      Ca (w.client, w.commons) (.turn io) (w'.client, w'.commons) → P w'.conn (lost' ++ lost))
    (hCa : ∀ x a y, Ca x a y → ActNoWrap x a y) (hCe : ∀ x e y, Ce x e y → BeatNoWrap x e y)
    (hnow : now < 2 ^ 32)
    (h : (system cfg).Reaches (Family.Allows Ca Ce) (init cfg now evictOpt slabs items set) x) :
    ∃ s, (server cfg).Reaches Server.NoWrap (Server.init cfg now evictOpt slabs items) s ∧
      Mirrors cfg x.shared s ∧ ∀ i, Owns cfg P i (x.member i) s :=
  (system_matches hcfg hP hturn hCa hCe).reaches h
    ⟨⟨rfl, Server.inv_init, Server.sound_init hnow⟩, fun i => Server.owns_none i rfl⟩

end

/-! ### What holds in every run -/

/-- Every run leads where a run of the server leads, and each connection has the references that its
state says. -/
theorem owns_of_reaches (hcfg : ∀ key : Key, key.length ≤ keyMaxLen → cfg.DeltaFits key)
    (hnow : now < 2 ^ 32)
    (h : (system cfg).Reaches NoWrap (init cfg now evictOpt slabs items set) x) :
    ∃ s, (server cfg).Reaches Server.NoWrap (Server.init cfg now evictOpt slabs items) s ∧
      Mirrors cfg x.shared s ∧ ∀ i, Owns cfg (fun _ _ => True) i (x.member i) s :=
  reaches_matched hcfg (fun _ => trivial) (fun _ _ _ _ _ _ _ _ _ _ => trivial) (fun _ _ _ h => h)
    (fun _ _ _ h => h)
    hnow h

/-- A connection that is not there has nothing. -/
theorem Owns.absent (h : Owns cfg P i none s) {r : Ref} (hr : r ∈ s.refs) : r.conn ≠ i := by
  rintro rfl
  obtain ⟨c, slot, p⟩ := r
  cases slot with
  | item stored =>
    have hmem : (⟨c, .item stored, p⟩ : Ref) ∈ s.refs.filter fun r => r.conn = c ∧
        r.slot ≠ .ilist :=
      List.mem_filter.2 ⟨hr, by simp⟩
    rw [h.item] at hmem
    cases hmem
  | ilist =>
    have hpos := List.count_pos_iff.2 hr
    rw [h.list p] at hpos
    cases hpos

/-- **Runs are serialized**: whatever connections do at once, the store is one that some run of
locked calls leads to, and in it each connection has the references that its state says, and
connections that are not there have none. -/
theorem serialized (hcfg : ∀ key : Key, key.length ≤ keyMaxLen → cfg.DeltaFits key)
    (hnow : now < 2 ^ 32)
    (h : (system cfg).Reaches NoWrap (init cfg now evictOpt slabs items set) x) :
    ∃ s, (server cfg).Reaches Server.NoWrap (Server.init cfg now evictOpt slabs items) s ∧
      s.store = x.shared.store ∧ (∀ i o, x.member i = some o → s.unstored i = o.conn.item ∧
        ∀ p, o.conn.itemsLeft.count p ≤ s.refs.count ⟨i, .ilist, p⟩) ∧
      ∀ r ∈ s.refs, (x.member r.conn).isSome := by
  obtain ⟨s, hs, ⟨hstore, -, -⟩, hown⟩ := owns_of_reaches hcfg hnow h
  refine ⟨s, hs, hstore, fun i o ho => ?_, fun r hr => ?_⟩
  · have howns := hown i
    rw [ho] at howns
    obtain ⟨lost, howns, -, -⟩ := howns
    refine ⟨howns.unstored, fun p => ?_⟩
    rw [howns.list, List.count_append]
    exact Nat.le_add_right _ _
  · have howns := hown r.conn
    cases hm : x.member r.conn with
    | some o => rfl
    | none =>
      rw [hm] at howns
      exact absurd rfl (howns.absent hr)

theorem serialized_busy : ∃ s, (server roomy).Reaches Server.NoWrap
      (Server.init roomy 2 evictLru (fun _ => ⟨0, 0, 0, 0⟩) fun _ =>
        ⟨0, 0, 0, 0, 0, {}, 0, [], 0, fun _ => 0, 0⟩) s ∧
    s.store = busy.shared.store ∧ s.unstored 0 = some ⟨0, 1⟩ ∧
        1 ≤ s.refs.count ⟨1, .ilist, ⟨0, 0⟩⟩ := by
  obtain ⟨s, hs, hstore, hown, -⟩ := serialized roomy_fits (by decide) reaches_busy_noWrap
  have hfirst : (busy.member 0).map (fun o => o.conn.item) = some (some ⟨0, 1⟩) := by decide +kernel
  have hsecond : (busy.member 1).map (fun o => o.conn.itemsLeft) = some [⟨0, 0⟩] := by
    decide +kernel
  obtain ⟨o, ho, hitem⟩ := Option.map_eq_some_iff.1 hfirst
  obtain ⟨o', ho', hleft⟩ := Option.map_eq_some_iff.1 hsecond
  refine ⟨s, hs, hstore, (hown 0 o ho).1.trans hitem, ?_⟩
  have hcount := (hown 1 o' ho').2 ⟨0, 0⟩
  rwa [hleft, List.count_singleton_self] at hcount

/-- A connection has the references that its state says. -/
theorem Owns.mem (h : Owns cfg P i (some o) s) {p : ItemPtr} (hp : p ∈ o.refs) :
    (o.conn.item = some p ∧ ⟨i, .item false, p⟩ ∈ s.refs) ∨ p ∈ o.conn.itemsLeft ∧
        ⟨i, .ilist, p⟩ ∈ s.refs := by
  rcases List.mem_append.1 hp with hp | hp
  · have hitem : o.conn.item = some p := Option.mem_toList.1 hp
    exact .inl ⟨hitem, h.item_mem hitem⟩
  · obtain ⟨lost, howns, -⟩ := h
    exact .inr ⟨hp, howns.mem (List.mem_append_left _ hp)⟩

theorem Owns.held (h : Owns cfg P i (some o) s) {p : ItemPtr} (hp : p ∈ o.refs) : p ∈ s.held := by
  rcases h.mem hp with ⟨-, hr⟩ | ⟨-, hr⟩
  · exact List.mem_map_of_mem (f := Ref.ptr) hr
  · exact List.mem_map_of_mem (f := Ref.ptr) hr

/-- What is safe in a state of the system. -/
structure Safe (cfg : Config) (x : Family ℕ Client Commons) : Prop where
  /-- Every chunk is in one place, and the queues, the hash table and the counts agree. -/
  conserved : x.shared.store.Conserved cfg
  /-- What a connection refers to is not free, and its slab is in use. -/
  held : ∀ i o, x.member i = some o → ∀ p ∈ o.refs,
    (∀ id, p ∉ (x.shared.store.slabclass id).freeItemq) ∧ p.slab ∈ x.shared.store.slabLruq
  /-- What a connection receives is not visible, and no other reference to it exists. -/
  unseen : ∀ i o p, x.member i = some o → o.conn.item = some p →
    (x.shared.store.items p).flags.linked = false ∧
    p ∉ o.conn.itemsLeft ∧ ∀ j o', x.member j = some o' → p ∈ o'.refs → j = i
  /-- It has the bytes that were received so far, and room for the rest. -/
  received : ∀ i o, x.member i = some o → o.conn.Receiving cfg x.shared.store

/-- **What connections hold is safe**, in every run in which no slab has more than 65535 references.
-/
theorem safe (hcfg : ∀ key : Key, key.length ≤ keyMaxLen → cfg.DeltaFits key) (hnow : now < 2 ^ 32)
    (h : (system cfg).Reaches NoWrap (init cfg now evictOpt slabs items set) x) : Safe cfg x := by
  obtain ⟨s, -, ⟨hstore, hinv, -⟩, hown⟩ := owns_of_reaches hcfg hnow h
  have howns : ∀ {i o}, x.member i = some o → Owns cfg (fun _ _ => True) i (some o) s := by
    intro i o ho
    have hi := hown i
    rwa [ho] at hi
  refine ⟨hstore ▸ hinv.inv.conserved, fun i o ho p hp => ?_, fun i o p ho hitem => ?_,
    fun i o ho => ?_⟩
  · rw [← hstore]
    exact hinv.heldSafe p ((howns ho).held hp)
  · have hmem := (howns ho).item_mem hitem
    -- nobody else has a reference to it
    have honly : ∀ r ∈ s.refs, r.ptr = p → r = ⟨i, .item false, p⟩ := fun r hr hptr =>
      hinv.eq_of_ptr hmem hr rfl hptr
    refine ⟨hstore ▸ (hinv.unstored _ hmem rfl).1, fun hleft => ?_, fun j o' ho' hp => ?_⟩
    · obtain ⟨lost, hi, -, -⟩ := howns ho
      cases honly _ (hi.mem (List.mem_append_left _ hleft)) rfl
    · rcases (howns ho').mem hp with ⟨-, hr⟩ | ⟨-, hr⟩
      · exact congrArg Ref.conn (honly _ hr rfl)
      · cases honly _ hr rfl
  · obtain ⟨lost, -, hrec, -⟩ := howns ho
    exact hstore ▸ hrec

theorem safe_busy : Safe roomy busy ∧ (busy.member 0).map Client.refs = some [⟨0, 1⟩] ∧
    (busy.member 1).map Client.refs = some [⟨0, 0⟩] :=
  ⟨safe roomy_fits (by decide) reaches_busy_noWrap, by decide +kernel, by decide +kernel⟩

/-- What calls of others leave alone: a reference of connection `i` remains, the item is not handed
out again, its slab is not evicted, and an item that is received is not touched. -/
def Kept (i : ℕ) (s s' : Server) : Prop := ∀ r ∈ s.refs, r.conn = i → r ∈ s'.refs ∧
  (s'.store.items r.ptr).gen = (s.store.items r.ptr).gen ∧
  (s'.store.slabs r.ptr.slab).epoch = (s.store.slabs r.ptr.slab).epoch ∧
  (r.slot = .item false → s'.store.items r.ptr = s.store.items r.ptr)

theorem Kept.step {t : Server} {l : Label} {a : Answer} (h : Kept i s t) (hi : t.Inv cfg)
    (hstamp : t.store.Stamped cfg t.held) (hst : t.step cfg l = some (a, s')) (hl : l.conn ≠ some i)
    (hov : Server.NoWrap t l s') : Kept i s s' := by
  intro r hr hri
  obtain ⟨hmem, hgen, hepoch, hitem⟩ := h r hr hri
  have hmem' : r ∈ s'.refs := by
    have hfilter : r ∈ t.refs.filter (·.conn = i) := List.mem_filter.2 ⟨hmem, decide_eq_true hri⟩
    rw [← Server.refs_of_step hst hl] at hfilter
    exact (List.mem_filter.1 hfilter).1
  obtain ⟨-, hgen', hepoch'⟩ :=
    (hi.step hst hov).1.heldKept hstamp r.ptr (List.mem_map_of_mem (f := Ref.ptr) hmem)
    (List.mem_map_of_mem (f := Ref.ptr) hmem')
  refine ⟨hmem', hgen'.trans hgen, hepoch'.trans hepoch, fun hslot => ?_⟩
  exact (hi.items_of_step hst hov hmem hslot (hri ▸ hl)).trans (hitem hslot)

theorem kept_of_calls (hi : s.Inv cfg) (hstamp : s.store.Stamped cfg s.held)
    (hr : (server cfg).Reaches (fun s l s' => l.conn ≠ some i ∧ Server.NoWrap s l s') s s') :
    Kept i s s' := by
  have hstart : Kept i s s := fun r hr _ => ⟨hr, rfl, rfl, fun _ => rfl⟩
  refine (hi.run (I := fun t => Kept i s t ∧ t.store.Stamped cfg t.held) ⟨hstart, hstamp⟩ hr
    (fun _ _ _ hC => hC.2) fun t l a t' ht hI hst hC he => ?_).2.1
  exact ⟨hI.1.step ht hI.2 hst hC.1 hC.2, he.stamped ht hI.2⟩

/-- **What a connection holds is left alone by everything else**: no step of another connection, of
the maintenance thread or of the clock hands out an item again that a connection holds, or evicts
its slab, or touches an item that the connection receives. -/
theorem held_kept (hcfg : ∀ key : Key, key.length ≤ keyMaxLen → cfg.DeltaFits key)
    (hnow : now < 2 ^ 32)
    (h : (system cfg).Reaches NoWrap (init cfg now evictOpt slabs items set) x)
    {l : FamilyLabel ℕ Arrival Act Beat} {u : Unit} (hst : (system cfg).step x l = some (u, y))
    (hC : NoWrap x l y) (hl : ∀ a, l ≠ .act i a) (ho : x.member i = some o) :
    y.member i = some o ∧ ∀ p ∈ o.refs,
      (y.shared.store.items p).gen = (x.shared.store.items p).gen ∧
      (y.shared.store.slabs p.slab).epoch = (x.shared.store.slabs p.slab).epoch ∧
      (o.conn.item = some p → y.shared.store.items p = x.shared.store.items p) := by
  obtain ⟨s, hs, hag, hown⟩ := owns_of_reaches hcfg hnow h
  have hi : Owns cfg (fun _ _ => True) i (some o) s := ho ▸ hown i
  have hstamp := Server.stamped_of_reaches hs
  -- what the calls leave alone, for the references of the connection
  have hkept : ∀ {s' : Server}, Kept i s s' → s'.store = y.shared.store → ∀ p ∈ o.refs,
      (y.shared.store.items p).gen = (x.shared.store.items p).gen ∧
      (y.shared.store.slabs p.slab).epoch = (x.shared.store.slabs p.slab).epoch ∧
      (o.conn.item = some p → y.shared.store.items p = x.shared.store.items p) := by
    intro s' hk hs' p hp
    rw [← hs', ← hag.1]
    have hitem : o.conn.item = some p → s'.store.items p = s.store.items p := fun hp =>
      (hk _ (hi.item_mem hp) rfl).2.2.2 rfl
    rcases hi.mem hp with ⟨-, hr⟩ | ⟨-, hr⟩
    · exact ⟨(hk _ hr rfl).2.1, (hk _ hr rfl).2.2.1, hitem⟩
    · exact ⟨(hk _ hr rfl).2.1, (hk _ hr rfl).2.2.1, hitem⟩
  rcases Machine.family_cases hst with ⟨j, b, rfl, hnone, rfl⟩ | ⟨j, a, c, r, c', g', rfl,
    hc, hact, rfl⟩ |
    ⟨e, r, g', rfl, hbeat, rfl⟩
  · have hne : i ≠ j := by
      rintro rfl
      cases ho.symm.trans hnone
    exact ⟨(Function.update_of_ne hne _ _).trans ho, fun p _ => ⟨rfl, rfl, fun _ => rfl⟩⟩
  · have hne : i ≠ j := by
      rintro rfl
      exact hl a rfl
    have hown' : Owns cfg (fun _ _ => True) j (some c) s := hc ▸ hown j
    have hov : ActNoWrap (c, x.shared) a (c', g') := Machine.allows_act hc hC
    obtain ⟨s', hr, hag', -⟩ :=
      act_calls hcfg (fun _ _ _ _ _ _ _ _ _ _ => trivial) hag hown' hact hov hov
    refine ⟨(Function.update_of_ne hne _ _).trans ho,
      hkept (kept_of_calls hag.2.1 hstamp ?_) hag'.1⟩
    exact hr.mono fun _ _ _ hC => ⟨fun hconn => hne (hC.1 i hconn), hC.2⟩
  · obtain ⟨s', hr, hag'⟩ := beat_calls hag hbeat hC
    refine ⟨ho, hkept (kept_of_calls hag.2.1 hstamp (hr.mono fun _ l _ hC => ⟨?_, hC.2⟩)) hag'.1⟩
    rw [hC.1]
    exact fun hconn => by cases hconn

/-- The reply to the `get` is sent while the block of the second `set` is not there yet. -/
theorem held_kept_busy :
    ∃ y, (system roomy).step busy (.act 1 (.turn (.send (.sent 21)))) = some ((), y) ∧
    y.shared.store.items ⟨0, 1⟩ = busy.shared.store.items ⟨0, 1⟩ := by
  have hrun : (((system roomy).step busy (.act 1 (.turn (.send (.sent 21))))).map fun r =>
      decide (NoWrap busy (.act 1 (.turn (.send (.sent 21)))) r.2)) = some true := by decide +kernel
  have hitem : (busy.member 0).map (fun o => o.conn.item) = some (some ⟨0, 1⟩) := by decide +kernel
  obtain ⟨⟨u, y⟩, hst, hC⟩ := Option.map_eq_some_iff.1 hrun
  obtain ⟨o, ho, hitem⟩ := Option.map_eq_some_iff.1 hitem
  have hp : ⟨0, 1⟩ ∈ o.refs := List.mem_append_left _ (Option.mem_toList.2 hitem)
  have hkept := held_kept roomy_fits (by decide) reaches_busy_noWrap hst
    (of_decide_eq_true hC) (fun a h => by cases h) ho
  exact ⟨y, hst, (hkept.2 _ hp).2.2 hitem⟩

/-! ### Orderly runs -/

/-- In orderly runs connections have lost nothing. -/
theorem owns_of_orderly (hcfg : ∀ key : Key, key.length ≤ keyMaxLen → cfg.DeltaFits key)
    (hnow : now < 2 ^ 32)
    (h : (system cfg).Reaches (Orderly cfg) (init cfg now evictOpt slabs items set) x) :
    ∃ s, (server cfg).Reaches Server.NoWrap (Server.init cfg now evictOpt slabs items) s ∧
      Mirrors cfg x.shared s ∧
      ∀ i, Owns cfg (fun c lost => lost = [] ∧ c.ListDue) i (x.member i) s := by
  refine reaches_matched hcfg (fun b => ⟨rfl, .inl rfl⟩)
    (fun w w' io lost lost' hP ht htidy hlist hC => ?_)
    (fun _ _ _ hC => hC.1) (fun _ _ _ h => h) hnow h
  have ho : Session.Orderly cfg w w' := hC.2 io rfl
  exact ⟨by rw [hP.1, htidy (ho.tidy hP.2)]; rfl, ho.listDue hP.2 ht hlist⟩

/-- The references that connection `i` has. -/
def refs (x : Family ℕ Client Commons) (i : ℕ) :
    List ItemPtr := ((x.member i).map Client.refs).getD []

/-- The references of a connection, counted one by one. -/
theorem owns_countP {item : Option ItemPtr} {list : List ItemPtr} (h : s.Owns i item list)
    (f : ItemPtr → Bool) :
    s.refs.countP (fun r => r.conn = i ∧ f r.ptr = true) = (item.toList ++ list).countP f := by
  have hitem :
      (s.refs.filter fun r => r.slot ≠ .ilist).countP (fun r => r.conn = i ∧ f r.ptr = true) =
      item.toList.countP f := by
    -- of the references that are not on a list only that to `c->item` is the connection's
    have hsplit :
        (s.refs.filter fun r => r.slot ≠ .ilist).countP (fun r => r.conn = i ∧ f r.ptr = true) =
        (s.refs.filter fun r => r.conn = i ∧ r.slot ≠ .ilist).countP fun r => f r.ptr := by
      rw [List.countP_filter, List.countP_filter]
      refine List.countP_congr fun r _ => ?_
      simp only [Bool.and_eq_true, decide_eq_true_eq]
      tauto
    rw [hsplit, h.item]
    cases item <;> rfl
  have hlist : (s.refs.filter fun r => !decide (r.slot ≠ .ilist)).countP
      (fun r => r.conn = i ∧ f r.ptr = true) =
      list.countP f := by
    have hperm : ((s.refs.filter fun r => r.conn = i ∧ r.slot = .ilist).map Ref.ptr).Perm list := by
      refine List.perm_iff_count.2 fun p => ?_
      rw [← h.list p, List.count_eq_countP, List.count_eq_countP, List.countP_map,
        List.countP_filter]
      refine List.countP_congr fun r _ => ?_
      obtain ⟨c, slot, q⟩ := r
      simp only [Function.comp, Bool.and_eq_true, decide_eq_true_eq, beq_iff_eq, Ref.mk.injEq]
      tauto
    rw [← hperm.countP_eq, List.countP_map, List.countP_filter, List.countP_filter]
    refine List.countP_congr fun r _ => ?_
    simp only [Function.comp, Bool.and_eq_true, decide_eq_true_eq, Bool.not_eq_true',
      decide_eq_false_iff_not, not_not]
    tauto
  rw [List.countP_eq_countP_filter_add s.refs _ fun r => decide (r.slot ≠ .ilist), hitem, hlist,
    List.countP_append]

/-- All references, counted connection by connection. -/
theorem held_countP {conns : Finset ℕ} (hconns : ∀ r ∈ s.refs, r.conn ∈ conns)
    (f : ItemPtr → Bool) :
    s.held.countP f = ∑ i ∈ conns, s.refs.countP fun r => r.conn = i ∧ f r.ptr = true := by
  unfold Server.held
  rw [List.countP_map]
  generalize s.refs = refs at hconns
  induction refs with
  | nil => simp
  | cons r refs ih =>
    have hrest := ih fun r' hr' => hconns r' (List.mem_cons_of_mem _ hr')
    -- every reference is that of one connection
    have hone : (∑ i ∈ conns, if r.conn = i ∧ f r.ptr = true then 1 else 0) = if f r.ptr =
        true then 1 else 0 := by
      rw [Finset.sum_eq_single r.conn]
      · simp
      · intro i _ hne
        exact if_neg fun h => hne h.1.symm
      · exact fun hno => absurd (hconns r List.mem_cons_self) hno
    simp only [List.countP_cons, hrest, Finset.sum_add_distrib, decide_eq_true_eq, hone,
      Function.comp]

/-- In orderly runs the references in the store are those of the connections. -/
theorem countP_of_orderly (hcfg : ∀ key : Key, key.length ≤ keyMaxLen → cfg.DeltaFits key)
    (hnow : now < 2 ^ 32)
    (h : (system cfg).Reaches (Orderly cfg) (init cfg now evictOpt slabs items set) x) :
    ∃ (s : Server) (conns : Finset ℕ), Mirrors cfg x.shared s ∧
      (∀ i, i ∈ conns ↔ (x.member i).isSome) ∧
      ∀ f, s.held.countP f = ∑ i ∈ conns, (refs x i).countP f := by
  obtain ⟨s, -, hag, hown⟩ := owns_of_orderly hcfg hnow h
  -- the sum is over those that have come so far
  have hfinite : {i | x.member i ≠ none}.Finite :=
    Machine.family_finite h (Set.finite_empty.subset fun i hi => hi rfl)
  have hmem : ∀ i, i ∈ hfinite.toFinset ↔ (x.member i).isSome := fun i => by
    rw [Set.Finite.mem_toFinset, Set.mem_ofPred_eq, Option.isSome_iff_ne_none]
  refine ⟨s, hfinite.toFinset, hag, hmem, fun f => ?_⟩
  have hconns : ∀ r ∈ s.refs, r.conn ∈ hfinite.toFinset := by
    intro r hr
    rw [hmem, Option.isSome_iff_ne_none]
    intro hnone
    have habsent := hown r.conn
    rw [hnone] at habsent
    exact habsent.absent hr rfl
  rw [held_countP hconns]
  refine Finset.sum_congr rfl fun i hi => ?_
  obtain ⟨o, ho⟩ := Option.isSome_iff_exists.1 ((hmem i).1 hi)
  have hi := hown i
  rw [ho] at hi
  obtain ⟨lost, howns, -, -, rfl, -⟩ := hi
  rw [owns_countP howns, List.append_nil, refs, ho]
  rfl

/-- **The store counts exactly the references that connections have**, in orderly runs: the count of
a chunk that is in use is the number of times that it is in `c->item` and in what is left of
`ilist`, over all connections, and a slab counts those to its chunks. -/
theorem references_exact (hcfg : ∀ key : Key, key.length ≤ keyMaxLen → cfg.DeltaFits key)
    (hnow : now < 2 ^ 32)
    (h : (system cfg).Reaches (Orderly cfg) (init cfg now evictOpt slabs items set) x) :
    ∃ conns : Finset ℕ, (∀ i, i ∈ conns ↔ (x.member i).isSome) ∧
      (∀ p, x.shared.store.Active cfg p → (x.shared.store.items p).refcount = ∑ i ∈ conns,
        (refs x i).count p) ∧
      ∀ sl ∈ x.shared.store.slabLruq,
        (x.shared.store.slabs sl).refcount = ∑ i ∈ conns,
            (refs x i).countP fun p => p.slab = sl := by
  obtain ⟨s, conns, ⟨hstore, hinv, -⟩, hconns, hcount⟩ := countP_of_orderly hcfg hnow h
  rw [← hstore]
  refine ⟨conns, hconns, fun p hp => ?_, fun sl hsl => ?_⟩
  · rw [hinv.inv.ref p hp, List.count_eq_countP, hcount]
    exact Finset.sum_congr rfl fun i _ => List.count_eq_countP.symm
  · rw [hinv.inv.slab_ref hsl, hcount]

theorem references_exact_busy : (∃ conns : Finset ℕ, (∀ i, i ∈ conns ↔ (busy.member i).isSome) ∧
    (∀ p, busy.shared.store.Active roomy p →
      (busy.shared.store.items p).refcount = ∑ i ∈ conns, (refs busy i).count p) ∧
    ∀ sl ∈ busy.shared.store.slabLruq,
      (busy.shared.store.slabs sl).refcount = ∑ i ∈ conns,
        (refs busy i).countP fun p => p.slab = sl) ∧
    busy.shared.store.slabLruq = [0] ∧ (busy.shared.store.slabs 0).refcount = 2 :=
  ⟨references_exact roomy_fits (by decide) reaches_busy, by decide +kernel, by decide +kernel⟩

/-- A connection that neither receives a data block nor sends a reply of items nor is about to be
closed has no references. -/
theorem Owns.refs_nil (h : Owns cfg (fun c lost => lost = [] ∧ c.ListDue) i (some o) s)
    (hs : o.conn.state ≠ .nread ∧ o.conn.state ≠ .mwrite ∧ o.conn.state ≠ .close) :
    o.refs = [] := by
  obtain ⟨lost, -, hrec, -, -, hdue⟩ := h
  have hitem : o.conn.item = none := hrec.item_none rfl hs.1 hs.2.2
  have hleft : o.conn.ileft = 0 := hdue.resolve_right (not_or.2 hs.2)
  unfold Client.refs Conn.itemsLeft
  rw [hitem, hleft]
  rfl

/-- **Nothing leaks**: when no connection receives a data block, sends a reply of items or is about
to be closed, no chunk and no slab has a reference, so that every slab can be evicted.  This is
about orderly runs. -/
theorem idle_unreferenced (hcfg : ∀ key : Key, key.length ≤ keyMaxLen → cfg.DeltaFits key)
    (hnow : now < 2 ^ 32)
    (h : (system cfg).Reaches (Orderly cfg) (init cfg now evictOpt slabs items set) x)
    (hidle : ∀ i o, x.member i = some o → o.conn.state ≠ .nread ∧ o.conn.state ≠ .mwrite ∧
      o.conn.state ≠ .close) :
    (∀ p, x.shared.store.Active cfg p → (x.shared.store.items p).refcount = 0) ∧
      ∀ sl ∈ x.shared.store.slabLruq, (x.shared.store.slabs sl).refcount = 0 := by
  obtain ⟨s, -, hag, hown⟩ := owns_of_orderly hcfg hnow h
  -- a reference would be that of a connection, whose state says that it has none
  have hnone : s.held = [] := by
    by_contra hne
    obtain ⟨r, hr⟩ :=
      List.exists_mem_of_ne_nil _ fun hnil : s.refs = [] => hne (congrArg (List.map Ref.ptr) hnil)
    have hi := hown r.conn
    cases ho : x.member r.conn with
    | none =>
      rw [ho] at hi
      exact hi.absent hr rfl
    | some o =>
      rw [ho] at hi
      have hnil := hi.refs_nil (hidle _ o ho)
      obtain ⟨lost, howns, -, -, rfl, -⟩ := hi
      have hcount := owns_countP howns fun _ => true
      rw [List.append_nil, show o.conn.item.toList ++ o.conn.itemsLeft = [] from hnil] at hcount
      exact List.countP_eq_zero.1 hcount r hr (by simp)
  obtain ⟨hstore, hinv, -⟩ := hag
  rw [← hstore]
  refine ⟨fun p hp => ?_, fun sl hsl => ?_⟩
  · rw [hinv.inv.ref p hp, hnone]
    rfl
  · rw [hinv.inv.slab_ref hsl, hnone]
    rfl

theorem idle_unreferenced_idle :
    (∀ p, idle.shared.store.Active roomy p → (idle.shared.store.items p).refcount = 0) ∧
    (∀ sl ∈ idle.shared.store.slabLruq, (idle.shared.store.slabs sl).refcount = 0) ∧
    idle.shared.store.slabLruq = [0] := by
  have hreads : ∀ i o, idle.member i = some o → o.conn.state = .read := by
    intro i o ho
    have hzero : (idle.member 0).map (fun o => o.conn.state) = some .read := by decide +kernel
    have hone : (idle.member 1).map (fun o => o.conn.state) = some .read := by decide +kernel
    by_cases hi₀ : i = 0
    · subst hi₀
      rw [ho] at hzero
      exact Option.some.inj hzero
    by_cases hi₁ : i = 1
    · subst hi₁
      rw [ho] at hone
      exact Option.some.inj hone
    · -- no other connection has come
      have hnone : idle.member i = small.member i := by
        refine Machine.family_run_frame (Machine.run_eq_exec (by decide +kernel)) fun l hl => ?_
        have hname : ∀ l ∈ idleRun, l.name = none ∨ l.name = some 0 ∨ l.name = some 1 := by
          decide +kernel
        rcases hname l hl with h | h | h
        · rw [h]
          exact nofun
        · rw [h]
          exact fun h => hi₀ (Option.some.inj h).symm
        · rw [h]
          exact fun h => hi₁ (Option.some.inj h).symm
      cases ho.symm.trans hnone
  obtain ⟨hitems, hslabs⟩ := idle_unreferenced roomy_fits (by decide) reaches_idle fun i o ho => by
    rw [hreads i o ho]
    decide
  exact ⟨hitems, hslabs, by decide +kernel⟩

end System

end Twemcache
