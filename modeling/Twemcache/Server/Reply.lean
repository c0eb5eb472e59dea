import Twemcache.Server.Inv
import Twemcache.Store.Serve
import Twemcache.Store.View

/-!
# Replies under way

`asc_respond_get` queues a hit without copying it: the length and the place of the value are taken
when the reply is built, the cas id is printed a little later, and the bytes are read from the
item when they are sent, in as many writes as the socket wants.  None of this happens under
`cache_lock`, so other connections run in between.

The client gets the value that was queued, and with it the cas id that the value had, if nobody
changes the item at the wrong moment (`reply_faithful`).  Bytes that are appended or prepended in
place do no harm once the cas id is printed, but `incr` and `decr` overwrite the value in place
while it is being sent (`reply_torn`).
-/

namespace Twemcache

/-- A hit that is being sent. -/
structure Reply where
  /-- The connection. -/
  conn : ℕ
  /-- The item. -/
  ptr : ItemPtr
  /-- Where the value was, as an offset into the chunk. -/
  off : ℕ
  /-- The length of the value. -/
  len : ℕ
  /-- The request was `gets`. -/
  gets : Bool
  /-- The cas id that the suffix was printed with, once it is. -/
  suffix : Option ℕ
  /-- The bytes of the value that were sent. -/
  out : List UInt8
  /-- Ghost: the value when it was queued. -/
  value : List UInt8
  /-- Ghost: the cas id that the value had. -/
  cas : ℕ
  deriving DecidableEq, Repr

/-- The server with the hits that its connections are sending. -/
structure Sending where
  /-- The server. -/
  server : Server
  /-- The hits. -/
  replies : List Reply

namespace Sending

/-- What can happen. -/
inductive Step where
  /-- A locked step. -/
  | call (l : Label)
  /-- `asc_respond_get` takes the length and the place of a value. -/
  | respond (c : ℕ) (p : ItemPtr) (gets : Bool)
  /-- `asc_respond_get` prints the suffix of the `i`-th reply. -/
  | suffix (i : ℕ)
  /-- The next `n` bytes of the `i`-th value are sent. -/
  | transmit (i n : ℕ)
  /-- The connection has sent everything, or was closed. -/
  | finish (c : ℕ)

variable (cfg : Config) (x : Sending)

/-- The reply that `asc_respond_get` starts for an item. -/
def newReply (c : ℕ) (p : ItemPtr) (gets : Bool) : Reply :=
  let it := x.server.store.items p
  ⟨c, p, it.data cfg, it.nbyte, gets, none, [], it.value cfg, it.getCas⟩

/-- The suffix is printed. -/
def print (r : Reply) : Reply :=
  { r with suffix := some (x.server.store.items r.ptr).getCas }

/-- The next `n` bytes are sent. -/
def send (n : ℕ) (r : Reply) : Reply :=
  { r with out := r.out ++ (x.server.store.items r.ptr).read (r.off + r.out.length) n }

/-- The connection gives an item back before it has sent its replies. -/
def early : Label → Bool
  | .remove c _ => x.replies.any fun r => r.conn = c
  | _ => false

/-- The state after a step. -/
def step : Step → Option (Unit × Sending)
  | .call l =>
    if x.early l then none else (x.server.step cfg l).map fun r => ((), ⟨r.2, x.replies⟩)
  | .respond c p gets =>
    if ⟨c, .ilist, p⟩ ∈ x.server.refs then
      some ((), ⟨x.server, x.replies ++ [x.newReply cfg c p gets]⟩)
    else none
  | .suffix i =>
    match x.replies[i]? with
    | some r =>
      if r.suffix = none then some ((), ⟨x.server, x.replies.set i (x.print r)⟩) else none
    | none => none
  | .transmit i n =>
    match x.replies[i]? with
    | some r =>
      if r.suffix ≠ none ∧ r.out.length + n ≤ r.len then
        some ((), ⟨x.server, x.replies.set i (x.send n r)⟩)
      else none
    | none => none
  | .finish c => some ((), ⟨x.server, x.replies.filter fun r => r.conn ≠ c⟩)

end Sending

/-- The server with its replies as a machine. -/
def sending (cfg : Config) : Machine Sending Sending.Step Unit := ⟨fun x l => x.step cfg l⟩

/-! ### Items of replies -/

namespace Server

variable {cfg : Config} {s s' : Server} {l : Label} {a : Answer} {c off : ℕ} {p : ItemPtr}
  {value : List UInt8}

/-- An entry of an `ilist` stays until it is given back. -/
theorem mem_refs_of_step (hs : s.step cfg l = some (a, s')) (hmem : ⟨c, .ilist, p⟩ ∈ s.refs)
    (hl : ∀ q, l ≠ .remove c q) : ⟨c, .ilist, p⟩ ∈ s'.refs := by
  -- only `item_remove` of this reference takes it away
  have hkeep : ∀ c' slot r, ⟨c, .ilist, p⟩ ∈ (s.keep c' slot r).2.refs := fun _ _ _ =>
    List.mem_append_right _ hmem
  have hstore : ∀ {c' f}, s.storeItem cfg c' f = some (a, s') → ⟨c, .ilist, p⟩ ∈ s'.refs := by
    intro c' f hs
    obtain ⟨q, -, heq⟩ := storeItem_cases hs
    obtain ⟨-, rfl⟩ := Prod.mk.inj heq
    exact List.mem_map.2 ⟨_, hmem, by simp⟩
  have hwrite : ∀ {c' f}, s.writeItem c' f = some (a, s') → ⟨c, .ilist, p⟩ ∈ s'.refs := by
    intro c' f hs
    obtain ⟨q, -, heq⟩ := Option.map_eq_some_iff.1 hs
    obtain ⟨-, rfl⟩ := Prod.mk.inj heq
    exact hmem
  have hcall : ∀ {r}, s.call r = some (a, s') → ⟨c, .ilist, p⟩ ∈ s'.refs := by
    intro r hs
    obtain ⟨-, rfl⟩ := Prod.mk.inj (Option.some.inj hs)
    exact hmem
  cases l with
  | alloc c' key dataflags exptime nbyte ch =>
    simp only [step] at hs
    split_ifs at hs
    obtain ⟨-, rfl⟩ := Prod.mk.inj (Option.some.inj hs)
    exact hkeep _ _ _
  | fill c' off bytes =>
    simp only [step] at hs
    split_ifs at hs
    exact hwrite hs
  | reqCas c' cas => exact hwrite hs
  | set c' ch => exact hstore hs
  | cas c' ch => exact hstore hs
  | add c' ch => exact hstore hs
  | replace c' ch => exact hstore hs
  | annex c' prepend ch => exact hstore hs
  | removeItem c' =>
    obtain ⟨r, hr, heq⟩ := Option.map_eq_some_iff.1 hs
    obtain rfl : s' = (s.giveBack r).2 := by rw [heq]
    have hslot := List.find?_some hr
    refine (List.mem_erase_of_ne ?_).2 hmem
    rintro rfl
    simp at hslot
  | get c' key =>
    obtain ⟨-, rfl⟩ := Prod.mk.inj (Option.some.inj hs)
    exact hkeep _ _ _
  | touch c' q =>
    simp only [step] at hs
    split_ifs at hs
    exact hcall hs
  | remove c' q =>
    simp only [step] at hs
    split_ifs at hs
    obtain rfl : s' = (s.giveBack ⟨c', .ilist, q⟩).2 := by rw [Option.some.inj hs]
    refine (List.mem_erase_of_ne ?_).2 hmem
    rintro heq
    obtain ⟨rfl, -, -⟩ := Ref.mk.inj heq
    exact hl q rfl
  | delete key => exact hcall hs
  | delta key incr delta ch =>
    simp only [step] at hs
    split_ifs at hs
    exact hcall hs
  | flushSet exptime => exact hcall hs
  | flushExpired => exact hcall hs
  | moveBucket => exact hcall hs
  | tick now =>
    simp only [step] at hs
    split_ifs at hs
    exact hcall hs
  | evict opt => exact hcall hs

theorem Inv.reads (h : s.Inv cfg) (hst : s.store.Stamped cfg s.held)
    (hmem : ⟨c, .ilist, p⟩ ∈ s.refs) {o : Option ℕ} {base : List ItemPtr} (hbase : p ∈ base)
    (hl : s.overwritten cfg l ≠ some p) : (s.scope cfg l o base).Reads s.store p where
  base := hbase
  gen := hst.gen p (.inr (List.mem_map_of_mem (f := Ref.ptr) hmem))
  link := by
    rintro ⟨c', hmem'⟩
    cases h.eq_of_ptr hmem' hmem rfl rfl
  delta := hl

/-- A step keeps what is being sent from an item whose value it does not overwrite. -/
theorem Effect.serves (he : Effect cfg s l s') (h : s.Inv cfg) (hst : s.store.Stamped cfg s.held)
    (hmem : ⟨c, .ilist, p⟩ ∈ s.refs) (hmem' : ⟨c, .ilist, p⟩ ∈ s'.refs)
    (hl : s.overwritten cfg l ≠ some p) (hv : (s.store.items p).Serves cfg off value) :
    (s'.store.items p).Serves cfg off value := by
  cases he with
  | path o base held' hg hp hperm hbase =>
    have hb := hbase p (List.mem_map_of_mem (f := Ref.ptr) hmem)
      (List.mem_map_of_mem (f := Ref.ptr) hmem')
    exact hp.serves hg (h.reads hst hmem hb hl) hv
  | write c' q f hf hq heq =>
    subst heq
    have hne : p ≠ q := by
      rintro rfl
      cases h.eq_of_ptr hq hmem rfl rfl
    simpa [Store.setItem, hne] using hv
  | env hshape hitems hslabs hlru hbooks hcas hnalloc hrefs hnow hlive => rwa [hitems]

/-- A step keeps what an item holds if it changes nothing in place. -/
theorem Effect.content_kept (he : Effect cfg s l s') (h : s.Inv cfg)
    (hst : s.store.Stamped cfg s.held) (hmem : ⟨c, .ilist, p⟩ ∈ s.refs)
    (hmem' : ⟨c, .ilist, p⟩ ∈ s'.refs) (hl : s.overwritten cfg l ≠ some p)
    (hl' : s.extended cfg l ≠ some p) :
    (s'.store.items p).content = (s.store.items p).content := by
  cases he with
  | path o base held' hg hp hperm hbase =>
    have hb := hbase p (List.mem_map_of_mem (f := Ref.ptr) hmem)
      (List.mem_map_of_mem (f := Ref.ptr) hmem')
    exact hp.content_kept hg (h.reads hst hmem hb hl) hl'
  | write c' q f hf hq heq =>
    subst heq
    have hne : p ≠ q := by
      rintro rfl
      cases h.eq_of_ptr hq hmem rfl rfl
    simp [Store.setItem, hne]
  | env hshape hitems hslabs hlru hbooks hcas hnalloc hrefs hnow hlive => rw [hitems]

end Server

/-! ### The invariant -/

namespace Sending

variable (cfg : Config)

/-- A reply is on its way to be what was queued. -/
structure Good (s : Server) (r : Reply) : Prop where
  /-- The connection holds the item. -/
  held : ⟨r.conn, .ilist, r.ptr⟩ ∈ s.refs
  /-- The length is that of the value. -/
  len : r.value.length = r.len
  /-- What was sent is the beginning of the value. -/
  out : r.out <+: r.value
  /-- What is still to be sent can be read from the item. -/
  serves : r.out.length < r.len → (s.store.items r.ptr).Serves cfg r.off r.value
  /-- Before the suffix is printed the item has the cas id of the value. -/
  cas : r.gets = true → r.suffix = none → (s.store.items r.ptr).getCas = r.cas
  /-- The suffix was printed with the cas id of the value. -/
  printed : r.gets = true → ∀ u, r.suffix = some u → u = r.cas

/-- A reply is not disturbed by a locked step: a value that is still to be sent is not overwritten
in place, and the item of a `gets` is not changed in place before its cas id is printed. -/
def Undisturbed (s : Server) (l : Label) (r : Reply) : Prop :=
  (r.out.length < r.len → s.overwritten cfg l ≠ some r.ptr) ∧
    (r.gets = true → r.suffix = none →
      s.overwritten cfg l ≠ some r.ptr ∧ s.extended cfg l ≠ some r.ptr)

/-- No reply is disturbed by the step. -/
def NoneDisturbed (x : Sending) : Step → Prop
  | .call l => ∀ r ∈ x.replies, Undisturbed cfg x.server l r
  | _ => True

/-- Steps in which no slab has more than 65535 references and no reply is disturbed. -/
def Calm (x : Sending) (l : Step) (x' : Sending) : Prop :=
  x'.server.store.overflow = false ∧ NoneDisturbed cfg x l

/-- The invariant. -/
structure Inv (x : Sending) : Prop where
  /-- The server satisfies its invariant. -/
  inv : x.server.Inv cfg
  /-- Items have stamps. -/
  stamped : x.server.store.Stamped cfg x.server.held
  /-- All replies are on their way. -/
  good : ∀ r ∈ x.replies, Good cfg x.server r

variable {cfg} {s s' : Server} {l : Label} {a : Answer} {r : Reply} {x x' : Sending}

/-- Locked steps that do not disturb a reply keep it good. -/
theorem Good.call (hr : Good cfg s r) (h : s.Inv cfg) (hst : s.store.Stamped cfg s.held)
    (hs : s.step cfg l = some (a, s')) (he : s.Effect cfg l s') (hl : ∀ q, l ≠ .remove r.conn q)
    (hu : Undisturbed cfg s l r) : Good cfg s' r := by
  have hmem := Server.mem_refs_of_step hs hr.held hl
  refine ⟨hmem, hr.len, hr.out, fun hlt => ?_, fun hg hn => ?_, hr.printed⟩
  · exact he.serves h hst hr.held hmem (hu.1 hlt) (hr.serves hlt)
  · obtain ⟨h1, h2⟩ := hu.2 hg hn
    have hcont := he.content_kept h hst hr.held hmem h1 h2
    rw [← hr.cas hg hn, Item.getCas, Item.getCas]
    rw [show (s'.store.items r.ptr).flags.cas = _ from congrArg Content.cas hcont,
      show (s'.store.items r.ptr).casField = _ from congrArg Content.casField hcont]
    rfl

theorem Good.print (hr : Good cfg x.server r) (hn : r.suffix = none) :
    Good cfg x.server (x.print r) where
  held := hr.held
  len := hr.len
  out := hr.out
  serves := hr.serves
  cas := fun _ hsome => by cases hsome
  printed := fun hg u hu => by
    exact (Option.some.inj hu).symm.trans (hr.cas hg hn)

theorem Good.send (hr : Good cfg x.server r) {n : ℕ} (hs : r.suffix ≠ none)
    (hn : r.out.length + n ≤ r.len) : Good cfg x.server (x.send n r) where
  held := hr.held
  len := hr.len
  out := by
    rcases Nat.eq_zero_or_pos n with rfl | hpos
    · simpa [Sending.send, Item.read] using hr.out
    · exact (hr.serves (by omega)).next hr.out (by rw [hr.len]; exact hn)
  serves := fun hlt => hr.serves (by
    simp only [Sending.send, List.length_append] at hlt
    omega)
  cas := fun _ hn => absurd hn hs
  printed := hr.printed

theorem good_newReply {c : ℕ} {p : ItemPtr} (hmem : ⟨c, .ilist, p⟩ ∈ x.server.refs) (gets : Bool) :
    Good cfg x.server (x.newReply cfg c p gets) where
  held := hmem
  len := Item.length_read _ _
  out := List.nil_prefix
  serves := fun _ => Item.serves_value _
  cas := fun _ _ => rfl
  printed := fun _ u hu => by cases hu

/-- A reply changes. -/
theorem Inv.setReply (h : x.Inv cfg) {i : ℕ} (hr : Good cfg x.server r) :
    (Sending.mk x.server (x.replies.set i r)).Inv cfg where
  inv := h.inv
  stamped := h.stamped
  good := fun r' hr' => by
    rcases List.mem_or_eq_of_mem_set hr' with hr' | rfl
    · exact h.good r' hr'
    · exact hr

theorem Inv.step {l : Step} {u : Unit} (h : x.Inv cfg) (hs : x.step cfg l = some (u, x'))
    (hC : Calm cfg x l x') : x'.Inv cfg := by
  cases l with
  | call l =>
    simp only [Sending.step] at hs
    split_ifs at hs with hearly
    obtain ⟨⟨a, s'⟩, hst, heq⟩ := Option.map_eq_some_iff.1 hs
    obtain ⟨-, rfl⟩ := Prod.mk.inj heq
    obtain ⟨he, hinv⟩ := h.inv.step hst hC.1
    refine ⟨hinv, he.stamped h.inv h.stamped, fun r hr => ?_⟩
    refine (h.good r hr).call h.inv h.stamped hst he (fun q hq => hearly ?_) (hC.2 r hr)
    rw [hq]
    exact List.any_eq_true.2 ⟨r, hr, by simp⟩
  | respond c p gets =>
    simp only [Sending.step] at hs
    split_ifs at hs with hmem
    obtain ⟨-, rfl⟩ := Prod.mk.inj (Option.some.inj hs)
    refine ⟨h.inv, h.stamped, fun r hr => ?_⟩
    rcases List.mem_append.1 hr with hr | hr
    · exact h.good r hr
    · obtain rfl := List.mem_singleton.1 hr
      exact good_newReply hmem gets
  | suffix i =>
    simp only [Sending.step] at hs
    cases hi : x.replies[i]? with
    | none => simp [hi] at hs
    | some r =>
      simp only [hi] at hs
      split_ifs at hs with hn
      obtain ⟨-, rfl⟩ := Prod.mk.inj (Option.some.inj hs)
      exact h.setReply ((h.good r (List.mem_of_getElem? hi)).print hn)
  | transmit i n =>
    simp only [Sending.step] at hs
    cases hi : x.replies[i]? with
    | none => simp [hi] at hs
    | some r =>
      simp only [hi] at hs
      split_ifs at hs with hn
      obtain ⟨-, rfl⟩ := Prod.mk.inj (Option.some.inj hs)
      exact h.setReply ((h.good r (List.mem_of_getElem? hi)).send hn.1 hn.2)
  | finish c =>
    obtain ⟨-, rfl⟩ := Prod.mk.inj (Option.some.inj hs)
    exact ⟨h.inv, h.stamped, fun r hr => h.good r (List.mem_of_mem_filter hr)⟩

variable {now evictOpt : ℕ} {slabs : ℕ → Slab} {items : ItemPtr → Item}

/-- **Clients get what was queued.**  As long as no slab has more than 65535 references and no reply
is disturbed, what a client has received of a hit is the beginning of the value that was
queued, all of it when the reply is complete, and the cas id that a `gets` prints is the one that
the value had. -/
theorem reply_faithful
    (h : (sending cfg).Reaches (Calm cfg) ⟨.init cfg now evictOpt slabs items, []⟩ x) :
    ∀ r ∈ x.replies, r.out <+: r.value ∧ (r.out.length = r.len → r.out = r.value) ∧
      (r.gets = true → ∀ u, r.suffix = some u → u = r.cas) := by
  have hinv : x.Inv cfg := h.invariant ⟨Server.inv_init, Server.stamped_init, nofun⟩
    fun _ _ _ _ hI hs hC => hI.step hs hC
  intro r hr
  have hgood := hinv.good r hr
  refine ⟨hgood.out, fun hlen => hgood.out.eq_of_length (hlen.trans hgood.len.symm), hgood.printed⟩

/-- Steps that change no value in place. -/
def outOfPlace : Step → Bool
  | .call (.annex ..) => false
  | .call (.delta ..) => false
  | _ => true

theorem noneDisturbed_of_outOfPlace (x : Sending) {l : Step} (hl : outOfPlace l = true) :
    NoneDisturbed cfg x l := by
  cases l with
  | call l =>
    intro r _
    cases l with
    | annex c prepend ch => cases hl
    | delta key incr delta ch => cases hl
    | _ => exact ⟨fun _ => nofun, fun _ _ => ⟨nofun, nofun⟩⟩
  | _ => trivial

/-- The small server with nothing to send. -/
def tiny : Sending := ⟨.tiny evictLru, []⟩

/-- `a` is stored with value `12`; connection 1 asks for it with `gets` and its reply is queued. -/
def queueRun : List Step :=
  [.call (.tick 100), .call (.alloc 0 [97] 0 0 2 {}), .call (.fill 0 0 [49, 50, 13, 10]),
    .call (.set 0 {}), .call (.removeItem 0), .call (.get 1 [97]), .respond 1 ⟨0, 0⟩ true,
    .suffix 0]

/-- One byte is sent, `a` is replaced by `99`, and the other byte is sent. -/
theorem reply_faithful_replaced : ∃ x : Sending, (sending .tiny).Reaches (Calm .tiny) tiny x ∧
    x.server.store.view .tiny [97] = some ⟨[57, 57], 0, 0, 2⟩ ∧
      x.replies.map Reply.out = [[49, 50]] ∧
    ∀ r ∈ x.replies, r.out.length = r.len → r.out = r.value := by
  have hrun : ((sending .tiny).run (fun _ l x => !x.server.store.overflow && outOfPlace l) tiny
      (queueRun ++ [.transmit 0 1, .call (.alloc 0 [97] 0 0 2 {}),
        .call (.fill 0 0 [57, 57, 13, 10]), .call (.set 0 {}), .call (.removeItem 0),
          .transmit 0 1])).map
        (fun x => (x.server.store.view .tiny [97], x.replies.map Reply.out)) =
      some (some ⟨[57, 57], 0, 0, 2⟩, [[49, 50]]) := by decide +kernel
  obtain ⟨x, hx, heq⟩ := Option.map_eq_some_iff.1 hrun
  obtain ⟨hview, hout⟩ := Prod.mk.inj heq
  have hreach : (sending .tiny).Reaches (Calm .tiny) tiny x :=
    (Machine.reaches_of_run hx).mono fun x _ _ hG => by
      rw [Bool.and_eq_true, Bool.not_eq_true'] at hG
      exact ⟨hG.1, noneDisturbed_of_outOfPlace x hG.2⟩
  exact ⟨x, hreach, hview, hout, fun r hr => (reply_faithful hreach r hr).2.1⟩

/-- One byte of `12` is sent, `a` is incremented to `99` in place, and the other byte is sent: the
client gets `19`, which `a` never was. -/
theorem reply_torn : ∃ x : Sending, (sending .tiny).Reaches Machine.Unguarded tiny x ∧
    x.server.store.overflow = false ∧
    ∃ r ∈ x.replies, r.out.length = r.len ∧ r.out = [49, 57] ∧ r.value = [49, 50] := by
  have hrun : ((sending .tiny).run (fun _ _ _ => true) tiny (queueRun ++
      [.transmit 0 1, .call (.delta [97] true 87 {}), .transmit 0 1])).map
        (fun x => (x.server.store.overflow, x.replies.map fun r => (r.out, r.len, r.value))) =
      some (false, [([49, 57], 2, [49, 50])]) := by decide +kernel
  obtain ⟨x, hx, heq⟩ := Option.map_eq_some_iff.1 hrun
  obtain ⟨hov, hout⟩ := Prod.mk.inj heq
  have hmem : ([49, 57], 2, [49, 50]) ∈ x.replies.map fun r => (r.out, r.len, r.value) := by
    rw [hout]
    exact List.mem_singleton_self _
  obtain ⟨r, hr, heq⟩ := List.mem_map.1 hmem
  obtain ⟨hr₁, heq⟩ := Prod.mk.inj heq
  obtain ⟨hr₂, hr₃⟩ := Prod.mk.inj heq
  have hlen : r.out.length = r.len := by
    rw [hr₁, hr₂]
    rfl
  exact ⟨x, (Machine.reaches_of_run hx).mono fun _ _ _ _ => trivial, hov, r, hr, hlen, hr₁, hr₃⟩

end Sending

end Twemcache
