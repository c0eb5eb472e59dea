import Twemcache.Conn.Noreply
import Twemcache.Conn.Share
import Twemcache.Machine.Family

/-!
# The system

All connections together: each has its own state and its own peer, and they share the store and the
settings. Connections come at any time, events and turns of different connections are interleaved in
any order, and between them the maintenance thread moves buckets and the clock goes on.

A turn is one step here.  With one worker thread this is how connections take turns; with several,
the calls that two turns make into the store can be interleaved, and what holds across these
interleavings is said of `server`, which takes one call at a time.

## Main definitions

* `Client` : a connection and its peer.
* `Commons` : what connections share.
* `system` : the machine.
* `System.NoWrap`, `System.Orderly` : runs without overflow of a count, and runs in which no
  reference is lost.

## Main results

* `System.client_reaches` : a run of the system is a run of each connection, with a store that
  changes in between.
-/

namespace Twemcache

/-- A connection and its peer. -/
structure Client where
  /-- The connection. -/
  conn : Conn
  /-- What the peer of a TCP connection sends and was not read yet. -/
  input : List UInt8
  /-- `core_drive_machine` is running. -/
  running : Bool
  /-- How many requests may still be started before the connection has to yield. -/
  nreqs : ℤ

/-- What connections share. -/
structure Commons where
  /-- The store. -/
  store : Store
  /-- The settings. -/
  set : Settings

/-- The connection in its surroundings. -/
def Client.session (o : Client) (g : Commons) :
    Session := ⟨o.conn, g.store, g.set, o.input, o.running, o.nreqs⟩

/-- The connection without its surroundings. -/
def Session.client (w : Session) : Client := ⟨w.conn, w.input, w.running, w.nreqs⟩

/-- The surroundings. -/
def Session.commons (w : Session) : Commons := ⟨w.store, w.set⟩

/-- A new connection: what its peer is about to send, and what is in the memory that `conn_get`
gets; `allocs` are the allocations for this connection that succeed and fail. -/
structure Arrival where
  /-- The connection is a UDP connection. -/
  udp : Bool
  /-- What the peer of a TCP connection will send. -/
  stream : List UInt8
  /-- The memory of the read buffer. -/
  mem : ℕ → UInt8
  /-- The memory of the item list. -/
  ilist : ℕ → ItemPtr
  /-- The memory of the suffix list. -/
  slist : ℕ → ℕ
  /-- The memory of the vectors. -/
  iov : ℕ → List UInt8
  /-- The memory of the message headers. -/
  msg : ℕ → Msghdr
  /-- Which allocations succeed. -/
  allocs : List Bool

/-- The connection that `conn_get` returns. -/
def Arrival.client (b : Arrival) : Client :=
  ⟨.init b.udp b.mem b.ilist b.slist b.iov b.msg b.allocs, b.stream, false, 0⟩

/-- What a connection does. -/
inductive Act where
  /-- An event on the socket: `core_drive_machine` is called, with `reqs_per_event` requests. -/
  | event (reqsPerEvent : ℕ)
  /-- A turn. -/
  | turn (io : Session.Io)

/-- What happens besides. -/
inductive Beat where
  /-- The maintenance thread moves a bucket. -/
  | moveBucket
  /-- The clock. -/
  | tick (now : ℕ)

/-- The step of the session. -/
def Act.label : Act → SessionLabel
  | .event n => .event n
  | .turn io => .turn io

/-- The call. -/
def Beat.label : Beat → Label
  | .moveBucket => .moveBucket
  | .tick now => .tick now

/-- What connections do. -/
def connections (cfg : Config) : Machine (Client × Commons) Act Unit where
  step x a :=
    ((session cfg).step (x.1.session x.2) a.label).map fun r => ((), (r.2.client, r.2.commons))

/-- What happens besides. -/
def beats (cfg : Config) : Machine Commons Beat Unit where
  step g
    | .moveBucket => some ((), { g with store := g.store.assocMoveBucket cfg })
    | .tick now =>
      if g.store.now ≤ now ∧
        now < 2 ^ 32 then some ((), { g with store := { g.store with now := now } }) else none

/-- All connections together; names of connections are not used twice. -/
def system (cfg : Config) :
    Machine (Family ℕ Client Commons) (FamilyLabel ℕ Arrival Act Beat) Unit :=
  Machine.family Arrival.client (connections cfg) (beats cfg)

namespace System

/-- The state after start-up. -/
def init (cfg : Config) (now evictOpt : ℕ) (slabs : ℕ → Slab) (items : ItemPtr → Item)
    (set : Settings) :
    Family ℕ Client Commons where
  member _ := none
  shared := ⟨.init cfg now evictOpt slabs items, set⟩

/-- What a connection does, where no slab has more than 65535 references. -/
def ActNoWrap (_ : Client × Commons) (_ : Act) (y : Client × Commons) :
    Prop := y.2.store.overflow = false

/-- What happens besides, where no slab has more than 65535 references. -/
def BeatNoWrap (_ : Commons) (_ : Beat) (y : Commons) : Prop := y.store.overflow = false

/-- Steps after which no slab has more than 65535 references. -/
def NoWrap :
    Family ℕ Client Commons → FamilyLabel ℕ Arrival Act Beat → Family ℕ Client Commons → Prop :=
  Family.Allows ActNoWrap BeatNoWrap

/-- What a connection does, if it loses no reference by it. -/
def ActOrderly (cfg : Config) (x : Client × Commons) (a : Act) (y : Client × Commons) : Prop :=
  ActNoWrap x a y ∧ ∀ io, a = .turn io → Session.Orderly cfg (x.1.session x.2) (y.1.session y.2)

/-- Runs in which no `get` that has found an item comes to a key that is too long or lacks memory
for the end of its reply, and no reply of items to a datagram is given up. -/
def Orderly (cfg : Config) :
    Family ℕ Client Commons → FamilyLabel ℕ Arrival Act Beat → Family ℕ Client Commons → Prop :=
  Family.Allows (ActOrderly cfg) BeatNoWrap

instance (x : Client × Commons) (a : Act) (y : Client × Commons) : Decidable (ActNoWrap x a y) :=
  inferInstanceAs (Decidable (_ = _))

instance (x : Commons) (e : Beat) (y : Commons) :
    Decidable (BeatNoWrap x e y) := inferInstanceAs (Decidable (_ = _))

/-- The step is a turn. -/
def isTurn : Act → Bool
  | .event _ => false
  | .turn _ => true

theorem isTurn_iff {S : Prop} {a : Act} : (isTurn a = true → S) ↔ ∀ io, a = .turn io → S := by
  cases a with
  | event n => simp [isTurn]
  | turn io => simp [isTurn]

instance decidableTurn {S : Prop} [Decidable S] (a : Act) : Decidable (∀ io, a = .turn io → S) :=
  decidable_of_iff _ isTurn_iff

instance (cfg : Config) (x : Client × Commons) (a : Act) (y : Client × Commons) :
    Decidable (ActOrderly cfg x a y) :=
  inferInstanceAs (Decidable (_ ∧ ∀ io, a = .turn io → _))

instance (x : Family ℕ Client Commons) (l : FamilyLabel ℕ Arrival Act Beat)
    (y : Family ℕ Client Commons) :
    Decidable (NoWrap x l y) := Family.decidableAllows x l y

instance (cfg : Config) (x : Family ℕ Client Commons) (l : FamilyLabel ℕ Arrival Act Beat)
    (y : Family ℕ Client Commons) :
    Decidable (Orderly cfg x l y) := Family.decidableAllows x l y

theorem Orderly.noWrap {cfg : Config} {x y : Family ℕ Client Commons}
    {l : FamilyLabel ℕ Arrival Act Beat} (h : Orderly cfg x l y) : NoWrap x l y := by
  cases l with
  | enter i b => trivial
  | act i a => exact fun o o' ho ho' => (h o o' ho ho').1
  | env e => exact h

variable {cfg : Config} {o o' : Client} {g g' : Commons} {a : Act} {e : Beat}

theorem opened_arrival (b : Arrival) (g : Commons) : (b.client.session g).Opened b.udp b.stream :=
  ⟨⟨b.mem, b.ilist, b.slist, b.iov, b.msg, b.allocs, rfl⟩, rfl, rfl⟩

/-- What a connection does is a step of its session. -/
theorem connections_step {u : Unit} (h : (connections cfg).step (o, g) a = some (u, (o', g'))) :
    (session cfg).step (o.session g) a.label = some ((), o'.session g') := by
  obtain ⟨⟨r, w⟩, hw, heq⟩ := Option.map_eq_some_iff.1 h
  obtain ⟨rfl, rfl⟩ := Prod.mk.inj (Prod.mk.inj heq).2
  exact hw

/-- A turn of a connection. -/
theorem connections_turn {u : Unit} {io : Session.Io}
    (h : (connections cfg).step (o, g) (.turn io) = some (u, (o', g'))) :
    (o.session g).turn cfg io = some (o'.session g') := by
  obtain ⟨-, heq⟩ := Option.ite_none_right_eq_some.1 (connections_step h)
  obtain ⟨w, hw, heq⟩ := Option.map_eq_some_iff.1 heq
  obtain ⟨-, rfl⟩ := Prod.mk.inj heq
  exact hw

/-- What happens besides is a call. -/
theorem beats_step {u : Unit} (h : (beats cfg).step g e = some (u, g')) (refs : List Ref) :
    Server.step cfg ⟨g.store, refs⟩ e.label = some (.done, ⟨g'.store, refs⟩) := by
  cases e with
  | moveBucket =>
    obtain ⟨-, rfl⟩ := Prod.mk.inj (Option.some.inj h)
    rfl
  | tick now =>
    obtain ⟨hnow, heq⟩ := Option.ite_none_right_eq_some.1 h
    obtain ⟨-, rfl⟩ := Prod.mk.inj (Option.some.inj heq)
    exact if_pos hnow

/-! ### Every connection by itself -/

/-- **A run of the system is a run of each connection** from its arrival on, in which the rest of
the system changes the store and the settings between the steps of the connection. -/
theorem client_reaches {Ca : Client × Commons → Act → Client × Commons → Prop}
    {Ce : Commons → Beat → Commons → Prop} {C : Session → SessionLabel → Session → Prop}
    (hact : ∀ o g a o' g', Ca (o, g) a (o', g') → C (o.session g) a.label (o'.session g'))
    (hworld : ∀ o g g' a o' g'', Ca (o, g') a (o', g'') →
      C (o.session g) (.world g'.store g'.set) (o.session g'))
    {now evictOpt : ℕ} {slabs : ℕ → Slab} {items : ItemPtr → Item} {set : Settings}
    {x : Family ℕ Client Commons} {ls : List (FamilyLabel ℕ Arrival Act Beat)}
    (h : (system cfg).Path (Family.Allows Ca Ce) (init cfg now evictOpt slabs items set) ls x)
    {i : ℕ} (ho : x.member i = some o) : ∃ b : Arrival, .enter i b ∈ ls ∧ ∃ g₀ g,
      (session cfg).Reaches C (b.client.session g₀) (o.session g) := by
  have hstep : ∀ (l : Client) (g₀ g : Commons) (a : Act) (r : Unit) (l' : Client) (g' : Commons),
      (connections cfg).step (l, g) a = some (r, (l', g')) → Ca (l, g) a (l', g') →
      (session cfg).Reaches C (l.session g₀) (l'.session g') := by
    intro l g₀ g a r l' g' hst hC
    -- first the others, then the connection
    have hmoved : (session cfg).step (l.session g₀) (.world g.store g.set) =
        some ((), l.session g) := rfl
    have hfirst : (session cfg).Reaches C (l.session g₀) (l.session g) :=
      Machine.Reaches.tail .refl hmoved (hworld l g₀ g a l' g' hC)
    exact hfirst.tail (connections_step hst) (hact l g a l' g' hC)
  rcases Machine.family_member hstep h ho with ⟨l₀, g, hnone, -⟩ | ⟨-, b, g₀, g, hb, hr⟩
  · cases hnone
  · exact ⟨b, hb, g₀, g, hr⟩

/-! ### A small system -/

theorem roomy_pos (id : ℕ) (_ : slabclassMinId ≤ id) (_ : id ≤ 1) : 0 < 512 := by decide

theorem roomy_le (id : ℕ) (_ : slabclassMinId ≤ id) (_ : id ≤ 1) : 512 ≤ 1024 := by decide

/-- A heap of one slab with two chunks of 512 bytes. -/
def roomy : Config where
  useCas := true
  useFreeq := true
  useLruq := true
  hashPower := 0
  hash := fun key => key.length.toUInt32
  processStarted := 1000
  itemHdrSize := 49
  slabSize := 1024
  maxId := 1
  profile := fun _ => 512
  maxNslab := 1
  maxId_le := Config.one_maxId
  profile_pos := roomy_pos
  profile_le := roomy_le

/-- Items with a number for value fit into the chunks. -/
theorem roomy_fits (key : Key) (hkey : key.length ≤ keyMaxLen) : roomy.DeltaFits key := by
  intro nbyte hn
  have hsize : ¬ itemNtotal roomy key.length nbyte roomy.useCas >
      roomy.profile ((slabclassMinId + roomy.maxId) / 2) := by
    show ¬ 8 + 49 + key.length + 1 + nbyte + 2 > 512
    have hlen : key.length ≤ 250 := hkey
    omega
  unfold itemSlabid slabId
  rw [slabIdLoop, if_pos (by decide)]
  dsimp only
  rw [if_neg hsize, if_neg fun h => absurd h.1 (by decide)]
  decide

/-- The small system after start-up, at time 2. -/
def small : Family ℕ Client Commons :=
  init roomy 2 evictLru (fun _ => ⟨0, 0, 0, 0⟩)
    (fun _ => ⟨0, 0, 0, 0, 0, {}, 0, [], 0, fun _ => 0, 0⟩)
    (.initial fun _ => 0)

/-- A TCP connection whose peer sends `stream`. -/
def caller (stream : List UInt8) : Arrival where
  udp := false
  stream := stream
  mem := fun _ => 0
  ilist := fun _ => ⟨0, 0⟩
  slist := fun _ => 0
  iov := fun _ => []
  msg := fun _ => ⟨0, 0⟩
  allocs := []

/-- Turns of one connection. -/
def turns (i : ℕ) (ios : List Session.Io) :
    List (FamilyLabel ℕ Arrival Act Beat) := ios.map fun io => .act i (.turn io)

/-- A `set`, and another one whose data block is not there yet. -/
def oneAndHalf : List UInt8 :=
  ascii "set a 0 0 1 noreply" ++ crlf ++ ascii "X" ++ crlf ++ ascii "set b 0 0 1 noreply" ++ crlf

/-- One connection stores an item and waits for the block of another one, while a second connection
reads the first. -/
def busyRun : List (FamilyLabel ℕ Arrival Act Beat) :=
  [.enter 0 (caller (oneAndHalf ++ ascii "Y" ++ crlf)), .enter 1 (caller (ascii "get a" ++ crlf)),
    .act 0 (.event 20)] ++ turns 0 [.newCmd true, .wait true] ++
      [.act 0 (.event 20), .act 1 (.event 20)] ++
    turns 0 [.readTcp [.data oneAndHalf], .parse {}] ++ turns 1 [.newCmd true, .wait true] ++
    turns 0 [.nread none true {}, .nread none true {}, .newCmd true, .parse {}] ++
    [.act 1 (.event 20), .env (.tick 3)] ++
      turns 1 [.readTcp [.data (ascii "get a" ++ crlf)], .parse { fuel := 2 }]

/-- Then the reply is sent, and the block comes. -/
def idleRun : List (FamilyLabel ℕ Arrival Act Beat) :=
  busyRun ++ turns 1 [.send (.sent 21), .send (.sent 0), .newCmd true, .wait true] ++
    turns 0 [.nread (some (.data (ascii "Y" ++ crlf))) true {}, .nread none true {}, .newCmd true,
      .wait true] ++
    [.env .moveBucket]

/-- The system while both connections hold an item. -/
def busy :
    Family ℕ Client Commons :=
      (system roomy).exec (fun x l y => decide (Orderly roomy x l y)) small busyRun

/-- The system when both connections wait for requests. -/
def idle :
    Family ℕ Client Commons :=
      (system roomy).exec (fun x l y => decide (Orderly roomy x l y)) small idleRun

theorem reaches_busy : (system roomy).Reaches (Orderly roomy) small busy :=
  (Machine.reaches_exec (by decide +kernel)).mono fun _ _ _ => of_decide_eq_true

theorem reaches_busy_noWrap :
    (system roomy).Reaches NoWrap small busy := reaches_busy.mono fun _ _ _ => Orderly.noWrap

theorem reaches_idle : (system roomy).Reaches (Orderly roomy) small idle :=
  (Machine.reaches_exec (by decide +kernel)).mono fun _ _ _ => of_decide_eq_true

end System

end Twemcache
