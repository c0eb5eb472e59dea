import Twemcache.Machine.Basic
import Twemcache.Ring.Basic

/-!
# The ring array between two threads

One thread pushes and one pops.  A call takes its snapshot of the index of the other side first, and
stores its own index last; in between the other side may take any number of steps.  A stale snapshot
only makes the queue look fuller to the pusher, and emptier to the popper, than it has become.

## Main definitions

* `ringMachine` : the interleavings of one pusher and one popper.
* `RingHistory` : the elements pushed and popped so far, and the queues at the snapshots.
* `FifoStep` : a queue of at most `cap` elements.
* `Shared.Progress` : the next step of each side can be taken, and a call ends after two of them.

## Main results

* `Shared.push_alone`, `Shared.pop_alone` : without the other side, the steps of a call are
  `ring_array_push` and `ring_array_pop`.
* `Shared.refines_fifo` : under all interleavings the ring array is a first-in first-out queue.
-/

namespace Twemcache

/-- How far the pusher has come in `ring_array_push`. -/
inductive PushPhase (α : Type) where
  /-- Outside. -/
  | idle
  /-- The snapshot of `rpos` is taken. -/
  | started (elem : α) (rpos : UInt32)
  /-- The element is copied, and `wpos` is not stored yet. -/
  | written (elem : α)

/-- How far the popper has come in `ring_array_pop`. -/
inductive PopPhase (α : Type) where
  /-- Outside. -/
  | idle
  /-- The snapshot of `wpos` is taken. -/
  | started (wpos : UInt32)
  /-- The element is copied, and `rpos` is not stored yet. -/
  | copied (elem : α)

/-- A ring array with a pusher and a popper. -/
structure Shared (α : Type) where
  /-- The ring. -/
  ring : Ring α
  /-- The pusher. -/
  pusher : PushPhase α
  /-- The popper. -/
  popper : PopPhase α

/-- The steps of the two sides. -/
inductive RingLabel (α : Type) where
  /-- `ring_array_push` is called, and reads `rpos`. -/
  | pushStart (elem : α)
  /-- The test for a full ring, and `memcpy`. -/
  | pushWrite
  /-- `wpos` is stored. -/
  | pushStore
  /-- `ring_array_pop` is called, and reads `wpos`. -/
  | popStart
  /-- The test for an empty ring, and `memcpy`. -/
  | popCopy
  /-- `rpos` is stored. -/
  | popStore

/-- How a call ends. -/
inductive RingAnswer (α : Type) where
  /-- It has not ended. -/
  | none
  /-- `MC_OK` of `ring_array_push`. -/
  | pushed (elem : α)
  /-- `MC_ERROR` of `ring_array_push`. -/
  | pushFailed
  /-- `MC_OK` of `ring_array_pop`. -/
  | popped (elem : α)
  /-- `MC_ERROR` of `ring_array_pop`. -/
  | popFailed

variable {α : Type}

/-- The interleavings; a division by zero has no next state. -/
def ringMachine (α : Type) : Machine (Shared α) (RingLabel α) (RingAnswer α) where
  step s
    | .pushStart elem =>
      match s.pusher with
      | .idle => some (.none, { s with pusher := .started elem s.ring.rpos })
      | _ => none
    | .pushWrite =>
      match s.pusher with
      | .started elem rpos =>
        if ringArrayFull rpos s.ring.wpos s.ring.cap then some
          (.pushFailed, { s with pusher := .idle })
        else some (.none, { s with
          ring.data := Function.update s.ring.data s.ring.wpos.toNat elem
          pusher := .written elem })
      | _ => none
    | .pushStore =>
      match s.pusher with
      | .written elem =>
        match s.ring.next s.ring.wpos with
        | .ok newWpos => some (.pushed elem, { s with ring.wpos := newWpos, pusher := .idle })
        | .error _ => none
      | _ => none
    | .popStart =>
      match s.popper with
      | .idle => some (.none, { s with popper := .started s.ring.wpos })
      | _ => none
    | .popCopy =>
      match s.popper with
      | .started wpos =>
        if ringArrayEmpty s.ring.rpos wpos then some (.popFailed, { s with popper := .idle })
        else some (.none, { s with popper := .copied (s.ring.data s.ring.rpos.toNat) })
      | _ => none
    | .popStore =>
      match s.popper with
      | .copied elem =>
        match s.ring.next s.ring.rpos with
        | .ok newRpos => some (.popped elem, { s with ring.rpos := newRpos, popper := .idle })
        | .error _ => none
      | _ => none

/-- The step is one of the pusher. -/
def RingLabel.ofPusher : RingLabel α → Bool
  | .pushStart _ | .pushWrite | .pushStore => true
  | .popStart | .popCopy | .popStore => false

/-- Neither side waits for the other: its next step can be taken, and its call ends with the step
after the snapshot or with the one after that; the steps of the other side leave it where it is. -/
structure Shared.Progress (s : Shared α) : Prop where
  /-- A push can start. -/
  pushStart : s.pusher = .idle → ∀ elem, ∃ t, (ringMachine α).step s (.pushStart elem) =
    some (.none, t)
  /-- A push that has started fails, or copies its element. -/
  pushWrite : ∀ elem rpos, s.pusher = .started elem rpos →
    ∃ a t, (ringMachine α).step s .pushWrite = some (a, t) ∧
    (a = .pushFailed ∧ t.pusher = .idle ∨ a = .none ∧ t.pusher = .written elem)
  /-- A push whose element is copied succeeds. -/
  pushStore : ∀ elem, s.pusher = .written elem →
    ∃ t, (ringMachine α).step s .pushStore = some (.pushed elem, t) ∧ t.pusher = .idle
  /-- A pop can start. -/
  popStart : s.popper = .idle → ∃ t, (ringMachine α).step s .popStart = some (.none, t)
  /-- A pop that has started fails, or copies an element. -/
  popCopy : ∀ wpos, s.popper = .started wpos →
    ∃ a t, (ringMachine α).step s .popCopy = some (a, t) ∧
    (a = .popFailed ∧ t.popper = .idle ∨ a = .none ∧ ∃ elem, t.popper = .copied elem)
  /-- A pop whose element is copied succeeds. -/
  popStore : ∀ elem, s.popper = .copied elem →
    ∃ t, (ringMachine α).step s .popStore = some (.popped elem, t) ∧ t.popper = .idle
  /-- The other side does not matter. -/
  apart : ∀ l a t, (ringMachine α).step s l = some (a, t) →
    if l.ofPusher then t.popper = s.popper else t.pusher = s.pusher

/-! ### One side alone -/

namespace Shared

variable {r r' : Ring α} {elem : α} {pusher : PushPhase α} {popper : PopPhase α}

/-- The steps of a call of `ring_array_push` that is not interrupted. -/
theorem push_alone (h : r.push elem = .ok r') :
    (ringMachine α).run (fun _ _ _ => true) ⟨r, .idle, popper⟩
      [.pushStart elem, .pushWrite, .pushStore] =
      some ⟨r', .idle, popper⟩ := by
  rw [Ring.push] at h
  split at h
  · cases h
  · rename_i hfull
    have hnext : ∃ pos, r.next r.wpos = .ok pos ∧
        r' = { r with data := Function.update r.data r.wpos.toNat elem, wpos := pos } := by
      cases hres : r.next r.wpos with
      | error e =>
        rw [hres] at h
        cases h
      | ok pos =>
        rw [hres] at h
        exact ⟨pos, rfl, (Except.ok.inj h).symm⟩
    obtain ⟨pos, hpos, rfl⟩ := hnext
    rw [Bool.not_eq_true] at hfull
    have hpos' : ({ r with data := Function.update r.data r.wpos.toNat elem } : Ring α).next
        r.wpos = .ok pos := hpos
    simp [Machine.run, ringMachine, hfull, hpos']

/-- The steps of a call of `ring_array_pop` that is not interrupted. -/
theorem pop_alone (h : r.pop = .ok (elem, r')) :
    (ringMachine α).run (fun _ _ _ => true) ⟨r, pusher, .idle⟩ [.popStart, .popCopy, .popStore] =
      some ⟨r', pusher, .idle⟩ := by
  rw [Ring.pop] at h
  split at h
  · cases h
  · rename_i hempty
    have hnext : ∃ pos, r.next r.rpos = .ok pos ∧ r' = { r with rpos := pos } := by
      cases hres : r.next r.rpos with
      | error e =>
        rw [hres] at h
        cases h
      | ok pos =>
        rw [hres] at h
        exact ⟨pos, rfl, (Prod.mk.inj (Except.ok.inj h)).2.symm⟩
    obtain ⟨pos, hpos, rfl⟩ := hnext
    rw [Bool.not_eq_true] at hempty
    simp [Machine.run, ringMachine, hempty, hpos]

end Shared

/-! ### The record -/

/-- What has happened so far. -/
structure RingHistory (α : Type) where
  /-- The elements pushed. -/
  pushed : List α
  /-- The elements popped. -/
  popped : List α
  /-- The queue when the pusher took its snapshot. -/
  pushSnap : List α
  /-- The queue when the popper took its snapshot. -/
  popSnap : List α

/-- How the record is kept. -/
def ringRecord (s : Shared α) (l : RingLabel α) (_ : Shared α) (g : RingHistory α) :
    RingHistory α :=
  match l with
  | .pushStart _ => { g with pushSnap := s.ring.elems }
  | .pushWrite => g
  | .pushStore =>
    match s.pusher with
    | .written elem => { g with pushed := g.pushed ++ [elem] }
    | _ => g
  | .popStart => { g with popSnap := s.ring.elems }
  | .popCopy => g
  | .popStore =>
    match s.popper with
    | .copied elem => { g with popped := g.popped ++ [elem] }
    | _ => g

/-- The interleavings with a record. -/
def recordedRing (α : Type) : Machine (Shared α × RingHistory α) (RingLabel α) (RingAnswer α) :=
  (ringMachine α).traced ringRecord

/-- A first-in first-out queue of at most `cap` elements. -/
inductive FifoStep (cap : ℕ) : List α → RingAnswer α → List α → Prop
  /-- Nothing is to be seen. -/
  | stay {q : List α} : FifoStep cap q .none q
  /-- An element is appended. -/
  | push {q : List α} {elem : α} (hlt : q.length < cap) : FifoStep cap q (.pushed elem)
      (q ++ [elem])
  /-- The first element is taken. -/
  | pop {q : List α} {elem : α} : FifoStep cap (elem :: q) (.popped elem) q
  /-- A push fails. -/
  | pushFailed {q : List α} : FifoStep cap q .pushFailed q
  /-- A pop fails. -/
  | popFailed {q : List α} : FifoStep cap q .popFailed q

/-- The slots of the elements are not written. -/
def KeepsSlots (r r' : Ring α) : Prop :=
  ∀ i < r.nelem, r'.data ((r.rpos.toNat + i) % r.cells) = r.data ((r.rpos.toNat + i) % r.cells)

/-! ### The invariant -/

/-- Indices that count on for ever are apart by what is between their remainders. -/
theorem span_mod {c p q : ℕ} (hc : 0 < c) (hle : q ≤ p) (hlt : p - q < c) :
    Circular.span c (q % c) (p % c) = p - q := by
  have hq := Nat.mod_lt q hc
  have hspan :=
    Circular.span_write (n := p - q) hq hq (by rw [Circular.span_self, Nat.zero_add]; exact hlt)
  rwa [Circular.span_self, Nat.zero_add, Nat.mod_add_mod, Nat.add_sub_cancel' hle] at hspan

namespace Ring

variable {r : Ring α} {pos : UInt32} {n : ℕ}

theorem cells_pos (r : Ring α) : 0 < r.cells := Nat.succ_pos _

/-- A position that is that of an index, modulo the number of cells. -/
def At (r : Ring α) (pos : UInt32) (n : ℕ) : Prop := pos.toNat = n % r.cells

theorem At.lt (h : r.At pos n) : pos.toNat < r.cells := by
  rw [h]
  exact Nat.mod_lt _ r.cells_pos

/-- The slot after the last element is that of no element. -/
theorem slot_ne {p q i : ℕ} (hlt : p < q + r.cap.toNat) (hle : q ≤ i) (hi : i < p) :
    i % r.cells ≠ p % r.cells := by
  have hcells : p - i < r.cells := by
    rw [cells]
    omega
  have hne := Circular.mod_ne_of_lt (i := i) (Nat.sub_pos_of_lt hi) hcells
  rwa [Nat.add_zero, Nat.add_sub_cancel' hi.le] at hne

end Ring

/-- What holds of the pusher: its snapshot is of the past, and the pusher alone makes the queue
longer. -/
def PushPhase.Sound (r : Ring α) (g : RingHistory α) : PushPhase α → Prop
  | .idle => True
  | .started _ rpos => ∃ q, r.At rpos q ∧ q ≤ g.popped.length ∧ g.pushed.length ≤ q + r.cap.toNat ∧
      g.pushSnap.length = g.pushed.length - q
  | .written elem =>
    g.pushed.length < g.popped.length + r.cap.toNat ∧ r.data (g.pushed.length % r.cells) = elem

/-- What holds of the popper: its snapshot is of the past, and the popper alone makes the queue
shorter. -/
def PopPhase.Sound (r : Ring α) (g : RingHistory α) : PopPhase α → Prop
  | .idle => True
  | .started wpos => ∃ p, r.At wpos p ∧ g.popped.length ≤ p ∧ p ≤ g.pushed.length ∧
      g.popSnap.length = p - g.popped.length
  | .copied elem => g.pushed[g.popped.length]? = some elem

/-- The invariant: the positions are the numbers of elements pushed and popped, and the cells
between them hold the elements that are still to be popped. -/
structure Linked (cap : UInt32) (s : Shared α) (g : RingHistory α) : Prop where
  /-- The capacity does not change. -/
  cap_eq : s.ring.cap = cap
  /-- The number of cells can be represented. -/
  cells : s.ring.cells < 2 ^ 32
  /-- What was popped was pushed. -/
  taken : g.popped = g.pushed.take g.popped.length
  /-- No more is popped than was pushed. -/
  le : g.popped.length ≤ g.pushed.length
  /-- No more is in the queue than its capacity. -/
  room : g.pushed.length ≤ g.popped.length + s.ring.cap.toNat
  /-- The read position. -/
  rpos : s.ring.At s.ring.rpos g.popped.length
  /-- The write position. -/
  wpos : s.ring.At s.ring.wpos g.pushed.length
  /-- The cells. -/
  held : ∀ i, g.popped.length ≤ i → i < g.pushed.length →
    g.pushed[i]? = some (s.ring.data (i % s.ring.cells))
  /-- The pusher. -/
  pusher : s.pusher.Sound s.ring g
  /-- The popper. -/
  popper : s.popper.Sound s.ring g

namespace Linked

variable {cap : UInt32} {s s' : Shared α} {g : RingHistory α} {l : RingLabel α} {a : RingAnswer α}

theorem wf (h : Linked cap s g) : s.ring.Wf where
  cells := h.cells
  rpos := h.rpos.lt
  wpos := h.wpos.lt

theorem sub_lt (h : Linked cap s g) : g.pushed.length - g.popped.length < s.ring.cells := by
  have hroom := h.room
  rw [Ring.cells]
  omega

theorem nelem_eq (h : Linked cap s g) : s.ring.nelem = g.pushed.length - g.popped.length := by
  rw [Ring.nelem, h.rpos, h.wpos, span_mod s.ring.cells_pos h.le h.sub_lt]

/-- The ring holds what was pushed and is still to be popped. -/
theorem elems_eq (h : Linked cap s g) : s.ring.elems = g.pushed.drop g.popped.length := by
  refine List.ext_getElem? fun i => ?_
  rw [Ring.elems, h.nelem_eq, Circular.slice, List.getElem?_map, List.getElem?_drop]
  rcases Nat.lt_or_ge i (g.pushed.length - g.popped.length) with hlt | hge
  · rw [List.getElem?_range hlt, h.held (g.popped.length + i) (Nat.le_add_right _ _) (by omega),
      Option.map_some, h.rpos, Nat.mod_add_mod]
  · rw [List.getElem?_eq_none (by rw [List.length_range]; exact hge),
      List.getElem?_eq_none (by omega), Option.map_none]

theorem length_elems (h : Linked cap s g) :
    s.ring.elems.length = g.pushed.length - g.popped.length := by
  rw [h.elems_eq, List.length_drop]

/-- A full ring, according to a snapshot, was full at the snapshot. -/
theorem full_iff (h : Linked cap s g) {pos : UInt32} {q : ℕ} (hpos : s.ring.At pos q)
    (hle : q ≤ g.pushed.length) (hroom : g.pushed.length ≤ q + s.ring.cap.toNat) :
    ringArrayFull pos s.ring.wpos s.ring.cap = true ↔ g.pushed.length = q + s.ring.cap.toNat := by
  have hwf : ({ s.ring with rpos := pos } : Ring α).Wf :=
    ⟨h.cells, hpos.lt, h.wf.wpos⟩
  have hnelem : ({ s.ring with rpos := pos } : Ring α).nelem = g.pushed.length - q := by
    change Circular.span s.ring.cells pos.toNat s.ring.wpos.toNat = _
    rw [hpos, h.wpos, span_mod s.ring.cells_pos hle (by rw [Ring.cells]; omega)]
  have hiff := hwf.full_iff
  rw [hnelem] at hiff
  change ringArrayFull pos s.ring.wpos s.ring.cap = true ↔
      g.pushed.length - q = s.ring.cap.toNat at hiff
  exact hiff.trans ⟨fun heq => by omega, fun heq => by omega⟩

/-- An empty ring, according to a snapshot, was empty at the snapshot. -/
theorem empty_iff (h : Linked cap s g) {pos : UInt32} {p : ℕ} (hpos : s.ring.At pos p)
    (hle : g.popped.length ≤ p) (hp : p ≤ g.pushed.length) :
    ringArrayEmpty s.ring.rpos pos = true ↔ p = g.popped.length := by
  have hwf : ({ s.ring with wpos := pos } : Ring α).Wf :=
    ⟨h.cells, h.wf.rpos, hpos.lt⟩
  have hsub := h.sub_lt
  have hnelem : ({ s.ring with wpos := pos } : Ring α).nelem = p - g.popped.length := by
    change Circular.span s.ring.cells s.ring.rpos.toNat pos.toNat = _
    rw [hpos, h.rpos, span_mod s.ring.cells_pos hle (by omega)]
  have hiff := hwf.empty_iff
  rw [← List.length_eq_zero_iff, Ring.length_elems, hnelem] at hiff
  exact hiff.trans ⟨fun heq => by omega, fun heq => by omega⟩

/-- A position is moved on. -/
theorem next_at (h : Linked cap s g) {pos : UInt32} {n : ℕ} (hpos : s.ring.At pos n) :
    ∃ pos', s.ring.next pos = .ok pos' ∧ s.ring.At pos' (n + 1) := by
  obtain ⟨pos', hnext, hpos'⟩ := h.wf.next_eq hpos.lt
  refine ⟨pos', hnext, ?_⟩
  rw [Ring.At, hpos', hpos, Nat.mod_add_mod]

/-! ### Steps -/

/-- The steps of the pusher and of the popper. -/
inductive Stepped (s : Shared α) : RingLabel α → RingAnswer α → Shared α → Prop
  /-- The pusher takes its snapshot. -/
  | pushStart {elem : α} (hidle : s.pusher = .idle) :
      Stepped s (.pushStart elem) .none { s with pusher := .started elem s.ring.rpos }
  /-- The ring seems to be full. -/
  | pushFailed {elem : α} {rpos : UInt32} (hphase : s.pusher = .started elem rpos)
      (hfull : ringArrayFull rpos s.ring.wpos s.ring.cap = true) :
      Stepped s .pushWrite .pushFailed { s with pusher := .idle }
  /-- The element is copied. -/
  | pushWrite {elem : α} {rpos : UInt32} (hphase : s.pusher = .started elem rpos)
      (hfull : ¬ ringArrayFull rpos s.ring.wpos s.ring.cap = true) :
      Stepped s .pushWrite .none { s with
        ring.data := Function.update s.ring.data s.ring.wpos.toNat elem
        pusher := .written elem }
  /-- The pusher stores its position. -/
  | pushStore {elem : α} {pos : UInt32} (hphase : s.pusher = .written elem)
      (hnext : s.ring.next s.ring.wpos = .ok pos) :
      Stepped s .pushStore (.pushed elem) { s with ring.wpos := pos, pusher := .idle }
  /-- The popper takes its snapshot. -/
  | popStart (hidle : s.popper = .idle) : Stepped s .popStart .none
      { s with popper := .started s.ring.wpos }
  /-- The ring seems to be empty. -/
  | popFailed {wpos : UInt32} (hphase : s.popper = .started wpos)
      (hempty : ringArrayEmpty s.ring.rpos wpos = true) :
      Stepped s .popCopy .popFailed { s with popper := .idle }
  /-- The element is copied. -/
  | popCopy {wpos : UInt32} (hphase : s.popper = .started wpos)
      (hempty : ¬ ringArrayEmpty s.ring.rpos wpos = true) :
      Stepped s .popCopy .none { s with popper := .copied (s.ring.data s.ring.rpos.toNat) }
  /-- The popper stores its position. -/
  | popStore {elem : α} {pos : UInt32} (hphase : s.popper = .copied elem)
      (hnext : s.ring.next s.ring.rpos = .ok pos) :
      Stepped s .popStore (.popped elem) { s with ring.rpos := pos, popper := .idle }

/-- The cases of a step. -/
theorem stepped (hst : (ringMachine α).step s l = some (a, s')) : Stepped s l a s' := by
  cases l with
  | pushStart elem =>
    simp only [ringMachine] at hst
    split at hst
    · rename_i hidle
      obtain ⟨rfl, rfl⟩ := Prod.mk.inj (Option.some.inj hst)
      exact .pushStart hidle
    · cases hst
  | pushWrite =>
    simp only [ringMachine] at hst
    split at hst
    · rename_i elem rpos hphase
      split at hst
      · rename_i hfull
        obtain ⟨rfl, rfl⟩ := Prod.mk.inj (Option.some.inj hst)
        exact .pushFailed hphase hfull
      · rename_i hfull
        obtain ⟨rfl, rfl⟩ := Prod.mk.inj (Option.some.inj hst)
        exact .pushWrite hphase hfull
    · cases hst
  | pushStore =>
    simp only [ringMachine] at hst
    split at hst
    · rename_i elem hphase
      split at hst
      · rename_i pos hnext
        obtain ⟨rfl, rfl⟩ := Prod.mk.inj (Option.some.inj hst)
        exact .pushStore hphase hnext
      · cases hst
    · cases hst
  | popStart =>
    simp only [ringMachine] at hst
    split at hst
    · rename_i hidle
      obtain ⟨rfl, rfl⟩ := Prod.mk.inj (Option.some.inj hst)
      exact .popStart hidle
    · cases hst
  | popCopy =>
    simp only [ringMachine] at hst
    split at hst
    · rename_i wpos hphase
      split at hst
      · rename_i hempty
        obtain ⟨rfl, rfl⟩ := Prod.mk.inj (Option.some.inj hst)
        exact .popFailed hphase hempty
      · rename_i hempty
        obtain ⟨rfl, rfl⟩ := Prod.mk.inj (Option.some.inj hst)
        exact .popCopy hphase hempty
    · cases hst
  | popStore =>
    simp only [ringMachine] at hst
    split at hst
    · rename_i elem hphase
      split at hst
      · rename_i pos hnext
        obtain ⟨rfl, rfl⟩ := Prod.mk.inj (Option.some.inj hst)
        exact .popStore hphase hnext
      · cases hst
    · cases hst

/-- The pusher is not concerned with what is popped meanwhile. -/
theorem pusher_of_popped {r r' : Ring α} {g g' : RingHistory α} {p : PushPhase α} (h : p.Sound r g)
    (hcap : r'.cap = r.cap) (hdata : r'.data = r.data) (hpushed : g'.pushed = g.pushed)
    (hsnap : g'.pushSnap = g.pushSnap) (hle : g.popped.length ≤ g'.popped.length) :
    p.Sound r' g' := by
  have hcells : r'.cells = r.cells := by rw [Ring.cells, Ring.cells, hcap]
  cases p with
  | idle => trivial
  | started elem rpos =>
    obtain ⟨q, hat, hq, hroom, hlen⟩ := h
    refine ⟨q, ?_, hq.trans hle, ?_, ?_⟩
    · rw [Ring.At, hcells]
      exact hat
    · rw [hpushed, hcap]
      exact hroom
    · rw [hpushed, hsnap]
      exact hlen
  | written elem =>
    obtain ⟨hlt, hwritten⟩ := h
    refine ⟨?_, ?_⟩
    · rw [hpushed, hcap]
      omega
    · rw [hpushed, hdata, hcells]
      exact hwritten

/-- The popper is not concerned with what is pushed meanwhile. -/
theorem popper_of_pushed {r r' : Ring α} {g g' : RingHistory α} {p : PopPhase α} (h : p.Sound r g)
    (hcap : r'.cap = r.cap) (hpopped : g'.popped = g.popped) (hsnap : g'.popSnap = g.popSnap)
    (hpushed : g.pushed <+: g'.pushed) : p.Sound r' g' := by
  have hcells : r'.cells = r.cells := by rw [Ring.cells, Ring.cells, hcap]
  cases p with
  | idle => trivial
  | started wpos =>
    obtain ⟨p, hat, hle, hp, hlen⟩ := h
    refine ⟨p, ?_, ?_, hp.trans hpushed.length_le, ?_⟩
    · rw [Ring.At, hcells]
      exact hat
    · rw [hpopped]
      exact hle
    · rw [hpopped, hsnap]
      exact hlen
  | copied elem =>
    have hget : g.pushed[g.popped.length]? = some elem := h
    change g'.pushed[g'.popped.length]? = some elem
    obtain ⟨hlt, -⟩ := List.getElem?_eq_some_iff.1 hget
    obtain ⟨t, ht⟩ := hpushed
    rw [hpopped, ← ht, List.getElem?_append_left hlt]
    exact hget

/-- A step of the pusher that changes neither position nor cells. -/
theorem of_pusher (h : Linked cap s g) {p : PushPhase α} {snap : List α}
    (hp : p.Sound s.ring { g with pushSnap := snap }) :
    Linked cap { s with pusher := p } { g with pushSnap := snap } :=
  { h with
    pusher := hp
    popper := popper_of_pushed h.popper rfl rfl rfl (List.prefix_refl _) }

/-- A step of the popper that changes neither position nor cells. -/
theorem of_popper (h : Linked cap s g) {p : PopPhase α} {snap : List α}
    (hp : p.Sound s.ring { g with popSnap := snap }) :
    Linked cap { s with popper := p } { g with popSnap := snap } :=
  { h with
    pusher := pusher_of_popped h.pusher rfl rfl rfl rfl le_rfl
    popper := hp }

/-- The element is copied into a free slot. -/
theorem pushWrite (h : Linked cap s g) {elem : α} {rpos : UInt32}
    (hphase : s.pusher = .started elem rpos)
    (hfull : ¬ ringArrayFull rpos s.ring.wpos s.ring.cap = true) :
    Linked cap { s with
        ring.data := Function.update s.ring.data s.ring.wpos.toNat elem
        pusher := .written elem } g ∧
      g.pushed.length < g.popped.length + s.ring.cap.toNat := by
  have hpusher := h.pusher
  rw [hphase] at hpusher
  obtain ⟨q, hat, hq, hroom, -⟩ := hpusher
  rw [h.full_iff hat (hq.trans h.le) hroom] at hfull
  -- the queue is not longer than it was at the snapshot
  have hlt : g.pushed.length < g.popped.length + s.ring.cap.toNat := by omega
  have hwpos : s.ring.wpos.toNat = g.pushed.length % s.ring.cells := h.wpos
  refine ⟨{ h with held := fun i hle hi => ?_, pusher := ⟨hlt, ?_⟩, popper := ?_ }, hlt⟩
  · rw [h.held i hle hi]
    change _ = some (Function.update s.ring.data s.ring.wpos.toNat elem (i % s.ring.cells))
    rw [Function.update_of_ne]
    rw [hwpos]
    exact Ring.slot_ne hlt hle hi
  · change Function.update s.ring.data s.ring.wpos.toNat elem (g.pushed.length % s.ring.cells) =
        elem
    rw [← hwpos, Function.update_self]
  · exact popper_of_pushed h.popper rfl rfl rfl (List.prefix_refl _)

/-- The pusher stores its position. -/
theorem pushStore (h : Linked cap s g) {elem : α} {pos : UInt32} (hphase : s.pusher = .written elem)
    (hnext : s.ring.next s.ring.wpos = .ok pos) :
    Linked cap { s with ring.wpos := pos, pusher := .idle }
        { g with pushed := g.pushed ++ [elem] } := by
  have hpusher := h.pusher
  rw [hphase] at hpusher
  obtain ⟨hlt, hwritten⟩ := hpusher
  obtain ⟨pos', hnext', hat⟩ := h.next_at h.wpos
  obtain rfl := Except.ok.inj (hnext.symm.trans hnext')
  have hlen : (g.pushed ++ [elem]).length = g.pushed.length + 1 := by
    rw [List.length_append, List.length_singleton]
  have hle := h.le
  refine
    { cap_eq := h.cap_eq
      cells := h.cells
      taken := ?_
      le := ?_
      room := ?_
      rpos := h.rpos
      wpos := ?_
      held := fun i hle hi => ?_
      pusher := trivial
      popper := popper_of_pushed h.popper rfl rfl rfl (List.prefix_append _ _) }
  · rw [List.take_append_of_le_length hle]
    exact h.taken
  · rw [hlen]
    exact hle.trans (Nat.le_succ _)
  · rw [hlen]
    exact hlt
  · rw [hlen]
    exact hat
  · rw [hlen] at hi
    -- the cells of before keep their elements, the next one has what `pushWrite` left in it
    rcases Nat.lt_or_ge i g.pushed.length with hi' | hge
    · rw [List.getElem?_append_left hi']
      exact h.held i hle hi'
    · obtain rfl : i = g.pushed.length := by omega
      rw [List.getElem?_concat_length]
      exact congrArg some hwritten.symm

/-- The element copied is the first of the queue. -/
theorem popCopy (h : Linked cap s g) {wpos : UInt32} (hphase : s.popper = .started wpos)
    (hempty : ¬ ringArrayEmpty s.ring.rpos wpos = true) :
    Linked cap { s with popper := .copied (s.ring.data s.ring.rpos.toNat) } g := by
  have hpopper := h.popper
  rw [hphase] at hpopper
  obtain ⟨p, hat, hle, hp, -⟩ := hpopper
  rw [h.empty_iff hat hle hp] at hempty
  have hheld := h.held g.popped.length le_rfl (by omega)
  rw [← h.rpos] at hheld
  exact { h with popper := hheld }

/-- The popper stores its position. -/
theorem popStore (h : Linked cap s g) {elem : α} {pos : UInt32} (hphase : s.popper = .copied elem)
    (hnext : s.ring.next s.ring.rpos = .ok pos) :
    Linked cap { s with ring.rpos := pos, popper := .idle }
        { g with popped := g.popped ++ [elem] } := by
  have hpopper := h.popper
  rw [hphase] at hpopper
  have hget : g.pushed[g.popped.length]? = some elem := hpopper
  -- what was copied is the first element that is still to be popped
  obtain ⟨hlt, hval⟩ := List.getElem?_eq_some_iff.1 hget
  obtain ⟨pos', hnext', hat⟩ := h.next_at h.rpos
  obtain rfl := Except.ok.inj (hnext.symm.trans hnext')
  have hlen : (g.popped ++ [elem]).length = g.popped.length + 1 := by
    rw [List.length_append, List.length_singleton]
  have hroom := h.room
  refine
    { cap_eq := h.cap_eq
      cells := h.cells
      taken := ?_
      le := ?_
      room := ?_
      rpos := ?_
      wpos := h.wpos
      held := fun i hle hi => h.held i ?_ hi
      pusher := pusher_of_popped h.pusher rfl rfl rfl rfl (by rw [hlen]; exact Nat.le_succ _)
      popper := trivial }
  · rw [hlen, List.take_add_one, hget, Option.toList_some, ← h.taken]
  · rw [hlen]
    exact hlt
  · rw [hlen]
    change g.pushed.length ≤ g.popped.length + 1 + s.ring.cap.toNat
    omega
  · rw [hlen]
    exact hat
  · rw [hlen] at hle
    omega

/-- **Every step keeps the invariant.** -/
theorem step (h : Linked cap s g) (hst : (ringMachine α).step s l = some (a, s')) :
    Linked cap s' (ringRecord s l s' g) := by
  cases stepped hst with
  | pushStart hidle =>
    refine h.of_pusher ⟨g.popped.length, h.rpos, le_rfl, h.room, ?_⟩
    exact h.length_elems
  | pushFailed _ _ => exact h.of_pusher trivial
  | @pushWrite elem rpos hphase hfull => exact (h.pushWrite hphase hfull).1
  | @pushStore elem pos hphase hnext =>
    -- the other side sees the element when the index is stored, and it is recorded then
    have hrec : ringRecord s .pushStore { s with ring.wpos := pos, pusher := .idle } g =
        { g with pushed := g.pushed ++ [elem] } := by simp only [ringRecord, hphase]
    rw [hrec]
    exact h.pushStore hphase hnext
  | popStart hidle =>
    refine h.of_popper ⟨g.pushed.length, h.wpos, h.le, le_rfl, ?_⟩
    exact h.length_elems
  | popFailed _ _ => exact h.of_popper trivial
  | popCopy hphase hempty => exact h.popCopy hphase hempty
  | @popStore elem pos hphase hnext =>
    have hrec : ringRecord s .popStore { s with ring.rpos := pos, popper := .idle } g =
        { g with popped := g.popped ++ [elem] } := by simp only [ringRecord, hphase]
    rw [hrec]
    exact h.popStore hphase hnext

/-! ### Refinement -/

/-- **A step is one of a queue**, and writes no slot of an element. -/
theorem refines (h : Linked cap s g) (hst : (ringMachine α).step s l = some (a, s')) :
    FifoStep cap.toNat s.ring.elems a s'.ring.elems ∧ KeepsSlots s.ring s'.ring := by
  have h' := h.step hst
  have hqueue := h.elems_eq
  have hqueue' := h'.elems_eq
  cases stepped hst with
  | pushStart _ => exact ⟨.stay, fun _ _ => rfl⟩
  | pushFailed _ _ => exact ⟨.pushFailed, fun _ _ => rfl⟩
  | @pushWrite elem rpos hphase hfull =>
    obtain ⟨-, hlt⟩ := h.pushWrite hphase hfull
    have hwpos : s.ring.wpos.toNat = g.pushed.length % s.ring.cells := h.wpos
    refine ⟨?_, fun i hi => ?_⟩
    · rw [hqueue, hqueue']
      exact .stay
    · -- the cell written is the one that is always left free
      rw [h.nelem_eq] at hi
      change Function.update s.ring.data s.ring.wpos.toNat elem _ = _
      rw [Function.update_of_ne]
      rw [hwpos, h.rpos, Nat.mod_add_mod]
      exact Ring.slot_ne hlt (Nat.le_add_right _ _) (by omega)
  | @pushStore elem pos hphase hnext =>
    have hpusher := h.pusher
    rw [hphase] at hpusher
    have hlt := hpusher.1
    have hrec : ringRecord s .pushStore { s with ring.wpos := pos, pusher := .idle } g =
        { g with pushed := g.pushed ++ [elem] } := by simp only [ringRecord, hphase]
    -- there was room at the snapshot, and the popper has only made more since
    rw [hrec, List.drop_append_of_le_length h.le, ← hqueue] at hqueue'
    refine ⟨?_, fun _ _ => rfl⟩
    rw [hqueue']
    refine .push ?_
    have hle := h.le
    rw [h.length_elems, ← h.cap_eq]
    omega
  | popStart _ => exact ⟨.stay, fun _ _ => rfl⟩
  | popFailed _ _ => exact ⟨.popFailed, fun _ _ => rfl⟩
  | popCopy _ _ => exact ⟨.stay, fun _ _ => rfl⟩
  | @popStore elem pos hphase hnext =>
    have hpopper := h.popper
    rw [hphase] at hpopper
    obtain ⟨hlt, hval⟩ := List.getElem?_eq_some_iff.1 hpopper
    have hrec : ringRecord s .popStore { s with ring.rpos := pos, popper := .idle } g =
        { g with popped := g.popped ++ [elem] } := by simp only [ringRecord, hphase]
    rw [hrec, List.length_append, List.length_singleton] at hqueue'
    -- what was copied is the head of the queue, and no one else takes from it
    rw [List.drop_eq_getElem_cons hlt, hval, ← hqueue'] at hqueue
    refine ⟨?_, fun _ _ => rfl⟩
    rw [hqueue]
    exact .pop

/-- What is pushed is recorded. -/
theorem record_pushed {elem : α} (hst : (ringMachine α).step s l = some (.pushed elem, s')) :
    ringRecord s l s' g = { g with pushed := g.pushed ++ [elem] } := by
  generalize ha : RingAnswer.pushed elem = a at hst
  cases stepped hst with
  | pushStore hphase _ =>
    obtain rfl := RingAnswer.pushed.inj ha
    simp only [ringRecord, hphase]
  | _ => cases ha

/-- What is popped is recorded. -/
theorem record_popped {elem : α} (hst : (ringMachine α).step s l = some (.popped elem, s')) :
    ringRecord s l s' g = { g with popped := g.popped ++ [elem] } := by
  generalize ha : RingAnswer.popped elem = a at hst
  cases stepped hst with
  | popStore hphase _ =>
    obtain rfl := RingAnswer.popped.inj ha
    simp only [ringRecord, hphase]
  | _ => cases ha

/-- A push fails only if the queue was full at the snapshot. -/
theorem pushFailed (h : Linked cap s g) (hst : (ringMachine α).step s l = some (.pushFailed, s')) :
    g.pushSnap.length = cap.toNat := by
  generalize ha : RingAnswer.pushFailed = a at hst
  cases stepped hst with
  | @pushFailed elem rpos hphase hfull =>
    have hpusher := h.pusher
    rw [hphase] at hpusher
    obtain ⟨q, hat, hq, hroom, hsnap⟩ := hpusher
    rw [h.full_iff hat (hq.trans h.le) hroom, h.cap_eq] at hfull
    omega
  | _ => cases ha

/-- A pop fails only if the queue was empty at the snapshot. -/
theorem popFailed (h : Linked cap s g) (hst : (ringMachine α).step s l = some (.popFailed, s')) :
    g.popSnap = [] := by
  generalize ha : RingAnswer.popFailed = a at hst
  cases stepped hst with
  | @popFailed wpos hphase hempty =>
    have hpopper := h.popper
    rw [hphase] at hpopper
    obtain ⟨p, hat, hle, hp, hsnap⟩ := hpopper
    rw [h.empty_iff hat hle hp] at hempty
    rw [← List.length_eq_zero_iff]
    omega
  | _ => cases ha

/-- Every call goes on to its end. -/
theorem progress (h : Linked cap s g) : s.Progress where
  pushStart hidle elem := ⟨_, by simp only [ringMachine, hidle]; rfl⟩
  pushWrite elem rpos hphase := by
    by_cases hfull : ringArrayFull rpos s.ring.wpos s.ring.cap = true
    · exact ⟨_, _, by simp only [ringMachine, hphase, if_pos hfull]; rfl, .inl ⟨rfl, rfl⟩⟩
    · exact ⟨_, _, by simp only [ringMachine, hphase, if_neg hfull]; rfl, .inr ⟨rfl, rfl⟩⟩
  pushStore elem hphase := by
    obtain ⟨pos, hnext, -⟩ := h.next_at h.wpos
    exact ⟨_, by simp only [ringMachine, hphase, hnext]; rfl, rfl⟩
  popStart hidle := ⟨_, by simp only [ringMachine, hidle]; rfl⟩
  popCopy wpos hphase := by
    by_cases hempty : ringArrayEmpty s.ring.rpos wpos = true
    · exact ⟨_, _, by simp only [ringMachine, hphase, if_pos hempty]; rfl, .inl ⟨rfl, rfl⟩⟩
    · exact ⟨_, _, by simp only [ringMachine, hphase, if_neg hempty]; rfl, .inr ⟨rfl, _, rfl⟩⟩
  popStore elem hphase := by
    obtain ⟨pos, hnext, -⟩ := h.next_at h.rpos
    exact ⟨_, by simp only [ringMachine, hphase, hnext]; rfl, rfl⟩
  apart l a t hst := by cases stepped hst <;> rfl

end Linked

namespace Shared

/-- A ring array that was created, and the two sides outside. -/
def start (cap : UInt32) (data : ℕ → α) : Shared α := ⟨.create cap data, .idle, .idle⟩

theorem linked_start {cap : UInt32} {data : ℕ → α} (hcap : cap.toNat ≤ 2 ^ 32 - 2) :
    Linked cap (start cap data) ⟨[], [], [], []⟩ where
  cap_eq := rfl
  cells := by
    change cap.toNat + 1 < 2 ^ 32
    omega
  taken := rfl
  le := le_rfl
  room := Nat.zero_le _
  rpos := (Nat.zero_mod _).symm
  wpos := (Nat.zero_mod _).symm
  held _ _ hi := absurd hi (Nat.not_lt_zero _)
  pusher := trivial
  popper := trivial

/-- **The ring array is a first-in first-out queue** for every capacity from 1 to `2 ^ 32 - 2`,
under every interleaving of one pusher and one popper: what was popped is an initial part of what
was pushed, the ring holds the rest, each step is one of a queue of at most `cap` elements and
writes no slot of an element, a pop fails only if the queue was empty at its snapshot, and a push
only if it was full; and every call that has started ends after one or two further steps of its own,
which can be taken whatever the other side has done. -/
theorem refines_fifo (cap : UInt32) (hcap : 1 ≤ cap.toNat ∧ cap.toNat ≤ 2 ^ 32 - 2) (data : ℕ → α)
    (x : Shared α × RingHistory α)
    (hr : (recordedRing α).Reaches Machine.Unguarded (start cap data, ⟨[], [], [], []⟩) x) :
    x.2.popped <+: x.2.pushed ∧ x.2.pushed = x.2.popped ++ x.1.ring.elems ∧
      x.1.ring.elems.length ≤ cap.toNat ∧ (∀ l a y, (recordedRing α).step x l = some (a, y) →
        FifoStep cap.toNat x.1.ring.elems a y.1.ring.elems ∧ KeepsSlots x.1.ring y.1.ring ∧
        (∀ elem, a = .pushed elem → y.2.pushed = x.2.pushed ++ [elem]) ∧
        (∀ elem, a = .popped elem → y.2.popped = x.2.popped ++ [elem]) ∧
        (a = .popFailed → x.2.popSnap = []) ∧ (a = .pushFailed → x.2.pushSnap.length = cap.toNat)) ∧
      x.1.Progress := by
  have h : Linked cap x.1 x.2 := by
    refine hr.invariant (I := fun x => Linked cap x.1 x.2) (linked_start hcap.2)
      fun u l r v hu hst _ => ?_
    obtain ⟨hst, hrec⟩ := Machine.traced_step hst
    exact hrec ▸ hu.step hst
  have hpopped : x.2.popped <+: x.2.pushed := h.taken ▸ List.take_prefix _ _
  refine ⟨hpopped, ?_, ?_, fun l a y hst => ?_, h.progress⟩
  · calc x.2.pushed = x.2.pushed.take x.2.popped.length ++ x.2.pushed.drop x.2.popped.length :=
        (List.take_append_drop _ _).symm
      _ = x.2.popped ++ x.1.ring.elems := by rw [← h.taken, h.elems_eq]
  · have hroom := h.room
    rw [h.cap_eq] at hroom
    rw [h.length_elems]
    omega
  · obtain ⟨hst, hrec⟩ := Machine.traced_step hst
    obtain ⟨hfifo, hkeeps⟩ := h.refines hst
    refine ⟨hfifo, hkeeps, ?_, ?_, fun ha => h.popFailed (ha ▸ hst),
      fun ha => h.pushFailed (ha ▸ hst)⟩
    · rintro elem rfl
      rw [hrec, Linked.record_pushed hst]
    · rintro elem rfl
      rw [hrec, Linked.record_popped hst]

/-- Two elements are pushed and one is popped, the second push and the pop interleaved. -/
def twoRun : Shared ℕ × RingHistory ℕ :=
  (recordedRing ℕ).exec (fun _ _ _ => true) (start 2 fun _ => 0, ⟨[], [], [], []⟩)
    [.pushStart 7, .popStart, .pushWrite, .pushStore, .popCopy, .pushStart 8, .popStart, .popCopy,
      .pushWrite, .popStore, .pushStore]

theorem refines_fifo_two :
    twoRun.2.popped <+: twoRun.2.pushed ∧ twoRun.2.pushed = twoRun.2.popped ++ twoRun.1.ring.elems ∧
      twoRun.1.ring.elems.length ≤ 2 ∧ (∀ l a y, (recordedRing ℕ).step twoRun l = some (a, y) →
        FifoStep 2 twoRun.1.ring.elems a y.1.ring.elems ∧ KeepsSlots twoRun.1.ring y.1.ring ∧
        (∀ elem, a = .pushed elem → y.2.pushed = twoRun.2.pushed ++ [elem]) ∧
        (∀ elem, a = .popped elem → y.2.popped = twoRun.2.popped ++ [elem]) ∧
        (a = .popFailed → twoRun.2.popSnap = []) ∧
          (a = .pushFailed → twoRun.2.pushSnap.length = 2)) ∧
      twoRun.1.Progress :=
  refines_fifo 2 (by decide) (fun _ => 0) twoRun
    ((Machine.reaches_exec (by decide +kernel)).mono fun _ _ _ _ => trivial)

end Shared

end Twemcache
