import Twemcache.Machine.Basic
import Mathlib.Data.Int.Notation
import Mathlib.Data.List.Nodup
import Mathlib.Logic.Function.Basic
import Mathlib.Tactic.SplitIfs

/-!
# Handing connections to the workers

The dispatcher puts a new connection on the queue of a worker and writes a byte to the worker's
notification pipe; the worker reads a byte and takes a connection off its queue (`thread_dispatch`
and `thread_libevent_process` in `mc_thread.c`, `core_accept` in `mc_core.c`).  The steps of the two
sides interleave in any order; the queue has a lock, so `conn_cq_push` and `conn_cq_pop` are steps.

## Main definitions

* `Dispatcher`, `Threads` : where the dispatcher is in its call, and the state of all threads.
* `threads` : the machine.
* `HandedOver` : queue and pipe agree, and connections are popped once and in order.

## Main results

* `handed_over` : this holds in every run in which no notification fails.
-/

namespace Twemcache

/-- A new connection.  The `sd` of a UDP connection is shared by the workers. -/
structure NewConn where
  /-- A number for the connection, which no other one has. -/
  id : ℕ
  /-- The connection is a UDP connection. -/
  udp : Bool
  deriving DecidableEq, Repr

/-- Where the dispatcher is. -/
inductive Dispatcher where
  /-- Not in a call of `thread_dispatch`. -/
  | idle
  /-- `conn_get` has returned. -/
  | push (c : NewConn)
  /-- The connection is on the queue of a worker, which is to be notified. -/
  | notify (tid : ℕ) (c : NewConn)
  /-- `thread_dispatch` has failed and `core_accept` closes the descriptor. -/
  | close (c : NewConn)
  /-- The server has not come up. -/
  | exited
  deriving DecidableEq, Repr

/-- The dispatcher and the workers. -/
structure Threads where
  /-- `settings.num_workers`. -/
  numWorkers : ℕ
  /-- `last_thread`. -/
  lastThread : ℤ
  /-- The dispatcher. -/
  dispatcher : Dispatcher
  /-- `new_cq` of each worker. -/
  newCq : ℕ → List NewConn
  /-- The number of bytes in the notification pipe of each worker. -/
  pipe : ℕ → ℕ
  /-- The worker has read from its pipe and is to take a connection off its queue. -/
  popping : ℕ → Bool
  /-- Ghost: the number of connections so far. -/
  conns : ℕ
  /-- Ghost: the connections that were put on the queue of each worker. -/
  pushed : ℕ → List NewConn
  /-- Ghost: the connections that each worker has taken off its queue. -/
  popped : ℕ → List NewConn
  /-- Ghost: the connections whose descriptor the dispatcher has closed. -/
  closed : List NewConn
  /-- Ghost: the connections that were taken off a queue after the dispatcher had closed their
  descriptor. -/
  stale : List NewConn

namespace Threads

/-- The threads after `thread_init`. -/
def init (numWorkers : ℕ) : Threads where
  numWorkers := numWorkers
  lastThread := -1
  dispatcher := .idle
  newCq := fun _ => []
  pipe := fun _ => 0
  popping := fun _ => false
  conns := 0
  pushed := fun _ => []
  popped := fun _ => []
  closed := []
  stale := []

variable (s : Threads)

/-- The worker that `thread_dispatch` chooses. -/
def tid : ℕ := ((s.lastThread + 1) % s.numWorkers).toNat

/-- `conn_cq_push`. -/
def connCqPush (tid : ℕ) (c : NewConn) : Threads :=
  { s with
    newCq := Function.update s.newCq tid (s.newCq tid ++ [c])
    pushed := Function.update s.pushed tid (s.pushed tid ++ [c]) }

/-- `conn_cq_pop`. -/
def connCqPop (tid : ℕ) : Threads :=
  match s.newCq tid with
  | [] => s
  | c :: cq =>
    { s with
      newCq := Function.update s.newCq tid cq
      popped := Function.update s.popped tid (s.popped tid ++ [c])
      stale := if c ∈ s.closed then c :: s.stale else s.stale }

end Threads

/-- The steps of the threads. -/
inductive ThreadLabel where
  /-- A connection is accepted, or a UDP connection is set up, and `thread_dispatch` calls
  `conn_get`; whether this succeeds. -/
  | accept (udp ok : Bool)
  /-- `thread_dispatch` calls `conn_cq_push`. -/
  | push
  /-- `thread_dispatch` writes to the pipe; whether this succeeds. -/
  | notify (ok : Bool)
  /-- `core_accept` closes the descriptor. -/
  | close
  /-- `thread_libevent_process` is called, because the pipe is readable, and reads from it; whether
  this succeeds. -/
  | read (tid : ℕ) (ok : Bool)
  /-- `thread_libevent_process` calls `conn_cq_pop`. -/
  | pop (tid : ℕ)
  deriving DecidableEq, Repr

/-- The dispatcher and the workers as a machine. -/
def threads : Machine Threads ThreadLabel Unit where
  step s l :=
    match l, s.dispatcher with
    | .accept udp ok, .idle =>
      if ok then some ((), { s with dispatcher := .push ⟨s.conns, udp⟩, conns := s.conns + 1 })
      else some ((), { s with dispatcher := if udp then .exited else .idle })
    | .push, .push c =>
      let tid := s.tid
      some ((), { s.connCqPush tid c with lastThread := tid, dispatcher := .notify tid c })
    | .notify ok, .notify tid c =>
      if ok then
        some ((),
          { s with dispatcher := .idle, pipe := Function.update s.pipe tid (s.pipe tid + 1) })
      else some ((), { s with dispatcher := if c.udp then .exited else .close c })
    | .close, .close c => some ((), { s with dispatcher := .idle, closed := c :: s.closed })
    | .read tid ok, _ =>
      if s.pipe tid > 0 ∧ s.popping tid = false then
        some ((), { s with
          popping := Function.update s.popping tid true
          pipe := if ok then Function.update s.pipe tid (s.pipe tid - 1) else s.pipe })
      else none
    | .pop tid, _ =>
      if s.popping tid then
        some ((), { s.connCqPop tid with popping := Function.update s.popping tid false })
      else none
    | _, _ => none

/-! ### The hand-over -/

/-- What the hand-over to the worker `tid` is for. -/
structure HandedOver (s : Threads) (tid : ℕ) : Prop where
  /-- Between calls there is one byte in the pipe for each connection in the queue. -/
  balanced : s.dispatcher = .idle → s.popping tid = false → (s.newCq tid).length = s.pipe tid
  /-- Connections are popped in the order in which they were pushed. -/
  ordered : s.pushed tid = s.popped tid ++ s.newCq tid
  /-- No connection is popped twice. -/
  once : (s.popped tid).Nodup
  /-- No connection is popped by two workers. -/
  apart : ∀ tid' ≠ tid, ∀ c ∈ s.popped tid, c ∉ s.popped tid'
  /-- Once the pipe is drained, every connection has been popped. -/
  drained : s.dispatcher = .idle → s.popping tid = false → s.pipe tid = 0 →
    s.popped tid = s.pushed tid
  /-- No connection was popped after the dispatcher had closed its descriptor. -/
  fresh : s.stale = []

/-- The step is not a notification that fails, on either side. -/
def Notifies (_ : Threads) (l : ThreadLabel) (_ : Threads) : Prop :=
  l ≠ .notify false ∧ ∀ tid, l ≠ .read tid false

namespace Threads

/-- The worker is about to be notified. -/
def notifying (s : Threads) (tid : ℕ) : ℕ :=
  match s.dispatcher with
  | .notify tid' _ => if tid' = tid then 1 else 0
  | _ => 0

/-- The invariant of the hand-over. -/
structure Inv (s : Threads) : Prop where
  /-- A connection that is pushed and not popped has a byte in the pipe, or one that is about to be
  written, or one that was just read. -/
  bytes : ∀ tid, (s.newCq tid).length =
    s.pipe tid + s.notifying tid + (s.popping tid).toNat
  /-- The queue holds what was pushed and not popped. -/
  ordered : ∀ tid, s.pushed tid = s.popped tid ++ s.newCq tid
  /-- A connection is pushed once to one worker. -/
  once : ∀ tid, (s.pushed tid).Nodup
  /-- A connection is pushed to one worker. -/
  apart : ∀ tid tid' c, c ∈ s.pushed tid → c ∈ s.pushed tid' → tid = tid'
  /-- Connections that were pushed have numbers that are in use. -/
  known : ∀ tid, ∀ c ∈ s.pushed tid, c.id < s.conns
  /-- A connection that is to be pushed is new. -/
  new : ∀ c, s.dispatcher = .push c → c.id < s.conns ∧ ∀ tid, c ∉ s.pushed tid
  /-- The dispatcher has closed no connection, and is not about to. -/
  opened : s.closed = [] ∧ s.stale = [] ∧ ∀ c, s.dispatcher ≠ .close c

theorem inv_init (numWorkers : ℕ) : (init numWorkers).Inv where
  bytes := fun _ => rfl
  ordered := fun _ => rfl
  once := fun _ => List.nodup_nil
  apart := by simp [init]
  known := by simp [init]
  new := nofun
  opened := ⟨rfl, rfl, nofun⟩

variable {s s' : Threads} {l : ThreadLabel}

/-- `conn_get` gives the dispatcher a new connection. -/
theorem Inv.accept (hs : s.Inv) (hidle : s.dispatcher = .idle) (udp : Bool) :
    { s with dispatcher := .push ⟨s.conns, udp⟩, conns := s.conns + 1 }.Inv where
  bytes := by
    intro tid
    have hbytes := hs.bytes tid
    simp only [notifying, hidle] at hbytes
    simpa only [notifying] using hbytes
  ordered := hs.ordered
  once := hs.once
  apart := hs.apart
  known := fun tid c hc => Nat.lt_succ_of_lt (hs.known tid c hc)
  new := by
    rintro c ⟨⟩
    refine ⟨Nat.lt_succ_self _, fun tid hc => ?_⟩
    exact absurd (hs.known tid _ hc) (Nat.lt_irrefl _)
  opened := ⟨hs.opened.1, hs.opened.2.1, nofun⟩

/-- `conn_get` has failed: a descriptor is closed that no connection has, or the server exits. -/
theorem Inv.decline (hs : s.Inv) (hidle : s.dispatcher = .idle) (udp : Bool) :
    { s with dispatcher := if udp then .exited else .idle }.Inv where
  bytes := by
    intro tid
    have hbytes := hs.bytes tid
    simp only [notifying, hidle] at hbytes
    cases udp <;> exact hbytes
  ordered := hs.ordered
  once := hs.once
  apart := hs.apart
  known := hs.known
  new := by cases udp <;> exact nofun
  opened := ⟨hs.opened.1, hs.opened.2.1, by cases udp <;> exact nofun⟩

/-- The connection is put on a queue, and its byte is still to be written. -/
theorem Inv.push (hs : s.Inv) {c : NewConn} (hc : s.dispatcher = .push c) (tid : ℕ) (last : ℤ) :
    { s.connCqPush tid c with lastThread := last, dispatcher := .notify tid c }.Inv where
  bytes := by
    intro t
    have hbytes := hs.bytes t
    simp only [notifying, hc] at hbytes
    simp only [notifying, connCqPush]
    by_cases ht : t = tid
    · subst ht
      rw [Function.update_self, List.length_append, List.length_singleton, hbytes, if_pos rfl]
      omega
    · rw [Function.update_of_ne ht, hbytes, if_neg (Ne.symm ht)]
  ordered := by
    intro t
    by_cases ht : t = tid
    · subst ht
      simp only [connCqPush, Function.update_self, hs.ordered, List.append_assoc]
    · simp only [connCqPush, Function.update_of_ne ht, hs.ordered]
  once := by
    intro t
    by_cases ht : t = tid
    · subst ht
      simp only [connCqPush, Function.update_self]
      exact List.concat_eq_append ▸ (hs.once t).concat ((hs.new c hc).2 t)
    · simp only [connCqPush, Function.update_of_ne ht]
      exact hs.once t
  apart := by
    -- the connection is new, so no other thread has it
    have hmem : ∀ t c', c' ∈ (s.connCqPush tid c).pushed t → c' ∈ s.pushed t ∨
        (t = tid ∧ c' = c) := by
      intro t c' hc'
      by_cases ht : t = tid
      · subst ht
        simp only [connCqPush, Function.update_self, List.mem_append, List.mem_singleton] at hc'
        exact hc'.imp_right fun h => ⟨rfl, h⟩
      · simp only [connCqPush, Function.update_of_ne ht] at hc'
        exact .inl hc'
    intro t t' c' hc' hc''
    rcases hmem t c' hc' with h | ⟨rfl, rfl⟩ <;> rcases hmem t' _ hc'' with h' | ⟨rfl, h'⟩
    · exact hs.apart t t' c' h h'
    · exact absurd (h' ▸ h) ((hs.new c hc).2 t)
    · exact absurd h' ((hs.new _ hc).2 t')
    · rfl
  known := by
    intro t c' hc'
    by_cases ht : t = tid
    · subst ht
      simp only [connCqPush, Function.update_self, List.mem_append, List.mem_singleton] at hc'
      rcases hc' with hc' | rfl
      · exact hs.known t c' hc'
      · exact (hs.new _ hc).1
    · simp only [connCqPush, Function.update_of_ne ht] at hc'
      exact hs.known t c' hc'
  new := nofun
  opened := ⟨hs.opened.1, hs.opened.2.1, nofun⟩

/-- The byte is written. -/
theorem Inv.notify (hs : s.Inv) {tid : ℕ} {c : NewConn} (hc : s.dispatcher = .notify tid c) :
    { s with dispatcher := .idle, pipe := Function.update s.pipe tid (s.pipe tid + 1) }.Inv where
  bytes := by
    intro t
    have hbytes := hs.bytes t
    simp only [notifying, hc] at hbytes
    simp only [notifying]
    by_cases ht : t = tid
    · subst ht
      rw [if_pos rfl] at hbytes
      rw [Function.update_self, hbytes]
    · rw [if_neg (Ne.symm ht)] at hbytes
      rw [Function.update_of_ne ht, hbytes]
  ordered := hs.ordered
  once := hs.once
  apart := hs.apart
  known := hs.known
  new := nofun
  opened := ⟨hs.opened.1, hs.opened.2.1, nofun⟩

/-- A worker reads a byte. -/
theorem Inv.read (hs : s.Inv) {tid : ℕ} (hpipe : s.pipe tid > 0) (hidle : s.popping tid = false) :
    { s with
      popping := Function.update s.popping tid true
      pipe := Function.update s.pipe tid (s.pipe tid - 1) }.Inv where
  bytes := by
    intro t
    have hbytes := hs.bytes t
    change _ = _ + s.notifying t + _
    by_cases ht : t = tid
    · subst ht
      simp only [Function.update_self, hbytes, hidle, Bool.toNat_false, Bool.toNat_true]
      omega
    · simp only [Function.update_of_ne ht, hbytes]
  ordered := hs.ordered
  once := hs.once
  apart := hs.apart
  known := hs.known
  new := hs.new
  opened := hs.opened

/-- A worker takes a connection off its queue; there is one, because it has read a byte. -/
theorem Inv.pop (hs : s.Inv) {tid : ℕ} (hpop : s.popping tid = true) :
    { s.connCqPop tid with popping := Function.update s.popping tid false }.Inv := by
  have hbytes := hs.bytes tid
  rw [hpop] at hbytes
  cases hcq : s.newCq tid with
  | nil =>
    rw [hcq] at hbytes
    simp at hbytes
  | cons c cq =>
    have hnew : s.connCqPop tid = { s with
        newCq := Function.update s.newCq tid cq
        popped := Function.update s.popped tid (s.popped tid ++ [c]) } := by
      simp only [connCqPop, hcq, hs.opened.1, List.not_mem_nil, if_false]
    rw [hnew]
    refine ⟨fun t => ?_, fun t => ?_, hs.once, hs.apart, hs.known, hs.new, hs.opened⟩
    · have hbytes' := hs.bytes t
      change _ = _ + s.notifying t + _
      by_cases ht : t = tid
      · subst ht
        rw [hcq, List.length_cons] at hbytes
        simp only [Function.update_self, Bool.toNat_false]
        simp only [Bool.toNat_true] at hbytes
        omega
      · simp only [Function.update_of_ne ht, hbytes']
    · by_cases ht : t = tid
      · subst ht
        simp only [Function.update_self]
        rw [hs.ordered t, hcq, List.append_assoc, List.singleton_append]
      · simp only [Function.update_of_ne ht]
        exact hs.ordered t

/-- **Every step without a failure keeps the invariant.** -/
theorem Inv.step (hs : s.Inv) {r : Unit} (h : threads.step s l = some (r, s'))
    (hl : Notifies s l s') :
    s'.Inv := by
  cases l with
  | accept udp ok =>
    cases hd : s.dispatcher with
    | idle =>
      simp only [threads, hd] at h
      cases ok with
      | true =>
        obtain ⟨-, rfl⟩ := Prod.mk.inj (Option.some.inj h)
        exact hs.accept hd udp
      | false =>
        obtain ⟨-, rfl⟩ := Prod.mk.inj (Option.some.inj h)
        exact hs.decline hd udp
    | _ => simp only [threads, hd] at h; cases h
  | push =>
    cases hd : s.dispatcher with
    | push c =>
      simp only [threads, hd] at h
      obtain ⟨-, rfl⟩ := Prod.mk.inj (Option.some.inj h)
      exact hs.push hd _ _
    | _ => simp only [threads, hd] at h; cases h
  | notify ok =>
    cases hd : s.dispatcher with
    | notify tid c =>
      cases ok with
      | true =>
        simp only [threads, hd, if_true] at h
        obtain ⟨-, rfl⟩ := Prod.mk.inj (Option.some.inj h)
        exact hs.notify hd
      | false => exact absurd rfl hl.1
    | _ => simp only [threads, hd] at h; cases h
  | close =>
    cases hd : s.dispatcher with
    | close c => exact absurd hd (hs.opened.2.2 c)
    | _ => simp only [threads, hd] at h; cases h
  | read tid ok =>
    cases ok with
    | true =>
      simp only [threads] at h
      split_ifs at h with hread
      obtain ⟨-, rfl⟩ := Prod.mk.inj (Option.some.inj h)
      exact hs.read hread.1 hread.2
    | false => exact absurd rfl (hl.2 tid)
  | pop tid =>
    simp only [threads] at h
    split_ifs at h with hpop
    obtain ⟨-, rfl⟩ := Prod.mk.inj (Option.some.inj h)
    exact hs.pop hpop

theorem Inv.handedOver (hs : s.Inv) (tid : ℕ) : HandedOver s tid := by
  have hbalanced : s.dispatcher = .idle → s.popping tid = false →
      (s.newCq tid).length = s.pipe tid := by
    intro hidle hpop
    have hbytes := hs.bytes tid
    simpa only [notifying, hidle, hpop, Bool.toNat_false, Nat.add_zero] using hbytes
  have hpopped : ∀ t, ∀ c ∈ s.popped t, c ∈ s.pushed t := by
    intro t c hc
    rw [hs.ordered t]
    exact List.mem_append_left _ hc
  refine ⟨hbalanced, hs.ordered tid, ?_, fun t ht c hc hc' => ?_, fun hidle hpop hpipe => ?_,
    hs.opened.2.1⟩
  · have honce := hs.once tid
    rw [hs.ordered tid] at honce
    exact honce.of_append_left
  · exact ht (hs.apart t tid c (hpopped t c hc') (hpopped tid c hc))
  · have hempty : s.newCq tid = [] := List.length_eq_zero_iff.1 ((hbalanced hidle hpop).trans hpipe)
    rw [hs.ordered tid, hempty, List.append_nil]

end Threads

/-- **Connections are handed over properly** as long as no notification fails. -/
theorem handed_over (numWorkers : ℕ) (s : Threads)
    (h : threads.Reaches Notifies (.init numWorkers) s) (tid : ℕ) : HandedOver s tid :=
  (h.invariant (Threads.inv_init numWorkers) fun _ _ _ _ hs hst hl => hs.step hst hl).handedOver tid

/-- A run of two workers: three connections are accepted, the first worker has taken one. -/
def handoverRun : List ThreadLabel :=
  [.accept false true, .push, .notify true, .accept false true, .push, .read 0 true,
    .notify true, .pop 0, .accept false true, .push, .notify true]

theorem handed_over_three :
    HandedOver (threads.exec (fun _ l _ => l ≠ .notify false) (.init 2) handoverRun) 0 := by
  have hrun := Machine.reaches_of_run (G := fun _ l _ => decide (l ≠ .notify false) &&
    l matches .accept .. | .push | .notify _ | .close | .read _ true | .pop _)
    (show threads.run _ (.init 2) handoverRun = some _ from rfl)
  refine handed_over 2 _ (hrun.mono fun s l s' hl => ?_) 0
  simp only [Bool.and_eq_true, decide_eq_true_eq] at hl
  refine ⟨hl.1, fun tid h => ?_⟩
  rw [h] at hl
  exact absurd hl.2 (by simp)

/-- A connection whose notification failed is closed by the dispatcher and stays in the queue, where
the worker finds it when the next connection is announced. -/
theorem closed_popped : ¬ ∀ (numWorkers : ℕ) (s : Threads),
    threads.Reaches Machine.Unguarded (.init numWorkers) s → ∀ tid, HandedOver s tid := by
  intro h
  have hrun := Machine.reaches_of_run (G := fun _ _ _ => true) (show threads.run _ (.init 1)
    [.accept false true, .push, .notify false, .close, .accept false true, .push, .notify true,
      .read 0 true, .pop 0] = some _ from rfl)
  exact absurd (h 1 _ (hrun.mono fun _ _ _ _ => trivial) 0).fresh (by decide)

end Twemcache
