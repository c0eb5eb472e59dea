import Twemcache.Server.Flush
import Twemcache.Store.Expire

/-!
# Flushes of one command after another

`oldest_live` is the only mark of a flush: a `flush_all` overwrites the one of an earlier flush.  If
it is set to a time that has not come, items that are still linked and were flushed before can be
seen again, and if it is set to zero nothing is flushed any more.  Otherwise flushes are permanent.

## Main definitions

* `Command` : what is executed in one go, so that an item is touched right after it was looked up.
* `commands` : the machine of commands.
* `Upholds` : a flush comes into force no later than the flushes before it.

## Main results

* `flush_permanent` : if all flushes do so, then what was linked before a flush is never returned
  after its moment.
-/

namespace Twemcache

namespace Store

variable {cfg : Config} {s : Store}

/-- The moment of a flush, in seconds since the start of the server. -/
def flushMoment (cfg : Config) (s : Store) : Option ℤ → ℤ
  | none => s.now
  | some exptime => if exptime > 0 then s.deadline cfg exptime - cfg.processStarted else s.now

/-- No item in an lru queue has been flushed. -/
def AllAlive (s : Store) : Prop :=
  ∀ id ∈ List.range' slabclassMinId slabclassMaxId, ∀ p ∈ s.lruq id, s.flushed p = false

instance (s : Store) : Decidable s.AllAlive := inferInstanceAs (Decidable (∀ id ∈ _, ∀ p ∈ _, _))

/-- What `flush_all` writes comes before the moment of the flush, unless it is zero. -/
theorem flushallTime_le {exptime : Option ℤ} (h2 : 2 ≤ s.now) (hnow : s.now < 2 ^ 32)
    (h0 : s.flushallTime cfg exptime ≠ 0) :
    (s.flushallTime cfg exptime : ℤ) ≤ s.flushMoment cfg exptime := by
  have hago : s.ago 1 = s.now - 1 := by
    rw [ago]
    omega
  -- the low 32 bits of a time, less one
  have hwrap : ∀ d : ℤ, 0 < d → ((((d % 2 ^ 32).toNat + 2 ^ 32 - 1) % 2 ^ 32 : ℕ) : ℤ) ≤ d := by
    intro d hd
    have hlow : 0 ≤ d % 2 ^ 32 := Int.emod_nonneg _ (by decide)
    omega
  cases exptime with
  | none =>
    simp only [flushallTime, flushMoment, hago]
    omega
  | some e =>
    by_cases hpos : e > 0
    · simp only [flushallTime, flushMoment, if_pos hpos] at h0 ⊢
      by_cases habs : e > timeMaxdelta
      · have habs' : e > 60 * 60 * 24 * 30 := habs
        rw [deadline, if_pos habs]
        by_cases hpast : e ≤ cfg.processStarted
        · -- a unix time before the start: the flush is undone at once
          have hrel : s.timeReltime cfg e = 1 := by
            simp only [timeReltime, if_neg hpos.ne', if_pos habs', if_pos hpast]
          rw [hrel] at h0
          exact absurd rfl h0
        · simp only [timeReltime, if_neg hpos.ne', if_pos habs', if_neg hpast]
          exact hwrap _ (by omega)
      · have habs' : ¬ e > 60 * 60 * 24 * 30 := habs
        have hdead : s.deadline cfg e - cfg.processStarted = e + s.now := by
          rw [deadline, if_neg habs]
          omega
        rw [hdead]
        simp only [timeReltime, if_neg hpos.ne', if_neg habs']
        exact hwrap _ (by omega)
    · simp only [flushallTime, flushMoment, if_neg hpos, hago]
      omega

theorem AllAlive.of_linked {q : ItemPtr} (h : s.AllAlive) (hwf : s.Wf cfg) (hq : s.Linked cfg q) :
    s.flushed q = false :=
  h _ (mem_classes hwf hq.1) q (hwf.mem_lruq_iff.2 ⟨hq.1, rfl, hq.2⟩)

theorem flushQueue_env (l : List ItemPtr) : (s.flushQueue cfg l).env = s.env := by
  induction l generalizing s with
  | nil => rfl
  | cons p ps ih =>
    unfold flushQueue
    split_ifs
    · rfl
    · exact ih.trans (itemUnlink_env p)

theorem itemFlushExpired_env : (s.itemFlushExpired cfg).env = s.env := by
  have hfold : ∀ (ids : List ℕ) (u : Store),
      (ids.foldl (fun s id => s.flushQueue cfg (s.lruq id).reverse) u).env = u.env := by
    intro ids
    induction ids with
    | nil => exact fun _ => rfl
    | cons id ids ih => exact fun u => (ih _).trans (flushQueue_env _)
  unfold itemFlushExpired
  split_ifs
  · rfl
  · exact hfold _ s

end Store

namespace Server

/-- What is executed in one go. -/
inductive Command where
  /-- `flush_all`, with its argument if there is one. -/
  | flushAll (exptime : Option ℤ)
  /-- A key of `get` or `gets`: `item_get`, and `item_touch` of the item that it returns. -/
  | lookup (c : ℕ) (key : Key)
  /-- Another locked step. -/
  | other (l : Label)

/-- The labels of `item_touch` and `flush_all`, which are parts of commands. -/
def isPart : Label → Bool
  | .touch _ _ => true
  | .flushSet _ => true
  | .flushExpired => true
  | _ => false

/-- Commands, one after another. -/
def commands (cfg : Config) : Machine Server Command Answer where
  step s
    | .flushAll exptime => (s.step cfg (.flushSet exptime)).bind fun x => x.2.step cfg .flushExpired
    | .lookup c key => (s.step cfg (.get c key)).bind fun x =>
      match x.1 with
      | .item (some p) => (x.2.step cfg (.touch c p)).map fun y => (x.1, y.2)
      | _ => some x
    | .other l => if isPart l then none else s.step cfg l

variable (cfg : Config)

/-- A `flush_all` does not weaken the ones before it: `oldest_live` does not become zero, and it is
set to a time that has come, or to one that is no later than before, or what was flushed before has
been unlinked. -/
def Upholds (s : Server) : Command → Prop
  | .flushAll exptime => s.store.flushallTime cfg exptime ≠ 0 ∧ (s.store.oldestLive = 0 ∨
      s.store.flushallTime cfg exptime ≤ s.store.now ∨
        s.store.flushallTime cfg exptime ≤ s.store.oldestLive ∨
      s.store.oldestLive ≤ s.store.now ∧ s.store.AllAlive)
  | _ => True

instance (s : Server) : (k : Command) → Decidable (Upholds cfg s k)
  | .flushAll _ => inferInstanceAs (Decidable (_ ∧ _))
  | .lookup _ _ => inferInstanceAs (Decidable True)
  | .other _ => inferInstanceAs (Decidable True)

/-- Commands that uphold flushes, in which no slab has more than 65535 references. -/
def Keeping (s : Server) (l : Command) (s' : Server) : Prop :=
  s'.store.overflow = false ∧ Upholds cfg s l

instance (s : Server) (l : Command) (s' : Server) : Decidable (Keeping cfg s l s') :=
  inferInstanceAs (Decidable (_ ∧ _))

variable {cfg : Config} {s s' t : Server} {k : Command} {l : Label} {a : Answer} {c : ℕ}
  {q p : ItemPtr} {g m : ℕ} {exptime : Option ℤ} {key : Key}

/-! ### Commands as steps -/

/-- A `flush_all` is its two steps. -/
theorem flushAll_steps (hs : (commands cfg).step s (.flushAll exptime) = some (a, s'))
    (hov : s'.store.overflow = false) :
    ∃ u, s.step cfg (.flushSet exptime) = some (.done, u) ∧ NoWrap s (.flushSet exptime) u ∧
      u.step cfg .flushExpired = some (a, s') ∧ NoWrap u .flushExpired s' := by
  refine ⟨_, rfl, ?_, hs, hov⟩
  obtain ⟨-, rfl⟩ := Prod.mk.inj (Option.some.inj hs)
  exact Store.overflow_of_env Store.itemFlushExpired_env hov

/-- A lookup is an `item_get`, and an `item_touch` of what it returns. -/
theorem lookup_steps (hs : (commands cfg).step s (.lookup c key) = some (a, s'))
    (hov : s'.store.overflow = false) :
    ∃ u, s.step cfg (.get c key) = some (.item (s.store.itemGet cfg key).1, u) ∧
      NoWrap s (.get c key) u ∧ u.store = (s.store.itemGet cfg key).2 ∧
      (s' = u ∨ ∃ p, (s.store.itemGet cfg key).1 = some p ∧
        u.step cfg (.touch c p) = some (.done, s') ∧ NoWrap u (.touch c p) s') := by
  have hstep : s.step cfg (.get c key) =
      some (.item (s.store.itemGet cfg key).1, (s.keep c .ilist (s.store.itemGet cfg key)).2) := rfl
  refine ⟨_, hstep, ?_⟩
  simp only [commands, hstep, Option.bind_some] at hs
  cases hget : (s.store.itemGet cfg key).1 with
  | none =>
    rw [hget] at hs
    obtain rfl := (Prod.mk.inj (Option.some.inj hs)).2
    exact ⟨hov, rfl, .inl rfl⟩
  | some p =>
    rw [hget] at hs
    obtain ⟨⟨b, u⟩, htouch, heq⟩ := Option.map_eq_some_iff.1 hs
    obtain rfl := (Prod.mk.inj heq).2
    have hdone : b = .done ∧ u.store = (s.store.itemGet cfg key).2.itemTouch cfg p := by
      simp only [Server.step] at htouch
      split_ifs at htouch
      obtain ⟨rfl, rfl⟩ := Prod.mk.inj (Option.some.inj htouch)
      exact ⟨rfl, rfl⟩
    obtain ⟨rfl, hstore⟩ := hdone
    refine ⟨?_, rfl, .inr ⟨p, rfl, htouch, hov⟩⟩
    dsimp only at hov
    rw [hstore] at hov
    exact Store.overflow_of_env (Store.itemTouch_env cfg p) hov

/-- What is true in every state stays true. -/
theorem Based.command (hb : Based cfg s) (hs : (commands cfg).step s k = some (a, s'))
    (hov : s'.store.overflow = false) :
    Based cfg s' := by
  cases k with
  | flushAll exptime =>
    obtain ⟨u, hset, hno, hexpired, hno'⟩ := flushAll_steps hs hov
    exact (hb.step hset hno).step hexpired hno'
  | lookup c key =>
    obtain ⟨u, hget, hno, -, rfl | ⟨p, -, htouch, hno'⟩⟩ := lookup_steps hs hov
    · exact hb.step hget hno
    · exact (hb.step hget hno).step htouch hno'
  | other l =>
    simp only [commands] at hs
    split_ifs at hs
    exact hb.step hs hov

/-- **A command that upholds flushes brings nothing back.** -/
theorem Gone.command (h : Gone cfg s q g m) (hb : Based cfg s)
    (hs : (commands cfg).step s k = some (a, s')) (hk : Keeping cfg s k s') :
    Gone cfg s' q g m := by
  obtain ⟨hov, hup⟩ := hk
  cases k with
  | flushAll exptime =>
    obtain ⟨u, hset, hno, hexpired, hno'⟩ := flushAll_steps hs hov
    obtain ⟨hne, hsooner⟩ := hup
    have hstore : u.store = { s.store with oldestLive := s.store.flushallTime cfg exptime } :=
      (congrArg store (Prod.mk.inj (Option.some.inj hset)).2).symm
    refine .of_flush (hb.step hset hno) (h.served.step hb hset hno) ?_ (fun hl hgen => ?_)
      hexpired hno'
    · rw [hstore]
      exact hne
    · rw [hstore] at hl hgen ⊢
      -- a later flush must not spare the item
      obtain ⟨harmed, hreached, hpast⟩ := h.past hl hgen
      rcases hsooner with hzero | hnow | hle | ⟨hforce, halive⟩
      · exact absurd hzero harmed
      · exact .inl hnow
      · exact hreached.imp hle.trans hle.trans
      · -- it would have to be unlinked
        have hdead := halive.of_linked hb.inv.inv.wf hl
        rw [Store.flushed_iff.2 ⟨harmed, hforce, hpast⟩] at hdead
        cases hdead
  | lookup c key =>
    obtain ⟨u, hget, hno, hstore, rfl | ⟨p, hfound, htouch, hno'⟩⟩ := lookup_steps hs hov
    · exact h.step hb hget hno rfl trivial
    · -- what `item_get` has returned is not flushed
      refine (h.step hb hget hno rfl trivial).step (hb.step hget hno) htouch hno'
        rfl fun hflushed _ => ?_
      have halive : s.store.dead p = false ∧
          (s.store.itemGet cfg key).2 = s.store.itemAcquireRefcount p := by
        rcases hb.inv.inv.wf.itemGet_cases key with ⟨-, heq⟩ | ⟨x, -, -, ⟨-, heq⟩ | ⟨hdead, heq⟩⟩
        · simp [heq] at hfound
        · simp [heq] at hfound
        · rw [heq] at hfound ⊢
          obtain rfl := Option.some.inj hfound
          exact ⟨hdead, rfl⟩
      rw [hstore, halive.2] at hflushed
      have hdead : (s.store.itemAcquireRefcount p).dead p = true := by simp [Store.dead, hflushed]
      rw [Store.dead_itemAcquireRefcount, halive.1] at hdead
      cases hdead
  | other l =>
    simp only [commands] at hs
    split_ifs at hs with hpart
    cases l with
    | touch c p => exact absurd rfl hpart
    | flushSet exptime => exact absurd rfl hpart
    | _ => exact h.step hb hs hov rfl trivial

/-! ### Histories -/

variable {now evictOpt : ℕ} {slabs : ℕ → Slab} {items : ItemPtr → Item}

/-- **Flushes are permanent**, if each comes into force no later than those before it, and none is
undone by a time before the start of the server: what was linked before a flush is not returned
after its moment, whatever happens. -/
theorem flush_permanent (h2 : 2 ≤ now) (hnow : now < 2 ^ 32) {s₁ : Server}
    (hr : (commands cfg).Reaches (Keeping cfg) (init cfg now evictOpt slabs items) s)
    (hq : s.store.Linked cfg q) (hflush : (commands cfg).step s (.flushAll exptime) = some (a, s₁))
    (hkeep : Keeping cfg s (.flushAll exptime) s₁)
    (hrun : (commands cfg).Reaches (Keeping cfg) s₁ t)
    (hmoment : s.store.flushMoment cfg exptime ≤ t.store.now) (key : Key) :
    ¬ ((t.store.itemGet cfg key).1 = some q ∧ (t.store.items q).gen = (s.store.items q).gen) := by
  have hb : Based cfg s :=
    hr.invariant (based_init h2 hnow) fun _ _ _ _ hI hst hc => hI.command hst hc.1
  obtain ⟨u, hset, hno, hexpired, hno'⟩ := flushAll_steps hflush hkeep.1
  have hstore : u.store = { s.store with oldestLive := s.store.flushallTime cfg exptime } :=
    (congrArg store (Prod.mk.inj (Option.some.inj hset)).2).symm
  have hle := @Store.flushallTime_le cfg _ _ hb.started hb.sound.now hkeep.2.1
  have hgone : Gone cfg s₁ q (s.store.items q).gen (s.store.flushMoment cfg exptime).toNat := by
    refine .of_flush (hb.step hset hno) ((hb.served hq).step hb hset hno) ?_ (fun _ _ => .inr ?_)
      hexpired hno'
    · rw [hstore]
      exact hkeep.2.1
    · rw [hstore]
      exact Int.ofNat_le.1 (hle.trans (Int.self_le_toNat _))
  obtain ⟨hbt, hgt⟩ := hrun.invariant
    (I := fun v => Based cfg v ∧
      Gone cfg v q (s.store.items q).gen (s.store.flushMoment cfg exptime).toNat)
    ⟨hb.command hflush hkeep.1, hgone⟩ fun _ _ _ _ hI hst hc =>
      ⟨hI.1.command hst hc.1, hI.2.command hI.1 hst hc⟩
  exact fun hsame => hgt.itemGet_ne hbt (Int.toNat_le.2 hmoment) key hsame.1 hsame.2

/-- An item is stored at time 100, and it is 200 now. -/
def flushable : Server :=
  (commands .tiny).exec (fun s l s' => decide (Keeping .tiny s l s')) (.tiny evictLru)
    [.other (.tick 100), .other (.alloc 0 [97] 0 0 1 {}), .other (.fill 0 0 [120, 13, 10]),
      .other (.set 0 {}), .other (.removeItem 0), .other (.tick 200)]

theorem reaches_flushable : (commands .tiny).Reaches (Keeping .tiny) (.tiny evictLru) flushable :=
  (Machine.reaches_exec (by decide +kernel)).mono fun _ _ _ => of_decide_eq_true

theorem linked_flushable : flushable.store.Linked .tiny ⟨0, 0⟩ :=
  ⟨⟨by decide +kernel, by decide +kernel⟩, by decide +kernel⟩

/-- The item is flushed with a delay of 50 seconds, looked up before and after, and another flush
follows. -/
theorem flush_permanent_fifty : ∃ s₁ t : Server,
    (commands .tiny).step flushable (.flushAll (some 50)) = some (.done, s₁) ∧
    (commands .tiny).Reaches (Keeping .tiny) s₁ t ∧ t.store.now = 260 ∧
    ¬ ((t.store.itemGet .tiny [97]).1 = some ⟨0, 0⟩ ∧
      (t.store.items ⟨0, 0⟩).gen = (flushable.store.items ⟨0, 0⟩).gen) := by
  obtain ⟨s₁, hflush⟩ : ∃ s₁, (commands .tiny).step flushable (.flushAll (some 50)) =
      some (.done, s₁) := ⟨_, rfl⟩
  have hkeep : Keeping .tiny flushable (.flushAll (some 50)) s₁ := by
    obtain ⟨-, rfl⟩ := Prod.mk.inj (Option.some.inj hflush)
    decide +kernel
  have hrun : ((commands .tiny).run (fun s l s' => decide (Keeping .tiny s l s')) s₁
      [.other (.tick 210), .lookup 1 [97], .other (.tick 260), .flushAll none]).isSome = true := by
    obtain ⟨-, rfl⟩ := Prod.mk.inj (Option.some.inj hflush)
    decide +kernel
  have hnow : ((commands .tiny).exec (fun s l s' => decide (Keeping .tiny s l s')) s₁
      [.other (.tick 210), .lookup 1 [97], .other (.tick 260), .flushAll none]).store.now =
          260 := by
    obtain ⟨-, rfl⟩ := Prod.mk.inj (Option.some.inj hflush)
    decide +kernel
  have hreach := (Machine.reaches_exec hrun).mono fun _ _ _ => of_decide_eq_true
  have hmoment : flushable.store.flushMoment .tiny (some 50) ≤ 260 := by decide +kernel
  refine ⟨s₁, _, hflush, hreach, hnow, ?_⟩
  exact flush_permanent (by decide) (by decide) reaches_flushable linked_flushable
    hflush hkeep hreach
    (by rw [hnow]; exact hmoment) [97]

/-- The item is flushed at once; a `flush_all` with a delay brings it back. -/
theorem flush_overwritten : (commands .tiny).Reaches (Keeping .tiny) (.tiny evictLru) flushable ∧
    flushable.store.Linked .tiny ⟨0, 0⟩ ∧
      flushable.store.flushMoment .tiny none ≤ flushable.store.now ∧
    ∃ t : Server, (commands .tiny).run (fun _ _ _ => true) flushable
      [.flushAll none, .flushAll (some 100)] = some t ∧
      (t.store.itemGet .tiny [97]).1 = some ⟨0, 0⟩ ∧
      (t.store.items ⟨0, 0⟩).gen = (flushable.store.items ⟨0, 0⟩).gen := by
  refine ⟨reaches_flushable, linked_flushable, le_rfl,
    (commands .tiny).exec (fun _ _ _ => true) flushable
    [.flushAll none, .flushAll (some 100)], Machine.run_eq_exec (by decide +kernel), ?_, ?_⟩
  · decide +kernel
  · decide +kernel

end Server

end Twemcache
