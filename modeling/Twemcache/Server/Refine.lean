import Twemcache.Server.Inv
import Twemcache.Store.View

/-!
# The server is a cache

The visible map of the server behaves like the abstract cache: every locked step acts on it as
the operation that the step stands for (`refines_cache`).  An item that is stored after its
expiry time is linked but never visible, so storing it leaves its key unbound.
-/

namespace Twemcache

namespace Server

variable (cfg : Config) (s : Server)

/-- What the item of a connection is about to bind its key to. -/
def storeOp (c : ℕ) (f : Key → Entry (List UInt8) → Cache.Op Key (List UInt8)) :
    Option (Cache.Op Key (List UInt8)) :=
  (s.unstored c).map fun p => f (s.store.keyOf p) ((s.store.items p).entry cfg)

/-- The operation that a step stands for.  Steps that write values in place, the clock and
`flush_all` are not operations of the cache. -/
def op : Label → Option (Cache.Op Key (List UInt8))
  | .alloc .. => some .alloc
  | .set c _ => s.storeOp cfg c .set
  | .cas c _ => s.storeOp cfg c .cas
  | .add c _ => s.storeOp cfg c .add
  | .replace c _ => s.storeOp cfg c .replace
  | .removeItem _ => some .skip
  | .get _ key => some (.get key)
  | .touch .. => some .skip
  | .remove .. => some .skip
  | .delete key => some (.delete key)
  | .moveBucket => some .skip
  | _ => none

/-- The answer of the cache that the answer to a step stands for. -/
def reply : Answer → Cache.Reply (List UInt8)
  | .item p => .value (p.map fun p => (s.store.items p).entry cfg)
  | .cas r => r.reply
  | .add r => r.reply
  | .replace r => r.reply
  | .delete r => r.reply
  | _ => .none

/-- `flush_all` is requested. -/
def isFlush : Label → Bool
  | .flushSet _ => true
  | _ => false

/-- Steps in which no slab has more than 65535 references and no flush is requested. -/
def NoFlush (s : Server) (l : Label) (s' : Server) : Prop := NoWrap s l s' ∧ isFlush l = false

instance (s : Server) (l : Label) (s' : Server) : Decidable (NoFlush s l s') :=
  inferInstanceAs (Decidable (_ ∧ _))

variable {cfg s} {s' : Server} {l : Label} {a : Answer} {c : ℕ} {p : ItemPtr}
  {o : Cache.Op Key (List UInt8)}

/-- Without a flush `oldest_live` stays zero. -/
theorem Effect.oldestLive (he : Effect cfg s l s') (hl : isFlush l = false) :
    s'.store.oldestLive = s.store.oldestLive := by
  cases he with
  | path o base held' hg hp hperm hbase => exact (hp.later hg).oldestLive
  | write c p f hf hmem heq => rw [heq]; rfl
  | env hshape hitems hslabs hlru hbooks hcas hnalloc hrefs hnow hlive =>
    rcases hlive with hlive | ⟨exptime, heq, -⟩
    · exact hlive
    · rw [heq] at hl
      cases hl

/-- A storage step acts as its operation. -/
theorem Inv.step_store (h : s.Inv cfg) (hst : s.store.Stamped cfg s.held) (hcas : cfg.useCas = true)
    {f : ItemPtr → Answer × Store} {g : Key → Entry (List UInt8) → Cache.Op Key (List UInt8)}
    (hs : s.storeItem cfg c f = some (a, s')) (hop : s.storeOp cfg c g = some o)
    (hf : ∀ p, p ∈ s.held → ¬ s.Priv (some c) p → (∃ c, ⟨c, .item false, p⟩ ∈ s.refs) →
      (s.store.items p).flags.linked = false →
      (s.store.items p).flags.cas = true → (f p).2 = s'.store →
      (s.store.view cfg).Step s.store.now (s.store.itemNextCas cfg).1
        (g (s.store.keyOf p) ((s.store.items p).entry cfg)) (s'.reply cfg (f p).1)
        (s'.store.view cfg)) :
    (s.store.view cfg).Step s.store.now (s.store.itemNextCas cfg).1 o (s'.reply cfg a)
      (s'.store.view cfg) := by
  obtain ⟨p, hp, heq⟩ := storeItem_cases hs
  obtain ⟨ha, hs'⟩ := Prod.mk.inj heq
  obtain ⟨p', hp', rfl⟩ := Option.map_eq_some_iff.1 hop
  obtain rfl := Option.some.inj (hp'.symm.trans hp)
  have hmem := unstored_eq_some hp
  have hheld : p' ∈ s.held := List.mem_map_of_mem (f := Ref.ptr) hmem
  rw [← ha]
  exact hf p' hheld (h.not_priv_own hmem) ⟨c, hmem⟩ (h.unstored _ hmem rfl).1
    ((hst.flag p' (.inr hheld)).trans hcas) (congrArg Server.store hs')

/-- A step acts on the visible map as the operation that it stands for. -/
theorem Inv.step_view (h : s.Inv cfg) (hst : s.store.Stamped cfg s.held) (hcas : cfg.useCas = true)
    (h0 : s.store.oldestLive = 0) (hs : s.step cfg l = some (a, s'))
    (hov : s'.store.overflow = false) (hop : s.op cfg l = some o) :
    (s.store.view cfg).Step s.store.now (s.store.itemNextCas cfg).1 o (s'.reply cfg a)
      (s'.store.view cfg) := by
  have hwf' := (h.step hs hov).2.inv.wf
  have hroom : ∀ {n : ℕ} {st : Store}, st = s'.store → st.Room s.held n := fun heq =>
    .inl (heq ▸ hov)
  cases l with
  | alloc c key dataflags exptime nbyte ch =>
    obtain rfl := Option.some.inj hop
    simp only [Server.step] at hs
    split_ifs at hs with hen
    rw [not_or, not_or] at hen
    obtain ⟨-, hid, -⟩ := hen
    obtain ⟨-, rfl⟩ := Prod.mk.inj (Option.some.inj hs)
    -- what is evicted for the new item is forgotten
    rcases Store.itemAlloc_cases h.inv.wf h.inv.full (Store.itemSlabid_valid hid) ch key
      dataflags exptime nbyte with heq | ⟨p, u, hh, heq⟩
    · simp only [heq]
      exact fun key => .inl rfl
    · simp only [heq] at hwf' ⊢
      exact hh.view_forgets h.inv.wf hwf'
  | set c ch =>
    refine h.step_store hst hcas hs hop fun p hp hpriv hlink hl hflag heq => ?_
    rw [← heq, (h.guarded (.set c ch) _).view_itemSet hp hl hflag h0 hpriv hlink (hroom heq)]
    rfl
  | cas c ch =>
    refine h.step_store hst hcas hs hop fun p hp hpriv hlink hl hflag heq => ?_
    rw [← heq]
    exact (h.guarded (.cas c ch) (some c)).view_itemCas hp hl hflag h0 (hroom heq)
  | add c ch =>
    refine h.step_store hst hcas hs hop fun p hp hpriv hlink hl hflag heq => ?_
    rw [← heq]
    exact (h.guarded (.add c ch) _).view_itemAdd hp hl hflag h0 hpriv hlink (hroom heq)
  | replace c ch =>
    refine h.step_store hst hcas hs hop fun p hp hpriv hlink hl hflag heq => ?_
    rw [← heq]
    exact (h.guarded (.replace c ch) (some c)).view_itemReplace hp hl hflag h0 (hroom heq)
  | removeItem c =>
    obtain rfl := Option.some.inj hop
    obtain ⟨r, hr, heq⟩ := Option.map_eq_some_iff.1 hs
    obtain ⟨rfl, rfl⟩ := Prod.mk.inj heq
    exact congrArg (Prod.mk _) (Store.view_remove h.inv.wf hwf').symm
  | get c key =>
    obtain rfl := Option.some.inj hop
    obtain ⟨rfl, rfl⟩ := Prod.mk.inj (Option.some.inj hs)
    obtain ⟨h1, h2⟩ := (h.guarded (.get c key) none).view_itemGet key
    exact Prod.ext (congrArg Cache.Reply.value h2.symm) h1.symm
  | touch c p =>
    obtain rfl := Option.some.inj hop
    simp only [Server.step] at hs
    split_ifs at hs with hmem
    obtain ⟨rfl, rfl⟩ := Prod.mk.inj (Option.some.inj hs)
    have hp := h.inv.active p (List.mem_map_of_mem (f := Ref.ptr) hmem)
    exact congrArg (Prod.mk _) (Store.view_touch h.inv.wf hwf' hp.1 h0).symm
  | remove c p =>
    obtain rfl := Option.some.inj hop
    simp only [Server.step] at hs
    split_ifs at hs with hmem
    obtain ⟨rfl, rfl⟩ := Prod.mk.inj (Option.some.inj hs)
    exact congrArg (Prod.mk _) (Store.view_remove h.inv.wf hwf').symm
  | delete key =>
    obtain rfl := Option.some.inj hop
    obtain ⟨rfl, rfl⟩ := Prod.mk.inj (Option.some.inj hs)
    exact (h.guarded (.delete key) none).view_itemDelete (hroom rfl) _ _
  | moveBucket =>
    obtain rfl := Option.some.inj hop
    obtain ⟨rfl, rfl⟩ := Prod.mk.inj (Option.some.inj hs)
    -- the maintenance thread changes nothing that clients see
    refine congrArg (Prod.mk _) (Store.view_quiet h.inv.wf hwf' rfl rfl (fun _ => Iff.rfl)
      (fun _ _ => rfl) fun _ _ => .inl rfl).symm
  | _ => cases hop

variable {now evictOpt : ℕ} {slabs : ℕ → Slab} {items : ItemPtr → Item}

/-- In every state that is reached without a flush, items have stamps and none was flushed. -/
theorem inv_of_noFlush (h : (server cfg).Reaches NoFlush (init cfg now evictOpt slabs items) s) :
    s.Inv cfg ∧ s.store.Stamped cfg s.held ∧ s.store.oldestLive = 0 :=
  inv_init.run (I := fun s => s.store.Stamped cfg s.held ∧ s.store.oldestLive = 0)
    ⟨stamped_init, rfl⟩ h (fun _ _ _ h => h.1) fun _ _ _ _ hi hI _ hC he =>
      ⟨he.stamped hi hI.1, (he.oldestLive hC.2).trans hI.2⟩

/-- No entry that was visible before has the next cas id. -/
theorem Inv.next_fresh {t : Server} (h : t.Inv cfg) (hst : t.store.Stamped cfg t.held)
    (hcas : cfg.useCas = true) (hr : (server cfg).Reaches NoFlush t s)
    (hlt : s.store.casIssued + 1 < 2 ^ 64) {key : Key} {e : Entry (List UInt8)}
    (he : t.store.view cfg key = some e) : e.cas ≠ (s.store.itemNextCas cfg).1 := by
  have hmono : t.store.casIssued ≤ s.store.casIssued :=
    (h.run (I := fun s => t.store.casIssued ≤ s.store.casIssued) le_rfl hr (fun _ _ _ h => h.1)
      fun _ _ _ _ _ hI _ _ he => hI.trans he.casIssued).2
  obtain ⟨p, hp, rfl⟩ := h.inv.wf.view_eq_some_iff.1 he
  obtain ⟨n, -, hle, hn⟩ := hst.cas hcas p hp.linked
  have hflag := (hst.flag p (.inl hp.linked)).trans hcas
  have hentry : ((t.store.items p).entry cfg).cas = n % 2 ^ 64 := by
    simp only [Item.entry, Item.getCas, hflag, if_true, hn]
  rw [hentry, (Store.itemNextCas_of_useCas hcas).1]
  omega

/-- **The server refines the abstract cache.**  With cas ids on, no flush and at most 65535
references to a slab, a step of any connection acts on the visible map as the operation that it
stands for, and is answered accordingly; storage operations use the next cas id, which no entry
has had before. -/
theorem refines_cache (hcas : cfg.useCas = true)
    (h : (server cfg).Reaches NoFlush (init cfg now evictOpt slabs items) s)
    (hs : s.step cfg l = some (a, s')) (hC : NoFlush s l s') (hop : s.op cfg l = some o) :
    (s.store.view cfg).Step s.store.now (s.store.itemNextCas cfg).1 o (s'.reply cfg a)
        (s'.store.view cfg) ∧
      (s.store.casIssued + 1 < 2 ^ 64 →
        ∀ t, (server cfg).Reaches NoFlush (init cfg now evictOpt slabs items) t →
          (server cfg).Reaches NoFlush t s →
          ∀ key e, t.store.view cfg key = some e → e.cas ≠ (s.store.itemNextCas cfg).1) := by
  obtain ⟨hi, hst, h0⟩ := inv_of_noFlush h
  refine ⟨hi.step_view hst hcas h0 hs hC.1 hop, fun hlt t ht hts key e he => ?_⟩
  obtain ⟨hi', hst', -⟩ := inv_of_noFlush ht
  exact hi'.next_fresh hst' hcas hts hlt he

/-- `a` is stored and `b` is about to be, on another connection. -/
def twoKeys : Server :=
  (server .tiny).exec (fun s l s' => decide (NoFlush s l s')) (.tiny evictLru)
    [.alloc 0 [97] 0 0 1 {}, .fill 0 0 [120, 13, 10], .set 0 {}, .alloc 1 [98] 7 50 1 {},
      .fill 1 0 [0, 13, 10]]

theorem refines_cache_twoKeys : ∃ s' : Server,
    (server .tiny).Reaches NoFlush (.tiny evictLru) twoKeys ∧
      twoKeys.step .tiny (.add 1 {}) = some (.add .ok, s') ∧ NoFlush twoKeys (.add 1 {}) s' ∧
      (twoKeys.store.view .tiny).Step 2 2 (.add [98] ⟨[0], 7, 50, 0⟩) .stored
        (s'.store.view .tiny) := by
  have hreach : (server .tiny).Reaches NoFlush (.tiny evictLru) twoKeys :=
    (Machine.reaches_exec (by decide +kernel)).mono fun _ _ _ => of_decide_eq_true
  have hs : ((twoKeys.step .tiny (.add 1 {})).map fun x =>
      (x.1, decide (NoFlush twoKeys (.add 1 {}) x.2))) = some (.add .ok, true) := by decide +kernel
  obtain ⟨⟨a, s'⟩, hs, heq⟩ := Option.map_eq_some_iff.1 hs
  obtain ⟨rfl, hC⟩ := Prod.mk.inj heq
  exact ⟨s', hreach, hs, of_decide_eq_true hC,
    (refines_cache rfl hreach hs (of_decide_eq_true hC) (by decide +kernel)).1⟩

/-- `a` is about to be stored, with an expiry time that has passed. -/
def stale : Server :=
  (server .tiny).exec (fun s l s' => decide (NoFlush s l s')) (.tiny evictLru)
    [.alloc 0 [97] 0 1 1 {}, .fill 0 0 [120, 13, 10]]

/-- Storing an item that has expired does not bind its key. -/
theorem set_expired_hidden : ∃ s' : Server,
    (server .tiny).Reaches NoFlush (.tiny evictLru) stale ∧
      stale.step .tiny (.set 0 {}) = some (.done, s') ∧ NoFlush stale (.set 0 {}) s' ∧
      stale.op .tiny (.set 0 {}) = some (.set [97] ⟨[120], 0, 1, 0⟩) ∧
      ∀ cas, s'.store.view .tiny [97] ≠ some ⟨[120], 0, 1, cas⟩ := by
  have hreach : (server .tiny).Reaches NoFlush (.tiny evictLru) stale :=
    (Machine.reaches_exec (by decide +kernel)).mono fun _ _ _ => of_decide_eq_true
  have hs : ((stale.step .tiny (.set 0 {})).map fun x =>
      (x.1, decide (NoFlush stale (.set 0 {}) x.2), x.2.store.view .tiny [97])) =
        some (.done, true, none) := by decide +kernel
  obtain ⟨⟨a, s'⟩, hs, heq⟩ := Option.map_eq_some_iff.1 hs
  obtain ⟨rfl, hrest⟩ := Prod.mk.inj heq
  obtain ⟨hC, hview⟩ := Prod.mk.inj hrest
  refine ⟨s', hreach, hs, of_decide_eq_true hC, by decide +kernel, fun cas heq => ?_⟩
  rw [hview] at heq
  cases heq

end Server

end Twemcache
