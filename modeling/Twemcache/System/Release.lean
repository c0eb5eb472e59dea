import Twemcache.Conn.Loans
import Twemcache.System.Refine

/-!
# What connections give back

In orderly runs every reference to an item and every suffix buffer that a connection has taken is
given back once: by the time it begins the next command, or when it is closed.  A `get` that has
found an item and then comes to a key that is too long gives nothing back.

## Main definitions

* `System.Intact` : what a connection has in orderly runs.

## Main results

* `System.intact_of_orderly` : in orderly runs no connection loses anything.
* `System.released_exact` : references and suffix buffers are given back once.
* `System.reference_leaks` : a `get` with a key that is too long does not give back what it has.
-/

namespace Twemcache

namespace System

variable {cfg : Config} {now evictOpt : ℕ} {slabs : ℕ → Slab} {items : ItemPtr → Item}
  {set : Settings} {x y : Family ℕ Client Commons} {i : ℕ} {o o' : Client} {g g' : Commons}

/-- The connection has lost no reference and no suffix buffer. -/
def Intact (c : Conn) (lost : List ItemPtr) : Prop := lost = [] ∧ c.ListDue ∧ c.loans.Listed

theorem intact_turn {w w' : Session} {io : Session.Io} {lost lost' : List ItemPtr}
    (h : Intact w.conn lost) (ht : w.turn cfg io = some w') (htidy : w.Tidy cfg → lost' = [])
    (hlist : Session.Relisted w w')
    (hC : ActOrderly cfg (w.client, w.commons) (.turn io) (w'.client, w'.commons)) :
    Intact w'.conn (lost' ++ lost) := by
  obtain ⟨rfl, hdue, hlisted⟩ := h
  have ho : Session.Orderly cfg w w' := hC.2 io rfl
  rw [htidy (ho.tidy hdue)]
  exact ⟨rfl, ho.listDue hdue ht hlist, Session.turn_listed hlisted hdue ho ht⟩

/-- In orderly runs no connection loses anything. -/
theorem intact_of_orderly (hcfg : ∀ key : Key, key.length ≤ keyMaxLen → cfg.DeltaFits key)
    (hnow : now < 2 ^ 32)
    (h : (system cfg).Reaches (Orderly cfg) (init cfg now evictOpt slabs items set) x)
    (ho : x.member i = some o) : ∃ lost, Intact o.conn lost := by
  have hinit : ∀ b : Arrival, Intact b.client.conn [] := fun b =>
    ⟨rfl, .inl rfl, List.Perm.refl _, List.nodup_nil, fun s hs => absurd hs List.not_mem_nil, rfl⟩
  obtain ⟨s, -, -, hown⟩ := reaches_matched hcfg hinit
    (fun _ _ _ _ _ hI ht htidy hlist hC => intact_turn hI ht htidy hlist hC)
    (fun _ _ _ hC => hC.1) (fun _ _ _ h => h) hnow h
  have hi := hown i
  rw [ho] at hi
  obtain ⟨lost, -, -, -, hintact⟩ := hi
  exact ⟨lost, hintact⟩

/-- A connection that is closed gives back all references. -/
theorem refs_coreClose (w : Session) : w.coreClose.client.refs = [] := by
  have hitem : w.releaseItem.conn.item = none := by
    unfold Session.releaseItem
    cases hn : w.conn.item with
    | none => exact hn
    | some it => rfl
  have hall : (w.releaseItem.releaseItems.setConn Conn.releaseSuffixes).stop.client.refs = [] := by
    change w.releaseItem.conn.item.toList ++ _ = []
    rw [hitem]
    rfl
  unfold Session.coreClose
  dsimp only
  split_ifs <;> exact hall

/-- **References and suffix buffers are given back once**, in orderly runs: the count of a chunk is
the number of times that it is in `c->item` and in what is left of `ilist`, over all connections,
and the suffix buffers that a connection has taken are those that remain in its list, each once.
Between two commands, and when it has been closed, a connection has no reference and no suffix
buffer. -/
theorem released_exact (hcfg : ∀ key : Key, key.length ≤ keyMaxLen → cfg.DeltaFits key)
    (hnow : now < 2 ^ 32)
    (h : (system cfg).Reaches (Orderly cfg) (init cfg now evictOpt slabs items set) x) :
    (∃ conns : Finset ℕ, (∀ i, i ∈ conns ↔ (x.member i).isSome) ∧
      ∀ p, x.shared.store.Active cfg p →
        (x.shared.store.items p).refcount = ∑ i ∈ conns, (refs x i).count p) ∧
      ∀ i o, x.member i = some o →
        (o.conn.suffixes.Perm o.conn.suffixesLeft ∧ o.conn.suffixes.Nodup) ∧
        (o.conn.state ≠ .nread → o.conn.state ≠ .mwrite → o.conn.state ≠ .close →
          o.refs = [] ∧ o.conn.suffixes = []) ∧
        ∀ y o', (system cfg).step x (.act i (.turn .close)) = some ((), y) →
          y.member i = some o' → o'.refs = [] ∧ o'.conn.suffixes = [] := by
  refine ⟨?_, fun i o ho => ?_⟩
  · obtain ⟨s, conns, ⟨hstore, hinv, -⟩, hconns, hcount⟩ := countP_of_orderly hcfg hnow h
    rw [← hstore]
    refine ⟨conns, hconns, fun p hp => ?_⟩
    rw [hinv.inv.ref p hp, List.count_eq_countP, hcount]
    exact Finset.sum_congr rfl fun i _ => List.count_eq_countP.symm
  obtain ⟨lost, -, hdue, hlisted⟩ := intact_of_orderly hcfg hnow h ho
  refine ⟨⟨hlisted.perm, hlisted.nodup⟩, fun hnread hmwrite hclose => ?_, fun y q hst hq => ?_⟩
  · obtain ⟨s, -, -, hown⟩ := owns_of_orderly hcfg hnow h
    -- what is left of the lists is due in `CONN_MWRITE` and `CONN_CLOSE` only
    have hi := hown i
    rw [ho] at hi
    have hleft : o.conn.ileft = 0 := hdue.resolve_right (not_or.2 ⟨hmwrite, hclose⟩)
    exact ⟨hi.refs_nil ⟨hnread, hmwrite, hclose⟩,
      hlisted.suffixes_nil (hlisted.paired.trans hleft)⟩
  · rcases Machine.family_cases hst with ⟨j, b, hl, -⟩ | ⟨j, a, u, r, u', g', hl, hu, hact, rfl⟩ |
      ⟨e, r, g', hl, -⟩
    · cases hl
    · -- the connection itself is closed
      obtain ⟨rfl, rfl⟩ := FamilyLabel.act.inj hl
      obtain rfl := Option.some.inj (ho.symm.trans hu)
      dsimp only at hq
      rw [Function.update_self] at hq
      obtain rfl := Option.some.inj hq
      have hclosed : (o.session x.shared).coreClose = u'.session g' :=
        (Session.turn_close (connections_turn hact)).2
      refine ⟨?_, ?_⟩
      · have hrefs := refs_coreClose (o.session x.shared)
        rwa [hclosed] at hrefs
      · have hloans := Session.coreClose_loans (o.session x.shared)
        rw [hclosed] at hloans
        have hreleased : u'.conn.loans.Listed := hloans ▸ hlisted.release
        exact hreleased.suffixes_nil (congrArg Loans.sleft hloans)
    · cases hl

theorem released_exact_busy :
    ((∃ conns : Finset ℕ, (∀ i, i ∈ conns ↔ (busy.member i).isSome) ∧
      ∀ p, busy.shared.store.Active roomy p →
        (busy.shared.store.items p).refcount = ∑ i ∈ conns, (refs busy i).count p) ∧
      ∀ i o, busy.member i = some o →
        (o.conn.suffixes.Perm o.conn.suffixesLeft ∧ o.conn.suffixes.Nodup) ∧
        (o.conn.state ≠ .nread → o.conn.state ≠ .mwrite → o.conn.state ≠ .close →
          o.refs = [] ∧ o.conn.suffixes = []) ∧
        ∀ y o', (system roomy).step busy (.act i (.turn .close)) = some ((), y) →
          y.member i = some o' → o'.refs = [] ∧ o'.conn.suffixes = []) ∧
      (busy.member 1).map (fun o => o.conn.suffixes) = some [0] :=
  ⟨released_exact roomy_fits (by decide) reaches_busy, by decide +kernel⟩

/-- An item that is found, and a key that is too long. -/
def longKeyRequest : List UInt8 := ascii "get a " ++ List.replicate 251 98 ++ crlf

/-- The item is stored, and the `get` is answered. -/
def leakRun : List (FamilyLabel ℕ Arrival Act Beat) :=
  let stream := ascii "set a 0 0 1 noreply" ++ crlf ++ ascii "X" ++ crlf ++ longKeyRequest
  [.enter 0 (caller stream), .act 0 (.event 20)] ++ turns 0 [.newCmd true, .wait true] ++
    [.act 0 (.event 20)] ++
    turns 0 [.readTcp [.data stream], .parse {}, .nread none true {}, .nread none true {},
      .newCmd true, .parse { fuel := 2 }, .send (.sent 16), .send (.sent 0), .newCmd true]

/-- The system when the connection waits for the next request. -/
def leaked : Family ℕ Client Commons :=
  (system roomy).exec (fun x l y => decide (NoWrap x l y)) small leakRun

/-- The reference to the item, and the suffix buffer, are not given back. -/
theorem reference_leaks : (system roomy).Reaches NoWrap small leaked ∧
    leaked.shared.store.Active roomy ⟨0, 0⟩ ∧
    (leaked.shared.store.items ⟨0, 0⟩).refcount = 1 ∧
    (∀ i, refs leaked i = []) ∧
    (leaked.member 0).map (fun o => (o.conn.state, o.conn.suffixes, o.conn.suffixesLeft)) =
      some (.wait, [0], []) := by
  have hnone : ∀ i, i ≠ 0 → leaked.member i = none := by
    intro i hi
    refine Machine.family_run_frame (x := small) (Machine.run_eq_exec (by decide +kernel))
      fun l hl => ?_
    have hname : ∀ l ∈ leakRun, l.name = some 0 := by decide +kernel
    rw [hname l hl]
    exact fun h => hi (Option.some.inj h).symm
  refine ⟨(Machine.reaches_exec (by decide +kernel)).mono fun _ _ _ => of_decide_eq_true,
    ⟨by decide +kernel, by decide +kernel⟩, by decide +kernel, fun i => ?_, by decide +kernel⟩
  by_cases hi : i = 0
  · subst hi
    decide +kernel
  · -- there is no other connection
    unfold refs
    rw [hnone i hi]
    rfl

end System

end Twemcache
