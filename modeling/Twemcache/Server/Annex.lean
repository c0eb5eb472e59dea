import Twemcache.Options.Delta
import Twemcache.Store.Annex

/-!
# Appending and prepending

In every run in which no slab count wraps, `item_annex` puts the value that was sent next to the one
that is visible, whatever was appended and prepended before.  When a count wraps, the allocation of
the new item can evict the slab of the item that is appended to.
-/

namespace Twemcache

namespace Server

variable {cfg : Config} {now evictOpt : ℕ} {slabs : ℕ → Slab} {items : ItemPtr → Item}
  {s s' : Server} {a : Answer} {ch : Choice} {e : Entry (List UInt8)} {c : ℕ} {prepend : Bool}
  {it : ItemPtr}

/-- **Appending and prepending.**  As long as no slab has more than 65535 references, if
`item_annex` answers `ANNEX_OK` with a length, that is the length of the old value and what was sent
together; they are what is visible, with the flags and the expiry time of the key; and no other key
is changed but those that the allocation of a new item has unbound.  It answers `ANNEX_OVERSIZED` if
and only if no class has room. -/
theorem annex_joins {o : Options} (hcfg : cfg.StartedWith o) (hnow : now < 2 ^ 32)
    (h : (server cfg).Reaches NoWrap (init cfg now evictOpt slabs items) s)
    (hit : s.unstored c = some it) (hview : s.store.view cfg (s.store.keyOf it) = some e)
    (hs : s.step cfg (.annex c prepend ch) = some (a, s'))
    (hno : NoWrap s (.annex c prepend ch) s') :
    (∀ n, a = .annex (.ok n) → n = e.value.length + ((s.store.items it).value cfg).length ∧
      Store.Annexes cfg s.store s'.store (s.store.keyOf it)
        (if prepend then (s.store.items it).value cfg ++ e.value
        else e.value ++ (s.store.items it).value cfg) e (s.store.annexAllocs cfg ch prepend it)) ∧
    (a = .annex .oversized ↔ ∀ id, cfg.ValidId id →
      cfg.profile id < itemNtotal cfg (s.store.keyOf it).length
      (e.value.length + ((s.store.items it).value cfg).length) cfg.useCas) := by
  have hdated := (sound_of_reaches hnow h).dated
  have hi := (inv_of_reaches h)
  have hmem := unstored_eq_some hit
  obtain ⟨p, hp, heq⟩ := storeItem_cases hs
  obtain rfl := Option.some.inj (hit.symm.trans hp)
  obtain ⟨rfl, rfl⟩ := Prod.mk.inj heq
  refine ⟨fun n hn => ?_, ?_⟩
  · obtain ⟨hlen, hann⟩ :=
      (hi.guarded (.annex c prepend ch) none).annexes hdated (List.mem_map_of_mem hmem)
      (.inl hno) hview (Answer.annex.inj hn)
    refine ⟨?_, hann⟩
    rw [hlen]
    cases prepend <;> simp [annexed, Nat.add_comm]
  · rw [Answer.annex.injEq, Store.itemAnnex_oversized_iff hview, itemSlabid,
      hcfg.ascending.slabId_eq_invalid_iff]
    refine ⟨fun hlt id hid => ?_, fun hall => hall _ ⟨hcfg.ascending.pos, le_rfl⟩⟩
    exact (hcfg.ascending.size.le hid.1 hid.2 le_rfl).trans_lt hlt

theorem step_annex {r : AnnexResult} {t : Store} (hit : s.unstored c = some it)
    (hend : (s.store.items it).endsInCrlf cfg = true)
    (hann : s.store.itemAnnex cfg ch prepend it = (r, t)) :
    s.step cfg (.annex c prepend ch) = some (.annex r, ⟨t, markStored c s.refs⟩) := by
  rw [step, storeItem_of_unstored hit hend, hann]

end Server

/-! ### Slabs of three chunks -/

/-- The options `-I 512 -m 1 -M 4 -z 160`. -/
def tripleOptions : Options := optionsOf 512 (2 ^ 20) evictAs (some [49, 54, 48])

/-- The configuration of these options: slabs have three chunks. -/
def Config.triple : Config where
  useCas := true
  useFreeq := true
  useLruq := true
  hashPower := 1
  hash _ := 0
  processStarted := 0
  itemHdrSize := 49
  slabSize := 480
  maxId := 1
  profile := Function.update (fun _ => 0) 1 160
  maxNslab := 2048
  maxId_le := Config.one_maxId
  profile_pos id hmin hmax := by
    obtain rfl : id = 1 := le_antisymm hmax hmin
    decide
  profile_le id hmin hmax := by
    obtain rfl : id = 1 := le_antisymm hmax hmin
    decide

theorem startedWith_triple : Config.triple.StartedWith tripleOptions where
  accepted :=
    accepted_optionsOf (by decide) (by decide) (by decide) Nat.one_pos (by decide) (by decide)
  profile := by
    refine ⟨⟨Config.triple.profile, 1⟩, ?_, rfl, rfl⟩
    show mcParseProfile tripleOptions [49, 54, 48] = _
    rw [mcParseProfile, parseLoop, if_pos (by decide), if_neg (by decide)]
    rw [show mcStrtoul ([49, 54, 48].takeWhile fun x => decide (x ≠ 44)) = some 160 by decide]
    dsimp only
    rw [if_neg (by decide), if_neg (by decide), if_neg (by decide), if_neg (by decide),
      if_neg (by decide)]
    rfl
  slabSize := rfl
  itemHdrSize := rfl
  maxNslab := by decide
  useFreeq := rfl
  useLruq := rfl

namespace Server

/-- The server of these options when it starts. -/
def initTriple : Server :=
  .init .triple 2 evictAs (fun _ => ⟨0, 0, 0, 0⟩) fun _ =>
    ⟨0, 0, 0, 0, 0, {}, 0, [], 0, fun _ => 0, 0⟩

/-- `b` and `a` are stored, and connection 2 has received 1 for `a`. -/
def prependRun : List Label :=
  [.tick 100, .alloc 0 [98] 0 0 1 {}, .fill 0 0 [55, 13, 10], .set 0 {}, .removeItem 0,
    .alloc 0 [97] 0 0 1 {},
    .fill 0 0 [48, 13, 10], .set 0 {}, .removeItem 0, .alloc 2 [97] 0 0 1 {},
      .fill 2 0 [49, 13, 10]]

/-- The server after that. -/
def aboutToPrepend :
    Server := (server .triple).exec (fun s l s' => decide (NoWrap s l s')) initTriple prependRun

theorem reaches_aboutToPrepend : (server .triple).Reaches NoWrap initTriple aboutToPrepend :=
  (Machine.reaches_exec (by decide +kernel)).mono fun _ _ _ => of_decide_eq_true

/-- What `item_annex` does in these slabs when it puts a byte in front of a value of one byte, with
the store `u` after its lookup. -/
theorem itemAnnex_triple {st u t : Store} {ch : Choice} {oit it nit : ItemPtr}
    (hget : st.itemGet .triple (st.keyOf it) = (some oit, u))
    (hold : (u.items oit).nbyte = 1 ∧ (u.items oit).key.length = 1 ∧ (u.items oit).dataflags = 0 ∧
      (u.items oit).exptime = 0 ∧ (u.items oit).flags.ralign = false)
    (hnew : (u.items it).nbyte = 1 ∧ u.keyOf it = [97])
    (halloc : u.itemAlloc .triple ch 1 [97] 0 0 2 = (some nit, t)) :
    st.itemAnnex .triple ch true it =
      (.ok 2, (((t.itemAnnexFill .triple true nit ((t.items oit).value .triple)
      ((t.items it).value .triple)).itemRelink .triple ch oit nit).itemRemove oit).itemRemove
          nit) := by
  obtain ⟨hnbyte, hkey, hflags, hexp, hleft⟩ := hold
  have hid : itemSlabid .triple (u.items oit).key.length
      ((u.items oit).nbyte + (u.items it).nbyte) = 1 := by
    rw [hnbyte, hnew.1, hkey]
    decide
  have hann :=
    Store.itemAnnex_of_alloc hget hid (by decide)
      (fun hplace => Bool.false_ne_true (hleft.symm.trans hplace.2))
    (by rw [hnew.1, hnew.2, hnbyte, hflags, hexp]; exact halloc)
  rw [hnbyte, hnew.1] at hann
  exact hann

/-- The store when `a` is held `n` times. -/
def heldStore (n : ℕ) : Store := acquired aboutToPrepend.store ⟨0, 1⟩ n

/-- The new item has been allocated. -/
def remadeStore (n : ℕ) (ch : Choice) : Store := ((heldStore n).itemAlloc .triple ch 1 [97] 0 0 2).2

/-- The new item has been filled and linked. -/
def joinedStore (n : ℕ) (ch : Choice) (nit : ItemPtr) : Store :=
  ((((remadeStore n ch).itemAnnexFill .triple true nit
    (((remadeStore n ch).items ⟨0, 1⟩).value .triple)
    (((remadeStore n ch).items ⟨0, 2⟩).value .triple)).itemRelink .triple ch ⟨0, 1⟩ nit).itemRemove
      ⟨0, 1⟩).itemRemove nit

/-- What `item_annex` does when `a` is held `n` times, if the new item is `nit`. -/
theorem itemAnnex_heldStore {n : ℕ} {ch : Choice} {nit : ItemPtr}
    (hnew : ((heldStore (n + 1)).itemAlloc .triple ch 1 [97] 0 0 2).1 = some nit) :
    (heldStore n).itemAnnex .triple ch true ⟨0, 2⟩ = (.ok 2, joinedStore (n + 1) ch nit) := by
  have hfind : aboutToPrepend.store.assocFind .triple [97] = some ⟨0, 1⟩ := by decide +kernel
  have hlive : aboutToPrepend.store.dead ⟨0, 1⟩ = false := by decide +kernel
  have hitem :
      ((aboutToPrepend.store.items ⟨0, 1⟩).nbyte = 1 ∧
      (aboutToPrepend.store.items ⟨0, 1⟩).key.length = 1 ∧
      (aboutToPrepend.store.items ⟨0, 1⟩).dataflags = 0 ∧
        (aboutToPrepend.store.items ⟨0, 1⟩).exptime = 0 ∧
      (aboutToPrepend.store.items ⟨0, 1⟩).flags.ralign = false) ∧
      (aboutToPrepend.store.items ⟨0, 2⟩).nbyte = 1 ∧
          (aboutToPrepend.store.items ⟨0, 2⟩).key = [97] := by
    decide +kernel
  have hkey : (heldStore n).keyOf ⟨0, 2⟩ = [97] := hitem.2.2
  have halloc : (heldStore (n + 1)).itemAlloc .triple ch 1 [97] 0 0 2 =
      (some nit, remadeStore (n + 1) ch) := by
    rw [← hnew]
    rfl
  have hget : (heldStore n).itemGet .triple ((heldStore n).keyOf ⟨0, 2⟩) =
      (some ⟨0, 1⟩, heldStore (n + 1)) := by
    rw [hkey]
    exact itemGet_acquired hfind hlive n
  exact itemAnnex_triple hget (by simpa [heldStore, acquired] using hitem.1) hitem.2 halloc

/-- 1 is put in front of 0. -/
theorem annex_joins_triple : ∃ s s' : Server, (server .triple).Reaches NoWrap initTriple s ∧
    s.step .triple (.annex 2 true {}) = some (.annex (.ok 2), s') ∧
      s.store.view .triple [97] = some ⟨[48], 0, 0, 2⟩ ∧
      ∃ cas, s'.store.view .triple [97] = some ⟨[49, 48], 0, 0, cas⟩ := by
  have hreach := reaches_aboutToPrepend
  have hzero : heldStore 0 = aboutToPrepend.store :=
    acquired_zero (by decide +kernel) (by decide +kernel)
  have hnew : ((heldStore 1).itemAlloc .triple {} 1 [97] 0 0 2).1 = some ⟨1, 0⟩ := by decide +kernel
  have hann := itemAnnex_heldStore hnew
  rw [hzero] at hann
  have hunstored : aboutToPrepend.unstored 2 = some ⟨0, 2⟩ := by decide +kernel
  have hkey : aboutToPrepend.store.keyOf ⟨0, 2⟩ = [97] := by decide +kernel
  have hvalue : (aboutToPrepend.store.items ⟨0, 2⟩).value .triple = [49] := by decide +kernel
  have hview : aboutToPrepend.store.view .triple [97] = some ⟨[48], 0, 0, 2⟩ := by decide +kernel
  have hno : NoWrap aboutToPrepend (.annex 2 true {})
      ⟨joinedStore 1 {} ⟨1, 0⟩, markStored 2 aboutToPrepend.refs⟩ := by
    rw [NoWrap]
    decide +kernel
  have hend : (aboutToPrepend.store.items ⟨0, 2⟩).endsInCrlf .triple = true := by decide +kernel
  have hstep : aboutToPrepend.step .triple (.annex 2 true {}) = some (_, _) :=
    step_annex hunstored hend hann
  generalize aboutToPrepend = s at hreach hunstored hkey hvalue hview hno hstep
  have hreach' := hreach
  unfold initTriple at hreach
  rw [← hkey] at hview
  have hnow : 2 < 2 ^ 32 := by decide
  have hjoin :=
    ((annex_joins startedWith_triple hnow hreach hunstored hview hstep hno).1 2 rfl).2.bound
  rw [hkey] at hview hjoin
  rw [hvalue] at hjoin
  exact ⟨s, _, hreach', hstep, hview, hjoin⟩

/-- `a` is prepended to while it is held 65534 times: its own slab is evicted, and what is visible
afterwards is neither value. -/
theorem annex_loses_value :
    ∃ s s' : Server, (server .triple).Reaches Machine.Unguarded initTriple s ∧
    s.unstored 2 = some ⟨0, 2⟩ ∧ (s.store.items ⟨0, 2⟩).value .triple = [49] ∧
      s.store.view .triple [97] = some ⟨[48], 0, 0, 2⟩ ∧
      s.step .triple (.annex 2 true { slabOk := false }) = some (.annex (.ok 2), s') ∧
      s'.store.view .triple [97] = some ⟨[0, 0], 0, 0, 3⟩ := by
  have hstore : (server .triple).Reaches Machine.Unguarded initTriple aboutToPrepend :=
    reaches_aboutToPrepend.mono fun _ _ _ _ => trivial
  have hgets := reaches_gets .triple (s := aboutToPrepend) [97] (p := ⟨0, 1⟩) 1
    (by decide +kernel) (by decide +kernel) (by decide +kernel) (by decide +kernel)
    (by decide +kernel) 65534
  have hstrip :=
    strip_replies (acquired aboutToPrepend.store ⟨0, 1⟩ 65534) aboutToPrepend.refs 1 65534 ⟨0, 1⟩
  have hunstored : aboutToPrepend.unstored 2 = some ⟨0, 2⟩ := by decide +kernel
  have hheld :
      (⟨heldStore 65534, List.replicate 65534 ⟨1, .ilist, ⟨0, 1⟩⟩ ++ aboutToPrepend.refs⟩ :
      Server).unstored
      2 = some ⟨0, 2⟩ := by
    rw [← unstored_strip, heldStore, hstrip, unstored_strip]
    exact hunstored
  have hview : (heldStore 65534).view .triple [97] = some ⟨[48], 0, 0, 2⟩ := by decide +kernel
  have hvalue : ((heldStore 65534).items ⟨0, 2⟩).value .triple = [49] := by decide +kernel
  have hend : ((heldStore 65534).items ⟨0, 2⟩).endsInCrlf .triple = true := by decide +kernel
  have hnew : ((heldStore 65535).itemAlloc .triple { slabOk := false } 1 [97] 0 0 2).1 =
      some ⟨0, 0⟩ := by
    decide +kernel
  have hafter : (joinedStore 65535 { slabOk := false } ⟨0, 0⟩).view .triple [97] =
      some ⟨[0, 0], 0, 0, 3⟩ := by
    decide +kernel
  exact ⟨_, _, hstore.trans hgets, hheld, hvalue, hview,
    step_annex hheld hend (itemAnnex_heldStore hnew), hafter⟩

end Server

end Twemcache
