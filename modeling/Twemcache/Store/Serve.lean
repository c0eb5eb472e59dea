import Twemcache.Store.Change

/-!
# Values that are being sent

A reply to `get` points into the chunk of its item: the value is read from there when it is
sent, which may be long after its length was written into the reply.  `Serves` says that the bytes
are still those of the reply, and that further bytes that are appended or prepended in place go
elsewhere.
-/

namespace Twemcache

namespace Item

variable {cfg : Config} {it it' : Item} {off n : ℕ} {bytes value : List UInt8}

/-- A write elsewhere is not seen. -/
theorem read_write_of_disjoint {off' : ℕ} (h : off + n ≤ off' ∨ off' + bytes.length ≤ off) :
    (it.write off' bytes).read off n = it.read off n := by
  refine List.map_congr_left fun i hi => ?_
  have hlt := List.mem_range.1 hi
  exact if_neg (by omega)

theorem read_add (off n m : ℕ) : it.read off (n + m) = it.read off n ++ it.read (off + n) m := by
  simp only [read, List.range_add, List.map_append, List.map_map]
  congr 1
  refine List.map_congr_left fun i _ => ?_
  simp [Nat.add_assoc]

@[simp] theorem length_read (off n : ℕ) : (it.read off n).length = n := by
  simp [read]

/-- The chunk holds `value` at `off`, out of the way of changes in place that only add bytes. -/
structure Serves (cfg : Config) (off : ℕ) (value : List UInt8) (it : Item) : Prop where
  /-- The bytes are there. -/
  read : it.read off value.length = value
  /-- Values that are aligned to the left grow to the right. -/
  left : it.flags.ralign = false → off + value.length ≤ it.data cfg + it.nbyte
  /-- Values that are aligned to the right grow to the left. -/
  right : it.flags.ralign = true → it.data cfg ≤ off

theorem data_congr (h : it'.content = it.content) : it'.data cfg = it.data cfg := by
  simp only [content, Content.mk.injEq] at h
  obtain ⟨-, h2, -, h4, h5, h6, h7, -, -, -⟩ := h
  simp only [data, h2, h4, h5, h6, h7]

theorem Serves.congr (h : it.Serves cfg off value) (hc : it'.content = it.content) :
    it'.Serves cfg off value := by
  have hmem : it'.mem = it.mem := congrArg Content.mem hc
  have hralign : it'.flags.ralign = it.flags.ralign := congrArg Content.ralign hc
  have hnbyte : it'.nbyte = it.nbyte := congrArg Content.nbyte hc
  refine ⟨?_, fun hr => ?_, fun hr => ?_⟩
  · rw [Item.read, hmem]
    exact h.read
  · rw [data_congr hc, hnbyte]
    exact h.left (hralign ▸ hr)
  · rw [data_congr hc]
    exact h.right (hralign ▸ hr)

/-- The bytes that follow the beginning of a value are the next ones. -/
theorem Serves.next (h : it.Serves cfg off value) {out : List UInt8} (hout : out <+: value) {n : ℕ}
    (hn : out.length + n ≤ value.length) : out ++ it.read (off + out.length) n <+: value := by
  have hsplit : it.read off value.length = it.read off (out.length + n) ++
      it.read (off + (out.length + n)) (value.length - (out.length + n)) := by
    rw [← read_add]
    congr 1
    omega
  rw [h.read, read_add] at hsplit
  -- what was sent is what the chunk holds there
  have heq : out = it.read off out.length := by
    have h1 := List.prefix_iff_eq_take.1 hout
    rw [hsplit, List.append_assoc, List.take_left' (length_read _ _)] at h1
    exact h1
  rw [hsplit]
  exact ⟨_, by rw [← heq]⟩

/-- A value can be sent from where it is. -/
theorem serves_value (it : Item) : it.Serves cfg (it.data cfg) (it.value cfg) where
  read := by rw [value, length_read]
  left := fun _ => by rw [value, length_read]
  right := fun _ => le_rfl

end Item

namespace Store

variable {cfg : Config} {sc : Scope} {s s' : Store} {p : ItemPtr} {held held' : List ItemPtr}
  {off : ℕ} {bytes value : List UInt8} {prepend : Bool}

/-- The class of an item in use is configured. -/
theorem Wf.validId (h : s.Wf cfg) (hp : s.Active cfg p) : cfg.ValidId (s.items p).id := by
  have hid : (s.items p).id = (s.slabs p.slab).id := Shape.Wf.item_id h p hp
  rw [hid]
  exact Shape.Wf.slab_id h p.slab hp.1

/-- Bytes that are put next to a value in place stay within the chunk. -/
theorem Wf.annex_fits (h : s.Wf cfg) (hp : s.Active cfg p)
    (hid : itemSlabid cfg (s.items p).key.length ((s.items p).nbyte + bytes.length) =
      (s.items p).id) : (s.items p).nbyte + bytes.length ≤ cfg.profile (s.items p).id := by
  have hvalid := h.validId hp
  have hne : itemSlabid cfg (s.items p).key.length ((s.items p).nbyte + bytes.length) ≠
      slabclassInvalidId := by
    rw [hid]
    have hmax := hvalid.2.trans cfg.maxId_le
    simp only [slabclassMaxId] at hmax
    simp only [slabclassInvalidId]
    omega
  have hsize := (slabId_valid hne).2
  rw [show slabId cfg _ = (s.items p).id from hid] at hsize
  simp only [itemNtotal] at hsize
  omega

/-- An append or prepend in place keeps what is being sent. -/
theorem serves_annexItem {it : Item} (h : it.Serves cfg off value)
    (hralign : it.flags.ralign = prepend) (hfit : it.nbyte + bytes.length ≤ cfg.profile it.id) :
    (s.annexItem cfg prepend bytes it).Serves cfg off value := by
  have hmem : ∀ n, (s.annexItem cfg prepend bytes it).read off n = (it.write (if prepend then
      it.data cfg - bytes.length else it.data cfg + it.nbyte) bytes).read off n := fun n => by
    simp [annexItem, Item.read]
  have hflags : (s.annexItem cfg prepend bytes it).flags = it.flags := by
    simp [annexItem, Item.write]
  have hnbyte : (s.annexItem cfg prepend bytes it).nbyte = it.nbyte + bytes.length := by
    simp [annexItem]
  have hdata : (s.annexItem cfg prepend bytes it).data cfg =
      if it.flags.ralign then it.data cfg - bytes.length else it.data cfg := by
    simp only [Item.data, hflags, hnbyte]
    have hkey : (s.annexItem cfg prepend bytes it).key = it.key := by simp [annexItem, Item.write]
    have hid : (s.annexItem cfg prepend bytes it).id = it.id := by simp [annexItem, Item.write]
    rw [hkey, hid]
    split_ifs <;> omega
  cases prepend with
  | true =>
    have hle := h.right hralign
    have hd : it.data cfg = cfg.profile it.id - it.nbyte := by rw [Item.data, if_pos hralign]
    refine ⟨?_, fun hr => ?_, fun _ => ?_⟩
    · rw [hmem, Item.read_write_of_disjoint, h.read]
      refine .inr ?_
      rw [if_pos rfl]
      omega
    · rw [hflags, hralign] at hr
      cases hr
    · rw [hdata, if_pos hralign]
      omega
  | false =>
    have hle := h.left hralign
    refine ⟨?_, fun _ => ?_, fun hr => ?_⟩
    · rw [hmem, Item.read_write_of_disjoint, h.read]
      exact .inl hle
    · rw [hdata, hnbyte, hralign]
      simp only [Bool.false_eq_true, if_false]
      omega
    · rw [hflags, hralign] at hr
      cases hr

/-- An item that is held for a reply: it is not about to be linked, and its value not about to be
overwritten. -/
structure Scope.Reads (sc : Scope) (s : Store) (p : ItemPtr) : Prop where
  /-- The reference remains. -/
  base : p ∈ sc.base
  /-- The item is an old one. -/
  gen : (s.items p).gen < sc.start
  /-- The item is not an unstored one. -/
  link : ¬ sc.link p
  /-- The value is not overwritten. -/
  delta : ¬ sc.delta p

theorem Prim.reads (hs : Prim cfg sc (s, held) (s', held')) (h : Guarded cfg sc s held)
    (hp : sc.Reads s p) : sc.Reads s' p :=
  ⟨hp.base, (hs.frame_held h (h.base_mem p hp.base)).1.trans_lt hp.gen, hp.link, hp.delta⟩

/-- A primitive leaves what such an item holds alone, or adds to its value in place. -/
theorem Prim.reads_cases (hs : Prim cfg sc (s, held) (s', held')) (h : Guarded cfg sc s held)
    (hp : sc.Reads s p) : (s'.items p).content = (s.items p).content ∨
      sc.annex p ∧ ∃ prepend bytes, (s.items p).flags.ralign = prepend ∧
        (s.items p).nbyte + bytes.length ≤ cfg.profile (s.items p).id ∧
        s'.items p = s.annexItem cfg prepend bytes (s.items p) := by
  have hheld := h.base_mem p hp.base
  have honly : ∀ {q}, Only cfg s s' q → p ≠ q → (s'.items p).content = (s.items p).content :=
    fun ho hne => by rw [ho.items p hne]
  cases hs.change h with
  | quiet hlinked hcontent htime hcas => exact .inl (hcontent p (.inr hheld))
  | touch q hl hq hsc hold hitem ho hcas =>
    by_cases hpq : p = q
    · subst hpq
      exact .inl (by rw [hitem]; rfl)
    · exact .inl (honly ho hpq)
  | link q hl hq hsc hitem ho hcas =>
    by_cases hpq : p = q
    · subst hpq
      rcases hsc with hsc | hsc
      · exact absurd hsc hp.link
      · exact absurd hsc (Nat.not_le.2 hp.gen)
    · exact .inl (honly ho hpq)
  | write q f hl hq hnew hf hitem ho hcas =>
    refine .inl (honly ho fun hpq => hnew ?_)
    exact hpq ▸ hp.base
  | annex q prepend bytes hl hq hsc hid hralign hitem ho hcas =>
    by_cases hpq : p = q
    · subst hpq
      exact .inr ⟨hsc, prepend, bytes, hralign, h.wf.annex_fits hl.1 hid, hitem⟩
    · exact .inl (honly ho hpq)
  | delta q buf hl hq hsc hlen hitem ho hcas =>
    refine .inl (honly ho fun hpq => hp.delta ?_)
    exact hpq ▸ hsc

/-- Paths keep what is being sent. -/
theorem Path.serves (hs : Path cfg sc (s, held) (s', held')) (h : Guarded cfg sc s held)
    (hp : sc.Reads s p) (hv : (s.items p).Serves cfg off value) :
    (s'.items p).Serves cfg off value := by
  refine (hs.induction (I := fun t _ => sc.Reads t p ∧ (t.items p).Serves cfg off value) h ⟨hp, hv⟩
    ?_).2.2
  rintro t l t' l' hg ⟨hr, hv⟩ hprim -
  refine ⟨hprim.reads hg hr, ?_⟩
  rcases hprim.reads_cases hg hr with hcont | ⟨-, prepend, bytes, hralign, hfit, hitem⟩
  · exact hv.congr hcont
  · rw [hitem]
    exact serves_annexItem hv hralign hfit

/-- Paths keep what an item holds for a reply if its value is not extended either. -/
theorem Path.content_kept (hs : Path cfg sc (s, held) (s', held')) (h : Guarded cfg sc s held)
    (hp : sc.Reads s p) (ha : ¬ sc.annex p) : (s'.items p).content = (s.items p).content := by
  refine (hs.induction (I := fun t _ => sc.Reads t p ∧ (t.items p).content = (s.items p).content) h
    ⟨hp, rfl⟩ ?_).2.2
  rintro t l t' l' hg ⟨hr, hcont⟩ hprim -
  refine ⟨hprim.reads hg hr, ?_⟩
  rcases hprim.reads_cases hg hr with hcont' | ⟨hann, -⟩
  · exact hcont'.trans hcont
  · exact absurd hann ha

end Store

end Twemcache
