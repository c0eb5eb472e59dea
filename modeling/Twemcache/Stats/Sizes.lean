import Twemcache.Text.Decimal
import Twemcache.Options.Delta
import Twemcache.Server.Layout

/-!
# Sizes

`stats sizes` counts the linked items by size, in steps of 32 bytes, and reports the counts that are
not zero.  The label of a line is written inside an assertion, into a buffer of eight bytes: without
assertions it is never written.

## Main definitions

* `AssertMode` : what assertions are compiled to.
* `statsSizes` : `stats_sizes`.
* `SizesReport` : what the report is to be.
-/

namespace Twemcache

/-- What `ASSERT` is compiled to. -/
inductive AssertMode where
  /-- Nothing: the condition is not evaluated. -/
  | none
  /-- `MC_ASSERT_LOG`: a failure is logged. -/
  | log
  /-- `MC_ASSERT_PANIC`: a failure ends the server. -/
  | panic
  deriving DecidableEq, Repr

/-- `STATS_BUCKET_SIZE`. -/
def statsBucketSize : ℕ := 32

/-- The length of the buffer for labels. -/
def sizesKeyLen : ℕ := 8

/-- Why there is no report. -/
inductive SizesFault where
  /-- An assertion has ended the server. -/
  | aborted
  /-- The histogram was accessed beyond its end. -/
  | outOfRange
  deriving DecidableEq, Repr

/-- A line of the report. -/
structure SizesLine where
  /-- The label. -/
  key : List UInt8
  /-- The number of items. -/
  count : ℕ
  deriving DecidableEq, Repr

/-- The bucket of an item of size `ntotal`. -/
def sizesBucket (ntotal : ℕ) : ℕ := (ntotal - 1) / statsBucketSize + 1

/-- The loop that builds the histogram. -/
def countSizes (mode : AssertMode) (numBuckets : ℕ) : List ℕ → (ℕ → ℕ) → Except SizesFault (ℕ → ℕ)
  | [], histogram => .ok histogram
  | ntotal :: rest, histogram =>
    let bucket := sizesBucket ntotal
    if numBuckets ≤ bucket then .error (if mode = .panic then .aborted else .outOfRange)
    else countSizes mode numBuckets rest
      (Function.update histogram bucket ((histogram bucket + 1) % 2 ^ 32))

/-- The string in the buffer after the assertion that contains the `snprintf`; `key` is what it held
before. -/
def sizesKey (mode : AssertMode) (key : List UInt8) (i : ℕ) : Except SizesFault (List UInt8) :=
  let text := decimal (i * 32)
  if mode = .none then .ok key
  else if text.length < sizesKeyLen then .ok text
  else if mode = .panic then .error .aborted
  else .ok (text.take (sizesKeyLen - 1))

/-- The loop that writes the report, from bucket `i` on, for `n` buckets.  `stats_append` refuses a
value with an empty key. -/
def printSizes (mode : AssertMode) (keys : ℕ → List UInt8) (histogram : ℕ → ℕ) :
    (n i : ℕ) → Except SizesFault (List SizesLine)
  | 0, _ => .ok []
  | n + 1, i =>
    if histogram i ≠ 0 then
      match sizesKey mode (keys i) i with
      | .error e => .error e
      | .ok key => (printSizes mode keys histogram n (i + 1)).map fun lines =>
          if key = [] then lines else ⟨key, histogram i⟩ :: lines
    else printSizes mode keys histogram n (i + 1)

/-- `stats_sizes`, up to the line `END`: `allocated` says whether there was memory for the
histogram, and `keys` what the buffer for the label of each line holds when nothing was written to
it. -/
def statsSizes (mode : AssertMode) (allocated : Bool) (keys : ℕ → List UInt8) (slabSize : ℕ)
    (sizes : List ℕ) :
    Except SizesFault (List SizesLine) :=
  let numBuckets := slabSize / statsBucketSize + 1
  if allocated then
    match countSizes mode numBuckets sizes fun _ => 0 with
    | .error e => .error e
    | .ok histogram => printSizes mode keys histogram numBuckets 0
  else .ok []

/-- The sizes of the items in the lru queues, class by class. -/
def Store.linkedSizes (cfg : Config) (s : Store) : List ℕ :=
  (List.range' slabclassMinId cfg.maxId).flatMap fun id => (s.lruq id).map fun p =>
    itemSize cfg (s.items p)

/-- The number of items that are larger than `32 * (i - 1)` bytes and not larger than `32 * i`. -/
def sizesBetween (sizes : List ℕ) (i : ℕ) :
    ℕ := sizes.countP fun n => decide (32 * i < n + 32 ∧ n ≤ 32 * i)

/-- The report has one line for each bucket with items, with their number, and no other lines. -/
def SizesReport (sizes : List ℕ) (r : Except SizesFault (List SizesLine)) : Prop :=
  ∃ lines, r = .ok lines ∧
    (∀ i, (lines.filter fun line => line.key = decimal (32 * i)).map SizesLine.count =
      if sizesBetween sizes i = 0 then [] else [sizesBetween sizes i]) ∧
    ∀ line ∈ lines, ∃ i, line.key = decimal (32 * i)

/-! ### The histogram -/

section

variable {mode : AssertMode} {numBuckets : ℕ} {sizes : List ℕ} {histogram : ℕ → ℕ}
  {keys : ℕ → List UInt8} {lines : List SizesLine} {allocated : Bool} {slabSize n i : ℕ}

/-- The bucket that the code uses is that of the size. -/
theorem sizesBucket_eq_iff (hpos : 0 < n) : sizesBucket n = i ↔ 32 * i < n + 32 ∧ n ≤ 32 * i := by
  simp only [sizesBucket, statsBucketSize]
  omega

/-- The histogram counts, in 32 bits. -/
theorem countSizes_eq (hrange : ∀ n ∈ sizes, sizesBucket n < numBuckets)
    (hlt : ∀ i, histogram i < 2 ^ 32) :
    countSizes mode numBuckets sizes histogram =
      .ok fun i => (histogram i + sizes.countP fun n => sizesBucket n = i) % 2 ^ 32 := by
  induction sizes generalizing histogram with
  | nil =>
    simp only [countSizes, List.countP_nil, Nat.add_zero]
    congr 1
    funext i
    exact (Nat.mod_eq_of_lt (hlt i)).symm
  | cons n sizes ih =>
    have hn := hrange n List.mem_cons_self
    rw [countSizes, if_neg (Nat.not_le.2 hn), ih (fun m hm => hrange m (List.mem_cons_of_mem _ hm))]
    · congr 1
      funext i
      rw [List.countP_cons, Function.update_apply]
      by_cases hi : i = sizesBucket n
      · subst hi
        simp only [if_true, decide_true, Nat.mod_add_mod]
        congr 1
        omega
      · simp [hi, Ne.symm hi]
    · intro i
      rw [Function.update_apply]
      split_ifs
      · exact Nat.mod_lt _ (by decide)
      · exact hlt i

/-- An item that is too large has no place in it. -/
theorem countSizes_ok {h : ℕ → ℕ} (hok : countSizes mode numBuckets sizes histogram = .ok h) :
    ∀ n ∈ sizes, sizesBucket n < numBuckets := by
  induction sizes generalizing histogram with
  | nil => simp
  | cons n sizes ih =>
    rw [countSizes] at hok
    split_ifs at hok with hle
    intro m hm
    obtain rfl | hm := List.mem_cons.1 hm
    · exact Nat.not_le.1 hle
    · exact ih hok m hm

/-! ### The lines -/

/-- Where a line comes from. -/
theorem mem_printSizes (hok : printSizes mode keys histogram n i = .ok lines) : ∀ line ∈ lines,
    ∃ j key, sizesKey mode (keys j) j = .ok key ∧ key ≠ [] ∧ line = ⟨key, histogram j⟩ := by
  induction n generalizing i lines with
  | zero =>
    cases hok
    simp
  | succ n ih =>
    rw [printSizes] at hok
    split_ifs at hok with hzero
    · cases hkey : sizesKey mode (keys i) i with
      | error e => simp [hkey] at hok
      | ok key =>
        rw [hkey] at hok
        cases hrest : printSizes mode keys histogram n (i + 1) with
        | error e => simp [hrest, Except.map] at hok
        | ok rest =>
          simp only [hrest, Except.map, Except.ok.injEq] at hok
          intro line hline
          rw [← hok] at hline
          split_ifs at hline with hnil
          · exact ih hrest line hline
          · obtain rfl | hline := List.mem_cons.1 hline
            · exact ⟨i, key, hkey, hnil, rfl⟩
            · exact ih hrest line hline
    · exact ih hok

/-- Where the labels fit, the report has a line for each count that is not zero. -/
theorem printSizes_eq (hmode : mode ≠ .none)
    (hfit : ∀ j, i ≤ j → j < i + n → histogram j ≠ 0 → (decimal (j * 32)).length < sizesKeyLen) :
    printSizes mode keys histogram n i =
        .ok (((List.range' i n).filter fun j => decide (histogram j ≠ 0)).map fun j =>
      ⟨decimal (j * 32), histogram j⟩) := by
  induction n generalizing i with
  | zero => rfl
  | succ n ih =>
    have hrest := ih (i := i + 1) fun j hle hlt => hfit j (by omega) (by omega)
    rw [printSizes, List.range'_succ]
    by_cases hzero : histogram i = 0
    · rw [if_neg (not_not.2 hzero), hrest, List.filter_cons_of_neg (by simp [hzero])]
    · have hkey : sizesKey mode (keys i) i = .ok (decimal (i * 32)) := by
        rw [sizesKey, if_neg hmode, if_pos (hfit i le_rfl (by omega) hzero)]
      rw [if_pos hzero, hkey, hrest, List.filter_cons_of_pos (by simp [hzero])]
      simp [Except.map, decimal_ne_nil]

/-- A label that was written has seven characters at most. -/
theorem length_of_sizesKey {key key' : List UInt8} (hmode : mode ≠ .none)
    (hok : sizesKey mode key' i = .ok key) :
    key.length < sizesKeyLen := by
  rw [sizesKey, if_neg hmode] at hok
  split_ifs at hok with hfit hpanic
  · obtain rfl := Except.ok.inj hok
    exact hfit
  · obtain rfl := Except.ok.inj hok
    rw [List.length_take]
    simp only [sizesKeyLen]
    omega

end

/-! ### When the report is right -/

section

variable {mode : AssertMode} {sizes : List ℕ} {histogram : ℕ → ℕ} {keys : ℕ → List UInt8}
  {lines : List SizesLine} {allocated : Bool} {slabSize n i : ℕ}

theorem countP_sizesBucket (hpos : ∀ n ∈ sizes, 0 < n) (i : ℕ) :
    (sizes.countP fun n => decide (sizesBucket n = i)) = sizesBetween sizes i := by
  refine List.countP_congr fun n hn => ?_
  simp only [decide_eq_true_eq]
  exact sizesBucket_eq_iff (hpos n hn)

theorem sizesBetween_ne_zero (hpos : ∀ n ∈ sizes, 0 < n) (hn : n ∈ sizes) :
    sizesBetween sizes (sizesBucket n) ≠ 0 := by
  rw [← countP_sizesBucket hpos]
  exact (List.countP_pos_iff.2 ⟨n, hn, by simp⟩).ne'

/-- A report that is right has a line for each item. -/
theorem SizesReport.exists_line {r : Except SizesFault (List SizesLine)} (h : SizesReport sizes r)
    (hi : sizesBetween sizes i ≠ 0) :
    ∃ lines, r = .ok lines ∧ ⟨decimal (32 * i), sizesBetween sizes i⟩ ∈ lines := by
  obtain ⟨lines, hok, hlines, -⟩ := h
  have hmem := hlines i
  rw [if_neg hi] at hmem
  obtain ⟨line, hline, hcount⟩ :=
    List.mem_map.1 (hmem ▸ List.mem_cons_self : sizesBetween sizes i ∈ _)
  obtain ⟨hline, hkey⟩ := List.mem_filter.1 hline
  have heq : line = ⟨decimal (32 * i), sizesBetween sizes i⟩ := by
    cases line
    simp only [decide_eq_true_eq] at hkey hcount
    rw [hkey, hcount]
  exact ⟨lines, hok, heq ▸ hline⟩

/-- The lines of buckets are right. -/
theorem sizesReport_lines {numBuckets : ℕ}
    (hrange : ∀ i, sizesBetween sizes i ≠ 0 → i < numBuckets) :
    SizesReport sizes
        (.ok (((List.range' 0 numBuckets).filter fun j => decide (sizesBetween sizes j ≠ 0)).map
        fun j =>
      ⟨decimal (j * 32), sizesBetween sizes j⟩)) := by
  refine ⟨_, rfl, fun i => ?_, fun line hline => ?_⟩
  · have hkey : ∀ j, decide (decimal (j * 32) = decimal (32 * i)) = decide (j = i) := by
      intro j
      refine decide_eq_decide.2 ⟨fun h => ?_, fun h => by rw [h, Nat.mul_comm]⟩
      have := decimal_inj h
      omega
    rw [List.filter_map, List.map_map, List.filter_filter]
    simp only [Function.comp_def, hkey]
    split_ifs with hzero
    · rw [List.map_eq_nil_iff, List.filter_eq_nil_iff]
      intro j _ hj
      simp only [Bool.and_eq_true, decide_eq_true_eq] at hj
      exact hj.2 (hj.1 ▸ hzero)
    · have hsingle :
          (List.range' 0 numBuckets).filter
          (fun j => decide (j = i) && decide (sizesBetween sizes j ≠ 0)) =
          [i] := by
        have hmem : i ∈ List.range' 0 numBuckets := by
          simpa [List.mem_range'_1] using hrange i hzero
        have hand : ∀ j, (decide (j = i) && decide (sizesBetween sizes j ≠ 0)) = (j == i) := by
          intro j
          by_cases hj : j = i
          · simp [hj, hzero]
          · simp [hj]
        simp only [hand]
        rw [List.filter_beq, List.count_eq_one_of_mem List.nodup_range' hmem]
        rfl
      rw [hsingle]
      rfl
  · obtain ⟨j, -, rfl⟩ := List.mem_map.1 hline
    exact ⟨j, by rw [Nat.mul_comm]⟩

/-- Sizes that the report can show. -/
structure SizesFit (mode : AssertMode) (allocated : Bool) (slabSize : ℕ) (sizes : List ℕ) :
    Prop where
  /-- Assertions are compiled in. -/
  mode : mode ≠ .none
  /-- There is memory for the histogram. -/
  allocated : allocated = true
  /-- Every item is in the range of the histogram. -/
  range : ∀ n ∈ sizes, n ≤ slabSize / 32 * 32
  /-- Every label has at most seven digits. -/
  key : ∀ n ∈ sizes, n ≤ 9999968
  /-- Every count has at most 32 bits. -/
  count : ∀ n ∈ sizes, sizesBetween sizes (sizesBucket n) < 2 ^ 32

/-- Numbers with at most seven digits. -/
theorem length_decimal_lt_sizesKeyLen : (decimal i).length < sizesKeyLen ↔ i < 10000000 := by
  have hiff : (decimal i).length ≤ 7 ↔ i < 10 ^ 7 := by
    rw [decimal, List.length_map]
    exact Nat.length_toDigits_le_iff (by decide) (by decide)
  rw [sizesKeyLen, Nat.lt_succ_iff]
  exact hiff

/-- Without items there are no lines. -/
theorem printSizes_of_zero (hzero : ∀ j, histogram j = 0) :
    printSizes mode keys histogram n i = .ok [] := by
  induction n generalizing i with
  | zero => rfl
  | succ n ih => rw [printSizes, if_neg (not_not.2 (hzero i)), ih]

/-- What has happened if there is a line. -/
theorem statsSizes_ok (hok : statsSizes mode allocated keys slabSize sizes = .ok lines)
    {line : SizesLine} (hline : line ∈ lines) :
    allocated = true ∧ (∀ n ∈ sizes, sizesBucket n < slabSize / statsBucketSize + 1) ∧
      ∃ j key, sizesKey mode (keys j) j = .ok key ∧ key ≠ [] ∧
        line = ⟨key, (sizes.countP fun n => decide (sizesBucket n = j)) % 2 ^ 32⟩ := by
  simp only [statsSizes] at hok
  split_ifs at hok with halloc
  · cases hcount : countSizes mode (slabSize / statsBucketSize + 1) sizes fun _ => 0 with
    | error e => simp [hcount] at hok
    | ok h =>
      have hrange := countSizes_ok hcount
      rw [countSizes_eq hrange fun _ => by decide] at hcount
      rw [countSizes_eq hrange fun _ => by decide] at hok
      obtain ⟨j, key, hkey, hne, heq⟩ := mem_printSizes hok line hline
      exact ⟨halloc, hrange, j, key, hkey, hne, by simpa using heq⟩
  · cases hok
    cases hline

/-- Sizes that fit are counted, and reported. -/
theorem statsSizes_of_fit (hpos : ∀ n ∈ sizes, 0 < n) (h : SizesFit mode allocated slabSize sizes)
    (keys : ℕ → List UInt8) :
    SizesReport sizes (statsSizes mode allocated keys slabSize sizes) := by
  -- every bucket with a count has an item
  have hitem : ∀ i, sizesBetween sizes i ≠ 0 → ∃ n ∈ sizes, sizesBucket n = i := by
    intro i hi
    rw [← countP_sizesBucket hpos] at hi
    obtain ⟨n, hn, hbucket⟩ := List.countP_pos_iff.1 (Nat.pos_of_ne_zero hi)
    exact ⟨n, hn, of_decide_eq_true hbucket⟩
  have hrange : ∀ n ∈ sizes, sizesBucket n < slabSize / statsBucketSize + 1 := by
    intro n hn
    have hle := h.range n hn
    have hn := hpos n hn
    simp only [sizesBucket, statsBucketSize]
    omega
  have hcount : countSizes mode (slabSize / statsBucketSize + 1) sizes (fun _ => 0) =
      .ok (sizesBetween sizes) := by
    rw [countSizes_eq hrange fun _ => by decide]
    congr 1
    funext i
    rw [countP_sizesBucket hpos, Nat.zero_add]
    refine Nat.mod_eq_of_lt ?_
    by_cases hi : sizesBetween sizes i = 0
    · rw [hi]
      decide
    · obtain ⟨n, hn, rfl⟩ := hitem i hi
      exact h.count n hn
  have hkey : ∀ j, 0 ≤ j → j < 0 + (slabSize / statsBucketSize + 1) → sizesBetween sizes j ≠ 0 →
      (decimal (j * 32)).length < sizesKeyLen := by
    intro j _ _ hj
    obtain ⟨n, hn, rfl⟩ := hitem j hj
    have hle := h.key n hn
    have hn := hpos n hn
    rw [length_decimal_lt_sizesKeyLen]
    simp only [sizesBucket, statsBucketSize]
    omega
  rw [statsSizes, if_pos h.allocated, hcount]
  dsimp only
  rw [printSizes_eq h.mode hkey]
  refine sizesReport_lines fun i hi => ?_
  obtain ⟨n, hn, rfl⟩ := hitem i hi
  exact hrange n hn

/-- If the report is right whatever the buffer holds, the sizes fit. -/
theorem fit_of_report (hpos : ∀ n ∈ sizes, 0 < n) (hne : sizes ≠ [])
    (h : SizesReport sizes (statsSizes mode allocated (fun _ => []) slabSize sizes)) :
    SizesFit mode allocated slabSize sizes := by
  have hline : ∀ n ∈ sizes, allocated = true ∧
      (∀ n ∈ sizes, sizesBucket n < slabSize / statsBucketSize + 1) ∧
      mode ≠ .none ∧ (decimal (32 * sizesBucket n)).length < sizesKeyLen ∧
        sizesBetween sizes (sizesBucket n) < 2 ^ 32 := by
    intro n hn
    obtain ⟨lines, hok, hmem⟩ := h.exists_line (sizesBetween_ne_zero hpos hn)
    obtain ⟨halloc, hrange, j, key, hkey, hnil, heq⟩ := statsSizes_ok hok hmem
    obtain ⟨rfl, hcount⟩ := SizesLine.mk.inj heq
    have hmode : mode ≠ .none := by
      rintro rfl
      exact hnil (Except.ok.inj hkey).symm
    exact ⟨halloc, hrange, hmode, length_of_sizesKey hmode hkey, hcount ▸ Nat.mod_lt _ (by decide)⟩
  obtain ⟨m, hm⟩ := List.exists_mem_of_ne_nil sizes hne
  obtain ⟨halloc, hrange, hmode, -⟩ := hline m hm
  refine ⟨hmode, halloc, fun n hn => ?_, fun n hn => ?_, fun n hn => (hline n hn).2.2.2.2⟩
  · have hlt := hrange n hn
    have hn := hpos n hn
    simp only [sizesBucket, statsBucketSize] at hlt
    omega
  · have hlt := length_decimal_lt_sizesKeyLen.1 (hline n hn).2.2.2.1
    have hn := hpos n hn
    simp only [sizesBucket, statsBucketSize] at hlt
    omega

/-- **The report on sizes is right, whatever the buffer for labels holds, if and only if no item is
linked, or assertions are compiled in, there is memory for the histogram, and sizes and counts
fit.** -/
theorem sizes_exact (cfg : Config) (s : Store) (mode : AssertMode) (allocated : Bool)
    (slabSize : ℕ) :
    (∀ keys, SizesReport (s.linkedSizes cfg)
      (statsSizes mode allocated keys slabSize (s.linkedSizes cfg))) ↔
      s.linkedSizes cfg = [] ∨ SizesFit mode allocated slabSize (s.linkedSizes cfg) := by
  have hpos : ∀ n ∈ s.linkedSizes cfg, 0 < n := by
    intro n hn
    simp only [Store.linkedSizes, List.mem_flatMap, List.mem_map] at hn
    obtain ⟨id, -, p, -, rfl⟩ := hn
    simp only [itemSize, itemNtotal]
    omega
  generalize s.linkedSizes cfg = sizes at hpos
  constructor
  · intro hreport
    by_cases hnil : sizes = []
    · exact .inl hnil
    · exact .inr (fit_of_report hpos hnil (hreport _))
  · rintro (rfl | hfit) keys
    · have hnone : statsSizes mode allocated keys slabSize [] = .ok [] := by
        simp only [statsSizes, countSizes, printSizes_of_zero fun _ => rfl]
        split_ifs <;> rfl
      rw [hnone]
      exact ⟨[], rfl, fun i => by simp [sizesBetween], by simp⟩
    · exact statsSizes_of_fit hpos hfit keys

end

/-! ### The sizes of a server -/

namespace Server

variable {cfg : Config} {now evictOpt : ℕ} {slabs : ℕ → Slab} {items : ItemPtr → Item} {s : Server}
  {o : Options}

/-- In a server, all sizes are in the range of the histogram. -/
theorem linkedSizes_in_range (hcfg : cfg.StartedWith o)
    (h : (server cfg).Reaches NoWrap (init cfg now evictOpt slabs items) s) :
    ∀ n ∈ s.store.linkedSizes cfg, n ≤ o.slabSize / 32 * 32 := by
  intro n hn
  simp only [Store.linkedSizes, List.mem_flatMap, List.mem_map] at hn
  obtain ⟨id, -, p, hp, rfl⟩ := hn
  obtain ⟨hact, -, hlinked⟩ := (Shape.Wf.lru (inv_of_reaches h).inv.wf).mem_iff.1 hp
  have hl : s.store.Linked cfg p := ⟨hact, hlinked⟩
  have hfits := ((items_in_chunks hcfg h).1 p (.inl hl)).1.fits
  have hid : cfg.ValidId (s.store.items p).id := by
    rw [show (s.store.items p).id = (s.store.slabs p.slab).id from
      Shape.Wf.item_id (inv_of_reaches h).inv.wf p hact]
    exact Shape.Wf.slab_id (inv_of_reaches h).inv.wf p.slab hact.1
  have hprofile := cfg.profile_le _ hid.1 hid.2
  rw [hcfg.slabSize, Options.slabData] at hprofile
  have hmin := hcfg.accepted.slabSize.1
  simp only [slabMinSize, slabHdrSize] at hmin hprofile
  rw [itemSize, (stamped_of_reaches h).flag p (.inl hl)]
  omega

/-- A small server when it starts. -/
def initSizes : Server :=
  .init .narrow 2 evictLru (fun _ => ⟨0, 0, 0, 0⟩) fun _ =>
    ⟨0, 0, 0, 0, 0, {}, 0, [], 0, fun _ => 0, 0⟩

/-- `a` is stored. -/
def sizesServer : Server := (server .narrow).exec (fun s l s' => decide (NoWrap s l s')) initSizes
  [.alloc 0 [97] 0 0 1 {}, .fill 0 0 [49, 13, 10], .set 0 {}, .removeItem 0]

/-- In a build without assertions, the line for `a` has the label that happens to be in the buffer:
there is no such line if the buffer starts with a NUL. -/
theorem sizes_lost : Config.narrow.StartedWith narrowOptions ∧ ∃ s : Server,
    (server .narrow).Reaches NoWrap initSizes s ∧ s.store.linkedSizes .narrow = [62] ∧
      statsSizes .none true (fun _ => []) narrowOptions.slabSize (s.store.linkedSizes .narrow) =
        .ok [] ∧
      ¬ ∀ keys, SizesReport (s.store.linkedSizes .narrow)
        (statsSizes .none true keys narrowOptions.slabSize (s.store.linkedSizes .narrow)) := by
  have hreach : (server .narrow).Reaches NoWrap initSizes sizesServer :=
    (Machine.reaches_exec (by decide +kernel)).mono fun _ _ _ => of_decide_eq_true
  have hsizes : sizesServer.store.linkedSizes .narrow = [62] := by decide +kernel
  have hempty : statsSizes .none true (fun _ => []) narrowOptions.slabSize [62] = .ok [] := by
    decide +kernel
  refine ⟨startedWith_narrow, sizesServer, hreach, hsizes, ?_⟩
  rw [hsizes]
  refine ⟨hempty, fun h => ?_⟩
  obtain ⟨lines, hok, hmem⟩ := (h fun _ => []).exists_line (i := 2) (by decide)
  rw [hempty] at hok
  cases hok
  cases hmem

end Server

end Twemcache
