import Twemcache.Stats.Basic
import Mathlib.Algebra.BigOperators.Group.List.Basic
import Mathlib.Algebra.Order.BigOperators.Group.List
import Mathlib.Algebra.Ring.Int.Defs

/-!
# Aggregation

What `_stats_aggregate` is to achieve (`Aggregated`), and when it does.  The fall-through of a gauge
into the case of a maximum has no effect, since what a gauge gains is never more than it then is.
But class 0 is summed up over all classes but the last one.
-/

namespace Twemcache

/-! ### Loops over arrays -/

section

variable {α β : Type*} [DecidableEq α]

/-- A loop that updates each entry on its own. -/
theorem foldl_update_apply {l : List α} (hl : l.Nodup) (g : α → β → β) (f : α → β) (i : α) :
    l.foldl (fun f j => Function.update f j (g j (f j))) f i = if i ∈
        l then g i (f i) else f i := by
  induction l generalizing f with
  | nil => simp
  | cons j l ih =>
    obtain ⟨hj, hl⟩ := List.nodup_cons.1 hl
    rw [List.foldl_cons, ih hl]
    by_cases hij : i = j
    · subst hij
      rw [if_neg hj, Function.update_self, if_pos List.mem_cons_self]
    · rw [Function.update_of_ne hij]
      simp [hij]

end

theorem updateMetrics_apply (type : ℕ → MetricType) {n j : ℕ} (hj : j < n)
    (metrics other : ℕ → Metric) :
    updateMetrics type n metrics other j = statsMetricUpdate (type j) (metrics j) (other j) := by
  rw [updateMetrics, foldl_update_apply List.nodup_range
    (fun j metric => statsMetricUpdate (type j) metric (other j)), if_pos (List.mem_range.2 hj)]

/-! ### Metrics -/

namespace Metric

variable {m m' : Metric}

/-- Nothing in the metric is negative. -/
structure Nonneg (m : Metric) : Prop where
  /-- What was added. -/
  t : 0 ≤ m.t.toInt
  /-- What was taken away. -/
  b : 0 ≤ m.b.toInt

theorem nonneg_zero : Metric.zero.Nonneg := ⟨le_rfl, le_rfl⟩

end Metric

/-- The parts of a metric that have a meaning. -/
def MetricType.halves : MetricType → List (Metric → ℤ)
  | .counter => [fun m => m.t.toInt]
  | .gauge => [fun m => m.t.toInt, fun m => m.b.toInt]
  | _ => []

/-- What a metric amounts to. -/
def MetricType.amount (type : MetricType) (m : Metric) : ℤ :=
  if type = .gauge then m.t.toInt - m.b.toInt else m.t.toInt

/-- The sum of a part over several metrics. -/
def sumOf (half : Metric → ℤ) (ms : List Metric) : ℤ := (ms.map half).sum

/-- The metric is the sum of the others. -/
def IsSum (type : MetricType) (m : Metric) (ms : List Metric) : Prop :=
  ∀ half ∈ type.halves, half m = sumOf half ms

/-- The sum can be represented. -/
def SumInRange (type : MetricType) (ms : List Metric) : Prop :=
  ∀ half ∈ type.halves, sumOf half ms < 2 ^ 63

/-- The types of metrics that are summed up. -/
def MetricType.Summed (type : MetricType) : Prop := type = .counter ∨ type = .gauge

instance (type : MetricType) : Decidable type.Summed := inferInstanceAs (Decidable (_ ∨ _))

theorem summed_statsTmetrics :
    ∀ j < statsTmetrics.length, (metricType statsTmetrics j).Summed := by decide

theorem summed_statsSmetrics :
    ∀ j < statsSmetrics.length, (metricType statsSmetrics j).Summed := by decide

theorem toInt_add_of_lt {x y : Int64} (hx : 0 ≤ x.toInt) (hy : 0 ≤ y.toInt)
    (hlt : x.toInt + y.toInt < 2 ^ 63) :
    (x + y).toInt = x.toInt + y.toInt := by
  rw [Int64.toInt_add]
  exact Int.bmod_eq_of_le_mul_two (by omega) (by omega)

theorem toInt_sub_of_nonneg {x y : Int64} (hx : 0 ≤ x.toInt) (hy : 0 ≤ y.toInt) :
    (x - y).toInt = x.toInt - y.toInt := by
  have hxlt := x.toInt_lt
  have hylt := y.toInt_lt
  rw [Int64.toInt_sub]
  exact Int.bmod_eq_of_le_mul_two (by omega) (by omega)

/-! ### Sums -/

section

variable {type : MetricType} {m acc : Metric} {ms : List Metric}

/-- The case of a maximum has no effect on a gauge that was just added to. -/
theorem statsMetricRaise_of_le (ht : 0 ≤ m.t.toInt) (hb : 0 ≤ m.b.toInt)
    (hle : m.t.toInt ≤ acc.t.toInt) :
    statsMetricRaise acc m = acc := by
  have hnot : ¬ acc.t < m.t - m.b := by
    rw [Int64.lt_iff_toInt_lt, toInt_sub_of_nonneg ht hb]
    omega
  rw [statsMetricRaise, if_neg hnot]

/-- One metric is added to another. -/
theorem statsMetricUpdate_sum (hty : type.Summed) (hacc : acc.Nonneg) (hm : m.Nonneg)
    (hr : ∀ half ∈ type.halves, half acc + half m < 2 ^ 63) :
    (statsMetricUpdate type acc m).Nonneg ∧
      ∀ half ∈ type.halves, half (statsMetricUpdate type acc m) = half acc + half m := by
  obtain ⟨hacct, haccb⟩ := hacc
  obtain ⟨hmt, hmb⟩ := hm
  obtain rfl | rfl := hty
  · have ht := toInt_add_of_lt hacct hmt (hr _ (.head _))
    refine ⟨⟨by simp only [statsMetricUpdate, ht]; omega, haccb⟩, ?_⟩
    simpa [MetricType.halves, statsMetricUpdate] using ht
  · have ht := toInt_add_of_lt hacct hmt (hr _ (.head _))
    have hb := toInt_add_of_lt haccb hmb (hr _ (.tail _ (.head _)))
    have heq : statsMetricUpdate .gauge acc m = ⟨acc.t + m.t, acc.b + m.b⟩ :=
      statsMetricRaise_of_le hmt hmb (by simp only [ht]; omega)
    rw [heq]
    refine ⟨⟨by simp only [ht]; omega, by simp only [hb]; omega⟩, fun half hh => ?_⟩
    simp only [MetricType.halves, List.mem_cons, List.not_mem_nil, or_false] at hh
    obtain rfl | rfl := hh
    · exact ht
    · exact hb

theorem sumOf_cons (half : Metric → ℤ) :
    sumOf half (m :: ms) = half m + sumOf half ms := List.sum_cons

theorem eq_of_mem_halves {half : Metric → ℤ} (hh : half ∈ type.halves) :
    half = (fun m => m.t.toInt) ∨ half = fun m => m.b.toInt := by
  cases type with
  | counter => exact .inl (List.mem_singleton.1 hh)
  | gauge => simpa [MetricType.halves] using hh
  | max => cases hh
  | invalid => cases hh

theorem nonneg_of_mem_halves (hm : m.Nonneg) {half : Metric → ℤ} (hh : half ∈ type.halves) :
    0 ≤ half m := by
  obtain rfl | rfl := eq_of_mem_halves hh
  · exact hm.t
  · exact hm.b

theorem sumOf_nonneg (hms : ∀ m ∈ ms, m.Nonneg) {half : Metric → ℤ} (hh : half ∈ type.halves) :
    0 ≤ sumOf half ms := by
  refine List.sum_nonneg fun x hx => ?_
  obtain ⟨m, hm, rfl⟩ := List.mem_map.1 hx
  exact nonneg_of_mem_halves (hms m hm) hh

/-- Metrics are added up one after the other. -/
theorem foldl_sum (hty : type.Summed) (hms : ∀ m ∈ ms, m.Nonneg) (hacc : acc.Nonneg)
    (hr : ∀ half ∈ type.halves, half acc + sumOf half ms < 2 ^ 63) :
    (ms.foldl (statsMetricUpdate type) acc).Nonneg ∧
      ∀ half ∈ type.halves, half (ms.foldl (statsMetricUpdate type) acc) = half acc +
          sumOf half ms := by
  induction ms generalizing acc with
  | nil => exact ⟨hacc, fun half _ => by simp [sumOf]⟩
  | cons m ms ih =>
    have hms' : ∀ m ∈ ms, m.Nonneg := fun m hm => hms m (List.mem_cons_of_mem _ hm)
    have hstep := statsMetricUpdate_sum hty hacc (hms m List.mem_cons_self) fun half hh => by
      have hrest := sumOf_nonneg hms' hh
      have hall := hr half hh
      rw [sumOf_cons] at hall
      omega
    obtain ⟨hnonneg, hsum⟩ := ih hms' hstep.1 fun half hh => by
      have hall := hr half hh
      rw [sumOf_cons] at hall
      rw [hstep.2 half hh]
      omega
    refine ⟨hnonneg, fun half hh => ?_⟩
    rw [List.foldl_cons, hsum half hh, hstep.2 half hh, sumOf_cons, Int.add_assoc]

/-- Counters have no second half. -/
theorem foldl_counter_b : (ms.foldl (statsMetricUpdate .counter) acc).b = acc.b := by
  induction ms generalizing acc with
  | nil => rfl
  | cons m ms ih => rw [List.foldl_cons, ih, statsMetricUpdate]

/-- From nothing, metrics add up to their sum, if it can be represented. -/
theorem isSum_foldl (hty : type.Summed) (hms : ∀ m ∈ ms, m.Nonneg) (hr : SumInRange type ms) :
    (ms.foldl (statsMetricUpdate type) .zero).Nonneg ∧
        IsSum type (ms.foldl (statsMetricUpdate type) .zero) ms := by
  have hzero : ∀ half ∈ type.halves, half Metric.zero = 0 := by
    obtain rfl | rfl := hty
    · simp [MetricType.halves, Metric.zero]
    · simp [MetricType.halves, Metric.zero]
  obtain ⟨hnonneg, hsum⟩ := foldl_sum hty hms Metric.nonneg_zero fun half hh => by
    rw [hzero half hh, Int.zero_add]
    exact hr half hh
  refine ⟨hnonneg, fun half hh => ?_⟩
  rw [hsum half hh, hzero half hh, Int.zero_add]

/-- A sum that is in a metric can be represented. -/
theorem IsSum.inRange (h : IsSum type m ms) : SumInRange type ms := by
  intro half hh
  rw [← h half hh]
  obtain rfl | rfl := eq_of_mem_halves hh
  · exact m.t.toInt_lt
  · exact m.b.toInt_lt

end

/-! ### The loops of `_stats_aggregate` -/

theorem classIds_eq : classIds = summedIds ++ [slabclassMaxId] := by
  have hlen : slabclassMaxId + 1 - slabclassMinId = slabclassMaxId - slabclassMinId + 1 := rfl
  rw [classIds, summedIds, hlen, List.range'_concat]
  rfl

theorem nodup_classIds : classIds.Nodup := List.nodup_range'

theorem mem_classIds {cid : ℕ} : cid ∈ classIds ↔ slabclassMinId ≤ cid ∧ cid ≤ slabclassMaxId := by
  simp only [classIds, slabclassMinId, slabclassMaxId, List.mem_range'_1]
  omega

theorem zero_notMem_summedIds :
    0 ∉ summedIds := by simp [summedIds, slabclassMinId, List.mem_range'_1]

section

variable {threads : List ThreadStats} {s : Aggregator} {slabs : ℕ → ℕ → Metric} {j cid : ℕ}

theorem foldl_thread (hj : j < statsTmetrics.length) : (threads.foldl aggregateThread s).thread j =
    (threads.map fun th => th.thread j).foldl (statsMetricUpdate (metricType statsTmetrics j))
        (s.thread j) := by
  induction threads generalizing s with
  | nil => rfl
  | cons th threads ih =>
    have hstep : (aggregateThread s th).thread j =
        statsMetricUpdate (metricType statsTmetrics j) (s.thread j) (th.thread j) :=
          updateMetrics_apply _ hj _ _
    rw [List.foldl_cons, ih, List.map_cons, List.foldl_cons, hstep]

theorem aggregateThread_slabs (th : ThreadStats) (hcid : cid ∈ classIds) :
    (aggregateThread s th).slabs cid =
    updateMetrics (metricType statsSmetrics) statsSmetrics.length (s.slabs cid) (th.slabs cid) := by
  simp only [aggregateThread]
  rw [foldl_update_apply nodup_classIds (fun cid metrics =>
    updateMetrics (metricType statsSmetrics) statsSmetrics.length metrics (th.slabs cid)),
      if_pos hcid]

theorem aggregateThread_slabs_of_notMem (th : ThreadStats) (hcid : cid ∉ classIds) :
    (aggregateThread s th).slabs cid = s.slabs cid := by
  simp only [aggregateThread]
  rw [foldl_update_apply nodup_classIds (fun cid metrics =>
    updateMetrics (metricType statsSmetrics) statsSmetrics.length metrics (th.slabs cid)),
      if_neg hcid]

theorem foldl_slabs (hcid : cid ∈ classIds) (hj : j < statsSmetrics.length) :
    (threads.foldl aggregateThread s).slabs cid j =
      (threads.map fun th => th.slabs cid j).foldl (statsMetricUpdate (metricType statsSmetrics j))
          (s.slabs cid j) := by
  induction threads generalizing s with
  | nil => rfl
  | cons th threads ih =>
    rw [List.foldl_cons, ih, List.map_cons, List.foldl_cons, aggregateThread_slabs th hcid,
      updateMetrics_apply _ hj]

theorem foldl_slabs_zero : (threads.foldl aggregateThread s).slabs 0 = s.slabs 0 := by
  induction threads generalizing s with
  | nil => rfl
  | cons th threads ih =>
    have hzero : 0 ∉ classIds := by simp [mem_classIds, slabclassMinId]
    rw [List.foldl_cons, ih, aggregateThread_slabs_of_notMem th hzero]

/-- One slab metric is summed up over some classes. -/
theorem foldl_classes {l : List ℕ} (hl : 0 ∉ l) (type : MetricType) (j : ℕ)
    (slabs : ℕ → ℕ → Metric) :
    l.foldl (fun
        (slabs : ℕ → ℕ → Metric) cid => Function.update slabs 0 (Function.update (slabs 0) j
        (statsMetricUpdate type (slabs 0 j) (slabs cid j)))) slabs =
      Function.update slabs 0 (Function.update (slabs 0) j
        ((l.map fun cid => slabs cid j).foldl (statsMetricUpdate type) (slabs 0 j))) := by
  induction l generalizing slabs with
  | nil => simp
  | cons cid l ih =>
    obtain ⟨hcid, hl⟩ := not_or.1 (List.mem_cons.not.1 hl)
    rw [List.foldl_cons, ih hl, List.map_cons, List.foldl_cons]
    have hrest : ∀ v, (l.map fun cid' => Function.update slabs 0 v cid' j) =
        l.map fun cid' => slabs cid' j := by
      refine fun v => List.map_congr_left fun cid' hmem => ?_
      rw [Function.update_of_ne (ne_of_mem_of_not_mem hmem hl)]
    rw [hrest]
    simp

theorem sumClasses_eq (slabs : ℕ → ℕ → Metric) (j : ℕ) : sumClasses slabs j =
    Function.update slabs 0
      (Function.update (slabs 0) j ((summedIds.map fun cid => slabs cid j).foldl
      (statsMetricUpdate (metricType statsSmetrics j)) (slabs 0 j))) :=
  foldl_classes zero_notMem_summedIds _ j slabs

theorem foldl_sumClasses_of_ne (l : List ℕ) (hcid : cid ≠ 0) :
    l.foldl sumClasses slabs cid = slabs cid := by
  induction l generalizing slabs with
  | nil => rfl
  | cons j l ih => rw [List.foldl_cons, ih, sumClasses_eq, Function.update_of_ne hcid]

theorem foldl_sumClasses_of_notMem {l : List ℕ} (hj : j ∉ l) :
    l.foldl sumClasses slabs 0 j = slabs 0 j := by
  induction l generalizing slabs with
  | nil => rfl
  | cons j' l ih =>
    obtain ⟨hne, hl⟩ := not_or.1 (List.mem_cons.not.1 hj)
    rw [List.foldl_cons, ih hl, sumClasses_eq, Function.update_self, Function.update_of_ne hne]

theorem foldl_sumClasses_of_mem {l : List ℕ} (hl : l.Nodup) (hj : j ∈ l) :
    l.foldl sumClasses slabs 0 j =
    (summedIds.map fun cid => slabs cid j).foldl (statsMetricUpdate (metricType statsSmetrics j))
        (slabs 0 j) := by
  induction l generalizing slabs with
  | nil => cases hj
  | cons j' l ih =>
    obtain ⟨hj', hl⟩ := List.nodup_cons.1 hl
    rw [List.foldl_cons]
    obtain rfl | hmem := List.mem_cons.1 hj
    · rw [foldl_sumClasses_of_notMem hj', sumClasses_eq, Function.update_self, Function.update_self]
    · have hne : j ≠ j' := ne_of_mem_of_not_mem hmem hj'
      have hrest : (summedIds.map fun cid => sumClasses slabs j' cid j) = summedIds.map
          fun cid => slabs cid j := by
        refine List.map_congr_left fun cid hcid => ?_
        rw [sumClasses_eq, Function.update_of_ne (ne_of_mem_of_not_mem hcid zero_notMem_summedIds)]
      rw [ih hl hmem, hrest, sumClasses_eq, Function.update_self, Function.update_of_ne hne]

end

/-! ### What a run of `_stats_aggregate` leaves -/

section

variable {threads : List ThreadStats} {s : Aggregator} {j cid : ℕ}

theorem statsAggregate_thread (hj : j < statsTmetrics.length) :
    (statsAggregate threads s).thread j =
    (threads.map fun th => th.thread j).foldl (statsMetricUpdate (metricType statsTmetrics j))
        .zero :=
  foldl_thread hj

theorem statsAggregate_slabs (hcid : cid ∈ classIds) (hj : j < statsSmetrics.length) :
    (statsAggregate threads s).slabs cid j =
      (threads.map fun th => th.slabs cid j).foldl (statsMetricUpdate (metricType statsSmetrics j))
          .zero := by
  have hrange := mem_classIds.1 hcid
  have hne : cid ≠ 0 := by
    simp only [slabclassMinId] at hrange
    omega
  simp only [statsAggregate]
  rw [foldl_sumClasses_of_ne _ hne, foldl_slabs hcid hj]
  dsimp only
  rw [if_pos hrange.2]

theorem statsAggregate_zero (hj : j < statsSmetrics.length) : (statsAggregate threads s).slabs 0 j =
    (summedIds.map fun cid => (statsAggregate threads s).slabs cid j).foldl
      (statsMetricUpdate (metricType statsSmetrics j)) .zero := by
  have hclasses : (summedIds.map fun cid => (statsAggregate threads s).slabs cid j) =
      summedIds.map fun cid =>
      (threads.foldl aggregateThread { s with
        thread := fun _ => .zero
        slabs := fun cid => if cid ≤ slabclassMaxId then fun _ => .zero else s.slabs cid }).slabs
            cid j := by
    refine List.map_congr_left fun cid hcid => ?_
    simp only [statsAggregate]
    rw [foldl_sumClasses_of_ne _ (ne_of_mem_of_not_mem hcid zero_notMem_summedIds)]
  rw [hclasses]
  simp only [statsAggregate]
  rw [foldl_sumClasses_of_mem List.nodup_range (List.mem_range.2 hj), foldl_slabs_zero]
  rfl

theorem statsAggregate_tmax (hj : j < statsTmetrics.length) : (statsAggregate threads s).tmax j =
    statsMetricRaise (s.tmax j) ((statsAggregate threads s).thread j) := by
  simp only [statsAggregate]
  rw [updateMetrics_apply _ hj]
  have hkeep : ∀ (l : List ThreadStats) (u : Aggregator),
      (l.foldl aggregateThread u).tmax = u.tmax := by
    intro l
    induction l with
    | nil => exact fun _ => rfl
    | cons th l ih => exact fun u => (ih _).trans rfl
  rw [hkeep]
  rfl

end

/-! ### When the sums are right -/

/-- No metric of the thread is negative. -/
structure ThreadStats.Nonneg (th : ThreadStats) : Prop where
  /-- The metrics of the thread. -/
  thread : ∀ j, (th.thread j).Nonneg
  /-- The metrics of the slab classes. -/
  slabs : ∀ cid j, (th.slabs cid j).Nonneg

/-- What a run of `_stats_aggregate` from `s` to `s'` is to achieve. -/
structure Aggregated (threads : List ThreadStats) (s s' : Aggregator) : Prop where
  /-- Thread metrics are summed up over all threads. -/
  thread : ∀ j < statsTmetrics.length,
    IsSum (metricType statsTmetrics j) (s'.thread j) (threads.map fun th => th.thread j)
  /-- So are the slab metrics of each class. -/
  slabs : ∀ cid ∈ classIds, ∀ j < statsSmetrics.length,
    IsSum (metricType statsSmetrics j) (s'.slabs cid j) (threads.map fun th => th.slabs cid j)
  /-- Class 0 has the sums over all classes. -/
  zero : ∀ j < statsSmetrics.length,
    IsSum (metricType statsSmetrics j) (s'.slabs 0 j) (classIds.map fun cid => s'.slabs cid j)
  /-- Maxima are raised to what the thread metrics amount to. -/
  tmax : ∀ j < statsTmetrics.length, (s'.tmax j).t.toInt =
    max (s.tmax j).t.toInt ((metricType statsTmetrics j).amount (s'.thread j))

/-- No sum wraps, and nothing has been counted in the last class. -/
structure Aggregable (threads : List ThreadStats) : Prop where
  /-- Sums over the threads. -/
  thread : ∀ j < statsTmetrics.length,
    SumInRange (metricType statsTmetrics j) (threads.map fun th => th.thread j)
  /-- Sums over the threads, class by class. -/
  slabs : ∀ cid ∈ classIds, ∀ j < statsSmetrics.length,
    SumInRange (metricType statsSmetrics j) (threads.map fun th => th.slabs cid j)
  /-- Sums over the classes but the last one. -/
  zero : ∀ j < statsSmetrics.length,
    SumInRange (metricType statsSmetrics j)
      (summedIds.flatMap fun cid => threads.map fun th => th.slabs cid j)
  /-- The last class. -/
  last : ∀ j < statsSmetrics.length, ∀ half ∈ (metricType statsSmetrics j).halves,
    sumOf half (threads.map fun th => th.slabs slabclassMaxId j) = 0

section

variable {threads : List ThreadStats} {s : Aggregator} {j cid : ℕ} {half : Metric → ℤ}

theorem sumOf_append (ms ms' : List Metric) :
    sumOf half (ms ++ ms') = sumOf half ms + sumOf half ms' := by
  rw [sumOf, List.map_append, List.sum_append]
  rfl

theorem sumOf_flatMap (ids : List ℕ) (f : ℕ → List Metric) :
    sumOf half (ids.flatMap f) = (ids.map fun cid => sumOf half (f cid)).sum := by
  induction ids with
  | nil => rfl
  | cons cid ids ih => rw [List.flatMap_cons, sumOf_append, ih, List.map_cons, List.sum_cons]

/-- The sum over the classes is that over the classes and the threads. -/
theorem sumOf_classes {type : MetricType} {slabs : ℕ → Metric} {f : ℕ → List Metric} {ids : List ℕ}
    (hsum : ∀ cid ∈ ids, IsSum type (slabs cid) (f cid)) (hh : half ∈ type.halves) :
    sumOf half (ids.map slabs) = sumOf half (ids.flatMap f) := by
  rw [sumOf_flatMap, sumOf, List.map_map]
  refine congrArg List.sum (List.map_congr_left fun cid hcid => ?_)
  exact hsum cid hcid half hh

/-- The whole, and without the last class. -/
theorem sumOf_classIds (slabs : ℕ → Metric) :
    sumOf half (classIds.map slabs) = sumOf half (summedIds.map slabs) +
        half (slabs slabclassMaxId) := by
  rw [classIds_eq, List.map_append, sumOf_append]
  simp [sumOf]

theorem mem_classIds_of_summed (hcid : cid ∈ summedIds) : cid ∈ classIds := by
  rw [classIds_eq]
  exact List.mem_append_left _ hcid

theorem max_mem_classIds : slabclassMaxId ∈ classIds := by
  rw [classIds_eq]
  exact List.mem_append_right _ List.mem_cons_self

theorem nonneg_thread (hth : ∀ th ∈ threads, th.Nonneg) (j : ℕ) :
    ∀ m ∈ threads.map fun th => th.thread j, m.Nonneg := by
  intro m hm
  obtain ⟨th, hmem, rfl⟩ := List.mem_map.1 hm
  exact (hth th hmem).thread j

theorem nonneg_slabs (hth : ∀ th ∈ threads, th.Nonneg) (cid j : ℕ) :
    ∀ m ∈ threads.map fun th => th.slabs cid j, m.Nonneg := by
  intro m hm
  obtain ⟨th, hmem, rfl⟩ := List.mem_map.1 hm
  exact (hth th hmem).slabs cid j

/-- A maximum is raised to what the other metric amounts to. -/
theorem statsMetricRaise_t {m m' : Metric} (h : m'.Nonneg) :
    (statsMetricRaise m m').t.toInt = max m.t.toInt (m'.t.toInt - m'.b.toInt) := by
  have hval : (m'.t - m'.b).toInt = m'.t.toInt - m'.b.toInt := toInt_sub_of_nonneg h.t h.b
  rw [statsMetricRaise]
  by_cases hlt : m.t < m'.t - m'.b
  · rw [if_pos hlt, ← hval, max_eq_right]
    exact (Int64.lt_iff_toInt_lt.1 hlt).le
  · rw [if_neg hlt, ← hval, max_eq_left]
    exact not_lt.1 fun h => hlt (Int64.lt_iff_toInt_lt.2 h)

/-- If class 0 has the sums over all classes, there is nothing in the last one. -/
theorem Aggregated.last (h : Aggregated threads s (statsAggregate threads s))
    (hth : ∀ th ∈ threads, th.Nonneg) (hj : j < statsSmetrics.length)
    (hh : half ∈ (metricType statsSmetrics j).halves) :
    half ((statsAggregate threads s).slabs slabclassMaxId j) = 0 ∧
      sumOf half (summedIds.map fun cid => (statsAggregate threads s).slabs cid j) < 2 ^ 63 := by
  have hty := summed_statsSmetrics j hj
  have hnonneg : ∀ cid ∈ classIds, ((statsAggregate threads s).slabs cid j).Nonneg := by
    intro cid hcid
    rw [statsAggregate_slabs hcid hj]
    exact (isSum_foldl hty (nonneg_slabs hth cid j) (h.slabs cid hcid j hj).inRange).1
  have hsummed : ∀ m ∈ summedIds.map fun cid => (statsAggregate threads s).slabs cid j,
      m.Nonneg := by
    intro m hm
    obtain ⟨cid, hcid, rfl⟩ := List.mem_map.1 hm
    exact hnonneg cid (mem_classIds_of_summed hcid)
  have hrange : SumInRange (metricType statsSmetrics j)
      (summedIds.map fun cid => (statsAggregate threads s).slabs cid j) := by
    intro half hh
    have hall := (h.zero j hj).inRange half hh
    have hlast := nonneg_of_mem_halves (hnonneg _ max_mem_classIds) hh
    rw [sumOf_classIds] at hall
    omega
  have hzero := (isSum_foldl hty hsummed hrange).2 half hh
  rw [← statsAggregate_zero hj, h.zero j hj half hh, sumOf_classIds] at hzero
  exact ⟨by omega, hrange half hh⟩

/-- **One run of `_stats_aggregate` leaves the sums, and raises the maxima, if and only if no sum
wraps and nothing has been counted in the last class.** -/
theorem aggregate_exact (hth : ∀ th ∈ threads, th.Nonneg) (s : Aggregator) :
    Aggregated threads s (statsAggregate threads s) ↔ Aggregable threads := by
  constructor
  · intro h
    refine ⟨fun j hj => (h.thread j hj).inRange,
      fun cid hcid j hj => (h.slabs cid hcid j hj).inRange,
      fun j hj half hh => ?_, fun j hj half hh => ?_⟩
    · rw [← sumOf_classes (fun cid hcid => h.slabs cid (mem_classIds_of_summed hcid) j hj) hh]
      exact (h.last hth hj hh).2
    · rw [← h.slabs slabclassMaxId max_mem_classIds j hj half hh]
      exact (h.last hth hj hh).1
  · intro h
    have hthread : ∀ j < statsTmetrics.length, ((statsAggregate threads s).thread j).Nonneg ∧
        IsSum (metricType statsTmetrics j) ((statsAggregate threads s).thread j)
          (threads.map fun th => th.thread j) := by
      intro j hj
      rw [statsAggregate_thread hj]
      exact isSum_foldl (summed_statsTmetrics j hj) (nonneg_thread hth j) (h.thread j hj)
    have hslabs : ∀ cid ∈ classIds, ∀ j < statsSmetrics.length,
        ((statsAggregate threads s).slabs cid j).Nonneg ∧
          IsSum (metricType statsSmetrics j) ((statsAggregate threads s).slabs cid j)
            (threads.map fun th => th.slabs cid j) := by
      intro cid hcid j hj
      rw [statsAggregate_slabs hcid hj]
      exact isSum_foldl (summed_statsSmetrics j hj) (nonneg_slabs hth cid j) (h.slabs cid hcid j hj)
    refine ⟨fun j hj => (hthread j hj).2, fun cid hcid j hj => (hslabs cid hcid j hj).2,
      fun j hj half hh => ?_, fun j hj => ?_⟩
    · have hsummed : ∀ m ∈ summedIds.map fun cid => (statsAggregate threads s).slabs cid j,
          m.Nonneg := by
        intro m hm
        obtain ⟨cid, hcid, rfl⟩ := List.mem_map.1 hm
        exact (hslabs cid (mem_classIds_of_summed hcid) j hj).1
      have hrange : SumInRange (metricType statsSmetrics j)
          (summedIds.map fun cid => (statsAggregate threads s).slabs cid j) := by
        intro half hh
        rw [sumOf_classes (fun cid hcid => (hslabs cid (mem_classIds_of_summed hcid) j hj).2) hh]
        exact h.zero j hj half hh
      rw [statsAggregate_zero hj, (isSum_foldl (summed_statsSmetrics j hj) hsummed hrange).2 half
        hh, sumOf_classIds,
        (hslabs slabclassMaxId max_mem_classIds j hj).2 half hh, h.last j hj half hh, Int.add_zero]
    · rw [statsAggregate_tmax hj, statsMetricRaise_t (hthread j hj).1]
      congr 1
      rw [MetricType.amount]
      obtain hty | hty := summed_statsTmetrics j hj
      · -- the second half of a counter is never written to
        have hb : ((statsAggregate threads s).thread j).b = 0 := by
          rw [statsAggregate_thread hj, hty, foldl_counter_b]
          rfl
        rw [hty, if_neg (by decide), hb]
        exact Int.sub_zero _
      · rw [hty, if_pos rfl]

end

/-- A thread that has counted in class `cid` only. -/
def countedIn (cid : ℕ) : ThreadStats where
  thread _ := .zero
  slabs c _ := if c = cid then ⟨1, 0⟩ else .zero

theorem nonneg_countedIn (cid : ℕ) : (countedIn cid).Nonneg where
  thread _ := Metric.nonneg_zero
  slabs c _ := by
    simp only [countedIn]
    split_ifs
    · exact ⟨by decide, by decide⟩
    · exact Metric.nonneg_zero

/-- The metrics at the start. -/
def Aggregator.zero : Aggregator := ⟨fun _ => .zero, fun _ _ => .zero, fun _ => .zero⟩

/-- What two threads have counted in class 1 is summed up. -/
theorem aggregate_first : Aggregated [countedIn 1, countedIn 1] .zero
    (statsAggregate [countedIn 1, countedIn 1] .zero) := by
  have hth : ∀ th ∈ [countedIn 1, countedIn 1], th.Nonneg := by simp [nonneg_countedIn]
  refine (aggregate_exact hth .zero).2
    ⟨fun j _ half hh => ?_, fun cid _ j _ half hh => ?_, fun j _ half hh => ?_,
    fun j _ half hh => ?_⟩
  · obtain rfl | rfl := eq_of_mem_halves hh
    · exact show (0 : ℤ) < 2 ^ 63 by decide
    · exact show (0 : ℤ) < 2 ^ 63 by decide
  · by_cases hcid : cid = 1
    · subst hcid
      obtain rfl | rfl := eq_of_mem_halves hh
      · exact show (2 : ℤ) < 2 ^ 63 by decide
      · exact show (0 : ℤ) < 2 ^ 63 by decide
    · obtain rfl | rfl := eq_of_mem_halves hh
      · simp [sumOf, countedIn, hcid, Metric.zero]
      · simp [sumOf, countedIn, hcid, Metric.zero]
  · obtain rfl | rfl := eq_of_mem_halves hh
    · exact show sumOf (fun m => m.t.toInt) (summedIds.flatMap fun cid =>
        [(countedIn 1).slabs cid 0, (countedIn 1).slabs cid 0]) < 2 ^ 63 by decide +kernel
    · exact show sumOf (fun m => m.b.toInt) (summedIds.flatMap fun cid =>
        [(countedIn 1).slabs cid 0, (countedIn 1).slabs cid 0]) < 2 ^ 63 by decide +kernel
  · obtain rfl | rfl := eq_of_mem_halves hh
    · rfl
    · rfl

/-- What a thread has counted in the last class is missing in class 0. -/
theorem aggregate_skips_last : (∀ th ∈ [countedIn slabclassMaxId], th.Nonneg) ∧
    ¬ Aggregated [countedIn slabclassMaxId] .zero
        (statsAggregate [countedIn slabclassMaxId] .zero) := by
  have hth : ∀ th ∈ [countedIn slabclassMaxId], th.Nonneg := by simp [nonneg_countedIn]
  refine ⟨hth, fun h => ?_⟩
  have hlen : 2 < statsSmetrics.length := by decide
  have hhalf : (fun m : Metric => m.t.toInt) ∈ (metricType statsSmetrics 2).halves := .head _
  have hzero := (h.last hth hlen hhalf).1
  rw [h.slabs slabclassMaxId max_mem_classIds 2 hlen _ hhalf] at hzero
  exact absurd hzero (by decide)

end Twemcache
