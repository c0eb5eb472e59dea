import Twemcache.Store.Basic
import Mathlib.Tactic.SplitIfs

/-!
# Statistics

Every worker and the dispatcher count in metrics of their own, which `_stats_aggregate`
(`mc_stats.c`) sums up.  A gauge has two halves, what was added and what was taken away.  The value
of a metric is a union: a counter and a maximum are where a gauge has its first half.

## Main definitions

* `statsTmetrics`, `statsSmetrics` : the metrics of a thread, and of a slab class.
* `statsMetricUpdate` : `stats_metric_update`.
* `statsAggregate` : `_stats_aggregate`.

-/

namespace Twemcache

/-- `metric_type_t`. -/
inductive MetricType where
  /-- `STATS_INVALID`. -/
  | invalid
  /-- `STATS_COUNTER`. -/
  | counter
  /-- `STATS_GAUGE`. -/
  | gauge
  /-- `STATS_MAX`. -/
  | max
  deriving DecidableEq, Repr, Inhabited

/-- The value of `struct stats_metric`. -/
structure Metric where
  /-- `value.gauge.t`, which is also `value.counter` and `value.max`. -/
  t : Int64
  /-- `value.gauge.b`. -/
  b : Int64
  deriving DecidableEq, Repr

/-- What the templates hold. -/
def Metric.zero : Metric := ⟨0, 0⟩

/-- `STATS_THREAD_METRICS`. -/
def statsTmetrics : List (String × MetricType) :=
  [("conn_disabled", .counter), ("conn_total", .counter), ("conn_struct", .counter),
    ("conn_yield", .counter),
    ("conn_curr", .gauge), ("data_read", .counter), ("data_written", .counter), ("add", .counter),
    ("add_exist", .counter), ("set", .counter), ("replace", .counter), ("replace_miss", .counter),
    ("append", .counter), ("append_miss", .counter), ("prepend", .counter),
      ("prepend_miss", .counter),
    ("appendrl", .counter), ("appendrl_miss", .counter), ("prependrl", .counter),
      ("prependrl_miss", .counter),
    ("delete", .counter), ("delete_hit", .counter), ("delete_miss", .counter), ("incr", .counter),
    ("incr_miss", .counter), ("incr_success", .counter), ("decr", .counter),
      ("decr_miss", .counter),
    ("decr_success", .counter), ("cas", .counter), ("cas_miss", .counter), ("cas_badval", .counter),
    ("get", .counter), ("get_key", .counter), ("get_key_miss", .counter), ("gets", .counter),
      ("gets_key", .counter),
    ("gets_key_miss", .counter), ("cmd_total", .counter), ("cmd_error", .counter),
      ("server_error", .counter),
    ("klog_logged", .counter), ("klog_discarded", .counter), ("klog_skipped", .counter),
    ("hotkey_sampled", .counter), ("hotkey_qps", .counter), ("hotkey_bw", .counter),
      ("accept_eagain", .counter),
    ("accept_eintr", .counter), ("accept_emfile", .counter), ("accept_error", .counter),
      ("read_eagain", .counter),
    ("read_error", .counter), ("write_eagain", .counter), ("write_error", .counter),
      ("mem_conn_curr", .gauge),
    ("mem_rbuf_curr", .gauge), ("mem_wbuf_curr", .gauge), ("mem_ilist_curr", .gauge),
      ("mem_slist_curr", .gauge),
    ("mem_iov_curr", .gauge), ("mem_msg_curr", .gauge), ("mem_cache_curr", .gauge)]

/-- `STATS_SLAB_METRICS`. -/
def statsSmetrics : List (String × MetricType) :=
  [("data_curr", .gauge), ("data_value_curr", .gauge), ("item_curr", .gauge),
    ("item_acquire", .counter),
    ("item_remove", .counter), ("item_link", .counter), ("item_unlink", .counter),
      ("item_expire", .counter),
    ("item_evict", .counter), ("item_free", .gauge), ("slab_req", .counter),
      ("slab_error", .counter),
    ("slab_alloc", .counter), ("slab_curr", .gauge), ("slab_evict", .counter),
      ("set_success", .counter),
    ("add_success", .counter), ("replace_success", .counter), ("append_hit", .counter),
      ("append_success", .counter),
    ("prepend_hit", .counter), ("prepend_success", .counter), ("appendrl_hit", .counter),
    ("appendrl_success", .counter), ("prependrl_hit", .counter), ("prependrl_success", .counter),
    ("cas_success", .counter), ("get_key_hit", .counter), ("gets_key_hit", .counter)]

/-- The type of metric `j` of a template. -/
def metricType (metrics : List (String × MetricType)) (j : ℕ) :
    MetricType := (metrics.map Prod.snd)[j]!

/-- The end of `stats_metric_update`: a maximum is raised. -/
def statsMetricRaise (metric1 metric2 : Metric) : Metric :=
  let val := metric2.t - metric2.b
  if metric1.t < val then { metric1 with t := val } else metric1

/-- `stats_metric_update`, where `type` is that of the first metric.  The case of a gauge falls
through. -/
def statsMetricUpdate (type : MetricType) (metric1 metric2 : Metric) : Metric :=
  match type with
  | .counter => { metric1 with t := metric1.t + metric2.t }
  | .gauge => statsMetricRaise ⟨metric1.t + metric2.t, metric1.b + metric2.b⟩ metric2
  | .max => statsMetricRaise metric1 metric2
  | .invalid => metric1

/-- The metrics of a worker or of the dispatcher. -/
structure ThreadStats where
  /-- `stats_thread`. -/
  thread : ℕ → Metric
  /-- `stats_slabs`, by slab class. -/
  slabs : ℕ → ℕ → Metric

/-- The metrics of the aggregator, and `stats_tmax`. -/
structure Aggregator where
  /-- `aggregator.stats_thread`. -/
  thread : ℕ → Metric
  /-- `aggregator.stats_slabs`. -/
  slabs : ℕ → ℕ → Metric
  /-- `stats_tmax`. -/
  tmax : ℕ → Metric

/-- `metrics[j]` is updated with `other[j]`, for all `j` below `n`. -/
def updateMetrics (type : ℕ → MetricType) (n : ℕ) (metrics other : ℕ → Metric) : ℕ → Metric :=
  (List.range n).foldl
    (fun metrics j => Function.update metrics j (statsMetricUpdate (type j) (metrics j) (other j)))
    metrics

/-- The slab classes. -/
def classIds : List ℕ := List.range' slabclassMinId (slabclassMaxId + 1 - slabclassMinId)

/-- The slab classes that are summed up in class 0: the loop ends before `SLABCLASS_MAX_ID`. -/
def summedIds : List ℕ := List.range' slabclassMinId (slabclassMaxId - slabclassMinId)

/-- The metrics of one thread are added. -/
def aggregateThread (s : Aggregator) (th : ThreadStats) : Aggregator where
  thread := updateMetrics (metricType statsTmetrics) statsTmetrics.length s.thread th.thread
  slabs := classIds.foldl (fun slabs cid => Function.update slabs cid
    (updateMetrics (metricType statsSmetrics) statsSmetrics.length (slabs cid) (th.slabs cid)))
      s.slabs
  tmax := s.tmax

/-- Slab metric `j` is summed up in class 0. -/
def sumClasses (slabs : ℕ → ℕ → Metric) (j : ℕ) : ℕ → ℕ → Metric :=
  summedIds.foldl (fun slabs cid => Function.update slabs 0 (Function.update (slabs 0) j
    (statsMetricUpdate (metricType statsSmetrics j) (slabs 0 j) (slabs cid j)))) slabs

/-- `_stats_aggregate`. -/
def statsAggregate (threads : List ThreadStats) (s : Aggregator) : Aggregator :=
  let s := { s with
    thread := fun _ => .zero
    slabs := fun cid => if cid ≤ slabclassMaxId then fun _ => .zero else s.slabs cid }
  let s := threads.foldl aggregateThread s
  let s := { s with slabs := (List.range statsSmetrics.length).foldl sumClasses s.slabs }
  { s with tmax := updateMetrics (fun _ => .max) statsTmetrics.length s.tmax s.thread }

end Twemcache
