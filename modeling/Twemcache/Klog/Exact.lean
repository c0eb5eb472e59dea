import Twemcache.Klog.Basic

/-!
# The log is exact

What was written to the file and what is still in the ring are together the entries that were
accepted (`log_exact`), however the worker and the collector interleave and however short the
writes are, provided that the second of the two writes of a wrapped read does not fail: then
`klog_read` forgets that the first one has succeeded, and writes its bytes again (`log_doubled`).
-/

namespace Twemcache

namespace Klog

open Circular

/-- The number of bytes after `r_idx` that are already written. -/
def ahead : Collector → ℕ
  | .idle => 0
  | .first .. => 0
  | .second _ _ ret => ret
  | .finish _ ret => ret

/-- The number of bytes between the indices. -/
abbrev used (k : Kbuf) : ℕ := span k.size k.rIdx k.wIdx

/-- What holds of the worker. -/
def WorkerOk (k : Kbuf) : Worker → Prop
  | .idle => True
  | .composing bytes done ret =>
    done ≤ bytes.length ∧ ret ≤ bytes.length ∧ used k + bytes.length < k.size ∧
      slice k.size k.buf k.wIdx done = bytes.take done

/-- What holds of the collector: its copy of `w_idx` may be old, its copy of `r_idx` is not. -/
def CollectorOk (k : Kbuf) : Collector → Prop
  | .idle => True
  | .first w r => r = k.rIdx ∧ r ≠ w ∧ w < k.size ∧ span k.size r w ≤ used k
  | .second w r ret => r = k.rIdx ∧ w < r ∧ ret = k.size - r ∧ span k.size r w ≤ used k
  | .finish r ret => r = k.rIdx ∧ ret ≤ used k

/-- The invariant. -/
structure Inv (x : Klog) : Prop where
  /-- The read index is in the ring. -/
  rIdx_lt : x.kbuf.rIdx < x.kbuf.size
  /-- The write index is in the ring. -/
  wIdx_lt : x.kbuf.wIdx < x.kbuf.size
  /-- The worker has room. -/
  worker : WorkerOk x.kbuf x.worker
  /-- The collector reads what is there. -/
  collector : CollectorOk x.kbuf x.collector
  /-- No byte is lost, and none is written twice. -/
  exact : x.written ++ slice x.kbuf.size x.kbuf.buf (x.kbuf.rIdx + ahead x.collector)
    (used x.kbuf - ahead x.collector) = x.accepted

variable {x x' : Klog} {k : Kbuf} {c : Collector}

theorem inv_init (klogEntry : ℕ+) (buf : ℕ → UInt8) : (init klogEntry buf).Inv where
  rIdx_lt := Nat.mul_pos (by decide) klogEntry.2
  wIdx_lt := Nat.mul_pos (by decide) klogEntry.2
  worker := trivial
  collector := trivial
  exact := by simp [init, Kbuf.create]

theorem CollectorOk.ahead_le (h : CollectorOk k c) (hr : k.rIdx < k.size) : ahead c ≤ used k := by
  cases c with
  | idle => exact Nat.zero_le _
  | first w r => exact Nat.zero_le _
  | second w r ret =>
    obtain ⟨rfl, hw, rfl, hspan⟩ := h
    rw [span_of_lt hr hw] at hspan
    exact le_trans (by simp only [ahead]; omega) hspan
  | finish r ret => exact h.2

/-- The collector does not mind if the worker moves `w_idx` on. -/
theorem CollectorOk.mono {k' : Kbuf} (h : CollectorOk k c) (hr : k'.rIdx = k.rIdx)
    (hsize : k'.size = k.size) (hused : used k ≤ used k') : CollectorOk k' c := by
  cases c with
  | idle => trivial
  | first w r =>
    obtain ⟨rfl, hne, hw, hspan⟩ := h
    exact ⟨hr.symm, hr ▸ hne, hsize ▸ hw, hsize ▸ hspan.trans hused⟩
  | second w r ret =>
    obtain ⟨rfl, hw, hret, hspan⟩ := h
    exact ⟨hr.symm, hw, hsize ▸ hret, hsize ▸ hspan.trans hused⟩
  | finish r ret => exact ⟨h.1.trans hr.symm, h.2.trans hused⟩

/-- `klog_remain` counts the cells that are free, but one. -/
theorem klogRemain_eq (hr : k.rIdx < k.size) (hw : k.wIdx < k.size) :
    k.klogRemain = k.size - used k - 1 := by
  simp only [Kbuf.klogRemain]
  rcases Nat.lt_or_ge k.wIdx k.rIdx with h | h
  · rw [if_neg (by omega), used, span_of_lt hr h]
    omega
  · rw [if_pos (by omega), used, span_of_le hw h]
    omega

theorem length_klogFmt_lt (e : LogEntry) : (klogFmt e).length < klogEntrySize := by
  unfold klogFmt
  split
  · decide
  · exact lt_of_le_of_lt (List.length_take_le _ _) (by decide)

/-! ### The worker -/

theorem Inv.enter (h : x.Inv) (samplingRate : ℕ) (e : LogEntry) (hidle : x.worker = .idle) :
    (x.enter samplingRate e).Inv := by
  have hcol := h.collector
  have hidleOk : ∀ k, WorkerOk k x.worker := fun _ => by
    rw [hidle]
    trivial
  simp only [Klog.enter]
  by_cases hrate : (x.kbuf.entries + 1) % samplingRate ≠ 0
  · rw [if_pos hrate]
    exact ⟨h.rIdx_lt, h.wIdx_lt, hidleOk _, hcol, h.exact⟩
  rw [if_neg hrate]
  by_cases hroom : x.kbuf.klogRemain < klogEntrySize
  · rw [if_pos hroom]
    exact ⟨h.rIdx_lt, h.wIdx_lt, hidleOk _, hcol, h.exact⟩
  rw [if_neg hroom]
  refine ⟨h.rIdx_lt, h.wIdx_lt, ⟨Nat.zero_le _, ?_, ?_, rfl⟩, hcol, h.exact⟩
  · split_ifs <;> simp
  · have hlen := length_klogFmt_lt e
    have hremain := klogRemain_eq h.rIdx_lt h.wIdx_lt
    have hfits : (if x.kbuf.size - x.kbuf.wIdx < klogEntrySize ∨ e.timestr = none then klogFmt e
        else klogFmt e ++ [0]).length ≤ klogEntrySize := by
      split_ifs
      · exact hlen.le
      · rw [List.length_append]
        exact hlen
    change used x.kbuf + _ < x.kbuf.size
    omega

theorem Inv.copy {bytes : List UInt8} {done ret n : ℕ} (h : x.Inv)
    (hw : x.worker = .composing bytes done ret) (hn : done + n ≤ bytes.length) :
    Inv { x with
      kbuf := { x.kbuf with
        buf := store x.kbuf.size x.kbuf.buf (x.kbuf.wIdx + done) ((bytes.drop done).take n) }
      worker := .composing bytes (done + n) ret } := by
  have hworker := h.worker
  rw [hw] at hworker
  obtain ⟨hdone, hret, hroom, hslice⟩ := hworker
  have hahead := h.collector.ahead_le h.rIdx_lt
  have hlen : ((bytes.drop done).take n).length = n := by simp; omega
  refine ⟨h.rIdx_lt, h.wIdx_lt, ⟨hn, hret, hroom, ?_⟩, h.collector, ?_⟩
  · -- the new bytes come after those that were copied before
    change slice x.kbuf.size (store x.kbuf.size x.kbuf.buf _ _) x.kbuf.wIdx (done + n) = _
    have hnew : slice x.kbuf.size (store x.kbuf.size x.kbuf.buf (x.kbuf.wIdx + done)
        ((bytes.drop done).take n)) (x.kbuf.wIdx + done) ((bytes.drop done).take n).length =
          (bytes.drop done).take n := slice_store (by omega)
    rw [hlen] at hnew
    rw [slice_add, slice_store_before le_rfl (by omega), hslice, hnew, List.take_add]
  · -- and all of them are written where nothing is unread
    have hmod := add_span_mod h.rIdx_lt h.wIdx_lt
    have hplace : (x.kbuf.wIdx + done) % x.kbuf.size = (x.kbuf.rIdx + ahead x.collector +
        (used x.kbuf - ahead x.collector + done)) % x.kbuf.size := by
      rw [show x.kbuf.rIdx + ahead x.collector + (used x.kbuf - ahead x.collector + done) =
        x.kbuf.rIdx + used x.kbuf + done by omega, ← Nat.mod_add_mod (x.kbuf.rIdx + used x.kbuf),
          hmod]
    change _ ++ slice x.kbuf.size (store x.kbuf.size x.kbuf.buf _ _)
      (x.kbuf.rIdx + ahead x.collector) (used x.kbuf - ahead x.collector) = _
    rw [store_congr hplace, slice_store_before (by omega) (by omega)]
    exact h.exact

theorem Inv.publish {bytes : List UInt8} {ret : ℕ} (h : x.Inv)
    (hw : x.worker = .composing bytes bytes.length ret) :
    Inv { x with
      kbuf := { x.kbuf with
        wIdx := if ret > 0 then circularIncr x.kbuf.wIdx ret x.kbuf.size else x.kbuf.wIdx }
      worker := .idle
      accepted := x.accepted ++ bytes.take ret } := by
  have hworker := h.worker
  rw [hw] at hworker
  obtain ⟨-, hret, hroom, hslice⟩ := hworker
  have hahead := h.collector.ahead_le h.rIdx_lt
  have hidx : (if ret > 0 then circularIncr x.kbuf.wIdx ret x.kbuf.size else x.kbuf.wIdx) =
      (x.kbuf.wIdx + ret) % x.kbuf.size := by
    split_ifs with hpos
    · rfl
    · rw [show ret = 0 by omega, Nat.add_zero, Nat.mod_eq_of_lt h.wIdx_lt]
  have hused : span x.kbuf.size x.kbuf.rIdx ((x.kbuf.wIdx + ret) % x.kbuf.size) =
      used x.kbuf + ret :=
    span_write h.rIdx_lt h.wIdx_lt (lt_of_le_of_lt (Nat.add_le_add_left hret _) hroom)
  rw [hidx]
  refine ⟨h.rIdx_lt, Nat.mod_lt _ (by have := h.wIdx_lt; omega), trivial,
    h.collector.mono rfl rfl (le_of_le_of_eq (Nat.le_add_right _ _) hused.symm), ?_⟩
  have hentry : slice x.kbuf.size x.kbuf.buf (x.kbuf.rIdx + used x.kbuf) ret = bytes.take ret := by
    rw [← slice_mod, add_span_mod h.rIdx_lt h.wIdx_lt, ← take_slice hret, hslice, List.take_length]
  change x.written ++ slice x.kbuf.size x.kbuf.buf (x.kbuf.rIdx + ahead x.collector)
    (span x.kbuf.size x.kbuf.rIdx ((x.kbuf.wIdx + ret) % x.kbuf.size) - ahead x.collector) = _
  rw [hused, show used x.kbuf + ret - ahead x.collector = used x.kbuf - ahead x.collector +
    ret by omega,
    slice_add, show x.kbuf.rIdx + ahead x.collector + (used x.kbuf - ahead x.collector) =
      x.kbuf.rIdx + used x.kbuf by omega, hentry, ← List.append_assoc, h.exact]

/-! ### The collector -/

/-- A write of the bytes that come next. -/
theorem Inv.wrote {i n : ℕ} (h : x.Inv)
    (hi : i % x.kbuf.size = (x.kbuf.rIdx + ahead x.collector) % x.kbuf.size)
    (hend : i + n ≤ x.kbuf.size) (hc : CollectorOk x.kbuf c)
    (hahead : ahead c = ahead x.collector + n) :
    Inv { x with
      written := x.written ++ (List.range n).map fun k => x.kbuf.buf (i + k)
      collector := c } := by
  refine ⟨h.rIdx_lt, h.wIdx_lt, h.worker, hc, ?_⟩
  have hle := hc.ahead_le h.rIdx_lt
  have hn : slice x.kbuf.size x.kbuf.buf (x.kbuf.rIdx + ahead x.collector) n =
      (List.range n).map fun k => x.kbuf.buf (i + k) := by
    rw [← slice_mod, ← hi, slice_mod, slice_of_le hend]
  change _ ++ slice x.kbuf.size x.kbuf.buf (x.kbuf.rIdx + ahead c) (used x.kbuf - ahead c) = _
  rw [← h.exact, ← hn, hahead, List.append_assoc, ← Nat.add_assoc, ← slice_add]
  congr 2
  omega

theorem Inv.leave {r ret : ℕ} (h : x.Inv) (hc : x.collector = .finish r ret) :
    Inv { x with
      kbuf := { x.kbuf with rIdx := if ret > 0 then circularIncr r ret x.kbuf.size else
        x.kbuf.rIdx }
      collector := .idle } := by
  have hcol := h.collector
  have hexact := h.exact
  rw [hc] at hcol hexact
  obtain ⟨rfl, hret⟩ := hcol
  have hidx : (if ret > 0 then circularIncr x.kbuf.rIdx ret x.kbuf.size else x.kbuf.rIdx) =
      (x.kbuf.rIdx + ret) % x.kbuf.size := by
    split_ifs with hpos
    · rfl
    · rw [show ret = 0 by omega, Nat.add_zero, Nat.mod_eq_of_lt h.rIdx_lt]
  have hused : span x.kbuf.size ((x.kbuf.rIdx + ret) % x.kbuf.size) x.kbuf.wIdx =
      used x.kbuf - ret :=
    span_read h.rIdx_lt h.wIdx_lt hret
  rw [hidx]
  refine ⟨Nat.mod_lt _ (by have := h.wIdx_lt; omega), h.wIdx_lt, ?_, trivial, ?_⟩
  · have hworker := h.worker
    cases hw : x.worker with
    | idle => trivial
    | composing bytes done ret' =>
      rw [hw] at hworker
      obtain ⟨h1, h2, h3, h4⟩ := hworker
      refine ⟨h1, h2, ?_, h4⟩
      change span _ ((x.kbuf.rIdx + ret) % x.kbuf.size) x.kbuf.wIdx + _ < _
      rw [hused]
      exact lt_of_le_of_lt (by omega) h3
  · change x.written ++ slice x.kbuf.size x.kbuf.buf ((x.kbuf.rIdx + ret) % x.kbuf.size + 0)
      (span _ ((x.kbuf.rIdx + ret) % x.kbuf.size) x.kbuf.wIdx - 0) = _
    rw [Nat.add_zero, Nat.sub_zero, hused, slice_mod]
    exact hexact

theorem Inv.fail (h : x.Inv) (hc : ahead x.collector = 0) :
    Inv { x with
      kbuf := { x.kbuf with errors := x.kbuf.errors + 1 }
      collector := .idle } := by
  have hexact := h.exact
  rw [hc] at hexact
  exact ⟨h.rIdx_lt, h.wIdx_lt, h.worker, trivial, hexact⟩

/-- The second write of a wrapped read does not fail. -/
def SecondWritten (x : Klog) (l : Step) (_ : Klog) : Prop :=
  match x.collector, l with
  | .second .., .write none => False
  | _, _ => True

theorem Inv.write {n : Option ℕ} {u : Unit} (h : x.Inv) (hs : x.step (.write n) = some (u, x'))
    (hC : SecondWritten x (.write n) x') : x'.Inv := by
  have hcol := h.collector
  have hrlt := h.rIdx_lt
  cases hc : x.collector with
  | idle => simp [Klog.step, hc] at hs
  | finish r ret => simp [Klog.step, hc] at hs
  | first w r =>
    rw [hc] at hcol
    obtain ⟨rfl, hne, hw, hspan⟩ := hcol
    have hzero : ahead x.collector = 0 := by rw [hc]; rfl
    simp only [Klog.step, hc] at hs
    cases n with
    | none =>
      simp only [Klog.wrote, ite_self, Option.some.injEq, Prod.mk.injEq, true_and] at hs
      exact hs ▸ h.fail hzero
    | some n =>
      simp only [Klog.wrote] at hs
      split_ifs at hs with hlt hn hn hall
      · -- not wrapped
        rw [span_of_le hw hlt.le] at hspan
        obtain ⟨-, rfl⟩ := Prod.mk.inj (Option.some.inj hs)
        exact h.wrote (by rw [hzero, Nat.add_zero]) (by omega) ⟨rfl, by omega⟩
          (by rw [hzero, Nat.zero_add]; rfl)
      · -- wrapped, and written up to the end of the ring
        rw [hall] at hs
        obtain ⟨-, rfl⟩ := Prod.mk.inj (Option.some.inj hs)
        exact h.wrote (by rw [hzero, Nat.add_zero]) (by omega) ⟨rfl, by omega, rfl, hspan⟩
          (by rw [hzero, Nat.zero_add]; rfl)
      · -- wrapped, and the write was short
        rw [span_of_lt hrlt (by omega)] at hspan
        obtain ⟨-, rfl⟩ := Prod.mk.inj (Option.some.inj hs)
        exact h.wrote (by rw [hzero, Nat.add_zero]) (by omega) ⟨rfl, le_trans (by omega) hspan⟩
          (by rw [hzero, Nat.zero_add]; rfl)
  | second w r ret =>
    rw [hc] at hcol
    obtain ⟨rfl, hw, rfl, hspan⟩ := hcol
    -- the rest of a wrapped read, from the start of the ring
    have hahead : ahead x.collector = x.kbuf.size - x.kbuf.rIdx := by rw [hc]; rfl
    simp only [Klog.step, hc] at hs
    cases n with
    | none =>
      simp only [SecondWritten, hc] at hC
    | some n =>
      simp only [Klog.wrote] at hs
      split_ifs at hs with hn
      obtain ⟨-, rfl⟩ := Prod.mk.inj (Option.some.inj hs)
      rw [span_of_lt hrlt hw] at hspan
      refine h.wrote ?_ (by omega) ⟨rfl, le_trans (by omega) hspan⟩ (by rw [hahead]; rfl)
      rw [hahead, Nat.add_sub_cancel' hrlt.le, Nat.mod_self, Nat.zero_mod]

theorem Inv.step {l : Step} {u : Unit} (h : x.Inv) (hs : x.step l = some (u, x'))
    (hC : SecondWritten x l x') : x'.Inv := by
  cases l with
  | enter samplingRate e =>
    simp only [Klog.step] at hs
    split_ifs at hs with hidle
    obtain ⟨-, rfl⟩ := Prod.mk.inj (Option.some.inj hs)
    exact h.enter samplingRate e hidle
  | copy n =>
    cases hw : x.worker with
    | idle => simp [Klog.step, hw] at hs
    | composing bytes done ret =>
      simp only [Klog.step, hw] at hs
      split_ifs at hs with hn
      obtain ⟨-, rfl⟩ := Prod.mk.inj (Option.some.inj hs)
      exact h.copy hw hn
  | publish =>
    cases hw : x.worker with
    | idle => simp [Klog.step, hw] at hs
    | composing bytes done ret =>
      simp only [Klog.step, hw] at hs
      -- `w_idx` is stored only when the whole line has been copied
      by_cases hn : done = bytes.length
      swap
      · rw [if_neg hn] at hs
        cases hs
      rw [if_pos hn] at hs
      subst hn
      obtain ⟨-, rfl⟩ := Prod.mk.inj (Option.some.inj hs)
      exact h.publish hw
  | collect =>
    simp only [Klog.step] at hs
    -- the collector takes its snapshot of `w_idx`: the ring is wrapped there, or it is not
    split_ifs at hs with hidle hrw
    · obtain ⟨-, rfl⟩ := Prod.mk.inj (Option.some.inj hs)
      have hexact := h.exact
      rw [hidle] at hexact
      exact ⟨h.rIdx_lt, h.wIdx_lt, h.worker, ⟨rfl, Nat.zero_le _⟩, hexact⟩
    · obtain ⟨-, rfl⟩ := Prod.mk.inj (Option.some.inj hs)
      have hexact := h.exact
      rw [hidle] at hexact
      exact ⟨h.rIdx_lt, h.wIdx_lt, h.worker, ⟨rfl, hrw, h.wIdx_lt, le_rfl⟩, hexact⟩
  | write n => exact h.write hs hC
  | leave =>
    cases hc : x.collector with
    | finish r ret =>
      simp only [Klog.step, hc] at hs
      obtain ⟨-, rfl⟩ := Prod.mk.inj (Option.some.inj hs)
      exact h.leave hc
    | _ => simp [Klog.step, hc] at hs

variable {klogEntry : ℕ+} {buf : ℕ → UInt8}

/-- **The log is exact.**  As long as the second write of a wrapped read does not fail, whenever the
collector is not at work, the bytes written to the file followed by those still in the ring are the
accepted entries, one after the other. -/
theorem log_exact (h : klog.Reaches SecondWritten (init klogEntry buf) x)
    (hidle : x.collector = .idle) : x.written ++ x.unread = x.accepted := by
  have hinv : x.Inv := h.invariant (inv_init klogEntry buf) fun _ _ _ _ hI hs hC => hI.step hs hC
  have hexact := hinv.exact
  rw [hidle] at hexact
  exact hexact

/-- A `get` of a key of 250 bytes. -/
def longGet : LogEntry :=
  ⟨ascii "-", .get, List.replicate 250 120, 0, 5, some (ascii "01/Jan/2000:00:00:00 +0000")⟩

/-- The entry is logged, in two pieces. -/
def logRun : List Step := [.enter 1 longGet, .copy 100, .copy 195, .publish]

/-- Part of the entry is written to the file before the worker has moved `w_idx` again. -/
theorem log_exact_short : ∃ x : Klog, klog.Reaches SecondWritten (init 2 fun _ => 0) x ∧
    x.written.length = 5 ∧ x.written ++ x.unread = x.accepted := by
  have hrun : (klog.run (fun x _ _ => match x.collector with | .second .. => false | _ => true)
      (init 2 fun _ => 0) (logRun ++ [.collect, .enter 1 longGet, .write (some 5), .leave])).map
        (fun x => (x.written.length, x.collector)) = some (5, .idle) := by decide +kernel
  obtain ⟨x, hx, heq⟩ := Option.map_eq_some_iff.1 hrun
  obtain ⟨hlen, hidle⟩ := Prod.mk.inj heq
  have hreach : klog.Reaches SecondWritten (init 2 fun _ => 0) x :=
    (Machine.reaches_of_run hx).mono fun x l _ hG => by
      unfold SecondWritten
      split <;> simp_all
  exact ⟨x, hreach, hlen, log_exact hreach hidle⟩

/-- Two entries are logged and written to the file; a third one goes round the end of the ring.  The
collector writes its first part, fails to write the second, and starts again. -/
theorem log_doubled : ∃ x : Klog, klog.Reaches Machine.Unguarded (init 2 fun _ => 0) x ∧
    x.collector = .idle ∧ x.written ++ x.unread ≠ x.accepted := by
  have hrun : (klog.run (fun _ _ _ => true) (init 2 fun _ => 0) (logRun ++ logRun ++
      [.collect, .write (some 588), .leave, .enter 1 longGet, .copy 294, .publish,
        .collect, .write (some 180), .write none, .collect, .write (some 180), .write (some 114),
        .leave])).map (fun x => (x.written.length, x.accepted.length, x.collector)) =
      some (1062, 882, .idle) := by decide +kernel
  obtain ⟨x, hx, heq⟩ := Option.map_eq_some_iff.1 hrun
  obtain ⟨hw, heq⟩ := Prod.mk.inj heq
  obtain ⟨ha, hidle⟩ := Prod.mk.inj heq
  refine ⟨x, (Machine.reaches_of_run hx).mono fun _ _ _ _ => trivial, hidle, fun heq => ?_⟩
  have hlen := congrArg List.length heq
  rw [List.length_append, hw, ha] at hlen
  omega

end Klog

end Twemcache
