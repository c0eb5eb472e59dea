import Twemcache.Machine.Basic
import Twemcache.Circular.Basic
import Twemcache.Text.Basic
import Mathlib.Data.PNat.Defs

/-!
# The command log

Worker threads log commands into a ring of their own, `struct kbuf`, and a collector thread writes
the contents of the rings to the log file (`mc_klog.c`).  There is no lock: the worker moves
`w_idx` when an entry is complete, the collector moves `r_idx` when it has written what it
read, and either works with an old value of the other's index.  A step here is what one of them
does between two accesses to shared memory that the other could notice.

## Main definitions

* `Kbuf` : the ring.
* `Kbuf.klogRemain`, `klogFmt` : the functions of these names.
* `Worker`, `Collector` : where `_klog_write` and `klog_read` are.
* `Klog`, `klog` : the ring with both threads, and what was written to the file.
-/

namespace Twemcache

/-- `KLOG_ENTRY_SIZE`. -/
def klogEntrySize : ℕ := 384

/-- `CIRCULAR_INCR`. -/
def circularIncr (i d s : ℕ) : ℕ := (i + d) % s

/-- `struct kbuf`. -/
structure Kbuf where
  /-- The read index. -/
  rIdx : ℕ
  /-- The write index. -/
  wIdx : ℕ
  /-- Entries since the last one that was sampled. -/
  entries : ℕ
  /-- Errors. -/
  errors : ℕ
  /-- The buffer. -/
  buf : ℕ → UInt8
  /-- Its size. -/
  size : ℕ

/-- `klog_buf_create`, with the memory as it is found. -/
def Kbuf.create (klogEntry : ℕ+) (buf : ℕ → UInt8) : Kbuf :=
  ⟨0, 0, 0, 0, buf, klogEntrySize * klogEntry⟩

/-- `klog_remain`. -/
def Kbuf.klogRemain (k : Kbuf) : ℤ :=
  let remain : ℤ := k.rIdx - k.wIdx
  (if remain ≤ 0 then remain + k.size else remain) - 1

/-- The request types that `klog_fmt` tells apart. -/
inductive LogType where
  | get
  | gets
  | other
  deriving DecidableEq, Repr

/-- The arguments of `_klog_write`, and the time that `strftime` formats, if it does. -/
structure LogEntry where
  /-- The peer's address. -/
  peer : List UInt8
  /-- The request type. -/
  rtype : LogType
  /-- The key of a `get` or `gets`, the request line otherwise. -/
  cmdkey : List UInt8
  /-- The status. -/
  status : ℤ
  /-- The length of the reply. -/
  resLen : ℤ
  /-- The formatted time. -/
  timestr : Option (List UInt8)

/-- `klog_fmt`: what it leaves in the buffer, without the final NUL. -/
def klogFmt (e : LogEntry) : List UInt8 :=
  match e.timestr with
  | none => []
  | some timestr =>
    let verb :=
      match e.rtype with
      | .get => ascii "get "
      | .gets => ascii "gets "
      | .other => []
    (e.peer ++ ascii " - [" ++ timestr ++ ascii "] \"" ++ verb ++ e.cmdkey ++ ascii "\" " ++
      printInt e.status ++ ascii " " ++ printInt e.resLen ++ ascii "\n").take (klogEntrySize - 1)

/-- Where the worker is. -/
inductive Worker where
  /-- Not in `_klog_write`. -/
  | idle
  /-- It copies `bytes` into the ring from `w_idx` on, and has copied `done` of them; the entry is
  the first `ret`. -/
  | composing (bytes : List UInt8) (done ret : ℕ)
  deriving DecidableEq

/-- Where the collector is. -/
inductive Collector where
  /-- Not in `klog_read`. -/
  | idle
  /-- It has read both indices. -/
  | first (w r : ℕ)
  /-- It has written up to the end of the ring. -/
  | second (w r ret : ℕ)
  /-- It is about to move `r_idx`. -/
  | finish (r ret : ℕ)
  deriving DecidableEq

/-- A ring with its worker and the collector. -/
structure Klog where
  /-- The ring. -/
  kbuf : Kbuf
  /-- The worker. -/
  worker : Worker
  /-- The collector. -/
  collector : Collector
  /-- What `mc_write` has written. -/
  written : List UInt8
  /-- Ghost: the entries that were accepted. -/
  accepted : List UInt8

namespace Klog

/-- What can happen. -/
inductive Step where
  /-- The worker enters `_klog_write`, at the given sampling rate. -/
  | enter (samplingRate : ℕ) (e : LogEntry)
  /-- The worker copies the next `n` bytes. -/
  | copy (n : ℕ)
  /-- The worker moves `w_idx`. -/
  | publish
  /-- The collector enters `klog_read`. -/
  | collect
  /-- The collector's next `mc_write` returns, with `none` if it fails. -/
  | write (n : Option ℕ)
  /-- The collector leaves `klog_read`. -/
  | leave

variable (x : Klog)

/-- Start of `_klog_write`: sampling, the space that is left, and where the entry is composed.  In
the ring itself `klog_fmt` also leaves a NUL behind the entry; the staging buffer is copied without
it, in two pieces if need be. -/
def enter (samplingRate : ℕ) (e : LogEntry) : Klog :=
  let k := x.kbuf
  if (k.entries + 1) % samplingRate ≠ 0 then
    { x with kbuf := { k with entries := k.entries + 1 } }
  else if k.klogRemain < klogEntrySize then { x with kbuf := { k with entries := 0 } }
  else
    let msg := klogFmt e
    let errors := if e.timestr = none then k.errors + 1 else k.errors
    let bytes := if k.size - k.wIdx < klogEntrySize ∨ e.timestr = none then msg else msg ++ [0]
    { x with
      kbuf := { k with entries := 0, errors := errors }
      worker := .composing bytes 0 msg.length }

/-- The state after the next write of the collector, of `len` bytes from index `i` on. -/
def wrote (i len : ℕ) (n : Option ℕ) (next : ℕ → Collector) : Option (Unit × Klog) :=
  match n with
  | none => some ((), { x with
      kbuf := { x.kbuf with errors := x.kbuf.errors + 1 }
      collector := .idle })
  | some n =>
    if n ≤ len then
      some ((), { x with
        written := x.written ++ (List.range n).map fun k => x.kbuf.buf (i + k)
        collector := next n })
    else none

/-- The state after a step. -/
def step : Step → Option (Unit × Klog)
  | .enter samplingRate e =>
    if x.worker = .idle then some ((), x.enter samplingRate e) else none
  | .copy n =>
    match x.worker with
    | .composing bytes done ret =>
      if done + n ≤ bytes.length then
        some ((), { x with
          kbuf := { x.kbuf with
            buf := Circular.store x.kbuf.size x.kbuf.buf (x.kbuf.wIdx + done)
              ((bytes.drop done).take n) }
          worker := .composing bytes (done + n) ret })
      else none
    | .idle => none
  | .publish =>
    match x.worker with
    | .composing bytes done ret =>
      if done = bytes.length then
        some ((), { x with
          kbuf := { x.kbuf with
            wIdx := if ret > 0 then circularIncr x.kbuf.wIdx ret x.kbuf.size else x.kbuf.wIdx }
          worker := .idle
          accepted := x.accepted ++ bytes.take ret })
      else none
    | .idle => none
  | .collect =>
    if x.collector = .idle then
      some ((), { x with
        collector :=
          if x.kbuf.rIdx = x.kbuf.wIdx then .finish x.kbuf.rIdx 0 else .first x.kbuf.wIdx
            x.kbuf.rIdx })
    else none
  | .write n =>
    match x.collector with
    | .first w r =>
      if r < w then x.wrote r (w - r) n (.finish r)
      else x.wrote r (x.kbuf.size - r) n fun m =>
        if m = x.kbuf.size - r then .second w r m else .finish r m
    | .second w r ret => x.wrote 0 w n fun m => .finish r (ret + m)
    | .idle | .finish .. => none
  | .leave =>
    match x.collector with
    | .finish r ret =>
      some ((), { x with
        kbuf := { x.kbuf with rIdx := if ret > 0 then circularIncr r ret x.kbuf.size else
          x.kbuf.rIdx }
        collector := .idle })
    | .idle | .first .. | .second .. => none

/-- The start: an empty ring and an empty file. -/
def init (klogEntry : ℕ+) (buf : ℕ → UInt8) : Klog := ⟨.create klogEntry buf, .idle, .idle, [], []⟩

/-- The bytes in the ring that were not read. -/
def unread : List UInt8 :=
  Circular.slice x.kbuf.size x.kbuf.buf x.kbuf.rIdx
    (Circular.span x.kbuf.size x.kbuf.rIdx x.kbuf.wIdx)

end Klog

/-- The log as a machine. -/
def klog : Machine Klog Klog.Step Unit := ⟨Klog.step⟩

end Twemcache
