import Twemcache.Ascii.Token
import Mathlib.Data.Rat.Defs
import Mathlib.Algebra.Order.Ring.Rat

/-!
# From request lines to commands

The handlers that `asc_dispatch` calls (`mc_ascii.c`) check the tokens of the request, read its
fields and either answer at once or go on to act on the store.  Here a handler is its part up to
that point: it gives the `Command` to be carried out, or ends early with a reply.  A handler can set
the connection's `noreply`, and leaves a record of the elements of the token array that it reads.

## Main definitions

* `Rsp`, `Command` : replies of one line, and what a handler decides to do.
* `Settings` : the settings that handlers read.
* `Frame`, `Handler` : the token array on the stack of `asc_dispatch`, and the monad of handlers.
* `ascDispatch` : the handler for a request line.
-/

namespace Twemcache

/-- The replies of one line. -/
inductive Rsp where
  | stored
  | exists
  | notFound
  | notStored
  | deleted
  | clientError
  | serverError
  | ok
  | version
  | int (n : ℕ)
  deriving DecidableEq, Repr

/-- `MC_VERSION_STRING`. -/
def mcVersionString : List UInt8 := ascii "2.6.2"

/-- The text that the `asc_rsp` functions pass to `asc_write_string`. -/
def Rsp.text : Rsp → List UInt8
  | .stored => ascii "STORED"
  | .exists => ascii "EXISTS"
  | .notFound => ascii "NOT_FOUND"
  | .notStored => ascii "NOT_STORED"
  | .deleted => ascii "DELETED"
  | .clientError => ascii "CLIENT_ERROR"
  | .serverError => ascii "SERVER_ERROR"
  | .ok => ascii "OK"
  | .version => ascii "VERSION " ++ mcVersionString
  | .int n => decimal n

/-- The subcommands of `stats`. -/
inductive StatsCommand where
  | all
  | settings
  | cachedump (id limit : ℕ)
  | slabs
  | sizes
  deriving DecidableEq, Repr

/-- The changes of settings. -/
inductive Setting where
  /-- `log_level_set`. -/
  | verbosity (level : ℕ)
  /-- `stats_set_interval`. -/
  | statsInterval (interval : ℤ)
  /-- `settings.klog_running`. -/
  | klogRunning (run : Bool)
  /-- `settings.klog_sampling_rate`. -/
  | klogSampling (rate : ℤ)
  /-- `settings.evict_opt`. -/
  | evict (opt : ℕ)
  /-- `settings.maxbytes`. -/
  | maxbytes (n : ℕ)
  /-- `settings.hotkey_enable`. -/
  | hkEnable (enable : Bool)
  /-- `hotkey_update_redline`. -/
  | hkRedline (qps : ℕ)
  /-- `hotkey_update_sample_rate`. -/
  | hkSampleRate (rate : ℕ)
  /-- `hotkey_update_qps_threshold`. -/
  | hkQpsThreshold (threshold : ℚ)
  /-- `hotkey_update_bw_threshold`. -/
  | hkBwThreshold (threshold : ℕ)
  deriving DecidableEq, Repr

/-- What a handler goes on to do once it has read the fields of the request. -/
inductive Command where
  /-- A reply, and nothing else. -/
  | respond (r : Rsp)
  /-- The loop of `asc_process_read`. -/
  | read (returnCas : Bool)
  /-- `item_alloc` in `asc_process_update`, with the cas id if the command has one. -/
  | update (type : ReqType) (key : Key) (dataflags : ℕ) (exptime : ℤ) (vlen : ℕ) (casId : Option ℕ)
  /-- `item_alloc` in `asc_process_annex`. -/
  | annex (type : ReqType) (key : Key) (vlen : ℕ)
  /-- `item_delta`. -/
  | delta (incr : Bool) (key : Key) (delta : ℕ)
  /-- `item_delete`. -/
  | delete (key : Key)
  /-- The statistics. -/
  | stats (sub : StatsCommand)
  /-- `flush_all`, with its argument if there is one. -/
  | flush (exptime : Option ℤ)
  /-- A change of the settings. -/
  | configure (s : Setting)
  /-- The connection is closed. -/
  | quit
  deriving DecidableEq, Repr

/-- The settings that handlers read. -/
structure Settings where
  /-- The aggregation interval in microseconds, as `stats_set_interval` got it. -/
  statsInterval : ℤ
  /-- `settings.klog_name` is set. -/
  klogName : Bool
  /-- `settings.klog_running`. -/
  klogRunning : Bool
  /-- `settings.klog_sampling_rate`. -/
  klogSamplingRate : ℤ
  /-- `settings.maxbytes`. -/
  maxbytes : ℕ
  /-- `settings.hotkey_enable`. -/
  hotkeyEnable : Bool
  /-- `hotkey_realloc`. -/
  hotkeyRealloc : Bool
  /-- `hotkey_redline_qps`. -/
  hotkeyRedlineQps : ℕ
  /-- `hotkey_sample_rate`. -/
  hotkeySampleRate : ℕ
  /-- `settings.hotkey_qps_threshold`. -/
  hotkeyQpsThreshold : ℚ
  /-- `settings.hotkey_bw_threshold`. -/
  hotkeyBwThreshold : ℕ
  /-- `settings.verbose`. -/
  verbose : ℕ
  /-- `strtod`: the number at the start of a string; `0` stands for what is not a finite number. -/
  strtod : List UInt8 → ℚ

/-- `stats_enabled`. -/
def Settings.statsEnabled (s : Settings) : Bool := s.statsInterval.tdiv 1000000 ≥ 0

/-- The settings of a server that is started without options. -/
def Settings.initial (strtod : List UInt8 → ℚ) : Settings where
  statsInterval := 100000
  klogName := false
  klogRunning := false
  klogSamplingRate := 100
  maxbytes := 64 * 1024 * 1024
  hotkeyEnable := false
  hotkeyRealloc := false
  hotkeyRedlineQps := 80000
  hotkeySampleRate := 100
  hotkeyQpsThreshold := 1 / 100
  hotkeyBwThreshold := 200000
  verbose := 5
  strtod := strtod

/-- An access to the token array. -/
structure Use where
  /-- The index of the element. -/
  index : ℕ
  /-- The number of elements that `asc_tokenize` has filled. -/
  ntoken : ℕ
  /-- The value of the element is used as a word. -/
  word : Bool
  deriving DecidableEq, Repr

/-- The token array. -/
structure Frame where
  /-- The elements that `asc_tokenize` has filled. -/
  token : List Token
  /-- What the memory of the array held before. -/
  stack : ℕ → Token

namespace Frame

variable (f : Frame)

/-- `ntoken`. -/
def ntoken : ℕ := f.token.length

/-- `token[i]`. -/
def elem (i : ℕ) : Token := f.token[i]?.getD (f.stack i)

end Frame

/-- What a handler changes before it acts. -/
structure Asc where
  /-- `c->noreply`. -/
  noreply : Bool
  /-- The accesses to the token array so far. -/
  uses : List Use
  deriving DecidableEq, Repr

/-- A handler ends early with a reply, or goes on. -/
abbrev Handler := ExceptT Rsp (StateM Asc)

/-- A token is used as a word. -/
def Frame.word (f : Frame) (i : ℕ) : Handler Token := do
  modify fun a => { a with uses := a.uses ++ [⟨i, f.ntoken, true⟩] }
  return f.elem i

/-- `TOKEN_COMMAND`. -/
def tokenCommand : ℕ := 0

/-- `TOKEN_KEY`. -/
def tokenKey : ℕ := 1

/-- `TOKEN_FLAGS`. -/
def tokenFlags : ℕ := 2

/-- `TOKEN_EXPIRY`. -/
def tokenExpiry : ℕ := 3

/-- `TOKEN_VLEN`. -/
def tokenVlen : ℕ := 4

/-- `TOKEN_CAS`. -/
def tokenCas : ℕ := 5

/-- `TOKEN_DELTA`. -/
def tokenDelta : ℕ := 2

/-- `TOKEN_SUBCOMMAND`. -/
def tokenSubcommand : ℕ := 1

/-- `TOKEN_CACHEDUMP_ID`. -/
def tokenCachedumpId : ℕ := 2

/-- `TOKEN_CACHEDUMP_LIMIT`. -/
def tokenCachedumpLimit : ℕ := 3

/-- `TOKEN_AGGR_COMMAND`. -/
def tokenAggrCommand : ℕ := 2

/-- `TOKEN_EVICT_COMMAND`. -/
def tokenEvictCommand : ℕ := 2

/-- `TOKEN_MAXBYTES_COMMAND`. -/
def tokenMaxbytesCommand : ℕ := 2

/-- `TOKEN_HK_COMMAND`. -/
def tokenHkCommand : ℕ := 2

/-- `TOKEN_HK_SUBCOMMAND`. -/
def tokenHkSubcommand : ℕ := 3

/-- `TOKEN_KLOG_COMMAND`. -/
def tokenKlogCommand : ℕ := 2

/-- `TOKEN_KLOG_SUBCOMMAND`. -/
def tokenKlogSubcommand : ℕ := 3

/-! ### Fields -/

section

variable (cfg : Config) (set : Settings) (type : ReqType) (f : Frame)

/-- `asc_set_noreply_maybe`. -/
def ascSetNoreplyMaybe : Handler Unit := do
  if f.ntoken < 2 then return
  let t ← f.word (f.ntoken - 2)
  if t.equals "noreply" then
    modify fun a => { a with noreply := true }

/-- `asc_validate_ntoken`. -/
def ascValidateNtoken : Handler Unit := do
  let b := ntokenBound type (← get).noreply
  if ¬ (f.ntoken ≥ b.1 ∧ f.ntoken ≤ b.2) then throw .clientError

/-- `asc_get_key`. -/
def ascGetKey : Handler Key := do
  let t ← f.word tokenKey
  if t.len > keyMaxLen then throw .clientError
  return t.text

/-- A field that `parse` reads; a request with a bad one is answered with an error. -/
def ascGetField {α : Type} (i : ℕ) (parse : List UInt8 → Option α) : Handler α := do
  let t ← f.word i
  match parse t.str with
  | none => throw .clientError
  | some x => return x

/-- `asc_get_flags`. -/
def ascGetFlags : Handler ℕ := ascGetField f tokenFlags mcStrtoul

/-- `asc_get_expiry`. -/
def ascGetExpiry : Handler ℤ := ascGetField f tokenExpiry mcStrtol

/-- `asc_get_vlen`. -/
def ascGetVlen : Handler ℕ := ascGetField f tokenVlen mcStrtoul

/-- `asc_get_delta`. -/
def ascGetDelta : Handler ℕ := ascGetField f tokenDelta mcStrtoull

/-- The cas id, which `asc_process_update` reads for `cas` only. -/
def ascGetCas : Handler (Option ℕ) :=
  if type = .cas then some <$> ascGetField f tokenCas mcStrtoull else pure none

/-- `asc_get_slabid`. -/
def ascGetSlabid (nkey vlen : ℕ) : Handler Unit :=
  if itemSlabid cfg nkey vlen = slabclassInvalidId then throw .clientError else return

/-! ### Handlers -/

/-- `asc_process_read`, up to its loop. -/
def ascProcessRead : Handler Command := do
  ascValidateNtoken type f
  return .read (type = .gets)

/-- `asc_process_update`, up to `item_alloc`.  With hotkeys on, the flags of the request are
ignored. -/
def ascProcessUpdate : Handler Command := do
  ascSetNoreplyMaybe f
  ascValidateNtoken type f
  let key ← ascGetKey f
  let flags ← ascGetFlags f
  let exptime ← ascGetExpiry f
  let vlen ← ascGetVlen f
  ascGetSlabid cfg key.length vlen
  let casId ← ascGetCas type f
  return .update type key (if set.hotkeyEnable then 0 else flags) exptime vlen casId

/-- `asc_process_annex`, up to `item_alloc`. -/
def ascProcessAnnex : Handler Command := do
  ascSetNoreplyMaybe f
  ascValidateNtoken type f
  let key ← ascGetKey f
  let vlen ← ascGetVlen f
  ascGetSlabid cfg key.length vlen
  return .annex type key vlen

/-- `asc_process_delta`, up to `item_delta`. -/
def ascProcessDelta : Handler Command := do
  ascSetNoreplyMaybe f
  ascValidateNtoken type f
  let key ← ascGetKey f
  let delta ← ascGetDelta f
  return .delta (type = .incr) key delta

/-- `asc_process_delete`, up to `item_delete`. -/
def ascProcessDelete : Handler Command := do
  ascSetNoreplyMaybe f
  ascValidateNtoken type f
  let key ← ascGetKey f
  return .delete key

/-- `asc_process_stats`, up to the printing of the statistics. -/
def ascProcessStats : Handler Command := do
  if ¬ set.statsEnabled then throw .serverError
  ascValidateNtoken type f
  if f.ntoken = 2 then return .stats .all
  let t ← f.word tokenSubcommand
  if t.strncmp "reset" then throw .serverError
  else if t.strncmp "settings" then return .stats .settings
  else if t.strncmp "cachedump" then
    if f.ntoken < 5 then throw .clientError
    let id ← ascGetField f tokenCachedumpId mcStrtoul
    let limit ← ascGetField f tokenCachedumpLimit mcStrtoul
    if id < slabclassMinId ∨ id > slabclassMaxId then throw .clientError
    return .stats (.cachedump id limit)
  else if t.strncmp "slabs" then return .stats .slabs
  else if t.strncmp "sizes" then return .stats .sizes
  else throw .clientError

/-- `KLOG_MIN_INTVL`. -/
def klogMinIntvl : ℤ := 100

/-- `KLOG_DEFAULT_SMP_RATE`. -/
def klogDefaultSmpRate : ℤ := 100

/-- `STATS_DEFAULT_INTVL`. -/
def statsDefaultIntvl : ℤ := 100000

/-- `asc_process_klog`, up to the change of the settings. -/
def ascProcessKlog : Handler Command := do
  ascValidateNtoken type f
  let t ← f.word tokenKlogCommand
  if t.strncmp "run" then
    if ¬ set.klogName then throw .clientError
    let t ← f.word tokenKlogSubcommand
    if t.strncmp "start" then return .configure (.klogRunning true)
    else if t.strncmp "stop" then return .configure (.klogRunning false)
    else throw .clientError
  else if t.strncmp "interval" then
    let t ← f.word tokenKlogSubcommand
    if t.strncmp "reset" then return .configure (.statsInterval statsDefaultIntvl)
    else
      match mcStrtol t.str with
      | none => throw .clientError
      | some interval =>
        if interval < klogMinIntvl then throw .clientError
        else return .configure (.statsInterval interval)
  else if t.strncmp "sampling" then
    let t ← f.word tokenKlogSubcommand
    if t.strncmp "reset" then return .configure (.klogSampling klogDefaultSmpRate)
    else
      match mcStrtol t.str with
      | none => throw .clientError
      | some sampling =>
        if sampling ≤ 0 then throw .clientError
        else return .configure (.klogSampling sampling)
  else throw .clientError

/-- `asc_process_verbosity`, up to `log_level_set`. -/
def ascProcessVerbosity : Handler Command := do
  ascSetNoreplyMaybe f
  if f.ntoken ≠ 3 ∧ f.ntoken ≠ 4 then throw .clientError
  let level ← ascGetField f tokenSubcommand mcStrtoul
  return .configure (.verbosity level)

/-- `asc_process_aggregate`, up to `stats_set_interval`. -/
def ascProcessAggregate : Handler Command := do
  if f.ntoken ≠ 4 then throw .clientError
  let interval ← ascGetField f tokenAggrCommand mcStrtol
  if interval > 0 then return .configure (.statsInterval interval)
  else if interval = 0 then return .configure (.statsInterval statsDefaultIntvl)
  else return .configure (.statsInterval (-1000000))

/-- `EVICT_INVALID`. -/
def evictInvalid : ℕ := 0x10

/-- `asc_process_evict`, up to the change of the settings. -/
def ascProcessEvict : Handler Command := do
  if f.ntoken ≠ 4 then throw .clientError
  let option ← ascGetField f tokenEvictCommand mcStrtol
  if option ≥ 0 ∧ option < evictInvalid then return .configure (.evict option.toNat)
  else throw .clientError

/-- `asc_process_maxbytes`, up to the change of the settings. -/
def ascProcessMaxbytes : Handler Command := do
  if f.ntoken ≠ 4 then throw .clientError
  let option ← ascGetField f tokenMaxbytesCommand mcStrtoull
  if option < 2 ^ 64 - 1 ∧ option ≥ set.maxbytes then return .configure (.maxbytes option)
  else throw .clientError

/-- `asc_process_hk_enable`. -/
def ascProcessHkEnable : Handler Command := do
  let t ← f.word tokenHkSubcommand
  if t.strncmp "yes" then
    if set.hotkeyRealloc then throw .clientError
    return .configure (.hkEnable true)
  else if t.strncmp "no" then return .configure (.hkEnable false)
  else throw .clientError

/-- `asc_process_hk_redline`. -/
def ascProcessHkRedline : Handler Command := do
  if set.hotkeyEnable then throw .clientError
  let option ← ascGetField f tokenHkSubcommand mcStrtoul
  if option > 0 then return .configure (.hkRedline option) else throw .clientError

/-- `asc_process_hk_sample_rate`. -/
def ascProcessHkSampleRate : Handler Command := do
  if set.hotkeyEnable then throw .clientError
  let option ← ascGetField f tokenHkSubcommand mcStrtoul
  if option > 0 then return .configure (.hkSampleRate option) else throw .clientError

/-- `asc_process_hk_qps_threshold`. -/
def ascProcessHkQpsThreshold : Handler Command := do
  let t ← f.word tokenHkSubcommand
  let option := set.strtod t.str
  if option > 0 ∧ option ≤ 1 then return .configure (.hkQpsThreshold option) else throw .clientError

/-- `asc_process_hk_bw_threshold`. -/
def ascProcessHkBwThreshold : Handler Command := do
  let option ← ascGetField f tokenHkSubcommand mcStrtoul
  return .configure (.hkBwThreshold option)

/-- `asc_process_hotkey`. -/
def ascProcessHotkey : Handler Command := do
  ascValidateNtoken type f
  if f.ntoken ≠ 5 then throw .clientError
  let t ← f.word tokenHkCommand
  if t.strncmp "enable" then ascProcessHkEnable set f
  else if t.strncmp "redline" then ascProcessHkRedline set f
  else if t.strncmp "sample_rate" then ascProcessHkSampleRate set f
  else if t.strncmp "qps_threshold" then ascProcessHkQpsThreshold set f
  else if t.strncmp "bw_threshold" then ascProcessHkBwThreshold f
  else throw .clientError

/-- `asc_process_config`. -/
def ascProcessConfig : Handler Command := do
  let t ← f.word tokenSubcommand
  if t.strncmp "aggregate" then ascProcessAggregate f
  else if t.strncmp "klog" then ascProcessKlog set type f
  else if t.strncmp "evict" then ascProcessEvict f
  else if t.strncmp "maxbytes" then ascProcessMaxbytes set f
  else if t.strncmp "hotkey" then ascProcessHotkey set type f
  else throw .clientError

/-- `asc_process_flushall`, up to the change of `oldest_live`. -/
def ascProcessFlushall : Handler Command := do
  ascSetNoreplyMaybe f
  ascValidateNtoken type f
  if f.ntoken = (ntokenBound .flushall (← get).noreply).1 then return .flush none
  let exptime ← ascGetField f tokenSubcommand mcStrtol
  return .flush (some exptime)

/-- `asc_parse_type`, with the check of the number of tokens. -/
def ascType : Handler ReqType := do
  if f.ntoken < 2 then return .unknown
  return ascParseType (← f.word tokenCommand)

/-- The switch of `asc_dispatch`. -/
def ascHandler (type : ReqType) : Handler Command :=
  match type with
  | .get | .gets => ascProcessRead type f
  | .set | .cas | .add | .replace => ascProcessUpdate cfg set type f
  | .append | .prepend | .appendrl | .prependrl => ascProcessAnnex cfg type f
  | .incr | .decr => ascProcessDelta type f
  | .delete => ascProcessDelete type f
  | .stats => ascProcessStats set type f
  | .flushall => ascProcessFlushall type f
  | .version => return .respond .version
  | .quit => return .quit
  | .verbosity => ascProcessVerbosity f
  | .config => ascProcessConfig set type f
  | .unknown => throw .clientError

end

/-- The type that `asc_dispatch` finds for a request. -/
def reqTypeOf (req : List UInt8) : ReqType :=
  match ascTokenize req tokenMax with
  | t :: _ :: _ => ascParseType t
  | _ => .unknown

/-- `asc_dispatch` from `asc_tokenize` on, up to the point where a handler acts: the request is the
C string `req`. -/
def ascDispatch (cfg : Config) (set : Settings) (stack : ℕ → Token) (req : List UInt8)
    (noreply : Bool) :
    Command × Asc :=
  let f : Frame := ⟨ascTokenize req tokenMax, stack⟩
  match (do ascHandler cfg set f (← ascType f) : Handler Command).run.run ⟨noreply, []⟩ with
  | (.ok cmd, a) => (cmd, a)
  | (.error r, a) => (.respond r, a)

end Twemcache
