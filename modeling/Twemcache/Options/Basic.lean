import Twemcache.Store.Basic
import Twemcache.Text.Number

/-!
# Options

What `mc_get_options` accepts of the options that the slab module depends on, the slab profile that
`mc_set_profile` makes of them, and the settings that are derived from them when the server starts
(`mc.c`, `slab_slabclass_init` and `slab_heapinfo_init` in `mc_slabs.c`).

## Main definitions

* `Options` : the options, with the `Growth` of chunk sizes, and `Options.Accepted`.
* `mcGenerateProfile`, `mcParseProfile` : the two ways to make a slab profile.
* `Config.StartedWith` : what a server that is started with the options has.
-/

namespace Twemcache

/-- `MC_ALIGNMENT`, the size of a platform word. -/
def mcAlignment : ℕ := 8

/-- `MC_ALIGN(d, MC_ALIGNMENT)`, in 64 bits. -/
def mcAlign (d : ℕ) : ℕ := (d + (mcAlignment - 1)) % 2 ^ 64 / mcAlignment * mcAlignment

/-- `SLAB_HDR_SIZE`. -/
def slabHdrSize : ℕ := 32

/-- `SLAB_MIN_SIZE`. -/
def slabMinSize : ℕ := 512

/-- `SLAB_MAX_SIZE`, 128 MB. -/
def slabMaxSize : ℕ := 128 * 2 ^ 20

/-- `ITEM_MIN_CHUNK_SIZE`: an item with a key of one byte, its terminating NUL and a cas id. -/
def itemMinChunkSize (itemHdrSize : ℕ) : ℕ := mcAlign (itemHdrSize + (2 + 8))

/-- `MC_UINT32_MAXLEN`. -/
def mcUint32Maxlen : ℕ := 10 + 1

/-- What multiplying a chunk size by `settings.factor` gives.  The product is a `double` that is
truncated to 64 bits, so that it is none of the last `2^11` numbers of them. -/
structure Growth where
  /-- The truncated product. -/
  product : ℕ → ℕ
  /-- It is a number that a `double` has. -/
  fits : ∀ itemSz, product itemSz + 2 ^ 11 ≤ 2 ^ 64

/-- The options of the slab module. -/
structure Options where
  /-- `ITEM_HDR_SIZE`, which the build fixes. -/
  itemHdrSize : ℕ
  /-- `settings.slab_size` (`-I`). -/
  slabSize : ℕ
  /-- `settings.chunk_size` (`-n`). -/
  chunkSize : ℕ
  /-- `settings.maxbytes` (`-m`). -/
  maxbytes : ℕ
  /-- `settings.evict_opt` (`-M`). -/
  evictOpt : ℕ
  /-- The product with `settings.factor` (`-f`). -/
  grow : Growth
  /-- `profile_optarg` (`-z`), if there is one. -/
  profileOptarg : Option (List UInt8)

/-- The growth step of `-f 2`. -/
def doubling : Growth where
  product itemSz := min (2 * itemSz) (2 ^ 64 - 2 ^ 11)
  fits itemSz := by omega

/-- Options that differ from each other in `-I`, `-m`, `-M` and `-z` only. -/
def optionsOf (slabSize maxbytes evictOpt : ℕ) (profileOptarg : Option (List UInt8)) : Options where
  itemHdrSize := 49
  slabSize := slabSize
  chunkSize := 88
  maxbytes := maxbytes
  evictOpt := evictOpt
  grow := doubling
  profileOptarg := profileOptarg

/-- `slab_size()`. -/
def Options.slabData (o : Options) : ℕ := o.slabSize - slabHdrSize

/-- The growth step makes no chunk size smaller: the truncated product is at least its argument. -/
def Options.Grows (o : Options) : Prop := ∀ itemSz < o.slabData, itemSz ≤ o.grow.product itemSz

/-- The checks of `mc_get_options`.  `-m` is a positive number of megabytes that fits into an `int`.
-/
structure Options.Accepted (o : Options) : Prop where
  /-- `-I` is within bounds. -/
  slabSize : slabMinSize ≤ o.slabSize ∧ o.slabSize ≤ slabMaxSize
  /-- `-I` is aligned. -/
  slabAligned : o.slabSize % mcAlignment = 0
  /-- `-n` is not too small, and fits into an `int`. -/
  chunkSize : itemMinChunkSize o.itemHdrSize ≤ o.chunkSize ∧ o.chunkSize < 2 ^ 31
  /-- `-n` is aligned. -/
  aligned : o.chunkSize % mcAlignment = 0
  /-- `-f` is greater than 1. -/
  grows : o.Grows
  /-- `-m` is positive. -/
  maxbytes : ∃ value, 0 < value ∧ value < 2 ^ 31 ∧ o.maxbytes = value * 2 ^ 20
  /-- `-M` is a combination of strategies. -/
  evictOpt : o.evictOpt < 16

theorem accepted_optionsOf {slabSize value evictOpt : ℕ} {optarg : Option (List UInt8)}
    (hmin : slabMinSize ≤ slabSize) (hmax : slabSize ≤ slabMaxSize)
    (haligned : slabSize % mcAlignment = 0) (hpos : 0 < value) (hvalue : value < 2 ^ 31)
    (hevict : evictOpt < 16) :
    (optionsOf slabSize (value * 2 ^ 20) evictOpt optarg).Accepted where
  slabSize := ⟨hmin, hmax⟩
  slabAligned := haligned
  chunkSize := ⟨show itemMinChunkSize 49 ≤ 88 by decide, show 88 < 2 ^ 31 by decide⟩
  aligned := show 88 % mcAlignment = 0 by decide
  grows itemSz hlt := by
    have hlt' : itemSz < slabSize - slabHdrSize := hlt
    simp only [slabMaxSize, slabHdrSize] at hmax hlt'
    show itemSz ≤ min (2 * itemSz) (2 ^ 64 - 2 ^ 11)
    omega
  maxbytes := ⟨value, hpos, hvalue, rfl⟩
  evictOpt := hevict

/-! ### Slab profiles -/

/-- `settings.profile` and `settings.profile_last_id`. -/
structure Profile where
  /-- The chunk size of each class. -/
  size : ℕ → ℕ
  /-- The last class. -/
  lastId : ℕ

/-- The loop of `mc_generate_profile`: the class after the last one that is written, and the
profile. -/
def generateLoop (grow : Growth) (maxItemSz id itemSz : ℕ) (profile : ℕ → ℕ) : ℕ × (ℕ → ℕ) :=
  if id < slabclassMaxId ∧ itemSz < maxItemSz then
    let product := grow.product itemSz
    let next := if product = itemSz then product + 1 else product
    generateLoop grow maxItemSz (id + 1) (mcAlign next) (Function.update profile id itemSz)
  else (id, profile)
termination_by slabclassMaxId - id

/-- `mc_generate_profile`. -/
def mcGenerateProfile (o : Options) : Profile :=
  let r := generateLoop o.grow o.slabData slabclassMinId o.chunkSize fun _ => 0
  ⟨Function.update r.2 r.1 o.slabData, r.1⟩

/-- Why `mc_parse_profile` refuses a profile. -/
inductive ProfileError where
  /-- "profile value is out of range". -/
  | outOfRange
  /-- "is not a valid number". -/
  | notNumber
  /-- "item chunk size must be bytes aligned". -/
  | notAligned
  /-- "item chunk size cannot be less than". -/
  | tooSmall
  /-- "item chunk size cannot be more than". -/
  | tooLarge
  /-- "item chunk sizes must be ascending". -/
  | notAscending
  /-- "too many sizes". -/
  | tooMany
  deriving DecidableEq, Repr

/-- The loop of `mc_parse_profile`, with `ITEM_MIN_CHUNK_SIZE` and `slab_size()`: `id` is the last
class that is written. -/
def parseLoop (minItemSz maxItemSz : ℕ) (ptr : List UInt8) (id : ℕ) (profile : ℕ → ℕ) :
    Except ProfileError Profile :=
  if id < slabclassMaxId then
    let buf := ptr.takeWhile (· ≠ 44)
    if buf.length ≥ mcUint32Maxlen then .error .outOfRange
    else
      match mcStrtoul buf with
      | none => .error .notNumber
      | some itemSz =>
        if itemSz % mcAlignment ≠ 0 then .error .notAligned
        else if itemSz < minItemSz then .error .tooSmall
        else if itemSz > maxItemSz then .error .tooLarge
        else if id ≥ slabclassMinId ∧ itemSz ≤ profile id then .error .notAscending
        else if ptr.contains 44 then
          parseLoop minItemSz maxItemSz (ptr.drop (buf.length + 1)) (id + 1)
            (Function.update profile (id + 1) itemSz)
        else .ok ⟨Function.update profile (id + 1) itemSz, id + 1⟩
  else .error .tooMany
termination_by slabclassMaxId - id

/-- `mc_parse_profile`. -/
def mcParseProfile (o : Options) (optarg : List UInt8) : Except ProfileError Profile :=
  parseLoop (itemMinChunkSize o.itemHdrSize) o.slabData optarg (slabclassMinId - 1) fun _ => 0

/-- `mc_set_profile`. -/
def mcSetProfile (o : Options) : Except ProfileError Profile :=
  match o.profileOptarg with
  | some optarg => mcParseProfile o optarg
  | none => .ok (mcGenerateProfile o)

/-! ### Start-up -/

/-- `heapinfo.max_nslab`, 32 bits wide. -/
def Options.maxNslab (o : Options) : ℕ := o.maxbytes / o.slabSize % 2 ^ 32

/-- The settings of a server that was started with the options: `-M` gives up the free queues and
the lru queues for `EVICT_CS`. -/
structure Config.StartedWith (cfg : Config) (o : Options) : Prop where
  /-- The options are accepted. -/
  accepted : o.Accepted
  /-- So is the profile, which the slab classes have. -/
  profile : ∃ P, mcSetProfile o = .ok P ∧ cfg.profile = P.size ∧ cfg.maxId = P.lastId
  /-- The room in a slab. -/
  slabSize : cfg.slabSize = o.slabData
  /-- The header of items. -/
  itemHdrSize : cfg.itemHdrSize = o.itemHdrSize
  /-- The number of slabs. -/
  maxNslab : cfg.maxNslab = o.maxNslab
  /-- Whether free queues are used. -/
  useFreeq : cfg.useFreeq = decide (o.evictOpt ≠ evictCs)
  /-- Whether lru queues are used. -/
  useLruq : cfg.useLruq = decide (o.evictOpt ≠ evictCs)

end Twemcache
