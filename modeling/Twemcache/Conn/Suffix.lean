import Twemcache.Conn.Basic
import Twemcache.Options.Basic
import Twemcache.Server.Inv

/-!
# The suffix of a value

`asc_respond_get` prints the flags, the length and, for `gets`, the cas id of an item into a buffer
of the worker's suffix cache.  `thread_setup` makes these buffers long enough for a cas id if
`settings.use_cas` is set; `asc_respond_get` prints one if the command asks for it, as 0 if the item
has none.

## Main definitions

* `suffixSize` : how long the buffers are.
* `suffixPrinted` : what `mc_snprintf` leaves of the text.
* `SuffixFits` : the text and its terminating NUL are in the buffer, in full.
-/

namespace Twemcache

/-- `CAS_SUFFIX_SIZE`. -/
def casSuffixSize : ℕ := 21

/-- `SUFFIX_SIZE`. -/
def suffixFieldsSize : ℕ := 22

/-- `SUFFIX_MAX_LEN`. -/
def suffixMaxLen : ℕ := 44

/-- `suffix_size` in `thread_setup`. -/
def suffixSize (useCas : Bool) :
    ℕ := if useCas then casSuffixSize + suffixFieldsSize + 1 else suffixFieldsSize + 1

/-- The characters that `mc_snprintf` prints before the NUL. -/
def suffixPrinted (it : Item) (returnCas : Bool) : List UInt8 :=
  (Conn.suffixText it returnCas).take (suffixMaxLen - 1)

/-- The text and its terminating NUL fit in the buffer, and nothing is cut off. -/
def SuffixFits (useCas : Bool) (it : Item) (returnCas : Bool) : Prop :=
  (suffixPrinted it returnCas).length + 1 ≤ suffixSize useCas ∧
    suffixPrinted it returnCas = Conn.suffixText it returnCas

/-- The decimal digits of a number. -/
def width (n : ℕ) : ℕ := (decimal n).length

theorem width_le_of_lt {n k : ℕ} (hk : 0 < k) (h : n < 10 ^ k) : width n ≤ k := by
  rw [width, decimal, List.length_map]
  exact (Nat.length_toDigits_le_iff (by decide) hk).2 h

theorem width_uint32 {n : ℕ} (h : n < 2 ^ 32) :
    width n ≤ 10 := width_le_of_lt (by decide) (h.trans (by decide))

theorem width_uint64 {n : ℕ} (h : n < 2 ^ 64) :
    width n ≤ 20 := width_le_of_lt (by decide) (h.trans (by decide))

/-- The length of the text. -/
theorem length_suffixText (it : Item) (returnCas : Bool) : (Conn.suffixText it returnCas).length =
    1 + width it.dataflags + 1 + width it.nbyte + if returnCas then 1 + width it.getCas else 0 := by
  have hblank : (ascii " ").length = 1 := rfl
  cases returnCas with
  | false =>
    simp only [Conn.suffixText, List.length_append, hblank, width, Bool.false_eq_true, if_false,
      List.length_nil]
  | true => simp only [Conn.suffixText, List.length_append, hblank, width, if_true]

variable {it : Item} {useCas returnCas : Bool}

/-- The limit of `mc_snprintf` is long enough for every item. -/
theorem suffixPrinted_eq (hflags : it.dataflags < 2 ^ 32) (hnbyte : it.nbyte < 2 ^ 32)
    (hid : it.casField < 2 ^ 64) :
    suffixPrinted it returnCas = Conn.suffixText it returnCas := by
  have hcas : it.getCas < 2 ^ 64 := by
    unfold Item.getCas
    split_ifs
    · exact hid
    · decide
  have h₁ := width_uint32 hflags
  have h₂ := width_uint32 hnbyte
  have h₃ := width_uint64 hcas
  refine List.take_of_length_le ?_
  rw [length_suffixText, suffixMaxLen]
  split_ifs <;> omega

/-- **The suffix fits unless a cas id is printed without there being any, and the flags and the
length have more than 18 digits.** -/
theorem suffix_fits_exact (hflags : it.dataflags < 2 ^ 32) (hnbyte : it.nbyte < 2 ^ 32)
    (hid : it.casField < 2 ^ 64) (hcas : it.flags.cas = useCas) : SuffixFits useCas it returnCas ↔
      ¬ (returnCas = true ∧ useCas = false ∧ 18 < width it.dataflags + width it.nbyte) := by
  have h₁ := width_uint32 hflags
  have h₂ := width_uint32 hnbyte
  rw [SuffixFits, suffixPrinted_eq hflags hnbyte hid, length_suffixText, and_iff_left rfl]
  cases returnCas with
  | false =>
    -- two fields fit in either buffer
    cases useCas with
    | false => simp [suffixSize, suffixFieldsSize]; omega
    | true => simp [suffixSize, suffixFieldsSize, casSuffixSize]; omega
  | true =>
    cases useCas with
    | false =>
      have hzero : width it.getCas = 1 := by
        rw [Item.getCas, hcas, if_neg Bool.false_ne_true]
        decide
      simp [suffixSize, suffixFieldsSize, hzero]
      omega
    | true =>
      have h₃ : width it.getCas ≤ 20 := width_uint64 (by rwa [Item.getCas, if_pos hcas])
      simp [suffixSize, suffixFieldsSize, casSuffixSize]
      omega

/-! ### A large value -/

/-- The options `-I 134217728 -m 128 -M 1 -z 134217696`. -/
def wideOptions :
    Options :=
      optionsOf (2 ^ 27) (128 * 2 ^ 20) evictLru (some [49, 51, 52, 50, 49, 55, 54, 57, 54])

/-- The configuration of these options, with `-C`: there are no cas ids, and values may be up to 128
MB long. -/
def Config.wide : Config where
  useCas := false
  useFreeq := true
  useLruq := true
  hashPower := 1
  hash _ := 0
  processStarted := 0
  itemHdrSize := 49
  slabSize := 134217696
  maxId := 1
  profile := Function.update (fun _ => 0) 1 134217696
  maxNslab := 1
  maxId_le := Config.one_maxId
  profile_pos id hmin hmax := by
    obtain rfl : id = 1 := le_antisymm hmax hmin
    decide
  profile_le id hmin hmax := by
    obtain rfl : id = 1 := le_antisymm hmax hmin
    decide

theorem startedWith_wide : Config.wide.StartedWith wideOptions where
  accepted :=
    accepted_optionsOf (by decide) (by decide) (by decide) (by decide) (by decide) (by decide)
  profile := by
    refine ⟨⟨Config.wide.profile, 1⟩, ?_, rfl, rfl⟩
    show mcParseProfile wideOptions [49, 51, 52, 50, 49, 55, 54, 57, 54] = _
    rw [mcParseProfile, parseLoop, if_pos (by decide), if_neg (by decide)]
    rw [show mcStrtoul ([49, 51, 52, 50, 49, 55, 54, 57, 54].takeWhile fun x => decide (x ≠ 44)) =
        some 134217696 by
      decide]
    dsimp only
    rw [if_neg (by decide), if_neg (by decide), if_neg (by decide), if_neg (by decide),
      if_neg (by decide)]
    rfl
  slabSize := rfl
  itemHdrSize := rfl
  maxNslab := by decide
  useFreeq := rfl
  useLruq := rfl

namespace Server

/-- The server of these options when it starts. -/
def initWide : Server :=
  .init .wide 2 evictLru (fun _ => ⟨0, 0, 0, 0⟩) fun _ =>
    ⟨0, 0, 0, 0, 0, {}, 0, [], 0, fun _ => 0, 0⟩

/-- `a` is stored with the largest flags and `nbyte` bytes, and read. -/
def wideRun (nbyte : ℕ) : List Label :=
  [.alloc 0 [97] 4294967295 0 nbyte {}, .fill 0 nbyte [13, 10], .set 0 {},
    .removeItem 0, .get 1 [97]]

/-- The server after that. -/
def wideServer (nbyte : ℕ) : Server :=
  (server .wide).exec (fun s l s' => decide (NoWrap s l s')) initWide (wideRun nbyte)

theorem reaches_wideServer {nbyte : ℕ}
    (hrun : ((server .wide).run (fun s l s' => decide (NoWrap s l s')) initWide
      (wideRun nbyte)).isSome = true) :
    (server .wide).Reaches NoWrap initWide (wideServer nbyte) :=
  (Machine.reaches_exec hrun).mono fun _ _ _ => of_decide_eq_true

end Server

/-- A value of 99999999 bytes has eight digits: with the largest flags, `gets` fills the buffer. -/
theorem suffix_fits_wide :
    ∃ s : Server, (server .wide).Reaches Server.NoWrap Server.initWide s ∧ ⟨0, 0⟩ ∈ s.held ∧
    (s.store.items ⟨0, 0⟩).nbyte = 99999999 ∧ SuffixFits false (s.store.items ⟨0, 0⟩) true := by
  have hreach : (server .wide).Reaches Server.NoWrap Server.initWide (Server.wideServer 99999999) :=
    Server.reaches_wideServer (by decide +kernel)
  have hheld : ⟨0, 0⟩ ∈ (Server.wideServer 99999999).held := by decide +kernel
  have hflags : ((Server.wideServer 99999999).store.items ⟨0, 0⟩).dataflags = 4294967295 := by
    decide +kernel
  have hnbyte : ((Server.wideServer 99999999).store.items ⟨0, 0⟩).nbyte = 99999999 := by
    decide +kernel
  have hid : ((Server.wideServer 99999999).store.items ⟨0, 0⟩).casField = 0 := by decide +kernel
  generalize Server.wideServer 99999999 = s at hreach hheld hflags hnbyte hid
  have hreach' := hreach
  unfold Server.initWide at hreach
  have hcas := (Server.stamped_of_reaches hreach).flag ⟨0, 0⟩ (.inr hheld)
  refine ⟨s, hreach', hheld, hnbyte, (suffix_fits_exact (by omega) (by omega) (by omega) hcas).2
    fun hbad => ?_⟩
  rw [hflags, hnbyte] at hbad
  exact absurd hbad.2.2 (by decide)

/-- With one byte more, the NUL is written beyond the end of the buffer. -/
theorem suffix_overflows : Config.wide.StartedWith wideOptions ∧
    ∃ s : Server, (server .wide).Reaches Server.NoWrap Server.initWide s ∧ ⟨0, 0⟩ ∈ s.held ∧
      (s.store.items ⟨0, 0⟩).dataflags = 4294967295 ∧ (s.store.items ⟨0, 0⟩).nbyte = 100000000 ∧
      ¬ SuffixFits Config.wide.useCas (s.store.items ⟨0, 0⟩) true := by
  have hreach :
      (server .wide).Reaches Server.NoWrap Server.initWide (Server.wideServer 100000000) :=
    Server.reaches_wideServer (by decide +kernel)
  have hheld : ⟨0, 0⟩ ∈ (Server.wideServer 100000000).held := by decide +kernel
  have hflags : ((Server.wideServer 100000000).store.items ⟨0, 0⟩).dataflags = 4294967295 := by
    decide +kernel
  have hnbyte : ((Server.wideServer 100000000).store.items ⟨0, 0⟩).nbyte = 100000000 := by
    decide +kernel
  have hcas : ((Server.wideServer 100000000).store.items ⟨0, 0⟩).getCas = 0 := by decide +kernel
  generalize Server.wideServer 100000000 = s at hreach hheld hflags hnbyte hcas
  refine ⟨startedWith_wide, s, hreach, hheld, hflags, hnbyte, fun hfits => ?_⟩
  have hlen := hfits.1
  rw [hfits.2, length_suffixText, hflags, hnbyte, hcas] at hlen
  exact absurd hlen (by decide)

end Twemcache
