import Mathlib.Algebra.Group.Nat.Defs
import Mathlib.Data.Nat.Notation

/-!
# The hash function

`hash` (`mc_hash.c`) takes a key in blocks of twelve bytes.  How it reads them depends on the build
and on the address of the key: a little-endian build has three paths, for addresses that are
multiples of four, for other even ones, and for odd ones; a big-endian build has two.

## Main definitions

* `HashPath` : how a path reads a whole block, and the last one.
* `HashPath.littleWords`, `HashPath.littleHalves`, `HashPath.littleBytes`, `HashPath.bigWords`,
  `HashPath.bigBytes` : the paths.
* `hashLittle`, `hashBig` : `hash` in the two builds.

Memory is a function from addresses to bytes.  The paths for aligned addresses read beyond the end
of the key.
-/

namespace Twemcache

/-- The internal state `a`, `b`, `c`. -/
structure Abc where
  /-- `a`. -/
  a : UInt32
  /-- `b`. -/
  b : UInt32
  /-- `c`. -/
  c : UInt32
  deriving DecidableEq, Repr

namespace Abc

/-- `rot`. -/
def rot (x k : UInt32) : UInt32 := (x <<< k) ^^^ (x >>> (32 - k))

/-- `mix`. -/
def mix (s : Abc) : Abc :=
  let ⟨a, b, c⟩ := s
  let a := a - c; let a := a ^^^ rot c 4; let c := c + b
  let b := b - a; let b := b ^^^ rot a 6; let a := a + c
  let c := c - b; let c := c ^^^ rot b 8; let b := b + a
  let a := a - c; let a := a ^^^ rot c 16; let c := c + b
  let b := b - a; let b := b ^^^ rot a 19; let a := a + c
  let c := c - b; let c := c ^^^ rot b 4; let b := b + a
  ⟨a, b, c⟩

/-- `final`. -/
def final (s : Abc) : Abc :=
  let ⟨a, b, c⟩ := s
  let c := c ^^^ b; let c := c - rot b 14
  let a := a ^^^ c; let a := a - rot c 11
  let b := b ^^^ a; let b := b - rot a 25
  let c := c ^^^ b; let c := c - rot b 16
  let a := a ^^^ c; let a := a - rot c 4
  let b := b ^^^ a; let b := b - rot a 14
  let c := c ^^^ b; let c := c - rot b 24
  ⟨a, b, c⟩

end Abc

section

variable (m : ℕ → UInt8) (k : ℕ)

/-- The byte at an address, as a `uint32_t`. -/
def load8 : UInt32 := (m k).toUInt32

/-- The `uint16_t` at an address of a little-endian machine, as a `uint32_t`. -/
def load16Little : UInt32 := .ofNat ((m k).toNat + 2 ^ 8 * (m (k + 1)).toNat)

/-- The `uint32_t` at an address of a little-endian machine. -/
def load32Little : UInt32 :=
  .ofNat ((m k).toNat + 2 ^ 8 * (m (k + 1)).toNat + 2 ^ 16 * (m (k + 2)).toNat + 2 ^ 24 *
    (m (k + 3)).toNat)

/-- The `uint32_t` at an address of a big-endian machine. -/
def load32Big : UInt32 :=
  .ofNat (2 ^ 24 * (m k).toNat + 2 ^ 16 * (m (k + 1)).toNat + 2 ^ 8 * (m (k + 2)).toNat +
    (m (k + 3)).toNat)

end

/-- How the bytes of a key enter the internal state. -/
structure HashPath where
  /-- The body of the loop before `mix`, for the block at address `k`. -/
  block (m : ℕ → UInt8) (k : ℕ) (s : Abc) : Abc
  /-- The switch, for the last `length` bytes at address `k`. -/
  tail (m : ℕ → UInt8) (k length : ℕ) (s : Abc) : Abc

namespace HashPath

/-- The path for keys that are aligned to four bytes, little endian. -/
def littleWords : HashPath where
  block m k s :=
    ⟨s.a + load32Little m k, s.b + load32Little m (k + 4), s.c + load32Little m (k + 8)⟩
  tail m k length s :=
    let k0 := load32Little m k
    let k1 := load32Little m (k + 4)
    let k2 := load32Little m (k + 8)
    match length with
    | 12 => ⟨s.a + k0, s.b + k1, s.c + k2⟩
    | 11 => ⟨s.a + k0, s.b + k1, s.c + (k2 &&& 0xffffff)⟩
    | 10 => ⟨s.a + k0, s.b + k1, s.c + (k2 &&& 0xffff)⟩
    | 9 => ⟨s.a + k0, s.b + k1, s.c + (k2 &&& 0xff)⟩
    | 8 => ⟨s.a + k0, s.b + k1, s.c⟩
    | 7 => ⟨s.a + k0, s.b + (k1 &&& 0xffffff), s.c⟩
    | 6 => ⟨s.a + k0, s.b + (k1 &&& 0xffff), s.c⟩
    | 5 => ⟨s.a + k0, s.b + (k1 &&& 0xff), s.c⟩
    | 4 => ⟨s.a + k0, s.b, s.c⟩
    | 3 => ⟨s.a + (k0 &&& 0xffffff), s.b, s.c⟩
    | 2 => ⟨s.a + (k0 &&& 0xffff), s.b, s.c⟩
    | 1 => ⟨s.a + (k0 &&& 0xff), s.b, s.c⟩
    | _ => s

/-- The same path if `VALGRIND` is defined: the last bytes are read one at a time. -/
def littleWordsValgrind : HashPath where
  block := littleWords.block
  tail m k length s :=
    let k0 := load32Little m k
    let k1 := load32Little m (k + 4)
    let k2 := load32Little m (k + 8)
    match length with
    | 12 => ⟨s.a + k0, s.b + k1, s.c + k2⟩
    | 11 => ⟨s.a + k0, s.b + k1, s.c + (load8 m (k + 10) <<< 16) + (load8 m (k + 9) <<< 8) +
        load8 m (k + 8)⟩
    | 10 => ⟨s.a + k0, s.b + k1, s.c + (load8 m (k + 9) <<< 8) + load8 m (k + 8)⟩
    | 9 => ⟨s.a + k0, s.b + k1, s.c + load8 m (k + 8)⟩
    | 8 => ⟨s.a + k0, s.b + k1, s.c⟩
    | 7 => ⟨s.a + k0, s.b + (load8 m (k + 6) <<< 16) + (load8 m (k + 5) <<< 8) + load8 m (k + 4),
        s.c⟩
    | 6 => ⟨s.a + k0, s.b + (load8 m (k + 5) <<< 8) + load8 m (k + 4), s.c⟩
    | 5 => ⟨s.a + k0, s.b + load8 m (k + 4), s.c⟩
    | 4 => ⟨s.a + k0, s.b, s.c⟩
    | 3 => ⟨s.a + (load8 m (k + 2) <<< 16) + (load8 m (k + 1) <<< 8) + load8 m k, s.b, s.c⟩
    | 2 => ⟨s.a + (load8 m (k + 1) <<< 8) + load8 m k, s.b, s.c⟩
    | 1 => ⟨s.a + load8 m k, s.b, s.c⟩
    | _ => s

/-- The path for keys that are aligned to two bytes. -/
def littleHalves : HashPath where
  block m k s :=
    ⟨s.a + (load16Little m k + (load16Little m (k + 2) <<< 16)),
      s.b + (load16Little m (k + 4) + (load16Little m (k + 6) <<< 16)),
      s.c + (load16Little m (k + 8) + (load16Little m (k + 10) <<< 16))⟩
  tail m k length s :=
    let a := s.a + (load16Little m k + (load16Little m (k + 2) <<< 16))
    let b := s.b + (load16Little m (k + 4) + (load16Little m (k + 6) <<< 16))
    match length with
    | 12 => ⟨a, b, s.c + (load16Little m (k + 8) + (load16Little m (k + 10) <<< 16))⟩
    | 11 => ⟨a, b, s.c + (load8 m (k + 10) <<< 16) + load16Little m (k + 8)⟩
    | 10 => ⟨a, b, s.c + load16Little m (k + 8)⟩
    | 9 => ⟨a, b, s.c + load8 m (k + 8)⟩
    | 8 => ⟨a, b, s.c⟩
    | 7 => ⟨a, s.b + (load8 m (k + 6) <<< 16) + load16Little m (k + 4), s.c⟩
    | 6 => ⟨a, s.b + load16Little m (k + 4), s.c⟩
    | 5 => ⟨a, s.b + load8 m (k + 4), s.c⟩
    | 4 => ⟨a, s.b, s.c⟩
    | 3 => ⟨s.a + (load8 m (k + 2) <<< 16) + load16Little m k, s.b, s.c⟩
    | 2 => ⟨s.a + load16Little m k, s.b, s.c⟩
    | 1 => ⟨s.a + load8 m k, s.b, s.c⟩
    | _ => s

/-- One case of a switch whose cases fall through: the byte at offset `i` is added to its part of
the state. -/
def addByte (m : ℕ → UInt8) (k i : ℕ) (shift : UInt32) (s : Abc) : Abc :=
  let x := load8 m (k + i) <<< shift
  if i < 4 then { s with a := s.a + x } else if i < 8 then { s with b := s.b + x } else
    { s with c := s.c + x }

/-- A switch whose cases fall through, from the last byte to the first one. -/
def addBytes (shift : ℕ → UInt32) (m : ℕ → UInt8) (k : ℕ) : (length : ℕ) → Abc → Abc
  | 0, s => s
  | i + 1, s => addBytes shift m k i (addByte m k i (shift i) s)

/-- The path that reads the key one byte at a time, little endian. -/
def littleBytes : HashPath where
  block m k s :=
    ⟨s.a + load8 m k + (load8 m (k + 1) <<< 8) + (load8 m (k + 2) <<< 16) +
      (load8 m (k + 3) <<< 24),
      s.b + load8 m (k + 4) + (load8 m (k + 5) <<< 8) + (load8 m (k + 6) <<< 16) +
        (load8 m (k + 7) <<< 24),
      s.c + load8 m (k + 8) + (load8 m (k + 9) <<< 8) + (load8 m (k + 10) <<< 16) +
        (load8 m (k + 11) <<< 24)⟩
  tail m k length s := addBytes (fun i => .ofNat (8 * (i % 4))) m k length s

/-- The path for keys that are aligned to four bytes, big endian. -/
def bigWords : HashPath where
  block m k s := ⟨s.a + load32Big m k, s.b + load32Big m (k + 4), s.c + load32Big m (k + 8)⟩
  tail m k length s :=
    let k0 := load32Big m k
    let k1 := load32Big m (k + 4)
    let k2 := load32Big m (k + 8)
    match length with
    | 12 => ⟨s.a + k0, s.b + k1, s.c + k2⟩
    | 11 => ⟨s.a + k0, s.b + k1, s.c + (k2 &&& 0xffffff00)⟩
    | 10 => ⟨s.a + k0, s.b + k1, s.c + (k2 &&& 0xffff0000)⟩
    | 9 => ⟨s.a + k0, s.b + k1, s.c + (k2 &&& 0xff000000)⟩
    | 8 => ⟨s.a + k0, s.b + k1, s.c⟩
    | 7 => ⟨s.a + k0, s.b + (k1 &&& 0xffffff00), s.c⟩
    | 6 => ⟨s.a + k0, s.b + (k1 &&& 0xffff0000), s.c⟩
    | 5 => ⟨s.a + k0, s.b + (k1 &&& 0xff000000), s.c⟩
    | 4 => ⟨s.a + k0, s.b, s.c⟩
    | 3 => ⟨s.a + (k0 &&& 0xffffff00), s.b, s.c⟩
    | 2 => ⟨s.a + (k0 &&& 0xffff0000), s.b, s.c⟩
    | 1 => ⟨s.a + (k0 &&& 0xff000000), s.b, s.c⟩
    | _ => s

/-- The same path if `VALGRIND` is defined. -/
def bigWordsValgrind : HashPath where
  block := bigWords.block
  tail m k length s :=
    let k0 := load32Big m k
    let k1 := load32Big m (k + 4)
    let k2 := load32Big m (k + 8)
    match length with
    | 12 => ⟨s.a + k0, s.b + k1, s.c + k2⟩
    | 11 =>
      ⟨s.a + k0, s.b + k1, s.c + (load8 m (k + 10) <<< 8) + (load8 m (k + 9) <<< 16) +
        (load8 m (k + 8) <<< 24)⟩
    | 10 => ⟨s.a + k0, s.b + k1, s.c + (load8 m (k + 9) <<< 16) + (load8 m (k + 8) <<< 24)⟩
    | 9 => ⟨s.a + k0, s.b + k1, s.c + (load8 m (k + 8) <<< 24)⟩
    | 8 => ⟨s.a + k0, s.b + k1, s.c⟩
    | 7 => ⟨s.a + k0, s.b + (load8 m (k + 6) <<< 8) + (load8 m (k + 5) <<< 16) +
        (load8 m (k + 4) <<< 24), s.c⟩
    | 6 => ⟨s.a + k0, s.b + (load8 m (k + 5) <<< 16) + (load8 m (k + 4) <<< 24), s.c⟩
    | 5 => ⟨s.a + k0, s.b + (load8 m (k + 4) <<< 24), s.c⟩
    | 4 => ⟨s.a + k0, s.b, s.c⟩
    | 3 => ⟨s.a + (load8 m (k + 2) <<< 8) + (load8 m (k + 1) <<< 16) + (load8 m k <<< 24), s.b, s.c⟩
    | 2 => ⟨s.a + (load8 m (k + 1) <<< 16) + (load8 m k <<< 24), s.b, s.c⟩
    | 1 => ⟨s.a + (load8 m k <<< 24), s.b, s.c⟩
    | _ => s

/-- The path that reads the key one byte at a time, big endian. -/
def bigBytes : HashPath where
  block m k s :=
    ⟨s.a + (load8 m k <<< 24) + (load8 m (k + 1) <<< 16) + (load8 m (k + 2) <<< 8) +
      load8 m (k + 3),
      s.b + (load8 m (k + 4) <<< 24) + (load8 m (k + 5) <<< 16) + (load8 m (k + 6) <<< 8) +
        load8 m (k + 7),
      s.c + (load8 m (k + 8) <<< 24) + (load8 m (k + 9) <<< 16) + (load8 m (k + 10) <<< 8) +
        load8 m (k + 11)⟩
  tail m k length s := addBytes (fun i => .ofNat (24 - 8 * (i % 4))) m k length s

/-- The loop over all blocks but the last one, and the switch. -/
def run (p : HashPath) (m : ℕ → UInt8) (length k : ℕ) (s : Abc) : UInt32 :=
  if length > 12 then p.run m (length - 12) (k + 12) (p.block m k s).mix
  else if length = 0 then s.c
  else (p.tail m k length s).final.c
termination_by length

end HashPath

/-- The internal state at the beginning. -/
def hashStart (length : ℕ) (initval : UInt32) : Abc :=
  let x := 0xdeadbeef + UInt32.ofNat length + initval
  ⟨x, x, x⟩

/-- `hash` of the `length` bytes at address `key`, in a little-endian build; `valgrind` says whether
`VALGRIND` is defined. -/
def hashLittle (valgrind : Bool) (m : ℕ → UInt8) (key length : ℕ) (initval : UInt32) : UInt32 :=
  let p : HashPath :=
    if key % 4 = 0 then if valgrind then .littleWordsValgrind else .littleWords
    else if key % 2 = 0 then .littleHalves
    else .littleBytes
  p.run m length key (hashStart length initval)

/-- `hash` in a big-endian build. -/
def hashBig (valgrind : Bool) (m : ℕ → UInt8) (key length : ℕ) (initval : UInt32) : UInt32 :=
  let p : HashPath :=
    if key % 4 = 0 then if valgrind then .bigWordsValgrind else .bigWords
    else .bigBytes
  p.run m length key (hashStart length initval)

end Twemcache
