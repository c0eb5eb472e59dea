import Mathlib.Data.Int.Notation

/-!
# Text

The program's texts (command words, replies, log formats) are byte strings; they are written as
string literals of ASCII characters.
-/

namespace Twemcache

/-- The bytes of a text. -/
def ascii (text : String) : List UInt8 := text.toList.map fun c => c.toNat.toUInt8

/-- The bytes that the conversion `%d` prints. -/
def printInt (n : ℤ) : List UInt8 := ascii (toString n)

end Twemcache
