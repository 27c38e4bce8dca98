import BootConsole.Pattern.CharSet

/-!
# Spelling characters in bytes

The characters of a set, as they are written in UTF-8: a list of spellings, each a span of bytes for
every place, such that the spellings together stand for the characters of the set and for nothing
else. A range of characters is cut until the bytes of its ends differ in such a way only that every
byte between them will do at each place.
-/

namespace BootConsole.Pattern

structure ByteSpan where
  low : UInt8
  high : UInt8
  deriving DecidableEq, Repr

abbrev Spelling := List ByteSpan

namespace Spelling

/-- Where a range of numbers has to be cut because its ends are written in different numbers of
bytes: the last number of the lower part. -/
def cutByWidth? (low high : Nat) : Option Nat :=
  [0x7F, 0x7FF, 0xFFFF].find? fun last => low ≤ last && last < high

/-- Where a range of numbers has to be cut because one of its ends does not lie at the edge of a
block of `size` numbers, though the range goes beyond the block. -/
def cutAtBlock? (low high size : Nat) : Option Nat :=
  if low / size = high / size then none
  else if low % size ≠ 0 then some (low / size * size + (size - 1))
  else if high % size ≠ size - 1 then some (high / size * size - 1)
  else none

def cut? (low high : Nat) : Option Nat :=
  match cutByWidth? low high with
  | some last => some last
  | none =>
      if high ≤ 0x7F then none
      else [0x40, 0x1000, 0x40000].findSome? (cutAtBlock? low high)

def ofEnds (low high : Nat) : Spelling :=
  ((String.utf8EncodeChar (Char.ofNat low)).zip (String.utf8EncodeChar (Char.ofNat high))).map
    fun ends => ⟨ends.1, ends.2⟩

/-- The spellings of the characters from `low` to `high`, in order, where no surrogates lie
between. -/
def ofNumbers (low high : Nat) : List Spelling :=
  match cut? low high with
  | none => [ofEnds low high]
  | some last =>
      if _inside : low ≤ last ∧ last < high then
        ofNumbers low last ++ ofNumbers (last + 1) high
      else []
termination_by high - low

def ofRange (range : CodeRange) : List Spelling :=
  if range.low < 0xE000 ∧ 0xD7FF < range.high then
    ofNumbers range.low 0xD7FF ++ ofNumbers 0xE000 range.high
  else ofNumbers range.low range.high

def ofSet (set : CharSet) : List Spelling :=
  set.ranges.flatMap ofRange

end Spelling

end BootConsole.Pattern
