/-!
# Sets of characters

A set is a list of ranges in ascending order with a gap between any two. The numbers are code
points, or byte values where a pattern speaks about single bytes; `Alphabet` says which, for only
the complement depends on it. Between U+D7FF and U+E000 there is no character, so each is the
other's neighbour when a range is cut, but a range that ends at the one and a range that begins at
the other do not grow together.
-/

namespace BootConsole.Pattern

inductive Alphabet where
  | characters
  | bytes
  deriving DecidableEq, Repr

def Alphabet.last : Alphabet → Nat
  | .characters => 0x10FFFF
  | .bytes => 0xFF

structure CodeRange where
  low : Nat
  high : Nat
  ordered : low ≤ high
  deriving DecidableEq, Repr

namespace CodeRange

def contains (range : CodeRange) (code : Nat) : Bool :=
  range.low ≤ code && code ≤ range.high

def between (one other : Nat) : CodeRange where
  low := min one other
  high := max one other
  ordered := by omega

def hull (left right : CodeRange) : CodeRange where
  low := min left.low right.low
  high := max left.high right.high
  ordered := by
    have leftOrdered := left.ordered
    omega

def meet? (left right : CodeRange) : Option CodeRange :=
  if ordered : max left.low right.low ≤ min left.high right.high then
    some ⟨max left.low right.low, min left.high right.high, ordered⟩
  else none

def next (code : Nat) : Nat :=
  if code = 0xD7FF then 0xE000 else code + 1

def previous (code : Nat) : Nat :=
  if code = 0xE000 then 0xD7FF else code - 1

def without (range removed : CodeRange) : List CodeRange :=
  match range.meet? removed with
  | none => [range]
  | some _ =>
      (if range.low < removed.low then [between range.low (previous removed.low)] else []) ++
        (if removed.high < range.high then [between (next removed.high) range.high] else [])

end CodeRange

structure CharSet where
  ranges : List CodeRange
  deriving DecidableEq, Repr

namespace CharSet

def contains (set : CharSet) (code : Nat) : Bool :=
  set.ranges.any (·.contains code)

def empty : CharSet := ⟨[]⟩

def isEmpty (set : CharSet) : Bool :=
  set.ranges.isEmpty

def range (low high : Nat) : CharSet := ⟨[.between low high]⟩

def single (code : Nat) : CharSet := range code code

/-- Add a range to ascending ranges. It grows together with those that it meets or touches. -/
def insertRange (range : CodeRange) : List CodeRange → List CodeRange
  | [] => [range]
  | first :: rest =>
      if range.high + 1 < first.low then range :: first :: rest
      else if first.high + 1 < range.low then first :: insertRange range rest
      else insertRange (range.hull first) rest

def insert (set : CharSet) (range : CodeRange) : CharSet :=
  ⟨insertRange range set.ranges⟩

def union (left right : CharSet) : CharSet :=
  right.ranges.foldl insert left

def intersection (left right : CharSet) : CharSet :=
  ⟨left.ranges.flatMap fun range => right.ranges.filterMap range.meet?⟩

def difference (left right : CharSet) : CharSet :=
  ⟨right.ranges.foldl (fun ranges removed => ranges.flatMap (·.without removed)) left.ranges⟩

def symmetricDifference (left right : CharSet) : CharSet :=
  difference (union left right) (intersection left right)

def gapsAbove (alphabet : Alphabet) (high : Nat) : List CodeRange → List CodeRange
  | [] =>
      if high < alphabet.last then [.between (CodeRange.next high) alphabet.last] else []
  | first :: rest =>
      .between (CodeRange.next high) (CodeRange.previous first.low) ::
        gapsAbove alphabet first.high rest

/-- What the set leaves out. A set with a range up to U+D7FF and a range from U+E000 on has nothing
to leave out between them; both numbers are then held by the complement too. -/
def complement (alphabet : Alphabet) (set : CharSet) : CharSet :=
  match set.ranges with
  | [] => range 0 alphabet.last
  | first :: rest =>
      ⟨(if 0 < first.low then [.between 0 (CodeRange.previous first.low)] else []) ++
        gapsAbove alphabet first.high rest⟩

def complementIf (negated : Bool) (alphabet : Alphabet) (set : CharSet) : CharSet :=
  if negated then complement alphabet set else set

def ofRanges (ranges : List (Nat × Nat)) : CharSet :=
  ranges.foldl (fun set range => set.insert (.between range.1 range.2)) empty

def ofCodes (codes : List Nat) : CharSet :=
  codes.foldl (fun set code => set.insert (.between code code)) empty

def all (alphabet : Alphabet) : CharSet := complement alphabet empty

def isAscii (set : CharSet) : Bool :=
  set.ranges.all (·.high ≤ 0x7F)

/-! ## Case -/

def swapCase (code : Nat) : Nat :=
  if 0x41 ≤ code ∧ code ≤ 0x5A then code + 32
  else if 0x61 ≤ code ∧ code ≤ 0x7A then code - 32
  else code

def upperRange : CodeRange := .between 0x41 0x5A

def lowerRange : CodeRange := .between 0x61 0x7A

def otherCase (range : CodeRange) : List CodeRange :=
  [upperRange, lowerRange].filterMap fun letters =>
    (range.meet? letters).map fun part => .between (swapCase part.low) (swapCase part.high)

def caseless (set : CharSet) : CharSet :=
  union set ⟨set.ranges.flatMap otherCase⟩

def caselessIf (ignoresCase : Bool) (set : CharSet) : CharSet :=
  if ignoresCase then caseless set else set

/-! ## Named sets -/

def digits : CharSet := range 0x30 0x39

def upperLetters : CharSet := ⟨[upperRange]⟩

def lowerLetters : CharSet := ⟨[lowerRange]⟩

def word : CharSet := ofRanges [(0x30, 0x39), (0x41, 0x5A), (0x5F, 0x5F), (0x61, 0x7A)]

def space : CharSet := ofRanges [(0x09, 0x0D), (0x20, 0x20)]

def named? (name : String) : Option CharSet :=
  match name with
  | "alnum" => some (ofRanges [(0x30, 0x39), (0x41, 0x5A), (0x61, 0x7A)])
  | "alpha" => some (ofRanges [(0x41, 0x5A), (0x61, 0x7A)])
  | "ascii" => some (range 0x00 0x7F)
  | "blank" => some (ofRanges [(0x09, 0x09), (0x20, 0x20)])
  | "cntrl" => some (ofRanges [(0x00, 0x1F), (0x7F, 0x7F)])
  | "digit" => some digits
  | "graph" => some (range 0x21 0x7E)
  | "lower" => some lowerLetters
  | "print" => some (range 0x20 0x7E)
  | "punct" => some (ofRanges [(0x21, 0x2F), (0x3A, 0x40), (0x5B, 0x60), (0x7B, 0x7E)])
  | "space" => some space
  | "upper" => some upperLetters
  | "word" => some word
  | "xdigit" => some (ofRanges [(0x30, 0x39), (0x41, 0x46), (0x61, 0x66)])
  | _ => none

end CharSet

end BootConsole.Pattern
