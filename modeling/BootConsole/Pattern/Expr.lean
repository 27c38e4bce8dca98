import BootConsole.Text.Utf8
import BootConsole.Pattern.CharSet

/-!
# Expressions

What a pattern means once it has been read: flags are resolved, and each leaf says what it takes
from the text. The functions that build expressions (`ofSequence`, `ofChoice`, `times`) keep them in
a normal form: literals that follow one another are one literal, sequences and choices do not stand
directly in their own kind, alternatives that each take one character are one set, and what all
alternatives begin with stands in front of them. So a preference in that common front is settled
before one among the alternatives.
-/

namespace BootConsole.Pattern

inductive Assertion where
  | textStart
  | textEnd
  /-- After a line feed, or at the start. -/
  | lineStart
  /-- Before a line feed, or at the end. -/
  | lineEnd
  /-- As `lineStart`, where CR, LF and CR LF end a line. -/
  | anyLineStart
  /-- As `lineEnd`, where CR, LF and CR LF end a line. -/
  | anyLineEnd
  | wordBoundary
  | notWordBoundary
  | wordStart
  | wordEnd
  | notAfterWord
  | notBeforeWord
  /-- A condition on words of all scripts, which this library has no tables for. -/
  | unavailable
  deriving DecidableEq, Repr

inductive Expr where
  | empty
  | literal (bytes : Bytes)
  | byteIn (set : CharSet)
  /-- One whole well-formed character of the set. -/
  | characterIn (set : CharSet)
  | assertion (condition : Assertion)
  /-- A part in parentheses that count. -/
  | group (number : Nat) (body : Expr)
  | sequence (first second : Expr)
  /-- The first alternative is preferred. -/
  | choice (first second : Expr)
  /-- At least `least` and at most `most` times the body, more or fewer of them preferred. -/
  | repeated (body : Expr) (least : Nat) (most : Option Nat) (greedy : Bool)
  deriving DecidableEq, Repr

namespace Expr

/-! ## Lengths -/

def takesNothing : Expr → Bool
  | .empty | .assertion _ => true
  | .literal bytes => bytes.isEmpty
  | .byteIn _ | .characterIn _ => false
  | .group _ body | .repeated body _ _ _ => body.takesNothing
  | .sequence first second | .choice first second => first.takesNothing && second.takesNothing

/-- The fewest bytes that the expression takes, unless a part of it never matches. -/
def leastLength : Expr → Option Nat
  | .empty | .assertion _ => some 0
  | .literal bytes => some bytes.length
  | .byteIn set => if set.isEmpty then none else some 1
  | .characterIn set =>
      set.ranges.head?.map fun range => (String.utf8EncodeChar (Char.ofNat range.low)).length
  | .group _ body => body.leastLength
  | .sequence first second =>
      match first.leastLength, second.leastLength with
      | some first, some second => some (first + second)
      | _, _ => none
  | .choice first second =>
      match first.leastLength, second.leastLength with
      | some first, some second => some (min first second)
      | _, _ => none
  | .repeated body least _ _ => body.leastLength.map (least * ·)

/-! ## Sets -/

def ofBytes (bytes : Bytes) : Expr :=
  if bytes.isEmpty then .empty else .literal bytes

def nothing : Expr := .byteIn .empty

def ofCharacters (set : CharSet) : Expr :=
  match set.ranges with
  | [] => nothing
  | [only] =>
      if only.low = only.high then .literal (String.utf8EncodeChar (Char.ofNat only.low))
      else .characterIn set
  | _ => .characterIn set

def ofByteSet (set : CharSet) : Expr :=
  match set.ranges with
  | [only] =>
      if only.low = only.high then .literal [UInt8.ofNat only.low] else .byteIn set
  | _ => .byteIn set

def character? : Expr → Option Nat
  | .literal bytes =>
      match Utf8.leading? [] bytes with
      | some (character, width) =>
          if (bytes.drop width).isEmpty then some character.toNat else none
      | none => none
  | _ => none

def byte? : Expr → Option Nat
  | .literal [value] => some value.toNat
  | _ => none

def characterSet? : Expr → Option CharSet
  | .characterIn set => some set
  | .byteIn set => if set.isAscii then some set else none
  | _ => none

def byteSet? : Expr → Option CharSet
  | .byteIn set => some set
  | .characterIn set => if set.isAscii then some set else none
  | _ => none

def oneSet? (branches : List Expr) : Option Expr :=
  match branches.mapM character? with
  | some codes => some (ofCharacters (.ofCodes codes))
  | none =>
      match branches.mapM byte? with
      | some codes => some (ofByteSet (.ofCodes codes))
      | none =>
          match branches.mapM characterSet? with
          | some sets => some (ofCharacters (sets.foldl .union .empty))
          | none => (branches.mapM byteSet?).map fun sets => ofByteSet (sets.foldl .union .empty)

/-! ## Sequences -/

def parts : Expr → List Expr
  | .empty => []
  | .sequence first second => first.parts ++ second.parts
  | expr => [expr]

def putBefore (first : Expr) (rest : List Expr) : List Expr :=
  match first, rest with
  | .literal bytes, .literal more :: rest => .literal (bytes ++ more) :: rest
  | first, rest => first :: rest

def inSequence : List Expr → Expr
  | [] => .empty
  | [only] => only
  | first :: rest => .sequence first (inSequence rest)

def ofSequence (exprs : List Expr) : Expr :=
  inSequence ((exprs.flatMap parts).foldr putBefore [])

/-! ## Choices -/

def branches : Expr → List Expr
  | .choice first second => first.branches ++ second.branches
  | expr => [expr]

def inChoice : List Expr → Expr
  | [] => nothing
  | [only] => only
  | first :: rest => .choice first (inChoice rest)

def isSequence : Expr → Bool
  | .sequence _ _ => true
  | _ => false

def commonFront : List Expr → List Expr → List Expr
  | first :: rest, other :: others =>
      if first = other then first :: commonFront rest others else []
  | _, _ => []

def sharedFront (branches : List Expr) : List Expr :=
  match branches with
  | first :: second :: rest =>
      if branches.all isSequence then
        (second :: rest).foldl (fun shared branch => commonFront shared branch.parts) first.parts
      else []
  | _ => []

def ofAlternatives (exprs : List Expr) : Expr :=
  let branches := exprs.flatMap branches
  (oneSet? branches).getD (inChoice branches)

def ofChoice (exprs : List Expr) : Expr :=
  let branches := exprs.flatMap branches
  match oneSet? branches with
  | some set => set
  | none =>
      match sharedFront branches with
      | [] => inChoice branches
      | shared =>
          let rests := branches.map fun branch => ofSequence (branch.parts.drop shared.length)
          ofSequence (shared ++ [ofAlternatives rests])

/-! ## Repetitions -/

/-- The body repeated. Repeating what takes nothing more than once changes nothing, and never or
once need no repetition. -/
def times (body : Expr) (least : Nat) (most : Option Nat) (greedy : Bool) : Expr :=
  let once := body.takesNothing
  let least := if once then min least 1 else least
  let most := if once then some (min (most.getD 1) 1) else most
  if most = some 0 then .empty
  else if least = 1 ∧ most = some 1 then body
  else .repeated body least most greedy

/-! ## Conditions -/

def isAvailable : Expr → Bool
  | .assertion condition => condition != .unavailable
  | .sequence first second | .choice first second => first.isAvailable && second.isAvailable
  | .group _ body | .repeated body _ _ _ => body.isAvailable
  | _ => true

def startsText : Expr → Bool
  | .assertion condition => condition = .textStart
  | .group _ body => body.startsText
  | .sequence first second => first.startsText || (first.takesNothing && second.startsText)
  | .choice first second => first.startsText && second.startsText
  | .repeated body least _ _ => 0 < least && body.startsText
  | _ => false

/-- Whether the expression takes nothing, and whether every match ends at the end of the text. -/
def ending : Expr → Bool × Bool
  | .assertion condition => (true, condition = .textEnd)
  | .group _ body => body.ending
  | .sequence first second =>
      let (firstNothing, firstEnds) := first.ending
      let (secondNothing, secondEnds) := second.ending
      (firstNothing && secondNothing, secondEnds || (secondNothing && firstEnds))
  | .choice first second =>
      let (firstNothing, firstEnds) := first.ending
      let (secondNothing, secondEnds) := second.ending
      (firstNothing && secondNothing, firstEnds && secondEnds)
  | .repeated body least _ _ =>
      let (nothing, ends) := body.ending
      (nothing, 0 < least && ends)
  | expr => (expr.takesNothing, false)

def endsText (expr : Expr) : Bool := expr.ending.2

end Expr

end BootConsole.Pattern
