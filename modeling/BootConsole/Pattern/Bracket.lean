import BootConsole.Pattern.Escape

/-!
# Bracketed classes

A class in brackets is a union of characters, ranges, named classes and further classes in brackets,
or such unions joined by the set operations `&&`, `--` and `~~`, which bind equally and to the left.
-/

namespace BootConsole.Pattern

structure BracketFlags where
  unicode : Bool
  caseless : Bool
  verbose : Bool
  deriving DecidableEq, Repr

def BracketFlags.alphabet (flags : BracketFlags) : Alphabet :=
  if flags.unicode then .characters else .bytes

structure ClassPart where
  set : CharSet
  /-- How deep brackets and operations are nested in it. -/
  nesting : Nat
  /-- Whether any character is named in it, be it to be left out again. -/
  named : Bool
  deriving DecidableEq, Repr

def ClassPart.ofSet (set : CharSet) : ClassPart := ⟨set, 0, true⟩

inductive SetOperation where
  | intersection
  | difference
  | symmetricDifference
  deriving DecidableEq, Repr

def SetOperation.apply : SetOperation → CharSet → CharSet → CharSet
  | .intersection => .intersection
  | .difference => .difference
  | .symmetricDifference => .symmetricDifference

structure OpenClass where
  negated : Bool
  /-- What stands to the left of an operation. -/
  left : Option (ClassPart × SetOperation)
  /-- The members read since, the latest first. -/
  items : List ClassPart
  deriving DecidableEq, Repr

namespace OpenClass

def maxNesting (parts : List ClassPart) : Nat :=
  parts.foldl (fun deepest part => max deepest part.nesting) 0

def union (items : List ClassPart) : ClassPart where
  set := items.foldr (fun part set => .union set part.set) .empty
  nesting := match items with
    | [only] => only.nesting
    | items => if items.isEmpty then 0 else maxNesting items + 1
  named := items.any (·.named)

def value (flags : BracketFlags) (level : OpenClass) : ClassPart :=
  let right := union level.items
  match level.left with
  | none => right
  | some (left, operation) =>
      { set := operation.apply (.caselessIf flags.caseless left.set)
          (.caselessIf flags.caseless right.set)
        nesting := max left.nesting right.nesting + 1
        named := left.named || right.named }

def close (flags : BracketFlags) (level : OpenClass) : ClassPart :=
  let inner := level.value flags
  { set := .complementIf level.negated flags.alphabet (.caselessIf flags.caseless inner.set)
    nesting := inner.nesting + 1
    named := inner.named }

def add (part : ClassPart) (level : OpenClass) : OpenClass :=
  { level with items := part :: level.items }

def operate (flags : BracketFlags) (operation : SetOperation) (level : OpenClass) : OpenClass :=
  { level with left := some (level.value flags, operation), items := [] }

end OpenClass

/-- The number that a written character stands for in a class. A class of bytes holds ASCII
characters, and further bytes only by their number. -/
def classMember? (flags : BracketFlags) (char : Char) (asByte : Bool) : Option Nat :=
  if flags.unicode || asByte || char.toNat < 0x80 then some char.toNat else none

inductive ClassSign where
  | literal (char : Char) (asByte : Bool)
  | set (set : CharSet)

def readClassSign (flags : BracketFlags) : List Char → Option (ClassSign × List Char)
  | [] => none
  | '\\' :: rest =>
      match readEscape flags.verbose rest with
      | some (.literal char asByte, rest) => some (.literal char asByte, rest)
      | some (.letterClass kind negated, rest) =>
          if flags.unicode then none
          else some (.set (.complementIf negated flags.alphabet kind.set), rest)
      | _ => none
  | char :: rest => some (.literal char false, rest)

/-- The sign behind a hyphen that decides whether the hyphen makes a range. In a pattern that
ignores blanks it stands behind blanks and one hash sign, even where that begins a comment. -/
def decidingSign (verbose : Bool) (chars : List Char) : Option Char :=
  if verbose then
    match chars.dropWhile Text.isBlank with
    | '#' :: rest => (rest.dropWhile Text.isBlank).head?
    | rest => rest.head?
  else chars.head?

def readRangeEnd (flags : BracketFlags) (first : ClassSign) (chars : List Char) :
    Option (CharSet × List Char) := do
  let (last, rest) ← readClassSign flags chars
  match first, last with
  | .literal low lowAsByte, .literal high highAsByte =>
      let low ← classMember? flags low lowAsByte
      let high ← classMember? flags high highAsByte
      if low ≤ high then some (.range low high, rest) else none
  | _, _ => none

/-- A character, a range or a letter class. A hyphen in front of a closing bracket or of another
hyphen makes no range. -/
def readClassItem (flags : BracketFlags) (chars : List Char) :
    Option (CharSet × List Char) := do
  let (first, rest) ← readClassSign flags chars
  let rest := skip flags.verbose rest
  let alone : Option (CharSet × List Char) :=
    match first with
    | .literal char asByte => (classMember? flags char asByte).map fun code =>
        (CharSet.single code, rest)
    | .set set => some (set, rest)
  match rest with
  | [] => none
  | '-' :: behind =>
      match decidingSign flags.verbose behind with
      | some ']' | some '-' => alone
      | _ => readRangeEnd flags first (skip flags.verbose behind)
  | _ => alone

/-- A named class: its name between colons and brackets, after the opening bracket. Anything else
is not refused here, but read as a class in brackets. -/
def readNamedClass (flags : BracketFlags) (chars : List Char) : Option (CharSet × List Char) :=
  match chars with
  | ':' :: rest =>
      let (negated, rest) := match rest with
        | '^' :: rest => (true, rest)
        | rest => (false, rest)
      let name := rest.takeWhile (· != ':')
      match rest.dropWhile (· != ':') with
      | ':' :: ']' :: rest =>
          (CharSet.named? (String.ofList name)).map fun set =>
            (.complementIf negated flags.alphabet (.caselessIf flags.caseless set), rest)
      | _ => none
  | _ => none

def readHyphens (verbose comment : Bool) (level : OpenClass) :
    List Char → OpenClass × List Char
  | [] => (level, [])
  | char :: rest =>
      if comment then readHyphens verbose (char != '\n') level rest
      else if verbose && Text.isBlank char then readHyphens verbose false level rest
      else if verbose && char = '#' then readHyphens verbose true level rest
      else if char = '-' then
        readHyphens verbose false (level.add (.ofSet (.single 0x2D))) rest
      else (level, char :: rest)

/-- The front of a class, after its opening bracket: a negation, hyphens, and a closing bracket
that is a member because nothing stands in front of it. -/
def openClass (verbose : Bool) (chars : List Char) : OpenClass × List Char :=
  let (negated, rest) := match skip verbose chars with
    | '^' :: rest => (true, skip verbose rest)
    | rest => (false, rest)
  let (level, rest) := readHyphens verbose false ⟨negated, none, []⟩ rest
  match level.items, rest with
  | [], ']' :: rest => (level.add (.ofSet (.single 0x5D)), skip verbose rest)
  | _, rest => (level, rest)

inductive BracketStep where
  | continues (level : OpenClass) (outer : List OpenClass) (rest : List Char)
  | done (part : ClassPart) (rest : List Char)

def bracketStep (flags : BracketFlags) (level : OpenClass) (outer : List OpenClass)
    (chars : List Char) : Option BracketStep :=
  match chars with
  | [] => none
  | '[' :: rest =>
      match readNamedClass flags rest with
      | some (set, rest) => some (.continues (level.add (.ofSet set)) outer rest)
      | none =>
          let (inner, rest) := openClass flags.verbose rest
          some (.continues inner (level :: outer) rest)
  | ']' :: rest =>
      match outer with
      | [] => some (.done (level.close flags) rest)
      | enclosing :: outer => some (.continues (enclosing.add (level.close flags)) outer rest)
  | '&' :: '&' :: rest => some (.continues (level.operate flags .intersection) outer rest)
  | '-' :: '-' :: rest => some (.continues (level.operate flags .difference) outer rest)
  | '~' :: '~' :: rest => some (.continues (level.operate flags .symmetricDifference) outer rest)
  | chars =>
      match readClassItem flags chars with
      | some (set, rest) => some (.continues (level.add (.ofSet set)) outer rest)
      | none => none

/-- The set of a whole class. Without case folding tables a class of characters can ignore case only
if it names none. -/
def ClassPart.resolve? (flags : BracketFlags) (part : ClassPart) : Option CharSet :=
  if flags.unicode && flags.caseless && part.named then none else some part.set

end BootConsole.Pattern
