import BootConsole.Text.Letter
import BootConsole.Text.Utf8
import BootConsole.Pattern.Bracket

/-!
# Reading patterns

A pattern is read from left to right, one sign at a time (`Reader.step`), into an expression. Flags
hold from where they are set to the end of their group. Groups in plain parentheses and named groups
are numbered in the order in which they open.
-/

namespace BootConsole.Pattern

structure Flags where
  caseless : Bool
  /-- `^` and `$` hold at every line. -/
  multiLine : Bool
  /-- `.` takes line feeds too. -/
  dotAll : Bool
  /-- Repetitions are lazy, and greedy with a question mark. -/
  swapGreed : Bool
  /-- Signs speak about characters; otherwise about bytes. -/
  unicode : Bool
  /-- CR, LF and CR LF end a line, not only LF. -/
  anyLineEnd : Bool
  /-- Blanks and comments in the pattern are ignored. -/
  verbose : Bool
  deriving DecidableEq, Repr

namespace Flags

def initial : Flags := ⟨false, false, false, false, true, false, false⟩

def set? (flags : Flags) (letter : Char) (value : Bool) : Option Flags :=
  match letter with
  | 'i' => some { flags with caseless := value }
  | 'm' => some { flags with multiLine := value }
  | 's' => some { flags with dotAll := value }
  | 'U' => some { flags with swapGreed := value }
  | 'u' => some { flags with unicode := value }
  | 'R' => some { flags with anyLineEnd := value }
  | 'x' => some { flags with verbose := value }
  | _ => none

def forBrackets (flags : Flags) : BracketFlags :=
  ⟨flags.unicode, flags.caseless, flags.verbose⟩

end Flags

structure Piece where
  expr : Expr
  nesting : Nat
  deriving DecidableEq, Repr

def maxNesting : Nat := 250

structure OpenGroup where
  /-- The alternatives that are complete, the latest first. -/
  branches : List Piece
  /-- The signs of the current alternative, the latest first; nothing for a change of flags. -/
  pieces : List (Option Piece)
  deriving DecidableEq, Repr

namespace OpenGroup

def empty : OpenGroup := ⟨[], []⟩

def deepest (nestings : List Nat) : Nat :=
  nestings.foldl max 0

def branch (group : OpenGroup) : Piece :=
  match group.pieces with
  | [] | [none] => ⟨.empty, 0⟩
  | [some only] => only
  | pieces =>
      let present := pieces.reverse.filterMap id
      ⟨.ofSequence (present.map Piece.expr), deepest (present.map Piece.nesting) + 1⟩

def close (group : OpenGroup) : Piece :=
  match group.branches with
  | [] => group.branch
  | branches =>
      let all := (group.branch :: branches).reverse
      ⟨.ofChoice (all.map Piece.expr), deepest (all.map Piece.nesting) + 1⟩

def add (expr : Expr) (nesting : Nat) (group : OpenGroup) : OpenGroup :=
  { group with pieces := some ⟨expr, nesting⟩ :: group.pieces }

end OpenGroup

/-- What stands around a group: the group outside, the flags that hold again behind the inner one,
and the number of the inner one, if it counts. -/
structure Surrounding where
  group : OpenGroup
  flags : Flags
  number : Option Nat
  deriving DecidableEq, Repr

structure Reader where
  flags : Flags
  group : OpenGroup
  /-- What stands around the current group, the innermost first. -/
  outer : List Surrounding
  /-- The number of groups that count. -/
  groups : Nat
  names : List (List Char)
  /-- The classes in brackets that have not been closed, the innermost first. -/
  classes : List OpenClass
  deriving DecidableEq, Repr

namespace Reader

def start : Reader := ⟨.initial, .empty, [], 0, [], []⟩

def add (reader : Reader) (expr : Expr) (nesting : Nat) : Reader :=
  { reader with group := reader.group.add expr nesting }

/-- Repeat the latest sign. There must be one, it must not be a change of flags, and the nesting
must not become too deep. -/
def addRepetition (reader : Reader) (least : Nat) (most : Option Nat) (greedy : Bool) :
    Option Reader :=
  match reader.group.pieces with
  | some piece :: pieces =>
      let greedy := greedy != reader.flags.swapGreed
      let repeated : Piece := ⟨piece.expr.times least most greedy, piece.nesting + 1⟩
      if maxNesting < repeated.nesting then none
      else some { reader with group := { reader.group with pieces := some repeated :: pieces } }
  | _ => none

def lazyMark : List Char → Bool × List Char
  | '?' :: rest => (true, rest)
  | chars => (false, chars)

def repetition (reader : Reader) (least : Nat) (most : Option Nat) (rest : List Char) :
    Option (Reader × List Char) :=
  let (isLazy, rest) := lazyMark rest
  (reader.addRepetition least most (!isLazy)).map fun reader => (reader, rest)

def closeCount (reader : Reader) (least : Nat) (most : Option Nat) (chars : List Char) :
    Option (Reader × List Char) :=
  match chars with
  | '}' :: rest =>
      if most.all (least ≤ ·) then
        reader.repetition least most (skip reader.flags.verbose rest)
      else none
  | _ => none

def countedRepetition (reader : Reader) (chars : List Char) : Option (Reader × List Char) := do
  let verbose := reader.flags.verbose
  let (least, rest) ← readCount verbose chars
  match rest with
  | ',' :: rest =>
      let rest := skip verbose rest
      match rest with
      | '}' :: _ => reader.closeCount least none rest
      | rest =>
          let (most, rest) ← readCount verbose rest
          reader.closeCount least (some most) rest
  | rest => reader.closeCount least (some least) rest

def startCondition (flags : Flags) : Assertion :=
  if !flags.multiLine then .textStart
  else if flags.anyLineEnd then .anyLineStart
  else .lineStart

def endCondition (flags : Flags) : Assertion :=
  if !flags.multiLine then .textEnd
  else if flags.anyLineEnd then .anyLineEnd
  else .lineEnd

def setExpr (flags : Flags) (set : CharSet) : Expr :=
  if flags.unicode then .ofCharacters set else .ofByteSet set

def dotExpr (flags : Flags) : Expr :=
  setExpr flags <| .complement flags.forBrackets.alphabet <|
    if flags.dotAll then .empty
    else if flags.anyLineEnd then .ofCodes [0x0A, 0x0D]
    else .single 0x0A

/-- A character that stands for itself. Without case folding tables only the ASCII letters of a
byte pattern can ignore case. -/
def literalExpr? (flags : Flags) (char : Char) (asByte : Bool) : Option Expr :=
  if flags.unicode then
    if flags.caseless then none else some (.ofBytes (String.utf8EncodeChar char))
  else if asByte && 0x80 ≤ char.toNat then some (.literal [UInt8.ofNat char.toNat])
  else if flags.caseless && char.isAlpha then
    some (.ofByteSet (.caseless (.single char.toNat)))
  else some (.ofBytes (String.utf8EncodeChar char))

/-- Conditions on words need tables unless the pattern speaks about bytes. -/
def conditionExpr (flags : Flags) (condition : Assertion) : Expr :=
  match condition with
  | .textStart | .textEnd => .assertion condition
  | condition => .assertion (if flags.unicode then .unavailable else condition)

/-- The expression of an escape. The letter classes need tables unless the pattern speaks about
bytes. -/
def escapeExpr? (flags : Flags) : Escape → Option Expr
  | .literal char asByte => literalExpr? flags char asByte
  | .letterClass kind negated =>
      if flags.unicode then none
      else some (.ofByteSet (.complementIf negated .bytes kind.set))
  | .condition condition => some (conditionExpr flags condition)

/-- Flags up to a colon or a closing parenthesis: `value` is false behind a hyphen, of which there
may be one, with a flag behind it. No flag may stand twice. -/
def readFlags (flags : Flags) (seen : List Char) (value pending : Bool) :
    List Char → Option (Flags × Bool × Char × List Char)
  | [] => none
  | char :: rest =>
      if char = ':' ∨ char = ')' then
        if pending then none else some (flags, seen.isEmpty, char, rest)
      else if char = '-' then
        if value then readFlags flags ('-' :: seen) false true rest else none
      else if char ∈ seen then none
      else
        match flags.set? char value with
        | some flags => readFlags flags (char :: seen) value false rest
        | none => none

def isNameSign (first : Bool) (char : Char) : Bool :=
  char = '_' || Text.isLetter char ||
    (!first && (Text.isNumber char || char = '.' || char = '[' || char = ']'))

def readName (name : List Char) : List Char → Option (List Char × List Char)
  | [] => none
  | char :: rest =>
      if char = '>' then if name.isEmpty then none else some (name.reverse, rest)
      else if isNameSign name.isEmpty char then readName (char :: name) rest
      else none

def enter (reader : Reader) (inner : Flags) (number : Option Nat) : Reader :=
  { reader with
    flags := inner
    group := .empty
    outer := ⟨reader.group, reader.flags, number⟩ :: reader.outer }

def enterNumbered (reader : Reader) : Reader :=
  { reader.enter reader.flags (some (reader.groups + 1)) with groups := reader.groups + 1 }

def enterNamed (reader : Reader) (chars : List Char) : Option (Reader × List Char) :=
  match readName [] chars with
  | some (name, rest) =>
      if name ∈ reader.names then none
      else some ({ reader.enterNumbered with names := name :: reader.names }, rest)
  | none => none

/-- What follows an opening parenthesis. Conditions on the text around are not supported. -/
def openParenthesis (reader : Reader) (chars : List Char) : Option (Reader × List Char) :=
  match skip reader.flags.verbose chars with
  | '?' :: 'P' :: '<' :: rest => reader.enterNamed rest
  | '?' :: '<' :: rest => reader.enterNamed rest
  | '?' :: rest =>
      match readFlags reader.flags [] true false rest with
      | some (flags, isEmpty, close, rest) =>
          if close = ':' then some (reader.enter flags none, rest)
          else if isEmpty then none
          else
            let group := { reader.group with pieces := none :: reader.group.pieces }
            some ({ reader with flags := flags, group := group }, rest)
      | none => none
  | rest => some (reader.enterNumbered, rest)

def closeParenthesis (reader : Reader) : Option Reader :=
  match reader.outer with
  | [] => none
  | ⟨enclosing, flags, number⟩ :: outer =>
      let inner := reader.group.close
      let expr := match number with
        | some number => .group number inner.expr
        | none => inner.expr
      if maxNesting < inner.nesting + 1 then none
      else
        some { reader with
          flags := flags
          group := enclosing.add expr (inner.nesting + 1)
          outer := outer }

def closeClass (reader : Reader) (part : ClassPart) : Option Reader :=
  (part.resolve? reader.flags.forBrackets).map fun set =>
    { reader with classes := [] }.add (setExpr reader.flags set) part.nesting

def stepInClass (reader : Reader) (level : OpenClass) (outer : List OpenClass)
    (chars : List Char) : Option (Reader × List Char) :=
  match bracketStep reader.flags.forBrackets level outer chars with
  | some (.continues level outer rest) => some ({ reader with classes := level :: outer }, rest)
  | some (.done part rest) => (reader.closeClass part).map fun reader => (reader, rest)
  | none => none

def stepOutside (reader : Reader) (char : Char) (rest : List Char) :
    Option (Reader × List Char) :=
  match char with
  | '(' => reader.openParenthesis rest
  | ')' => reader.closeParenthesis.map fun reader => (reader, rest)
  | '|' =>
      let group : OpenGroup := ⟨reader.group.branch :: reader.group.branches, []⟩
      some ({ reader with group := group }, rest)
  | '[' =>
      let (level, rest) := openClass reader.flags.verbose rest
      some ({ reader with classes := [level] }, rest)
  | '?' => reader.repetition 0 (some 1) rest
  | '*' => reader.repetition 0 none rest
  | '+' => reader.repetition 1 none rest
  | '{' => reader.countedRepetition rest
  | '\\' =>
      match readEscape reader.flags.verbose rest with
      | some (escape, rest) =>
          (escapeExpr? reader.flags escape).map fun expr => (reader.add expr 0, rest)
      | none => none
  | '.' => some (reader.add (dotExpr reader.flags) 0, rest)
  | '^' => some (reader.add (.assertion (startCondition reader.flags)) 0, rest)
  | '$' => some (reader.add (.assertion (endCondition reader.flags)) 0, rest)
  | char => (literalExpr? reader.flags char false).map fun expr => (reader.add expr 0, rest)

def step (reader : Reader) (char : Char) (rest : List Char) : Option (Reader × List Char) :=
  match reader.classes with
  | [] => reader.stepOutside char rest
  | level :: outer => reader.stepInClass level outer (char :: rest)

def finish (reader : Reader) : Option Piece :=
  if reader.outer.isEmpty && reader.classes.isEmpty then some reader.group.close else none

def read (reader : Reader) : (steps : Nat) → List Char → Option Piece
  | 0, _ => none
  | steps + 1, chars =>
      match skip reader.flags.verbose chars with
      | [] => reader.finish
      | char :: rest =>
          match reader.step char rest with
          | none => none
          | some (next, left) => next.read steps left

end Reader

def Expr.parse? (text : String) : Option Expr :=
  let chars := text.toList
  match Reader.start.read (chars.length + 1) chars with
  | some piece => if piece.nesting ≤ maxNesting then some piece.expr else none
  | none => none

end BootConsole.Pattern
