import BootConsole.Text.Blank
import BootConsole.Pattern.Expr

/-!
# Escapes and numbers in patterns

The small readers of the pattern notation. Each takes the characters in front of it and gives back
what it read and the characters that are left, or nothing when the notation is wrong. In a pattern
that ignores blanks, blanks and comments may stand between any two signs.
-/

namespace BootConsole.Pattern

def skipBlanks (comment : Bool) : List Char → List Char
  | [] => []
  | char :: rest =>
      if comment then skipBlanks (char != '\n') rest
      else if Text.isBlank char then skipBlanks false rest
      else if char = '#' then skipBlanks true rest
      else char :: rest

def skip (verbose : Bool) (chars : List Char) : List Char :=
  if verbose then skipBlanks false chars else chars

def decimalDigit? (char : Char) : Option Nat :=
  if '0' ≤ char ∧ char ≤ '9' then some (char.toNat - 0x30) else none

def hexDigit? (char : Char) : Option Nat :=
  if '0' ≤ char ∧ char ≤ '9' then some (char.toNat - 0x30)
  else if 'a' ≤ char ∧ char ≤ 'f' then some (char.toNat - 0x57)
  else if 'A' ≤ char ∧ char ≤ 'F' then some (char.toNat - 0x37)
  else none

def readDigits (verbose comment : Bool) (value : Option Nat) :
    List Char → Option Nat × List Char
  | [] => (value, [])
  | char :: rest =>
      if comment then readDigits verbose (char != '\n') value rest
      else
        match decimalDigit? char with
        | some digit => readDigits verbose false (some (value.getD 0 * 10 + digit)) rest
        | none =>
            if Text.isBlank char && (verbose || value.isNone) then
              readDigits verbose false value rest
            else if char = '#' && verbose then readDigits verbose true value rest
            else (value, char :: rest)

/-- A count, with blanks around it. Counts fit into 32 bits. -/
def readCount (verbose : Bool) (chars : List Char) : Option (Nat × List Char) :=
  match readDigits verbose false none chars with
  | (some value, rest) =>
      if value < 0x100000000 then some (value, rest.dropWhile Text.isBlank) else none
  | (none, _) => none

def readHexDigits (verbose : Bool) : Nat → Nat → List Char → Option (Nat × List Char)
  | 0, value, chars => some (value, chars)
  | count + 1, value, char :: rest =>
      match hexDigit? char with
      | some digit => readHexDigits verbose count (value * 16 + digit) (skip verbose rest)
      | none => none
  | _ + 1, _, [] => none

def readHexBraced (verbose comment : Bool) (value : Option Nat) :
    List Char → Option (Nat × List Char)
  | [] => none
  | char :: rest =>
      if comment then readHexBraced verbose (char != '\n') value rest
      else if verbose && Text.isBlank char then readHexBraced verbose false value rest
      else if verbose && char = '#' then readHexBraced verbose true value rest
      else if char = '}' then value.map fun code => (code, skip verbose rest)
      else
        match hexDigit? char with
        | some digit => readHexBraced verbose false (some (value.getD 0 * 16 + digit)) rest
        | none => none

def scalar? (code : Nat) : Option Char :=
  if code < 0xD800 ∨ (0xDFFF < code ∧ code < 0x110000) then some (Char.ofNat code) else none

inductive LetterClass where
  | digit
  | space
  | word
  deriving DecidableEq, Repr

def LetterClass.set : LetterClass → CharSet
  | .digit => .digits
  | .space => .space
  | .word => .word

inductive Escape where
  /-- A character; `asByte` if it was written with two hexadecimal digits, which name a byte where
  the pattern speaks about bytes. -/
  | literal (char : Char) (asByte : Bool)
  | letterClass (kind : LetterClass) (negated : Bool)
  /-- A condition, as it is meant for ASCII words. -/
  | condition (condition : Assertion)
  deriving DecidableEq, Repr

def readHex (verbose : Bool) (digits : Nat) (chars : List Char) : Option (Escape × List Char) :=
  match skip verbose chars with
  | [] => none
  | '{' :: rest =>
      match readHexBraced verbose false none rest with
      | some (code, rest) => (scalar? code).map fun char => (.literal char false, rest)
      | none => none
  | chars =>
      match readHexDigits verbose digits 0 chars with
      | some (code, rest) => (scalar? code).map fun char => (.literal char (digits == 2), rest)
      | none => none

def isWordName (char : Char) : Bool :=
  ('A' ≤ char && char ≤ 'Z') || ('a' ≤ char && char ≤ 'z') || char = '-'

def readWordName (verbose comment : Bool) (name : List Char) :
    List Char → Option (List Char × List Char)
  | [] => none
  | char :: rest =>
      if comment then readWordName verbose (char != '\n') name rest
      else if verbose && Text.isBlank char then readWordName verbose false name rest
      else if verbose && char = '#' then readWordName verbose true name rest
      else if char = '}' then some (name.reverse, rest)
      else if isWordName char then readWordName verbose false (char :: name) rest
      else none

def wordCondition? (name : List Char) : Option Assertion :=
  match String.ofList name with
  | "start" => some .wordStart
  | "end" => some .wordEnd
  | "start-half" => some .notAfterWord
  | "end-half" => some .notBeforeWord
  | _ => none

/-- After `\b`: a brace and a letter begin the name of a word condition; anything else is left to
be read, a count for instance. -/
def readWordBoundary (verbose : Bool) (chars : List Char) : Option (Escape × List Char) :=
  match chars with
  | '{' :: rest =>
      match skip verbose rest with
      | [] => none
      | char :: inner =>
          if isWordName char then
            match readWordName verbose false [] (char :: inner) with
            | some (name, rest) => (wordCondition? name).map fun it => (.condition it, rest)
            | none => none
          else some (.condition .wordBoundary, chars)
  | chars => some (.condition .wordBoundary, chars)

/-- The ASCII signs that stand for themselves after a backslash: all but letters, digits and angle
brackets. -/
def isEscapable (char : Char) : Bool :=
  char.toNat < 0x80 && !char.isAlphanum && char != '<' && char != '>'

def readEscape (verbose : Bool) : List Char → Option (Escape × List Char)
  | [] => none
  | char :: rest =>
      match char with
      | 'x' => readHex verbose 2 rest
      | 'u' => readHex verbose 4 rest
      | 'U' => readHex verbose 8 rest
      | 'd' => some (.letterClass .digit false, rest)
      | 'D' => some (.letterClass .digit true, rest)
      | 's' => some (.letterClass .space false, rest)
      | 'S' => some (.letterClass .space true, rest)
      | 'w' => some (.letterClass .word false, rest)
      | 'W' => some (.letterClass .word true, rest)
      | 'a' => some (.literal '\x07' false, rest)
      | 'f' => some (.literal '\x0C' false, rest)
      | 't' => some (.literal '\t' false, rest)
      | 'n' => some (.literal '\n' false, rest)
      | 'r' => some (.literal '\r' false, rest)
      | 'v' => some (.literal '\x0B' false, rest)
      | 'A' => some (.condition .textStart, rest)
      | 'z' => some (.condition .textEnd, rest)
      | 'b' => readWordBoundary verbose rest
      | 'B' => some (.condition .notWordBoundary, rest)
      | '<' => some (.condition .wordStart, rest)
      | '>' => some (.condition .wordEnd, rest)
      | char => if isEscapable char then some (.literal char false, rest) else none

end BootConsole.Pattern
