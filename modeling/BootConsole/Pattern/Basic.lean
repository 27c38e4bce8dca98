import BootConsole.Pattern.Parse
import BootConsole.Pattern.Search

/-!
# Patterns

A pattern as the rest of the library sees it: its text, for messages, and its search. The text of a
console is one running stream, so `^` and `$` hold at every line of it.
-/

namespace BootConsole

structure Pattern where
  text : String
  program : Pattern.Program
  deriving DecidableEq, Repr

namespace Pattern

def lineMode : String := "(?m)"

def inLineMode (text : String) : String :=
  if lineMode.toList.isPrefixOf text.toList then text else lineMode ++ text

def ofText? (text : String) : Option Pattern :=
  let text := inLineMode text
  match Expr.parse? text with
  | some expr => (Program.ofExpr? expr).map fun program => ⟨text, program⟩
  | none => none

def find? (pattern : Pattern) (bytes : Bytes) : Option Span :=
  pattern.program.search bytes

end Pattern

end BootConsole
