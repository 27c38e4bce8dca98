import BootConsole.Bytes

/-!
# The search window

Only the latest output is kept and searched, so a console that prints for an hour costs no more than
one that prints a line. A mark hides what came before it from the search without dropping it.
-/

namespace BootConsole

/-- The latest bytes of the output, at most `depth` of them, of which the first `floor` are hidden
from the search. -/
structure Window where
  depth : Nat
  bytes : Bytes
  floor : Nat
  deriving DecidableEq, Repr

namespace Window

def defaultDepth : Nat := 1000

def ofDepth (depth : Nat) : Window := ⟨depth, [], 0⟩

/-- Append output; what no longer fits falls out at the front. -/
def append (window : Window) (data : Bytes) : Window :=
  let joined := window.bytes ++ data
  let excess := joined.length - window.depth
  { window with bytes := joined.drop excess, floor := window.floor - excess }

def hide (window : Window) : Window :=
  { window with floor := window.bytes.length }

def searched (window : Window) : Bytes :=
  window.bytes.drop window.floor

def cleared (window : Window) : Window :=
  ofDepth window.depth

theorem length_append_le (window : Window) (data : Bytes) :
    (window.append data).bytes.length ≤ window.depth := by
  simp [append]
  omega

end Window

end BootConsole
