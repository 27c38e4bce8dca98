import BootConsole.Window
import BootConsole.Plan.Basic

/-!
# Watching for a pattern

What is kept of the output of one step while it runs: the window in which patterns are searched, and
the first report of a failure seen in it.
-/

namespace BootConsole

def earliestMarker (text : String) (markers : List String) : Option String :=
  markers.find? fun marker => occursIn marker.toList text.toList

structure Watch where
  window : Window
  /-- The words that report a failure. -/
  markers : List String
  begun : Bool
  failure : Option String
  deriving DecidableEq, Repr

namespace Watch

def start (depth : Nat) (markers : List String) : Watch where
  window := .ofDepth depth
  markers := markers
  begun := false
  failure := none

/-- Output arrives. The whole window is searched for markers, so one that arrives in pieces is seen;
once one was seen it stays the one. -/
def take (watch : Watch) (chunk : Bytes) : Watch :=
  let window := watch.window.append chunk
  { watch with
    window := window
    begun := true
    failure := watch.failure <|> earliestMarker (Utf8.lossy window.bytes) watch.markers }

def match? (watch : Watch) (pattern : Pattern) : Option Bytes :=
  (pattern.find? watch.window.searched).map fun span => span.slice watch.window.searched

def turn (watch : Watch) : Watch :=
  { watch with window := watch.window.hide }

end Watch

inductive WaitEnd where
  | matched (bytes : Bytes)
  /-- The console closed the connection after it had printed something. -/
  | hungUp
  | late
  deriving DecidableEq, Repr

structure Response where
  command : String
  /-- The end of the step's output. -/
  output : String
  /-- The text that ended the step; empty if the console closed the connection instead. -/
  prompt : String
  /-- The marker by which a failure was reported. -/
  failure : Option String
  closed : Bool
  deriving DecidableEq, Repr

namespace Response

def succeeded (response : Response) : Bool :=
  response.failure.isNone

def contains (response : Response) (text : String) : Bool :=
  occursIn text.toList response.output.toList

def description (response : Response) : String :=
  response.output

end Response

def promptText (bytes : Bytes) : String :=
  String.ofList (Text.trim (Utf8.characters bytes))

end BootConsole
