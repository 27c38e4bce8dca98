import BootConsole.Failure
import BootConsole.Bytes

/-!
# The journal

All that a run does to the outside and hears from it, in order and with the time. What can be said
about a run afterwards (what was sent, shown, noted) is read off its journal.
-/

namespace BootConsole

inductive Level where
  | info
  | warning
  deriving DecidableEq, Repr

def Level.mark : Level → String
  | .info => "INFO"
  | .warning => "WARN"

inductive Happening where
  | probed (host : String)
  /-- The stream to the console took these bytes, which carry something that the session sends. -/
  | wrote (data : Bytes)
  /-- The stream took just these bytes of something that the session sends. -/
  | wrotePart (data : Bytes)
  /-- The stream to the console took these answers to its options. -/
  | replied (data : Bytes)
  /-- The stream took just these bytes of answers to its options, perhaps none. -/
  | repliedPart (data : Bytes)
  /-- All of these bytes, as the session handed them over, went out. -/
  | sent (data : Bytes)
  /-- The stream to the console failed to take something. -/
  | writeFailed (cause : Fault)
  /-- The connection gave this text. -/
  | received (text : Bytes)
  /-- Plain text reached the session. -/
  | heard (text : Bytes)
  /-- A read was given up at its limit. -/
  | silence
  /-- A read found the connection closed by the console. -/
  | hungUp
  | readFailed (cause : Fault)
  /-- The operator's terminal took these bytes. -/
  | shown (data : Bytes)
  /-- All that was shown has reached the operator. -/
  | flushed
  | showFailed (cause : Fault)
  /-- The connection was closed, or an attempt was made to. -/
  | closed
  | noted (level : Level) (text : String)
  deriving DecidableEq, Repr

structure Entry where
  time : Nat
  event : Happening
  deriving DecidableEq, Repr

/-- What happened, the latest first. -/
abbrev Journal := List Entry

namespace Journal

def happenings (journal : Journal) : List Happening :=
  (journal.map Entry.event).reverse

def collect {α : Type} (select : Happening → Option α) (journal : Journal) : List α :=
  journal.happenings.filterMap select

def writes (journal : Journal) : List Bytes :=
  journal.collect fun
    | .wrote data | .wrotePart data | .replied data | .repliedPart data => some data
    | _ => none

def sends (journal : Journal) : List Bytes :=
  journal.collect fun
    | .sent data => some data
    | _ => none

def heard (journal : Journal) : List Bytes :=
  journal.collect fun
    | .heard text => some text
    | _ => none

def shown (journal : Journal) : Bytes :=
  (journal.collect fun
    | .shown data => some data
    | _ => none).flatten

def probes (journal : Journal) : List String :=
  journal.collect fun
    | .probed host => some host
    | _ => none

def closes (journal : Journal) : Nat :=
  (journal.collect fun
    | .closed => some ()
    | _ => none).length

def log (journal : Journal) : List String :=
  journal.collect fun
    | .noted level text => some (level.mark ++ " " ++ text)
    | _ => none

/-- What was shown, by flushes, with what is still waiting for one. -/
def pagesFrom (waiting : Option Bytes) : List Happening → List Bytes × Option Bytes
  | [] => ([], waiting)
  | .shown data :: rest => pagesFrom (some (waiting.getD [] ++ data)) rest
  | .flushed :: rest =>
      let others := pagesFrom none rest
      (waiting.getD [] :: others.1, others.2)
  | _ :: rest => pagesFrom waiting rest

def pages (journal : Journal) : List Bytes × Option Bytes :=
  pagesFrom none journal.happenings

end Journal

end BootConsole
