import BootConsole.Plan.Basic
import BootConsole.Desk.Basic
import BootConsole.Window

/-!
# Requests and settings

What a run is asked for on the command line, and everything that is fixed before it starts.
-/

namespace BootConsole

structure Request where
  mode : Mode
  target : String
  /-- The name of the build, with which the names of its image files begin. -/
  build : String
  deriving DecidableEq, Repr

namespace Request

def usage : String :=
  "Usage: provision <command> <target ip address> <build name>\n" ++
  "  f = flash, interrupting autoboot     F = flash, device already at prompt\n" ++
  "  e = exec,  interrupting autoboot     E = exec,  device already at prompt\n" ++
  "example: provision f 192.168.1.1 Fon_FON2201\n"

/-- A request by its arguments, exactly three. Any word is taken for a mode. -/
def ofArguments : List String → Except Failure Request
  | [token, target, build] => .ok ⟨.ofToken token, target, build⟩
  | arguments => .error (.wrongArgumentCount arguments.length)

def noteMode (request : Request) (desk : Desk) : Desk :=
  match request.mode with
  | .unrecognized token =>
      desk.note .warning
        ("unrecognized command '" ++ token ++ "': session will open and close without commands")
  | _ => desk

end Request

structure Settings where
  request : Request
  port : Nat
  /-- The time that connecting and the session may take together. -/
  timeout : Duration
  interval : Duration
  depth : Nat
  deriving DecidableEq, Repr

namespace Settings

def ofRequest (request : Request) : Settings where
  request := request
  port := Bootloader.port
  timeout := Bootloader.sessionTimeout
  interval := .ofSeconds 1
  depth := Window.defaultDepth

/-- Refuse settings with which no session could end well: no time, or nothing to search. -/
def check (settings : Settings) : Except Failure Settings :=
  if settings.timeout.nanoseconds = 0 then .error (.invalidSettings .zeroTimeout)
  else if settings.depth = 0 then .error (.invalidSettings .zeroDepth)
  else .ok settings

def socket (settings : Settings) : String :=
  settings.request.target ++ ":" ++ toString settings.port

def plan (settings : Settings) : Plan :=
  .ofMode settings.request.mode settings.request.build

end Settings

end BootConsole
