import BootConsole.Duration

/-!
# What can go wrong

The causes for which a run ends early, and the one place where each is put into words.
-/

namespace BootConsole

inductive FaultKind where
  /-- The other side of the connection is already gone. -/
  | notConnected
  | other
  deriving DecidableEq, Repr

structure Fault where
  kind : FaultKind
  description : String
  deriving DecidableEq, Repr

inductive SettingsProblem where
  | zeroTimeout
  | zeroDepth
  deriving DecidableEq, Repr

def SettingsProblem.message : SettingsProblem → String
  | .zeroTimeout => "session timeout must be non-zero"
  | .zeroDepth => "search depth must be non-zero"

inductive Failure where
  /-- The command line did not hold exactly three arguments. -/
  | wrongArgumentCount (given : Nat)
  /-- The probe itself could not be started. -/
  | probeNotStarted (program : String) (cause : Fault)
  | connectionFailed (host : String) (port : Nat) (cause : Fault)
  | disconnected
  /-- The connection was not there by the deadline. -/
  | connectTimeout (limit : Duration)
  /-- Reading from or writing to the console failed. -/
  | transport (cause : Fault)
  | notOpen
  /-- No prompt answered the interrupt by the deadline. -/
  | promptTimeout (pattern : String) (limit : Duration)
  /-- A step's pattern was not seen by the deadline. -/
  | stepTimeout (command pattern : String) (limit : Duration)
  | invalidSettings (problem : SettingsProblem)
  | invalidPattern
  | output (cause : Fault)
  deriving DecidableEq, Repr

def Failure.message : Failure → String
  | .wrongArgumentCount given =>
      "Usage error: expected 3 arguments (command, target address, build name), got " ++
        toString given
  | .probeNotStarted program cause =>
      "Probe error: Failed to run '" ++ program ++ "': " ++ cause.description
  | .connectionFailed host port cause =>
      "Transport error: Connection failed to " ++ host ++ ":" ++ toString port ++ ": " ++
        cause.description
  | .disconnected => "Transport error: Connection disconnected"
  | .connectTimeout limit => "Transport error: Connect timed out after " ++ limit.text
  | .transport cause => "Transport error: I/O error: " ++ cause.description
  | .notOpen => "Session error: Session not open"
  | .promptTimeout pattern limit =>
      "Session error: Prompt '" ++ pattern ++ "' not seen within " ++ limit.text
  | .stepTimeout command pattern limit =>
      "Session error: Step '" ++ command ++ "' timed out waiting for '" ++ pattern ++
        "' (session timeout " ++ limit.text ++ ")"
  | .invalidSettings problem => "Session error: Invalid configuration: " ++ problem.message
  | .invalidPattern => "Session error: Invalid regex pattern"
  | .output cause => "Failed to write console output: " ++ cause.description

end BootConsole
