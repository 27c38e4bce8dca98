import BootConsole.Desk.Basic
import BootConsole.Provision.Lookup
import BootConsole.Text.Utf8

/-!
# Waiting for the device

The device is on the network only while it counts down, so it is probed at a steady pace, without
end, until it answers. The operator sees a dot for every probe in vain.
-/

namespace BootConsole

inductive Verdict where
  | up
  | down
  /-- The probe itself could not be started. -/
  | broken (program : String) (cause : Fault)
  deriving DecidableEq, Repr

structure Probe where
  takes : Nat
  verdict : Verdict
  deriving DecidableEq, Repr

namespace Probe

/-- The arguments of the system's `ping` for one probe that waits a second. -/
def pingArguments (host : String) : List String :=
  ["-c", "1", "-W", "1", host]

inductive Exit where
  | status (code : Nat)
  | killed
  deriving DecidableEq, Repr

def Exit.verdict : Exit → Verdict
  | .status 0 => .up
  | _ => .down

def pingProgram : String := "ping"

inductive Program where
  | refused (obstacle : Obstacle)
  /-- A program that ends in this way. -/
  | found (exit : Exit)
  deriving DecidableEq, Repr

def obstacleToArgument? (argument : String) : Option Obstacle :=
  if argumentLimit ≤ argument.utf8ByteSize then some .argumentTooLong else none

/-- What asking `name` comes to. NUL is refused before the program is looked up, and an argument
that is too long only once it is found. -/
def askPing (name host : String) (program : Program) : Verdict :=
  if (name ++ host).toList.contains '\x00' then .broken name Obstacle.holdsNul.fault
  else
    match program with
    | .refused obstacle => .broken name obstacle.fault
    | .found exit =>
        match obstacleToArgument? host with
        | some obstacle => .broken name obstacle.fault
        | none => exit.verdict

def run (host : String) (probe : Probe) (desk : Desk) : Desk :=
  (desk.record (.probed host)).pass probe.takes

def dot : Bytes := Utf8.encode "."

/-- Probe until the device answers, and give back the number of probes, of which `count` are done.
The device answers after all of `probes`. -/
def awaitAnswer (host : String) (interval : Duration) (count : Nat) :
    List Probe → Action Desk Nat
  | [] => do
      modify (run host ⟨0, .up⟩)
      return count + 1
  | probe :: rest => do
      modify (run host probe)
      match probe.verdict with
      | .up => return count + 1
      | .broken program cause => throw (.probeNotStarted program cause)
      | .down =>
          modify (Desk.pass interval.milliseconds)
          Desk.display dot
          awaitAnswer host interval (count + 1) rest

end Probe

end BootConsole
