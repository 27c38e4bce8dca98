import BootConsole.Provision.CommandLine

/-!
# The program

This layer can start no other program, so a probe fails here as it does on a machine without `ping`.
-/

open BootConsole

def unavailableProbe : Probe :=
  ⟨0, Probe.askPing Probe.pingProgram "" (.refused .missing)⟩

def main (arguments : List String) : IO UInt32 := do
  let outcome :=
    Outcome.ofArguments arguments [unavailableProbe] (.listening .silent)
  (← IO.getStdout).write ⟨outcome.output.toArray⟩
  (← IO.getStderr).write ⟨outcome.errors.toArray⟩
  return outcome.exit.toUInt32
