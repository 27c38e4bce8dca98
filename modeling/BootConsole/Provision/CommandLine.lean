import BootConsole.Provision.Run

/-!
# The command line

What the program prints and how it exits.
-/

namespace BootConsole

structure Outcome where
  exit : Nat
  output : Bytes
  errors : Bytes
  journal : Journal
  deriving DecidableEq, Repr

namespace Outcome

def failureLine (response : Response) : String :=
  "provision: '" ++ response.command ++ "' reported: " ++ response.failure.getD "" ++ "\n"

def errorLine (failure : Failure) : String :=
  "provision: " ++ failure.message ++ "\n"

def ofRun (settings : Settings) (probes : List Probe) (peer : Peer) : Outcome :=
  match settings.run probes peer (.start .none .none) with
  | .ok report desk =>
      { exit := 0
        output := desk.journal.shown ++ [lineFeed]
        errors := (Session.failed report.responses).flatMap (Utf8.encode ∘ failureLine)
        journal := desk.journal }
  | .error failure desk =>
      { exit := 1
        output := desk.journal.shown
        errors := lineFeed :: Utf8.encode (errorLine failure)
        journal := desk.journal }

def ofArguments (arguments : List String) (probes : List Probe) (peer : Peer) : Outcome :=
  match Request.ofArguments arguments with
  | .error _ => ⟨2, Utf8.encode Request.usage, [], []⟩
  | .ok request =>
      match (Settings.ofRequest request).check with
      | .error failure => ⟨1, [], Utf8.encode (errorLine failure), []⟩
      | .ok settings => ofRun settings probes peer

end Outcome

end BootConsole
