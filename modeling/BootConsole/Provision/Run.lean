import BootConsole.Provision.Probe
import BootConsole.Provision.Request
import BootConsole.Session.Conduct

/-!
# A whole run

Probe until the device answers, connect, carry out the plan. The deadline of the session is fixed
when the device has answered, so waiting for the device costs the session no time.
-/

namespace BootConsole

inductive Peer where
  | listening (console : Console)
  | refusing (cause : Fault)
  /-- Nobody answers, and nobody refuses. -/
  | silent
  /-- The connection comes about, but the stream cannot be used. -/
  | unusable (cause : Fault)
  deriving DecidableEq, Repr

structure Report where
  mode : Mode
  /-- The probes that were made, the one that was answered included. -/
  probes : Nat
  responses : List Response
  deriving DecidableEq, Repr

namespace Settings

variable [Pace]

/-- Open the connection. It takes a moment, so a deadline that is past is missed. -/
def connect (settings : Settings) (peer : Peer) (deadline : Nat) : Action Desk Connection :=
  fun desk =>
    match peer with
    | .refusing cause =>
        .error (.connectionFailed settings.request.target settings.port cause) desk
    | .silent =>
        .error (.connectTimeout settings.timeout) { desk with clock := max desk.clock deadline }
    | .unusable cause => .error (.transport cause) desk
    | .listening console =>
        if deadline < desk.clock then .error (.connectTimeout settings.timeout) desk
        else .ok (.ofConsole .telnet console desk) desk

def sessionUntil (settings : Settings) (deadline : Nat) : Session :=
  ⟨settings.plan.prompt, deadline, settings.timeout, settings.depth⟩

def converse (settings : Settings) (peer : Peer) : Action Desk (List Response) := fun desk =>
  let deadline := desk.clock + settings.timeout.milliseconds
  match settings.connect peer deadline desk with
  | .error failure desk => .error failure desk
  | .ok connection _ =>
      match (settings.sessionUntil deadline).conduct settings.plan connection with
      | .ok responses after => .ok responses after.toDesk
      | .error failure after => .error failure after.toDesk

def opening (settings : Settings) : String :=
  let request := settings.request
  "provisioning " ++ request.target ++ " with '" ++ request.build ++ "': " ++
    request.mode.description

def banner (settings : Settings) : String :=
  "\nstart console session " ++ settings.socket ++ "\n"

def run (settings : Settings) (probes : List Probe) (peer : Peer) : Action Desk Report := do
  let request := settings.request
  modify (Desk.note .info settings.opening)
  let count ← Probe.awaitAnswer request.target settings.interval 0 probes
  Desk.display (Utf8.encode settings.banner)
  let responses ← settings.converse peer
  return ⟨request.mode, count, responses⟩

end Settings

/-! ## What a console on the network gets -/

/-- The lines that reached the console, as it sees them: telnet commands taken out, line ends as
they were sent. -/
def Journal.linesReceived (journal : Journal) : List Bytes :=
  (splitLines (Telnet.withoutCommands .text journal.writes.flatten)).1

end BootConsole
