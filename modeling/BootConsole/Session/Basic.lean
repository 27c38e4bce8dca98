import BootConsole.Connection.Basic
import BootConsole.Session.Watch

/-!
# Sessions

A session talks to the console over an open connection: it breaks into the countdown, sends a step's
lines and waits for what they have to bring, and closes the connection. One deadline, fixed before
the connection was opened, bounds all its waits together. Everything that is heard is shown to the
operator before anything else happens.
-/

namespace BootConsole

structure Session where
  /-- The prompt that answers an interrupt. -/
  prompt : Pattern
  /-- When every wait is given up. -/
  deadline : Nat
  /-- The time that the session was given, for messages. -/
  timeout : Duration
  depth : Nat
  deriving DecidableEq, Repr

namespace Session

open Connection (hear echo say)

variable [Pace]

/-- Show everything that is heard, until the pattern matches, the console closes the connection or
the deadline comes. A console that closes the connection without having printed anything fails the
wait. -/
def await (session : Session) (pattern : Pattern) (watch : Watch) (connection : Connection) :
    EStateM.Result Failure Connection (WaitEnd × Watch) :=
  match _heard : hear session.deadline connection with
  | .ok (some chunk) after =>
      let watch := watch.take chunk
      match _echoed : echo chunk after with
      | .error failure after => .error failure after
      | .ok _ after =>
          match watch.match? pattern with
          | some bytes => .ok (.matched bytes, watch) after
          | none => await session pattern watch after
  | .ok none after => .ok (.late, watch) after
  | .error failure after =>
      if failure = .disconnected ∧ watch.begun = true then .ok (.hungUp, watch) after
      else .error failure after
termination_by connection.weight
decreasing_by
  rw [Connection.weight_echo _ _ _ _echoed]
  exact Connection.weight_hear_lt _ _ _ _ _heard

/-- Show everything that is heard, until the console has been quiet for the quiet time or the
deadline comes. -/
def awaitQuiet (session : Session) (connection : Connection) :
    EStateM.Result Failure Connection Unit :=
  match _heard :
    hear (min (connection.clock + Bootloader.quietTime) session.deadline) connection with
  | .ok (some chunk) after =>
      match _echoed : echo chunk after with
      | .error failure after => .error failure after
      | .ok _ after => awaitQuiet session after
  | .ok none after => .ok () after
  | .error failure after => .error failure after
termination_by connection.weight
decreasing_by
  rw [Connection.weight_echo _ _ _ _echoed]
  exact Connection.weight_hear_lt _ _ _ _ _heard

def noticeHangUp : Action Connection Unit :=
  modify fun connection => { connection with hungUp := true }

def requireConsole : Action Connection Unit := do
  if (← get).hungUp then throw .disconnected

def requireOpen : Action Connection Unit := do
  unless (← get).isOpen do throw .notOpen

/-- Break into the countdown and wait for the prompt, then for quiet: the break and the line end may
bring a prompt each, and the second one must not end the first step. -/
def interrupt (session : Session) : Action Connection Unit := do
  requireOpen
  say Bootloader.interruptLine
  match ← session.await session.prompt (.start session.depth []) with
  | (.matched _, _) => session.awaitQuiet
  | (.hungUp, _) =>
      noticeHangUp
      throw .disconnected
  | (.late, _) => throw (.promptTimeout session.prompt.text session.timeout)

def awaitStep (session : Session) (command : String) (pattern : Pattern) (watch : Watch) :
    Action Connection (Option Bytes × Watch) := do
  match ← session.await pattern watch with
  | (.matched bytes, watch) => return (some bytes, watch)
  | (.hungUp, watch) => return (none, watch)
  | (.late, _) => throw (.stepTimeout command pattern.text session.timeout)

/-- Wait for everything that a step has to bring, looking for the markers, and answer its question
on the way. No bytes are given back if the console has closed the connection. -/
def awaitAllFor (markers : List String) (session : Session) (step : Step) :
    Action Connection (Option Bytes × Watch) := do
  let watch := Watch.start session.depth markers
  match step.reply with
  | none => session.awaitStep step.command step.expect watch
  | some reply =>
      match ← session.awaitStep step.command reply.question watch with
      | (none, watch) => return (none, watch)
      | (some _, watch) =>
          say reply.answer
          session.awaitStep step.command step.expect watch.turn

def awaitAll (session : Session) (step : Step) : Action Connection (Option Bytes × Watch) :=
  session.awaitAllFor Bootloader.failureMarkers step

theorem awaitAllFor_failureMarkers (session : Session) (step : Step) :
    session.awaitAllFor Bootloader.failureMarkers step = session.awaitAll step := rfl

def response (step : Step) (ending : Option Bytes) (watch : Watch) : Response where
  command := step.command
  output := Utf8.lossy watch.window.bytes
  prompt := (ending.map promptText).getD ""
  failure := watch.failure
  closed := ending.isNone

def conclude (response : Response) : Action Connection Unit := do
  if let some marker := response.failure then
    Connection.note .warning
      ("step '" ++ response.command ++ "' reported '" ++ marker ++ "'")
  if response.closed then noticeHangUp

/-- Send a step and wait for its end. A console that closes the connection after it has printed
something ends the step too. -/
def runFor (markers : List String) (session : Session) (step : Step) :
    Action Connection Response := do
  requireConsole
  requireOpen
  say step.command
  let (ending, watch) ← session.awaitAllFor markers step
  let response := response step ending watch
  conclude response
  return response

def run (session : Session) (step : Step) : Action Connection Response :=
  session.runFor Bootloader.failureMarkers step

def close : Action Connection Unit := do
  if (← get).isOpen then
    modify fun connection => { connection with isOpen := false }
    Connection.shutDown

def drop (connection : Connection) : Connection :=
  if connection.isOpen then
    connection.record (.noted .warning "console session dropped without close()")
  else connection

end Session

end BootConsole
