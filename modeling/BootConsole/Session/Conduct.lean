import BootConsole.Session.Basic

/-!
# Carrying out a plan

The interrupt if the plan asks for one, the steps in order, and then, whatever happened, one attempt
to close the connection.
-/

namespace BootConsole.Session

variable [Pace]

/-- Carry out the steps that are left of `total`. When the console closes the connection the rest is
skipped, and what was done is still a success. -/
def runStepsFor (markers : List String) (session : Session) (total : Nat) :
    List Step → Action Connection (List Response)
  | [] => return []
  | step :: rest => do
      let number := total - rest.length
      Connection.note .info
        ("step " ++ toString number ++ "/" ++ toString total ++ ": " ++ step.command)
      let response ← session.runFor markers step
      if response.closed then
        unless rest.isEmpty do
          Connection.note .warning
            ("console closed after '" ++ step.command ++ "', skipping " ++
              toString rest.length ++ " remaining step(s)")
        return [response]
      else
        return response :: (← runStepsFor markers session total rest)

def runSteps (session : Session) (total : Nat) (steps : List Step) :
    Action Connection (List Response) :=
  session.runStepsFor Bootloader.failureMarkers total steps

def performFor (markers : List String) (session : Session) (plan : Plan) :
    Action Connection (List Response) := do
  if let .unrecognized token := plan.mode then
    Connection.note .warning ("no command sequence for '" ++ token ++ "'")
  if plan.interrupts then session.interrupt
  session.runStepsFor markers plan.steps.length plan.steps

def perform (session : Session) (plan : Plan) : Action Connection (List Response) :=
  session.performFor Bootloader.failureMarkers plan

theorem performFor_failureMarkers (session : Session) (plan : Plan) :
    session.performFor Bootloader.failureMarkers plan = session.perform plan := rfl

/-- Carry out a plan and close the connection. The failure that comes first is the one that counts;
a close that fails after another failure is only noted. -/
def conductFor (markers : List String) (session : Session) (plan : Plan) :
    Action Connection (List Response) :=
  fun connection =>
    match session.performFor markers plan connection with
    | .ok responses after =>
        match close after with
        | .ok _ after => .ok responses after
        | .error failure after => .error failure after
    | .error failure after =>
        match close after with
        | .ok _ after => .error failure after
        | .error second after =>
            .error failure (after.record (.noted .warning
              ("closing session after failure also failed: " ++ second.message)))

def conduct (session : Session) (plan : Plan) : Action Connection (List Response) :=
  session.conductFor Bootloader.failureMarkers plan

def failed (responses : List Response) : List Response :=
  responses.filter fun response => !response.succeeded

end BootConsole.Session
