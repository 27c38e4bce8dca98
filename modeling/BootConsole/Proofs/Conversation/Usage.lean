import BootConsole.Proofs.Conversation.SingleSteps

/-!
# A session in use

A session may be asked for anything in any order, whatever became of what it was asked for before.
What one operation brings about is what happens from the connection as it finds it.
-/

namespace BootConsole.Session

open Connection

inductive Operation where
  | interrupt
  | step (step : Step)
  | close
  deriving DecidableEq, Repr

variable {connection : Connection}

theorem stateAfter_bind_pure {α β : Type} (action : Action Connection α) (report : α → β) :
    stateAfter ((action >>= fun value => pure (report value)) connection) =
      stateAfter (action connection) := by
  cases done : action connection with
  | ok value after => rw [bind_of_ok done]; rfl
  | error failure after => rw [bind_of_error done]; rfl

theorem close_of_closed (closed : connection.isOpen = false) :
    close connection = .ok () connection := by
  rw [close, get_bind, if_neg (by simp [closed])]
  rfl

variable [Pace]

/-- Do what is asked for. Only a step has something to report. -/
def operate (session : Session) : Operation → Action Connection (Option Response)
  | .interrupt => do
      session.interrupt
      return none
  | .step step => do
      let response ← session.run step
      return some response
  | .close => do
      close
      return none

def resume (session : Session) (operation : Operation) (connection : Connection) : Connection :=
  stateAfter (session.operate operation connection)

def resumeAll (session : Session) (operations : List Operation) (connection : Connection) :
    Connection :=
  operations.foldl (fun connection operation => session.resume operation connection) connection

def happeningsOf (session : Session) (operation : Operation) (connection : Connection) :
    List Happening :=
  (session.resume operation connection).happenings.drop connection.happenings.length

variable {session : Session} {operation : Operation}

@[simp] theorem resumeAll_nil : session.resumeAll [] connection = connection := rfl

@[simp] theorem resumeAll_cons (rest : List Operation) :
    session.resumeAll (operation :: rest) connection =
      session.resumeAll rest (session.resume operation connection) := rfl

theorem happeningsOf_eq {events : List Happening}
    (happened : (session.resume operation connection).happenings =
      connection.happenings ++ events) : session.happeningsOf operation connection = events := by
  rw [happeningsOf, happened, List.drop_left]

theorem resume_interrupt :
    session.resume .interrupt connection = stateAfter (session.interrupt connection) :=
  stateAfter_bind_pure _ _

theorem resume_step (step : Step) :
    session.resume (.step step) connection = stateAfter (session.run step connection) :=
  stateAfter_bind_pure _ _

theorem resume_close : session.resume .close connection = stateAfter (close connection) :=
  stateAfter_bind_pure _ _

theorem lasting_resume {relation : Connection → Connection → Prop}
    (lasting : Lasting session.deadline relation) (notices : Throughout relation noticeHangUp)
    (closes : Throughout relation close) (operation : Operation) :
    relation connection (session.resume operation connection) := by
  cases operation with
  | interrupt =>
      rw [resume_interrupt]
      exact lasting.interrupt notices connection
  | step step =>
      rw [resume_step]
      exact (lasting.inherited notices).run step connection
  | close =>
      rw [resume_close]
      exact closes connection

/-- What survives every operation survives all of them. -/
theorem lasting_resumeAll {relation : Connection → Connection → Prop}
    (lasting : Lasting session.deadline relation) (notices : Throughout relation noticeHangUp)
    (closes : Throughout relation close) (operations : List Operation) :
    relation connection (session.resumeAll operations connection) := by
  induction operations generalizing connection with
  | nil => exact lasting.refl connection
  | cons operation rest induction =>
      exact lasting.trans (lasting_resume lasting notices closes operation) induction

/-! ## Operations that are refused -/

theorem interrupt_of_closed (closed : connection.isOpen = false) :
    session.interrupt connection = .error .notOpen connection := by
  apply bind_of_error
  rw [requireOpen_eq, if_neg (by simp [closed])]

theorem run_of_gone (gone : connection.hungUp = true) (step : Step) :
    session.run step connection = .error .disconnected connection := by
  apply bind_of_error
  rw [requireConsole_eq, if_pos gone]

theorem run_of_closed (closed : connection.isOpen = false) (present : connection.hungUp = false)
    (step : Step) : session.run step connection = .error .notOpen connection := by
  rw [run, runFor, bind_of_ok (requireConsole_of_present present)]
  apply bind_of_error
  rw [requireOpen_eq, if_neg (by simp [closed])]

/-! ## Operations that are carried out -/

theorem happenings_close (isOpen : connection.isOpen = true) :
    (session.resume .close connection).happenings = connection.happenings ++ [.closed] := by
  rw [resume_close, close_of_open isOpen]
  dsimp only
  split <;> exact happenings_last connection

/-- A step on a session that can go on is the way to its end and what there is to say about it. -/
theorem run_eq {step : Step} (isOpen : connection.isOpen = true)
    (present : connection.hungUp = false) :
    session.run step connection =
      (session.reachEnd step >>= fun brought =>
        conclude (response step brought.1 brought.2) >>= fun _ =>
          pure (response step brought.1 brought.2)) connection := by
  rw [run, runFor, bind_of_ok (requireConsole_of_present present), requireOpen_bind _ isOpen]
  cases said : say step.command connection with
  | error failure first =>
      have unreached : session.reachEnd step connection = .error failure first :=
        bind_of_error said _
      rw [bind_of_error said, bind_of_error unreached]
  | ok _ first =>
      rw [bind_of_ok said, awaitAllFor_failureMarkers]
      cases awaited : session.awaitAll step first with
      | error failure second =>
          have unreached : session.reachEnd step connection = .error failure second := by
            rw [reachEnd, bind_of_ok said, awaited]
          rw [bind_of_error awaited, bind_of_error unreached]
      | ok brought second =>
          have reached : session.reachEnd step connection = .ok brought second := by
            rw [reachEnd, bind_of_ok said, awaited]
          rw [bind_of_ok awaited, bind_of_ok reached]

end BootConsole.Session
