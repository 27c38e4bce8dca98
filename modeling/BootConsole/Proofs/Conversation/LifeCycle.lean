import BootConsole.Proofs.Conversation.Usage

/-!
# The life of a session

A session is open until it is closed for the first time, and then it is closed for good: whatever it
is asked for, nothing changes any more, and all that is left to say is what it will not do.
-/

namespace BootConsole.Session

open Connection

variable [Pace] {session : Session} {connection : Connection} {operation : Operation}

/-! ## Before the close -/

/-- What is asked of an open session, the close apart, goes on without one. -/
theorem leads_resume (session : Session) (isOpen : connection.isOpen = true)
    (other : operation ≠ .close) :
    ∃ events, connection.Leads events (session.resume operation connection) ∧
      .closed ∉ events := by
  cases operation with
  | interrupt =>
      rcases follows_interrupt session isOpen with ⟨events, leads, course⟩
      rw [resume_interrupt]
      exact ⟨events, leads, (session.interrupting_breaksOff _ _ course).closed_not_mem⟩
  | step step =>
      rcases follows_run session step isOpen with ⟨events, leads, course⟩
      rw [resume_step]
      exact ⟨events, leads, (session.stepping_breaksOff step _ _ course).closed_not_mem⟩
  | close => contradiction

theorem leads_resumeAll (session : Session) {operations : List Operation}
    (isOpen : connection.isOpen = true)
    (others : ∀ operation ∈ operations, operation ≠ .close) :
    ∃ events, connection.Leads events (session.resumeAll operations connection) ∧
      .closed ∉ events := by
  induction operations generalizing connection with
  | nil => exact ⟨[], .refl connection, nofun⟩
  | cons operation rest induction =>
      rcases List.forall_mem_cons.mp others with ⟨other, others⟩
      rcases leads_resume session isOpen other with ⟨earlier, leads, unclosed⟩
      rcases induction (leads.isOpen.trans isOpen) others with ⟨later, onward, unclosed'⟩
      refine ⟨earlier ++ later, leads.trans onward, fun member => ?_⟩
      rcases List.mem_append.mp member with member | member
      · exact unclosed member
      · exact unclosed' member

/-! ## After the close -/

def refusal (gone : Bool) : Operation → Except Failure (Option Response)
  | .interrupt => .error .notOpen
  | .step _ => .error (if gone then .disconnected else .notOpen)
  | .close => .ok none

/-- Nothing is done on a connection that was closed. -/
theorem operate_of_closed (closed : connection.isOpen = false) (operation : Operation) :
    session.resume operation connection = connection ∧
      outcome (session.operate operation connection) = refusal connection.hungUp operation := by
  cases operation with
  | interrupt =>
      have refused : session.interrupt connection = _ := interrupt_of_closed closed
      rw [resume_interrupt, refused, operate, bind_of_error refused]
      exact ⟨rfl, rfl⟩
  | step step =>
      cases gone : connection.hungUp with
      | true =>
          have refused : session.run step connection = _ := run_of_gone gone step
          rw [resume_step, refused, operate, bind_of_error refused]
          exact ⟨rfl, rfl⟩
      | false =>
          have refused : session.run step connection = _ := run_of_closed closed gone step
          rw [resume_step, refused, operate, bind_of_error refused]
          exact ⟨rfl, rfl⟩
  | close =>
      have done := close_of_closed closed
      rw [resume_close, done, operate, bind_of_ok done]
      exact ⟨rfl, rfl⟩

theorem resumeAll_of_closed (closed : connection.isOpen = false)
    (operations : List Operation) :
    session.resumeAll operations connection = connection := by
  induction operations with
  | nil => rfl
  | cons operation rest induction =>
      rw [resumeAll_cons, (operate_of_closed closed operation).1, induction]

/-! ## The whole life -/

def shut (connection : Connection) : Connection :=
  record .closed { connection with isOpen := false }

theorem operate_close (isOpen : connection.isOpen = true) :
    session.operate .close connection =
      match connection.closeFailure? with
      | none => .ok none (shut connection)
      | some failure => .error failure (shut connection) := by
  have closing := close_of_open isOpen
  rw [operate]
  cases fails : connection.closeFailure? with
  | none =>
      rw [fails] at closing
      rw [bind_of_ok closing]
      rfl
  | some failure =>
      rw [fails] at closing
      rw [bind_of_error closing]
      rfl

theorem resume_close_of_open (isOpen : connection.isOpen = true) :
    session.resume .close connection = shut connection := by
  rw [resume, operate_close isOpen]
  split <;> rfl

/-- The first close ends what a session does. -/
theorem resumeAll_eq (isOpen : connection.isOpen = true) (operations : List Operation) :
    session.resumeAll operations connection =
      let before := session.resumeAll (operations.takeWhile (· ≠ .close)) connection
      if .close ∈ operations then shut before else before := by
  induction operations generalizing connection with
  | nil => rfl
  | cons operation rest induction =>
      by_cases closes : operation = .close
      · subst closes
        rw [resumeAll_cons, resume_close_of_open isOpen, resumeAll_of_closed rfl]
        simp
      · rcases leads_resume session isOpen closes with ⟨_, leads, _⟩
        rw [resumeAll_cons, induction (leads.isOpen.trans isOpen)]
        simp [closes, Ne.symm closes]

/-- However a session is used, its connection is closed at most once, by the first close that it is
asked for, and it counts as closed even if that fails. From then on nothing is read, written or
closed, no time goes by and nothing is shown, and every operation has the one answer that it can
have. -/
theorem resumeAll_closes_once (session : Session) (wire : Wire) (console : Console)
    (desk : Desk) (operations : List Operation) :
    let start := Connection.ofConsole wire console desk
    let before := session.resumeAll (operations.takeWhile (· ≠ .close)) start
    let closed := shut before
    (∃ events, before.happenings = start.happenings ++ events ∧ .closed ∉ events) ∧
      before.isOpen = true ∧
      session.operate .close before =
        (match before.closeFailure? with
          | none => .ok none closed
          | some failure => .error failure closed) ∧
      closed.happenings = before.happenings ++ [.closed] ∧
      closed.isOpen = false ∧ closed.hungUp = before.hungUp ∧
      session.resumeAll operations start = (if .close ∈ operations then closed else before) ∧
      ∀ operation, session.resume operation closed = closed ∧
        outcome (session.operate operation closed) = refusal closed.hungUp operation := by
  intro start before closed
  have opened : start.isOpen = true := rfl
  have others : ∀ operation ∈ operations.takeWhile (· ≠ .close), operation ≠ .close := by
    intro operation member
    simpa using List.all_eq_true.mp List.all_takeWhile operation member
  rcases leads_resumeAll session opened others with ⟨events, leads, unclosed⟩
  have isOpen : before.isOpen = true := leads.isOpen.trans opened
  refine ⟨⟨events, leads.happenings, unclosed⟩, isOpen, operate_close isOpen,
    happenings_last before, rfl, rfl, resumeAll_eq opened operations, ?_⟩
  exact fun operation => operate_of_closed rfl operation

end BootConsole.Session
