import BootConsole.Proofs.Conversation.Steps

/-!
# Closing

Whatever becomes of a plan, the connection is closed once and nothing is done on it afterwards. A
failure of the connection or of the terminal is the end of the plan and its result; how the closing
went only counts for a plan that was carried out.
-/

namespace BootConsole

def Happening.failure? : Happening → Option Failure
  | .writeFailed cause | .readFailed cause => some (.transport cause)
  | .showFailed cause => some (.output cause)
  | _ => none

def Unharmed (events : List Happening) : Prop :=
  ∀ event ∈ events, event.failure? = none ∧ event ≠ .closed

theorem Happening.harmless_of_goesBy {event : Happening} (goesBy : event.goesBy = true) :
    event.failure? = none ∧ event ≠ .closed := by
  cases event with
  | replied | repliedPart | received => exact ⟨rfl, nofun⟩
  | _ => cases goesBy

/-- If anything failed it was the last thing that happened, and is the outcome. -/
inductive Ends {α : Type} : List Happening → Except Failure α → Prop
  | unharmed {events : List Happening} {outcome : Except Failure α} :
      Unharmed events → Ends events outcome
  | failed {events : List Happening} {event : Happening} {failure : Failure} :
      Unharmed events → event.failure? = some failure → Ends (events ++ [event]) (.error failure)

variable {α β : Type} {events earlier later : List Happening}

namespace Unharmed

theorem append (before : Unharmed earlier) (after : Unharmed later) :
    Unharmed (earlier ++ later) := by
  intro event member
  rcases List.mem_append.mp member with member | member
  · exact before event member
  · exact after event member

theorem of_notes (notes : ∀ event ∈ events, event.isNote = true) : Unharmed events := by
  intro event member
  have note := notes event member
  cases event with
  | noted => exact ⟨rfl, nofun⟩
  | _ => cases note

end Unharmed

namespace Ends

theorem nil (outcome : Except Failure α) : Ends [] outcome :=
  .unharmed nofun

theorem at_once {event : Happening} {failure : Failure} (fails : event.failure? = some failure) :
    Ends [event] (.error failure : Except Failure α) :=
  List.nil_append [event] ▸ .failed nofun fails

theorem after {outcome : Except Failure α} (before : Unharmed earlier) (ends : Ends later outcome) :
    Ends (earlier ++ later) outcome := by
  cases ends with
  | unharmed onward => exact .unharmed (before.append onward)
  | failed onward fails =>
      rw [← List.append_assoc]
      exact .failed (before.append onward) fails

theorem cons {event : Happening} {outcome : Except Failure α}
    (harmless : event.failure? = none ∧ event ≠ .closed) (ends : Ends later outcome) :
    Ends (event :: later) outcome :=
  have before : Unharmed [event] := by simpa [Unharmed] using harmless
  ends.after before

theorem unharmed_of_ok {value : α} (ends : Ends events (.ok value : Except Failure α)) :
    Unharmed events := by
  cases ends with
  | unharmed unharmed => exact unharmed

theorem unharmed_of_disconnected (ends : Ends events (.error .disconnected : Except Failure α)) :
    Unharmed events := by
  cases ends with
  | unharmed unharmed => exact unharmed
  | @failed _ event _ _ fails => cases event <;> cases fails

theorem of_error {failure : Failure} (ends : Ends events (.error failure : Except Failure α)) :
    Ends events (.error failure : Except Failure β) := by
  cases ends with
  | unharmed unharmed => exact .unharmed unharmed
  | failed unharmed fails => exact .failed unharmed fails

theorem closed_not_mem {outcome : Except Failure α} (ends : Ends events outcome) :
    .closed ∉ events := by
  intro member
  cases ends with
  | unharmed unharmed => exact (unharmed _ member).2 rfl
  | failed unharmed fails =>
      rcases List.mem_append.mp member with member | member
      · exact (unharmed _ member).2 rfl
      · cases List.mem_singleton.mp member
        cases fails

theorem last_of_failure {outcome : Except Failure α} {event : Happening} {failure : Failure}
    (ends : Ends (earlier ++ event :: later) outcome) (fails : event.failure? = some failure) :
    later = [] ∧ outcome = .error failure := by
  generalize joined : earlier ++ event :: later = events at ends
  cases ends with
  | unharmed unharmed =>
      have harmless := (unharmed event (by simp [← joined])).1
      rw [fails] at harmless
      cases harmless
  | @failed front last other unharmed broken =>
      rcases List.eq_nil_or_concat later with rfl | ⟨rest, final, rfl⟩
      · cases (List.append_inj' joined rfl).2
        cases fails.symm.trans broken
        exact ⟨rfl, rfl⟩
      · have regrouped : (earlier ++ event :: rest) ++ [final] = front ++ [last] := by
          simpa using joined
        have inside := (List.append_inj' regrouped rfl).1
        have harmless := (unharmed event (by simp [← inside])).1
        rw [fails] at harmless
        cases harmless

end Ends

/-- Every way through the course ends with what fails first. -/
def Course.BreaksOff (course : Course α) : Prop :=
  ∀ events outcome, course events outcome → Ends events outcome

namespace Course.BreaksOff

theorem done (value : α) : BreaksOff (Course.done [] value) := by
  intro events outcome course
  rw [course.1]
  exact .nil outcome

theorem refused (failure : Failure) : BreaksOff (Course.refused failure : Course α) := by
  intro events outcome course
  rw [course.1]
  exact .nil outcome

theorem noted (value : α) : BreaksOff (Course.noted value) :=
  fun _ _ course => .unharmed (.of_notes course.1)

theorem andThen {first : Course α} {second : α → Course β} (begins : first.BreaksOff)
    (goesOn : ∀ value, (second value).BreaksOff) : (first.andThen second).BreaksOff := by
  intro events outcome course
  rcases course with ⟨failure, taken, rfl⟩ | ⟨value, earlier, later, taken, onward, rfl⟩
  · exact (begins _ _ taken).of_error
  · exact .after (begins _ _ taken).unharmed_of_ok (goesOn value _ _ onward)

end Course.BreaksOff

/-! ## Reading, showing and sending -/

theorem Reading.ends {outcome : Except Failure (Option Bytes)}
    (reads : Reading .heard events outcome) : Ends events outcome := by
  induction reads with
  | goingBy goesBy _ induction => exact .cons (Happening.harmless_of_goesBy goesBy) induction
  | text | silence | hungUp => exact .unharmed (by simp [Unharmed, Happening.failure?])
  | failed | unanswered => exact .at_once rfl

theorem Showing.ends {text : Bytes} {outcome : Except Failure Unit}
    (shows : Showing text events outcome) : Ends events outcome := by
  cases shows with
  | shown => exact .unharmed (by simp [Unharmed, Happening.failure?])
  | refused => exact .at_once rfl
  | stuck => exact .cons ⟨rfl, nofun⟩ (.at_once rfl)

theorem Sending.breaksOff (data : Bytes) : Course.BreaksOff (Sending data) := by
  intro events outcome sends
  cases sends with
  | sent => exact .unharmed (by simp [Unharmed, Happening.failure?])
  | refused => exact .at_once rfl
  | broken | stuck => exact .cons ⟨rfl, nofun⟩ (.at_once rfl)

/-! ## Waiting -/

theorem Relaying.ends {outcome : Except Failure (Option Bytes)}
    (relays : Relaying events outcome) : Ends events outcome := by
  cases relays with
  | shown reads =>
      exact .after reads.ends.unharmed_of_ok (.unharmed Showing.shown.ends.unharmed_of_ok)
  | silence reads | unread reads => exact reads.ends
  | unshown reads shows => exact .after reads.ends.unharmed_of_ok shows.ends.of_error

theorem Awaiting.breaksOff (pattern : Pattern) (watch : Watch) :
    Course.BreaksOff (Awaiting pattern watch) := by
  intro events outcome awaits
  induction awaits with
  | matched relays | late relays => exact .unharmed relays.ends.unharmed_of_ok
  | goesOn relays _ _ induction => exact .after relays.ends.unharmed_of_ok induction
  | hungUp relays => exact .unharmed relays.ends.unharmed_of_disconnected
  | failed relays => exact relays.ends.of_error

theorem Settling.breaksOff : Course.BreaksOff Settling := by
  intro events outcome settles
  induction settles with
  | quiet relays => exact .unharmed relays.ends.unharmed_of_ok
  | goesOn relays _ induction => exact .after relays.ends.unharmed_of_ok induction
  | failed relays => exact relays.ends.of_error

namespace Session

theorem requiring_breaksOff : Course.BreaksOff requiring := by
  intro events outcome course
  rw [course.1]
  exact .nil outcome

theorem interrupting_breaksOff (session : Session) : Course.BreaksOff session.interrupting := by
  refine .andThen (Sending.breaksOff _) fun _ => .andThen (Awaiting.breaksOff _ _) fun ended => ?_
  match ended with
  | (.matched _, _) => exact Settling.breaksOff
  | (.hungUp, _) => exact .refused _
  | (.late, _) => exact .refused _

theorem waiting_breaksOff (session : Session) (command : String) (pattern : Pattern)
    (watch : Watch) : Course.BreaksOff (session.waiting command pattern watch) := by
  refine .andThen (Awaiting.breaksOff _ _) fun ended => ?_
  match ended with
  | (.matched _, _) => exact .done _
  | (.hungUp, _) => exact .done _
  | (.late, _) => exact .refused _

theorem bringing_breaksOff (session : Session) (step : Step) :
    Course.BreaksOff (session.bringing step) := by
  unfold bringing
  split
  · exact session.waiting_breaksOff _ _ _
  · refine .andThen (session.waiting_breaksOff _ _ _) fun asked => ?_
    match asked with
    | (none, _) => exact .done _
    | (some _, _) =>
        exact .andThen (Sending.breaksOff _) fun _ => session.waiting_breaksOff _ _ _

theorem stepping_breaksOff (session : Session) (step : Step) :
    Course.BreaksOff (session.stepping step) :=
  .andThen requiring_breaksOff fun _ => .andThen (Sending.breaksOff _) fun _ =>
    .andThen (session.bringing_breaksOff step) fun _ => .noted _

theorem carrying_breaksOff (session : Session) (steps : List Step) :
    Course.BreaksOff (session.carrying steps) := by
  induction steps with
  | nil => exact .done []
  | cons step rest induction =>
      refine .andThen (.noted ()) fun _ =>
        .andThen (session.stepping_breaksOff step) fun response => ?_
      split
      · exact .noted _
      · exact .andThen induction fun _ => .done _

theorem performing_breaksOff (session : Session) (plan : Plan) :
    Course.BreaksOff (session.performing plan) := by
  refine .andThen (.noted ()) fun _ => .andThen ?_ fun _ => session.carrying_breaksOff _
  split
  · exact session.interrupting_breaksOff
  · exact .done ()

end Session

/-! ## The close -/

def Connection.closeFailure? (connection : Connection) : Option Failure :=
  match connection.console.closing with
  | none => none
  | some cause =>
      if connection.wire = .telnet ∧ cause.kind = .notConnected then none
      else some (.transport cause)

def closeWarning (failure : Failure) : Happening :=
  .noted .warning ("closing session after failure also failed: " ++ failure.message)

variable {connection after : Connection}

theorem Connection.Leads.closeFailure? (leads : connection.Leads events after) :
    after.closeFailure? = connection.closeFailure? := by
  rw [Connection.closeFailure?, leads.closing, leads.wire, Connection.closeFailure?]

namespace Session

/-- Closing adds itself to what has happened, and nothing else. -/
theorem close_of_open (isOpen : connection.isOpen = true) :
    close connection =
      let last := Connection.record .closed { connection with isOpen := false }
      match connection.closeFailure? with
      | none => .ok () last
      | some failure => .error failure last := by
  have shut : close connection = Connection.shutDown { connection with isOpen := false } := by
    rw [close, get_bind, if_pos isOpen]
    rfl
  rw [shut, Connection.shutDown, Connection.closeFailure?]
  cases connection.console.closing with
  | none => rfl
  | some cause => dsimp only; split <;> rfl

theorem happenings_last (connection : Connection) :
    (Connection.record .closed { connection with isOpen := false }).happenings =
      connection.happenings ++ [.closed] :=
  Connection.happenings_record _ _

variable [Pace] {session : Session} {plan : Plan}

theorem conduct_of_error {failure : Failure} (isOpen : after.isOpen = true)
    (driven : session.perform plan connection = .error failure after) :
    (stateAfter (session.conduct plan connection)).happenings =
        after.happenings ++ .closed :: (after.closeFailure?.map closeWarning).toList ∧
      outcome (session.conduct plan connection) = .error failure := by
  unfold conduct conductFor
  rw [performFor_failureMarkers, driven]
  dsimp only
  rw [close_of_open isOpen]
  cases after.closeFailure? with
  | none => exact ⟨happenings_last after, rfl⟩
  | some second =>
      refine ⟨?_, rfl⟩
      rw [stateAfter_error, Connection.happenings_record, happenings_last, List.append_assoc]
      rfl

theorem conduct_of_ok {responses : List Response} (isOpen : after.isOpen = true)
    (driven : session.perform plan connection = .ok responses after) :
    (stateAfter (session.conduct plan connection)).happenings = after.happenings ++ [.closed] ∧
      outcome (session.conduct plan connection) =
        match after.closeFailure? with
        | none => .ok responses
        | some failure => .error failure := by
  unfold conduct conductFor
  rw [performFor_failureMarkers, driven]
  dsimp only
  rw [close_of_open isOpen]
  cases after.closeFailure? with
  | none => exact ⟨happenings_last after, rfl⟩
  | some failure => exact ⟨happenings_last after, rfl⟩

theorem conduct_grows (isOpen : (stateAfter (session.perform plan connection)).isOpen = true) :
    ∃ notes, (stateAfter (session.conduct plan connection)).happenings =
        (stateAfter (session.perform plan connection)).happenings ++ .closed :: notes ∧
      ∀ note ∈ notes, note.isNote = true := by
  cases driven : session.perform plan connection with
  | error failure after =>
      rw [driven] at isOpen
      exact ⟨_, (conduct_of_error isOpen driven).1, by simp [closeWarning, Happening.isNote]⟩
  | ok responses after =>
      rw [driven] at isOpen
      exact ⟨[], (conduct_of_ok isOpen driven).1, by simp⟩

/-- The result of a plan is the failure that came first: that of the plan before that of the
close. -/
theorem conduct_closes_once (session : Session) (plan : Plan) (wire : Wire) (console : Console)
    (desk : Desk) :
    let connection := Connection.ofConsole wire console desk
    let driven := session.perform plan connection
    let result := session.conduct plan connection
    ∃ events notes,
      (stateAfter driven).happenings = connection.happenings ++ events ∧
      (stateAfter result).happenings = connection.happenings ++ events ++ .closed :: notes ∧
      .closed ∉ events ∧
      (∀ earlier event later failure, events = earlier ++ event :: later →
        event.failure? = some failure → later = [] ∧ outcome driven = .error failure) ∧
      (∀ failure, outcome driven = .error failure →
        outcome result = .error failure ∧
          notes = (connection.closeFailure?.map closeWarning).toList) ∧
      (∀ responses, outcome driven = .ok responses →
        notes = [] ∧
          outcome result =
            match connection.closeFailure? with
            | none => .ok responses
            | some failure => .error failure) := by
  intro connection driven result
  have opened : connection.isOpen = true := rfl
  rcases follows_perform session plan opened with ⟨events, leads, course⟩
  have ends := session.performing_breaksOff plan _ _ course
  have lastly (earlier : List Happening) (event : Happening) (later : List Happening)
      (failure : Failure) (joined : events = earlier ++ event :: later)
      (fails : event.failure? = some failure) : later = [] ∧ outcome driven = .error failure := by
    subst joined
    exact ends.last_of_failure fails
  have isOpen : (stateAfter driven).isOpen = true := leads.isOpen
  have closing : (stateAfter driven).closeFailure? = connection.closeFailure? := leads.closeFailure?
  have happened := leads.happenings
  -- How the connection closes was settled when it was opened; what it means depends on the plan.
  cases reached : session.perform plan connection with
  | error failure after =>
      rw [show driven = .error failure after from reached] at isOpen closing lastly ⊢
      rw [reached] at happened
      rcases conduct_of_error isOpen reached with ⟨grown, decided⟩
      rw [happened, closing] at grown
      refine ⟨events, _, happened, grown, ends.closed_not_mem, lastly, ?_, nofun⟩
      intro cause same
      cases same
      exact ⟨decided, rfl⟩
  | ok responses after =>
      rw [show driven = .ok responses after from reached] at isOpen closing lastly ⊢
      rw [reached] at happened
      rcases conduct_of_ok isOpen reached with ⟨grown, decided⟩
      rw [happened] at grown
      rw [closing] at decided
      refine ⟨events, _, happened, grown, ends.closed_not_mem, lastly, nofun, ?_⟩
      intro answers same
      cases same
      exact ⟨rfl, decided⟩

end Session

end BootConsole
