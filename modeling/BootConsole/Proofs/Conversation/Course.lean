import BootConsole.Connection.Basic

/-!
# Courses of events

What an operation on a connection does is a list of happenings, and what it comes to is a value or
a failure. A course says which lists and which outcomes go together. `Follows` ties an operation to
its course and `Follows.bind` puts courses one after the other, so the state of the connection is
looked into here and where a course is first shown, and nowhere else.
-/

namespace BootConsole

variable {α β σ : Type}

def stateAfter : EStateM.Result Failure σ α → σ
  | .ok _ after | .error _ after => after

def outcome : EStateM.Result Failure σ α → Except Failure α
  | .ok value _ => .ok value
  | .error failure _ => .error failure

@[simp] theorem stateAfter_ok (value : α) (after : σ) :
    stateAfter (.ok value after : EStateM.Result Failure σ α) = after := rfl

@[simp] theorem stateAfter_error (failure : Failure) (after : σ) :
    stateAfter (.error failure after : EStateM.Result Failure σ α) = after := rfl

@[simp] theorem outcome_ok (value : α) (after : σ) :
    outcome (.ok value after : EStateM.Result Failure σ α) = .ok value := rfl

@[simp] theorem outcome_error (failure : Failure) (after : σ) :
    outcome (.error failure after : EStateM.Result Failure σ α) = .error failure := rfl

theorem eq_ok_of_outcome {result : EStateM.Result Failure σ α} {value : α}
    (came : outcome result = .ok value) : result = .ok value (stateAfter result) := by
  cases result with
  | ok other after =>
      cases came
      rfl
  | error failure after => cases came

theorem get_bind (next : σ → Action σ α) (state : σ) :
    ((get : Action σ σ) >>= next) state = next state state := rfl

theorem modify_bind (change : σ → σ) (next : Unit → Action σ α) (state : σ) :
    ((modify change : Action σ Unit) >>= next) state = next () (change state) := rfl

theorem bind_of_ok {action : Action σ α} {state after : σ} {value : α}
    (done : action state = .ok value after) (next : α → Action σ β) :
    (action >>= next) state = next value after := by
  change EStateM.bind action next state = _
  unfold EStateM.bind
  rw [done]

theorem bind_of_error {action : Action σ α} {state after : σ} {failure : Failure}
    (failed : action state = .error failure after) (next : α → Action σ β) :
    (action >>= next) state = .error failure after := by
  change EStateM.bind action next state = _
  unfold EStateM.bind
  rw [failed]

/-- Log lines are no one's business but the operator's. -/
def Happening.isNote : Happening → Bool
  | .noted _ _ => true
  | _ => false

theorem Journal.happenings_cons (entry : Entry) (journal : Journal) :
    happenings (entry :: journal) = journal.happenings ++ [entry.event] := by
  simp [happenings]

theorem Journal.happenings_append (later earlier : Journal) :
    (later ++ earlier).happenings = earlier.happenings ++ later.happenings := by
  simp [happenings]

namespace Connection

def happenings (connection : Connection) : List Happening :=
  connection.journal.happenings

@[simp] theorem happenings_record (event : Happening) (connection : Connection) :
    (connection.record event).happenings = connection.happenings ++ [event] :=
  Journal.happenings_cons _ _

/-- One state of a connection comes about from another by these happenings. A session that is open
stays open, and a console that is known to be gone stays gone. -/
structure Leads (before : Connection) (events : List Happening) (after : Connection) : Prop where
  happenings : after.happenings = before.happenings ++ events
  wire : after.wire = before.wire
  closing : after.console.closing = before.console.closing
  isOpen : after.isOpen = before.isOpen
  hungUp : before.hungUp = true → after.hungUp = true

namespace Leads

theorem refl (connection : Connection) : connection.Leads [] connection :=
  ⟨(List.append_nil _).symm, rfl, rfl, rfl, id⟩

theorem trans {first second third : Connection} {earlier later : List Happening}
    (before : first.Leads earlier second) (after : second.Leads later third) :
    first.Leads (earlier ++ later) third where
  happenings := by rw [after.happenings, before.happenings, List.append_assoc]
  wire := after.wire.trans before.wire
  closing := after.closing.trans before.closing
  isOpen := after.isOpen.trans before.isOpen
  hungUp gone := after.hungUp (before.hungUp gone)

theorem record {first second : Connection} {earlier : List Happening}
    (before : first.Leads earlier second) (event : Happening) :
    first.Leads (earlier ++ [event]) (second.record event) :=
  before.trans ⟨happenings_record event second, rfl, rfl, rfl, id⟩

end Leads

end Connection

/-- Which happenings and which outcome of an operation go together. -/
abbrev Course (α : Type) := List Happening → Except Failure α → Prop

namespace Course

def done (expected : List Happening) (value : α) : Course α := fun events outcome =>
  events = expected ∧ outcome = .ok value

def refused (failure : Failure) : Course α := fun events outcome =>
  events = [] ∧ outcome = .error failure

def noted (value : α) : Course α := fun events outcome =>
  (∀ event ∈ events, event.isNote = true) ∧ outcome = .ok value

def andThen (first : Course α) (second : α → Course β) : Course β := fun events outcome =>
  (∃ failure, first events (.error failure) ∧ outcome = .error failure) ∨
    ∃ value earlier later,
      first earlier (.ok value) ∧ second value later outcome ∧ events = earlier ++ later

theorem andThen_of_done {expected events : List Happening} {value : α} {second : α → Course β}
    {outcome : Except Failure β}
    (course : (done expected value).andThen second events outcome) :
    ∃ later, second value later outcome ∧ events = expected ++ later := by
  rcases course with ⟨_, ⟨_, impossible⟩, _⟩ | ⟨_, _, later, ⟨rfl, equal⟩, taken, joined⟩
  · cases impossible
  · cases equal
    exact ⟨later, taken, joined⟩

theorem andThen_of_noted {events : List Happening} {value : α} {second : α → Course β}
    {outcome : Except Failure β} (course : (noted value).andThen second events outcome) :
    ∃ notes later, (∀ event ∈ notes, event.isNote = true) ∧ second value later outcome ∧
      events = notes ++ later := by
  rcases course with ⟨_, ⟨_, impossible⟩, _⟩ | ⟨_, notes, later, ⟨only, equal⟩, taken, joined⟩
  · cases impossible
  · cases equal
    exact ⟨notes, later, only, taken, joined⟩

theorem parts_of_ok {first : Course α} {second : α → Course β} {events : List Happening}
    {value : β} (course : first.andThen second events (.ok value)) :
    ∃ between earlier later, first earlier (.ok between) ∧ second between later (.ok value) ∧
      events = earlier ++ later := by
  rcases course with ⟨_, _, impossible⟩ | parts
  · cases impossible
  · exact parts

theorem noted_of_noted_andThen {events : List Happening} {value : α} {other : β}
    {outcome : Except Failure β}
    (course : (noted value).andThen (fun _ => noted other) events outcome) :
    noted other events outcome := by
  rcases andThen_of_noted course with ⟨notes, later, only, ⟨others, equal⟩, rfl⟩
  refine ⟨fun event member => ?_, equal⟩
  rcases List.mem_append.mp member with member | member
  · exact only event member
  · exact others event member

end Course

namespace Connection

def Follows (connection : Connection) (course : Course α)
    (result : EStateM.Result Failure Connection α) : Prop :=
  ∃ events, connection.Leads events (stateAfter result) ∧ course events (outcome result)

namespace Follows

variable {connection : Connection} {first : Course α} {second : α → Course β}

theorem mono {course wider : Course α} {result : EStateM.Result Failure Connection α}
    (follows : connection.Follows course result)
    (included : ∀ events outcome, course events outcome → wider events outcome) :
    connection.Follows wider result := by
  rcases follows with ⟨events, leads, taken⟩
  exact ⟨events, leads, included _ _ taken⟩

theorem pure (value : α) :
    connection.Follows (.done [] value) ((Pure.pure value : Action Connection α) connection) :=
  ⟨[], .refl connection, rfl, rfl⟩

theorem pure_noted (value : α) :
    connection.Follows (.noted value) ((Pure.pure value : Action Connection α) connection) :=
  ⟨[], .refl connection, by simp, rfl⟩

theorem throw (failure : Failure) :
    connection.Follows (.refused failure : Course α)
      ((MonadExcept.throw failure : Action Connection α) connection) :=
  ⟨[], .refl connection, rfl, rfl⟩

/-- The second operation may rely on what the first leaves alone. -/
theorem bind {action : Action Connection α} {next : α → Action Connection β}
    (begun : connection.Follows first (action connection))
    (goesOn : ∀ value (after : Connection), after.isOpen = connection.isOpen →
      after.Follows (second value) (next value after)) :
    connection.Follows (first.andThen second) ((action >>= next) connection) := by
  rcases begun with ⟨earlier, leads, taken⟩
  cases done : action connection with
  | error failure after =>
      rw [done] at leads taken
      rw [bind_of_error done]
      exact ⟨earlier, leads, .inl ⟨failure, taken, rfl⟩⟩
  | ok value after =>
      rw [done] at leads taken
      rw [bind_of_ok done]
      rcases goesOn value after leads.isOpen with ⟨later, onward, finished⟩
      exact ⟨earlier ++ later, leads.trans onward,
        .inr ⟨value, earlier, later, taken, finished, rfl⟩⟩

end Follows

end Connection

end BootConsole
