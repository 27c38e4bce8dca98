import BootConsole.Proofs.Conversation.Steps
import BootConsole.Proofs.Output.History

/-!
# What happens while a session waits

Happenings are told apart by what they mean to the conversation. A wait says nothing to the console,
and as long as nothing goes wrong in it, all that happens is text on its way to the operator.
-/

namespace BootConsole

namespace Happening

/-- Bytes of a line reach the stream, or a line has gone out. -/
def speaks : Happening → Bool
  | .wrote _ | .wrotePart _ | .sent _ => true
  | _ => false

/-- A failure of the connection or the terminal, the end of the console's output, or the end of the
connection. -/
def stops : Happening → Bool
  | .writeFailed _ | .showFailed _ | .readFailed _ | .hungUp | .closed => true
  | _ => false

def flows : Happening → Bool
  | .replied _ | .repliedPart _ | .received _ | .heard _ | .shown _ | .flushed => true
  | _ => false

def isOfWait : Happening → Bool
  | .silence | .hungUp | .readFailed _ | .writeFailed _ | .showFailed _ => true
  | event => event.flows

def heard? : Happening → Option Bytes
  | .heard text => some text
  | _ => none

def sent? : Happening → Option Bytes
  | .sent data => some data
  | _ => none

def shown? : Happening → Option Bytes
  | .shown data => some data
  | _ => none

theorem flows_of_goesBy {event : Happening} (goesBy : event.goesBy = true) :
    event.flows = true := by
  cases event <;> simp_all [Happening.goesBy, flows]

theorem isOfWait_of_flows {event : Happening} (flows : event.flows = true) :
    event.isOfWait = true := by
  cases event <;> simp_all [Happening.flows, isOfWait]

theorem stops_of_flows {event : Happening} (flows : event.flows = true) :
    event.stops = false := by
  cases event <;> simp_all [Happening.flows, stops]

theorem speaks_of_isOfWait {event : Happening} (ofWait : event.isOfWait = true) :
    event.speaks = false := by
  cases event <;> simp_all [isOfWait, Happening.flows, speaks]

theorem speaks_of_isNote {event : Happening} (isNote : event.isNote = true) :
    event.speaks = false := by
  cases event <;> simp_all [Happening.isNote, speaks]

theorem stops_of_isNote {event : Happening} (isNote : event.isNote = true) :
    event.stops = false := by
  cases event <;> simp_all [Happening.isNote, stops]

end Happening

def heardIn (events : List Happening) : List Bytes :=
  events.filterMap Happening.heard?

def sentIn (events : List Happening) : List Bytes :=
  events.filterMap Happening.sent?

def shownIn (events : List Happening) : Bytes :=
  (events.filterMap Happening.shown?).flatten

@[simp] theorem heardIn_append (earlier later : List Happening) :
    heardIn (earlier ++ later) = heardIn earlier ++ heardIn later :=
  List.filterMap_append

@[simp] theorem sentIn_append (earlier later : List Happening) :
    sentIn (earlier ++ later) = sentIn earlier ++ sentIn later :=
  List.filterMap_append

@[simp] theorem shownIn_append (earlier later : List Happening) :
    shownIn (earlier ++ later) = shownIn earlier ++ shownIn later := by
  simp [shownIn]

theorem heardIn_cons_of_goesBy {event : Happening} (goesBy : event.goesBy = true)
    (events : List Happening) : heardIn (event :: events) = heardIn events := by
  cases event with
  | replied | repliedPart | received => rfl
  | _ => cases goesBy

theorem shownIn_cons_of_goesBy {event : Happening} (goesBy : event.goesBy = true)
    (events : List Happening) : shownIn (event :: events) = shownIn events := by
  cases event with
  | replied | repliedPart | received => rfl
  | _ => cases goesBy

theorem sentIn_eq_nil {events : List Happening}
    (silent : ∀ event ∈ events, event.speaks = false) : sentIn events = [] := by
  rw [sentIn, List.filterMap_eq_nil_iff]
  intro event member
  have quiet := silent event member
  cases event <;> simp_all [Happening.speaks, Happening.sent?]

theorem sentIn_cons_of_isNote {event : Happening} (note : event.isNote = true)
    (events : List Happening) : sentIn (event :: events) = sentIn events := by
  cases event with
  | noted => rfl
  | _ => cases note

variable {events : List Happening}

theorem Reading.isOfWait {outcome : Except Failure (Option Bytes)}
    (reads : Reading .heard events outcome) : ∀ event ∈ events, event.isOfWait = true := by
  induction reads with
  | goingBy goesBy _ induction =>
      intro event member
      rcases List.mem_cons.mp member with rfl | member
      · exact Happening.isOfWait_of_flows (Happening.flows_of_goesBy goesBy)
      · exact induction event member
  | text | silence | hungUp | failed | unanswered => simp [Happening.isOfWait, Happening.flows]

theorem Reading.flows_of_text {chunk : Bytes} (reads : Reading .heard events (.ok (some chunk))) :
    (∀ event ∈ events, event.flows = true) ∧ heardIn events = [chunk] := by
  generalize equal : (Except.ok (some chunk) : Except Failure (Option Bytes)) = outcome at reads
  induction reads with
  | goingBy goesBy _ induction =>
      rcases induction equal with ⟨flows, heard⟩
      refine ⟨?_, (heardIn_cons_of_goesBy goesBy _).trans heard⟩
      intro other member
      rcases List.mem_cons.mp member with rfl | member
      · exact Happening.flows_of_goesBy goesBy
      · exact flows other member
  | text bytes =>
      cases equal
      exact ⟨by simp [Happening.flows], rfl⟩
  | silence | hungUp | failed | unanswered => cases equal

theorem Reading.heardIn_eq_nil {outcome : Except Failure (Option Bytes)}
    (none : ∀ chunk, outcome ≠ .ok (some chunk)) (reads : Reading .heard events outcome) :
    heardIn events = [] := by
  induction reads with
  | goingBy goesBy _ induction => exact (heardIn_cons_of_goesBy goesBy _).trans (induction none)
  | text chunk => exact (none chunk rfl).elim
  | silence | hungUp | failed | unanswered => rfl

theorem Reading.shownIn_eq_nil {outcome : Except Failure (Option Bytes)}
    (reads : Reading .heard events outcome) : shownIn events = [] := by
  induction reads with
  | goingBy goesBy _ induction => exact (shownIn_cons_of_goesBy goesBy _).trans induction
  | text | silence | hungUp | failed | unanswered => rfl

theorem Reading.quiet_of_silence (reads : Reading .heard events (.ok none)) :
    ∃ noise, events = noise ++ [.silence] ∧ ∀ event ∈ noise, event.flows = true := by
  generalize equal : (Except.ok none : Except Failure (Option Bytes)) = outcome at reads
  induction reads with
  | @goingBy event _ _ goesBy _ induction =>
      rcases induction equal with ⟨noise, rfl, flows⟩
      exact ⟨event :: noise, rfl,
        List.forall_mem_cons.mpr ⟨Happening.flows_of_goesBy goesBy, flows⟩⟩
  | silence => exact ⟨[], rfl, nofun⟩
  | text | hungUp | failed | unanswered => cases equal

theorem Showing.isOfWait {text : Bytes} {outcome : Except Failure Unit}
    (shows : Showing text events outcome) : ∀ event ∈ events, event.isOfWait = true := by
  cases shows <;> simp [Happening.isOfWait, Happening.flows]

namespace Relaying

theorem isOfWait {outcome : Except Failure (Option Bytes)} (relays : Relaying events outcome) :
    ∀ event ∈ events, event.isOfWait = true := by
  intro event member
  cases relays with
  | shown reads =>
      rcases List.mem_append.mp member with member | member
      · exact reads.isOfWait event member
      · exact Showing.shown.isOfWait event member
  | silence reads | unread reads => exact reads.isOfWait event member
  | unshown reads shows =>
      rcases List.mem_append.mp member with member | member
      · exact reads.isOfWait event member
      · exact shows.isOfWait event member

theorem flows_of_chunk {chunk : Bytes} (relays : Relaying events (.ok (some chunk))) :
    (∀ event ∈ events, event.flows = true) ∧ heardIn events = [chunk] := by
  cases relays with
  | shown reads =>
      rcases reads.flows_of_text with ⟨flows, heard⟩
      refine ⟨?_, by rw [heardIn_append, heard]; rfl⟩
      intro event member
      rcases List.mem_append.mp member with member | member
      · exact flows event member
      · rcases List.mem_pair.mp member with rfl | rfl <;> rfl

theorem quiet_of_silence (relays : Relaying events (.ok none)) :
    ∃ noise, events = noise ++ [.silence] ∧ ∀ event ∈ noise, event.flows = true := by
  cases relays with
  | silence reads => exact reads.quiet_of_silence

theorem shownIn_of_chunk {chunk : Bytes} (relays : Relaying events (.ok (some chunk))) :
    shownIn events = chunk := by
  cases relays with
  | shown reads =>
      rw [shownIn_append, reads.shownIn_eq_nil]
      simp [shownIn, Happening.shown?]

/-- Nothing is heard in a read at whose end there is nothing to look at. -/
theorem nothing_of_silence (relays : Relaying events (.ok none)) :
    heardIn events = [] ∧ shownIn events = [] := by
  cases relays with
  | silence reads => exact ⟨reads.heardIn_eq_nil (by simp), reads.shownIn_eq_nil⟩

theorem nothing_of_hangUp (relays : Relaying events (.error .disconnected)) :
    heardIn events = [] ∧ shownIn events = [] := by
  cases relays with
  | unread reads => exact ⟨reads.heardIn_eq_nil (by simp), reads.shownIn_eq_nil⟩
  | unshown _ shows => cases shows

end Relaying

theorem Awaiting.isOfWait {pattern : Pattern} {watch : Watch}
    {outcome : Except Failure (WaitEnd × Watch)} (awaits : Awaiting pattern watch events outcome) :
    ∀ event ∈ events, event.isOfWait = true := by
  induction awaits with
  | matched relays | late relays | hungUp relays | failed relays => exact relays.isOfWait
  | goesOn relays _ _ induction =>
      intro event member
      rcases List.mem_append.mp member with member | member
      · exact relays.isOfWait event member
      · exact induction event member

/-- A wait has looked at all that it has heard, and has shown it. -/
theorem Awaiting.relayed {pattern : Pattern} {watch seen : Watch} {ended : WaitEnd}
    (awaits : Awaiting pattern watch events (.ok (ended, seen))) :
    seen = watch.takeAll (heardIn events) ∧ shownIn events = (heardIn events).flatten := by
  generalize equal : (Except.ok (ended, seen) : Except Failure (WaitEnd × Watch)) = outcome
    at awaits
  induction awaits with
  | matched relays =>
      cases equal
      rw [relays.flows_of_chunk.2, relays.shownIn_of_chunk]
      simp
  | goesOn relays _ _ induction =>
      rcases induction equal with ⟨taken, shown⟩
      rw [heardIn_append, shownIn_append, relays.flows_of_chunk.2, relays.shownIn_of_chunk, shown]
      exact ⟨taken, by simp⟩
  | late relays =>
      cases equal
      rw [relays.nothing_of_silence.1, relays.nothing_of_silence.2]
      exact ⟨rfl, rfl⟩
  | hungUp relays =>
      cases equal
      rw [relays.nothing_of_hangUp.1, relays.nothing_of_hangUp.2]
      exact ⟨rfl, rfl⟩
  | failed => cases equal

/-- A wait that ends by a match has only heard text, the last of which brought the match. -/
theorem Awaiting.found {pattern : Pattern} {watch seen : Watch} {bytes : Bytes}
    (awaits : Awaiting pattern watch events (.ok (.matched bytes, seen))) :
    (∀ event ∈ events, event.flows = true) ∧ heardIn events ≠ [] ∧
      seen.match? pattern = some bytes := by
  generalize equal : (Except.ok (.matched bytes, seen) : Except Failure (WaitEnd × Watch)) = outcome
    at awaits
  induction awaits with
  | matched relays found =>
      cases equal
      exact ⟨relays.flows_of_chunk.1, by simp [relays.flows_of_chunk.2], found⟩
  | goesOn relays _ _ induction =>
      rcases induction equal with ⟨flows, heard, found⟩
      refine ⟨?_, by simp [heard], found⟩
      intro event member
      rcases List.mem_append.mp member with member | member
      · exact relays.flows_of_chunk.1 event member
      · exact flows event member
  | late | hungUp | failed => cases equal

theorem Settling.isOfWait {outcome : Except Failure Unit} (settles : Settling events outcome) :
    ∀ event ∈ events, event.isOfWait = true := by
  induction settles with
  | quiet relays | failed relays => exact relays.isOfWait
  | goesOn relays _ induction =>
      intro event member
      rcases List.mem_append.mp member with member | member
      · exact relays.isOfWait event member
      · exact induction event member

/-- The wait for quiet ends with the first silence. -/
theorem Settling.quiet_of_ok (settles : Settling events (.ok ())) :
    ∃ noise, events = noise ++ [.silence] ∧ ∀ event ∈ noise, event.flows = true := by
  generalize equal : (Except.ok () : Except Failure Unit) = outcome at settles
  induction settles with
  | quiet relays => exact relays.quiet_of_silence
  | @goesOn earlier _ _ _ relays _ induction =>
      rcases induction equal with ⟨noise, rfl, flows⟩
      refine ⟨earlier ++ noise, (List.append_assoc _ _ _).symm, ?_⟩
      intro event member
      rcases List.mem_append.mp member with member | member
      · exact relays.flows_of_chunk.1 event member
      · exact flows event member
  | failed => cases equal

theorem Settling.shown_of_ok (settles : Settling events (.ok ())) :
    shownIn events = (heardIn events).flatten := by
  generalize equal : (Except.ok () : Except Failure Unit) = outcome at settles
  induction settles with
  | quiet relays =>
      rw [relays.nothing_of_silence.1, relays.nothing_of_silence.2]
      rfl
  | goesOn relays _ induction =>
      rw [heardIn_append, shownIn_append, relays.flows_of_chunk.2, relays.shownIn_of_chunk,
        induction equal]
      simp
  | failed => cases equal

/-- A wait of a step that comes to something was ended by a match or by the console. -/
theorem Session.awaiting_of_waiting {session : Session} {command : String} {pattern : Pattern}
    {watch seen : Watch} {ending : Option Bytes}
    (waits : session.waiting command pattern watch events (.ok (ending, seen))) :
    (∃ bytes, ending = some bytes ∧
      Awaiting pattern watch events (.ok (.matched bytes, seen))) ∨
    (ending = none ∧ Awaiting pattern watch events (.ok (.hungUp, seen))) := by
  rcases Course.parts_of_ok waits with ⟨ended, earlier, later, awaits, afterwards, rfl⟩
  match ended with
  | (.matched bytes, _) =>
      rcases afterwards with ⟨rfl, equal⟩
      cases equal
      rw [List.append_nil]
      exact .inl ⟨bytes, rfl, awaits⟩
  | (.hungUp, _) =>
      rcases afterwards with ⟨rfl, equal⟩
      cases equal
      rw [List.append_nil]
      exact .inr ⟨rfl, awaits⟩
  | (.late, _) =>
      rcases afterwards with ⟨_, impossible⟩
      cases impossible

theorem Session.relayed_of_waiting {session : Session} {command : String} {pattern : Pattern}
    {watch seen : Watch} {ending : Option Bytes}
    (waits : session.waiting command pattern watch events (.ok (ending, seen))) :
    seen = watch.takeAll (heardIn events) ∧ shownIn events = (heardIn events).flatten := by
  rcases awaiting_of_waiting waits with ⟨_, _, awaits⟩ | ⟨_, awaits⟩
  · exact awaits.relayed
  · exact awaits.relayed

/-- Sending is neither heard nor shown. -/
theorem Sending.nothing {data : Bytes} {outcome : Except Failure Unit}
    (sends : Sending data events outcome) : heardIn events = [] ∧ shownIn events = [] := by
  cases sends <;> exact ⟨rfl, rfl⟩

theorem nothing_of_notes (notes : ∀ event ∈ events, event.isNote = true) :
    heardIn events = [] ∧ shownIn events = [] := by
  induction events with
  | nil => exact ⟨rfl, rfl⟩
  | cons event rest induction =>
      rcases List.forall_mem_cons.mp notes with ⟨note, others⟩
      cases event with
      | noted => exact induction others
      | _ => cases note

end BootConsole
