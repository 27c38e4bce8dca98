import BootConsole.Proofs.Conversation.Closing
import BootConsole.Proofs.Conversation.Stages

/-!
# The script

Each course of a session moves a conversation from one stage to another and utters some exchanges on
the way. Put together as the session puts its operations together, they utter the script of a plan.
-/

namespace BootConsole

variable {α β : Type}

/-- Between two stages of a conversation the course utters these exchanges, or fewer and nothing is
to be said after it. Only with a value that `goesOn` allows is there more to say. -/
def Course.Utters (depth : Nat) (before : Stage) (exchanges : List Exchange) (after : Stage)
    (goesOn : α → Prop) (course : Course α) : Prop :=
  ∀ events outcome, course events outcome → ∀ owed later,
    ((∀ event ∈ later, event.speaks = false) ∨
      ∃ value, outcome = .ok value ∧ goesOn value ∧ Conversing depth after owed later) →
    Conversing depth before (exchanges ++ owed) (events ++ later)

def Course.Mute (goesOn : α → Prop) (course : Course α) : Prop :=
  ∀ events outcome, course events outcome →
    (∀ event ∈ events, event.speaks = false) ∧ ∀ value, outcome = .ok value → ¬goesOn value

namespace Course.Utters

variable {depth : Nat} {before between after : Stage} {first second : List Exchange}
  {goesOn : α → Prop} {goesFurther : β → Prop} {begins : Course α} {next : α → Course β}

theorem andThen (utters : begins.Utters depth before first between goesOn)
    (onward : ∀ events value, begins events (.ok value) → goesOn value →
      (next value).Utters depth between second after goesFurther)
    (ends : ∀ value, ¬goesOn value → (next value).Mute goesFurther) :
    (begins.andThen next).Utters depth before (first ++ second) after goesFurther := by
  intro events outcome course owed later afterwards
  rw [List.append_assoc]
  rcases course with ⟨failure, taken, rfl⟩ | ⟨value, earlier, rest, taken, taken', rfl⟩
  · apply utters events _ taken
    rcases afterwards with silent | ⟨_, impossible, _⟩
    · exact .inl silent
    · cases impossible
  · rw [List.append_assoc]
    apply utters earlier _ taken
    by_cases more : goesOn value
    · exact .inr ⟨value, rfl, more, onward earlier value taken more rest outcome taken' owed later
        afterwards⟩
    · rcases ends value more rest outcome taken' with ⟨quiet, finished⟩
      rcases afterwards with silent | ⟨last, rfl, further, _⟩
      · left
        intro event member
        rcases List.mem_append.mp member with member | member
        · exact quiet event member
        · exact silent event member
      · exact absurd further (finished last rfl)

/-- Nothing is left to say after the first course. -/
theorem andThen_idle (utters : begins.Utters depth before first between goesOn)
    (onward : ∀ events value, begins events (.ok value) → goesOn value →
      (next value).Utters depth between [] after goesFurther)
    (ends : ∀ value, ¬goesOn value → (next value).Mute goesFurther) :
    (begins.andThen next).Utters depth before first after goesFurther :=
  List.append_nil first ▸ utters.andThen onward ends

/-- The first course leaves nothing to decide. -/
theorem andThen_always {begins : Course Unit} {next : Unit → Course β}
    (utters : begins.Utters depth before first between (fun _ => True))
    (onward : ∀ value, (next value).Utters depth between second after goesFurther) :
    (begins.andThen next).Utters depth before (first ++ second) after goesFurther :=
  utters.andThen (fun _ value _ _ => onward value) fun _ finished => absurd trivial finished

/-- At most log lines come of the course. -/
theorem of_notes {course : Course α}
    (notes : ∀ events outcome, course events outcome → ∀ event ∈ events, event.isNote = true) :
    course.Utters depth .free [] .free goesOn := by
  intro events outcome taken owed later afterwards
  have noted := notes events outcome taken
  rcases afterwards with quiet | ⟨value, rfl, _, conversing⟩
  · exact .silent_append (fun event member => Happening.speaks_of_isNote (noted event member)) quiet
  · exact conversing.notes_append noted

theorem done (value : α) : (Course.done [] value).Utters depth .free [] .free goesOn := by
  apply of_notes
  intro events outcome taken
  rw [taken.1]
  simp

theorem noted (value : α) : (Course.noted value).Utters depth .free [] .free goesOn := by
  apply of_notes
  intro events outcome taken
  exact taken.1

theorem requiring {goesOn : Unit → Prop} :
    Session.requiring.Utters depth .free [] .free goesOn := by
  apply of_notes
  intro events outcome taken
  rw [taken.1]
  simp

theorem sending (exchange : Exchange) :
    Course.Utters depth .free [exchange] (.waiting exchange) (fun _ => True)
      (Sending (lineBytes exchange.line)) := by
  intro events outcome sends owed later afterwards
  cases sends with
  | sent written =>
      apply Conversing.said
      rcases afterwards with silent | ⟨_, _, _, conversing⟩
      · exact .silent silent
      · exact conversing
  | refused cause =>
      rcases afterwards with silent | ⟨_, impossible, _⟩
      · exact .silent_append (by simp [Happening.speaks]) silent
      · cases impossible
  | broken part cause =>
      rcases afterwards with silent | ⟨_, impossible, _⟩
      · exact .broken (by simpa [Happening.speaks] using silent)
      · cases impossible
  | stuck written cause =>
      rcases afterwards with silent | ⟨_, impossible, _⟩
      · exact .stuck (by simpa [Happening.speaks] using silent)
      · cases impossible

theorem awaiting {exchange : Exchange} {watch : Watch} (fresh : watch.Fresh) :
    Course.Utters watch.window.depth (.waiting exchange) [] exchange.onward
      (fun ended => ∃ bytes, ended.1 = .matched bytes) (Awaiting exchange.awaited watch) := by
  intro events outcome awaits owed later afterwards
  rcases afterwards with silent | ⟨⟨_, seen⟩, rfl, ⟨bytes, rfl⟩, conversing⟩
  · apply Conversing.silent_append _ silent
    intro event member
    exact Happening.speaks_of_isOfWait (awaits.isOfWait event member)
  · exact .answered (awaits.answered fresh) conversing

theorem settling {exchange : Exchange} (settles : exchange.settles = true) :
    Course.Utters depth (.settling exchange) [] .free (fun _ => True) Settling := by
  intro events outcome settling owed later afterwards
  rcases afterwards with silent | ⟨_, rfl, _, conversing⟩
  · apply Conversing.silent_append _ silent
    intro event member
    exact Happening.speaks_of_isOfWait (settling.isOfWait event member)
  · rcases settling.quiet_of_ok with ⟨noise, rfl, flows⟩
    rw [List.append_assoc]
    exact .settled settles flows conversing

end Course.Utters

namespace Course.Mute

variable {goesOn : α → Prop}

theorem done {value : α} (finished : ¬goesOn value) : (Course.done [] value).Mute goesOn := by
  intro events outcome taken
  rcases taken with ⟨rfl, rfl⟩
  refine ⟨by simp, ?_⟩
  intro other same
  cases same
  exact finished

theorem refused (failure : Failure) : (Course.refused failure : Course α).Mute goesOn := by
  intro events outcome taken
  rcases taken with ⟨rfl, rfl⟩
  exact ⟨by simp, nofun⟩

theorem noted {value : α} (finished : ¬goesOn value) : (Course.noted value).Mute goesOn := by
  intro events outcome taken
  rcases taken with ⟨notes, rfl⟩
  refine ⟨fun event member => Happening.speaks_of_isNote (notes event member), ?_⟩
  intro other same
  cases same
  exact finished

end Course.Mute

/-! ## What a plan utters -/

namespace Session

variable {session : Session}

/-- The prompt comes first, then quiet. -/
theorem interrupting_utters :
    Course.Utters session.depth .free [⟨Bootloader.interruptLine, session.prompt, true⟩] .free
      (fun _ => True) session.interrupting := by
  apply (Course.Utters.sending ⟨Bootloader.interruptLine, session.prompt, true⟩).andThen_always
  intro _
  refine (Course.Utters.awaiting (Watch.fresh_start _ _)).andThen_idle ?_ ?_
  · intro _ ended _ matched
    rcases ended with ⟨_, seen⟩
    rcases matched with ⟨bytes, rfl⟩
    exact .settling rfl
  · intro ended finished
    match ended with
    | (.matched bytes, _) => exact absurd ⟨bytes, rfl⟩ finished
    | (.hungUp, _) => exact .refused _
    | (.late, _) => exact .refused _

theorem waiting_utters {line command : String} {pattern : Pattern} {watch : Watch}
    (fresh : watch.Fresh) (depth : watch.window.depth = session.depth) :
    Course.Utters session.depth (.waiting ⟨line, pattern, false⟩) [] .free
      (fun brought => brought.1.isSome = true) (session.waiting command pattern watch) := by
  rw [← depth]
  refine (Course.Utters.awaiting fresh).andThen_idle ?_ ?_
  · intro _ ended _ matched
    rcases ended with ⟨_, seen⟩
    rcases matched with ⟨bytes, rfl⟩
    exact .done _
  · intro ended finished
    match ended with
    | (.matched bytes, _) => exact absurd ⟨bytes, rfl⟩ finished
    | (.hungUp, _) => exact .done (by simp)
    | (.late, _) => exact .refused _

/-- The question comes before the answer. -/
theorem answering_utters (step : Step) (reply : Reply) :
    let watch := Watch.start session.depth Bootloader.failureMarkers
    Course.Utters session.depth (.waiting ⟨step.command, reply.question, false⟩)
      [⟨reply.answer, step.expect, false⟩] .free (fun brought => brought.1.isSome = true)
      ((session.waiting step.command reply.question watch).andThen
        (session.afterQuestion step reply.answer)) := by
  intro watch
  have fresh : watch.Fresh := Watch.fresh_start _ _
  refine (waiting_utters fresh rfl).andThen ?_ ?_
  · intro events brought waits answered
    rcases brought with ⟨ending, seen⟩
    rcases relayed_of_waiting waits with ⟨rfl, _⟩
    have depth : (watch.takeAll (heardIn events)).turn.window.depth = session.depth :=
      Watch.depth_takeAll watch _
    cases ending with
    | none => cases answered
    | some bytes =>
        exact (Course.Utters.sending ⟨reply.answer, step.expect, false⟩).andThen_always
          fun _ => waiting_utters (fresh.turn _) depth
  · intro brought finished
    rcases brought with ⟨ending, seen⟩
    cases ending with
    | none => exact .done finished
    | some bytes => exact absurd rfl finished

theorem bringing_utters (session : Session) (step : Step) :
    ∃ exchange rest, step.exchanges = exchange :: rest ∧ exchange.line = step.command ∧
      Course.Utters session.depth (.waiting exchange) rest .free
        (fun brought => brought.1.isSome = true) (session.bringing step) := by
  unfold bringing Step.exchanges
  cases step.reply with
  | none => exact ⟨_, _, rfl, rfl, waiting_utters (Watch.fresh_start _ _) rfl⟩
  | some reply => exact ⟨_, _, rfl, rfl, answering_utters step reply⟩

theorem stepping_utters (step : Step) :
    Course.Utters session.depth .free step.exchanges .free (fun response => response.closed = false)
      (session.stepping step) := by
  rcases bringing_utters session step with ⟨exchange, rest, exchanged, line, brings⟩
  have concluding : Course.Utters session.depth (.waiting exchange) rest .free
      (fun response => response.closed = false)
      ((session.bringing step).andThen fun brought =>
        .noted (response step brought.1 brought.2)) := by
    refine brings.andThen_idle (fun _ _ _ _ => .noted _) fun brought finished => .noted ?_
    simpa [response] using finished
  rw [exchanged, stepping, ← line]
  apply Course.Utters.requiring.andThen_always
  intro _
  exact (Course.Utters.sending exchange).andThen_always fun _ => concluding

theorem carrying_utters (steps : List Step) :
    Course.Utters session.depth .free (steps.flatMap Step.exchanges) .free (fun _ => False)
      (session.carrying steps) := by
  induction steps with
  | nil => exact .done []
  | cons step rest induction =>
      apply (Course.Utters.noted ()).andThen_always
      intro _
      refine (stepping_utters step).andThen ?_ ?_
      · intro _ response _ goesOn
        rw [goesOn]
        exact induction.andThen_idle (fun _ _ _ => False.elim) fun _ _ => .done id
      · intro response finished
        rw [Bool.not_eq_false] at finished
        rw [finished]
        exact .noted id

theorem performing_utters (plan : Plan) :
    Course.Utters session.depth .free (session.exchanges plan) .free (fun _ => False)
      (session.performing plan) := by
  have begins : Course.Utters session.depth .free
      (if plan.interrupts then [⟨Bootloader.interruptLine, session.prompt, true⟩] else []) .free
      (fun _ => True) (if plan.interrupts then session.interrupting else .done [] ()) := by
    split
    · exact interrupting_utters
    · exact .done ()
  apply (Course.Utters.noted ()).andThen_always
  intro _
  exact begins.andThen_always fun _ => carrying_utters plan.steps

/-- However a session goes and ends, it is a conversation about the lines of its plan. -/
theorem conversing_conduct [Pace] (session : Session) (plan : Plan) (wire : Wire)
    (console : Console) (desk : Desk) :
    ∃ events,
      (stateAfter (session.conduct plan (.ofConsole wire console desk))).happenings =
        desk.journal.happenings ++ events ∧
      Conversing session.depth .free (session.exchanges plan) events := by
  have isOpen : (Connection.ofConsole wire console desk).isOpen = true := rfl
  rcases follows_perform session plan isOpen with ⟨events, leads, course⟩
  rcases conduct_grows leads.isOpen with ⟨notes, grown, noted⟩
  refine ⟨events ++ .closed :: notes, ?_, ?_⟩
  · rw [grown, leads.happenings, List.append_assoc]
    rfl
  · have utters := performing_utters plan events _ course [] (.closed :: notes)
    rw [List.append_nil] at utters
    have silent : ∀ event ∈ Happening.closed :: notes, event.speaks = false := by
      intro event member
      rcases List.mem_cons.mp member with rfl | member
      · rfl
      · exact Happening.speaks_of_isNote (noted event member)
    exact utters (.inl silent)

/-- The lines that go out are the first lines of the script. None goes out, not even in part, after
a failure, a hang-up or the close, none after a read that timed out, unless that was the quiet after
the interrupt, and none after a line whose pattern has not been found in what was heard since. -/
theorem conduct_keeps_to_script [Pace] (session : Session) (plan : Plan) (wire : Wire)
    (console : Console) (desk : Desk) :
    ∃ events,
      (stateAfter (session.conduct plan (.ofConsole wire console desk))).happenings =
        desk.journal.happenings ++ events ∧
      sentIn events <+: plan.script.map lineBytes ∧
      (∀ earlier event later, events = earlier ++ event :: later → event.speaks = true →
        ∀ other ∈ earlier, other.stops = false) ∧
      (∀ earlier later, events = earlier ++ .silence :: later →
        (∃ event ∈ later, event.speaks = true) →
        plan.interrupts = true ∧ (sentIn earlier).length = 1) ∧
      ∀ earlier line between event later,
        events = earlier ++ .sent line :: (between ++ event :: later) → event.speaks = true →
        ∃ exchange wait, (session.exchanges plan)[(sentIn earlier).length]? = some exchange ∧
          line = lineBytes exchange.line ∧ wait <+: between ∧
          Answered session.depth exchange.awaited wait := by
  rcases conversing_conduct session plan wire console desk with ⟨events, grown, conversing⟩
  refine ⟨events, grown, ?_, ?_, ?_, ?_⟩
  · have begun := conversing.sentIn_prefix
    rw [← lines_exchanges session plan, List.map_map]
    exact begun
  · intro earlier event later joined speaks
    exact conversing.undisturbed joined speaks
  · intro earlier later joined spoken
    rcases spoken with ⟨event, member, speaks⟩
    rcases conversing.settles_of_silence joined member speaks with
      ⟨front, exchange, further, split, settles, length⟩
    rcases interrupts_of_settles split settles with ⟨interrupts, rfl⟩
    change 0 + 1 = 0 + (sentIn earlier).length at length
    exact ⟨interrupts, by omega⟩
  · intro earlier line between event later joined speaks
    exact conversing.answered_between joined speaks

end Session

end BootConsole
