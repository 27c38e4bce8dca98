import BootConsole.Proofs.Conversation.Flow
import BootConsole.Proofs.Conversation.SingleSteps

/-!
# What is said

A session puts its lines on the stream when the plan comes to them, in the order of the script. The
stream takes each of them as a whole, but perhaps for the last, if it fails within it.
-/

namespace BootConsole

variable {α β : Type}

namespace Happening

def wrote? : Happening → Option Bytes
  | .wrote data => some data
  | _ => none

/-- What the stream took, be it of a line or of an answer to an option, the whole or a part. -/
def written? : Happening → Option Bytes
  | .wrote data | .wrotePart data | .replied data | .repliedPart data => some data
  | _ => none

def breaksLine : Happening → Bool
  | .wrotePart _ => true
  | _ => false

theorem breaksLine_of_speaks {event : Happening} (silent : event.speaks = false) :
    event.breaksLine = false := by
  cases event <;> simp_all [speaks, breaksLine]

end Happening

def wroteIn (events : List Happening) : List Bytes :=
  events.filterMap Happening.wrote?

def writtenIn (events : List Happening) : List Bytes :=
  events.filterMap Happening.written?

@[simp] theorem wroteIn_append (earlier later : List Happening) :
    wroteIn (earlier ++ later) = wroteIn earlier ++ wroteIn later :=
  List.filterMap_append

theorem wroteIn_eq_nil {events : List Happening}
    (silent : ∀ event ∈ events, event.speaks = false) : wroteIn events = [] := by
  rw [wroteIn, List.filterMap_eq_nil_iff]
  intro event member
  have quiet := silent event member
  cases event <;> simp_all [Happening.speaks, Happening.wrote?]

/-! ## Lines -/

inductive Leftover where
  /-- The stream took all of it. -/
  | stuck (line : String)
  /-- The stream took a part of it. -/
  | broken (line : String)

/-- Lines that were put on the stream: those that went out, and perhaps one that did not. -/
structure Utterance where
  gone : List String
  left : Option Leftover

namespace Leftover

def line : Leftover → String
  | stuck line | broken line => line

def whole : Leftover → List String
  | stuck line => [line]
  | broken _ => []

end Leftover

namespace Utterance

def lines (utterance : Utterance) : List String :=
  utterance.gone ++ (utterance.left.map Leftover.line).toList

def whole (utterance : Utterance) : List String :=
  utterance.gone ++ (utterance.left.map Leftover.whole).getD []

variable [Pace]

/-- The happenings are those of the utterance: where a line did not go out the stream failed, and
where it took a part of one it took nothing more. -/
structure Shows (wire : Wire) (utterance : Utterance) (events : List Happening) : Prop where
  wrote : wroteIn events = utterance.whole.map fun line => wire.encode (lineBytes line)
  sent : sentIn events = utterance.gone.map lineBytes
  failed : utterance.left.isSome → ∃ cause, .writeFailed cause ∈ events
  part : ∀ part, .wrotePart part ∈ events →
    Pace.Stalls ∧ ∃ line, utterance.left = some (.broken line) ∧
      part <+: wire.encode (lineBytes line)
  final : events.Pairwise fun earlier later => earlier.breaksLine → later.written? = none

variable {wire : Wire} {first second : Utterance} {earlier later events : List Happening}

theorem shows_nothing (silent : ∀ event ∈ events, event.speaks = false) :
    Shows wire ⟨[], none⟩ events where
  wrote := wroteIn_eq_nil silent
  sent := sentIn_eq_nil silent
  failed := nofun
  part _ member := absurd (silent _ member) (by simp [Happening.speaks])
  final := List.pairwise_of_forall_mem_list fun event member _ _ breaks => by
    simp [Happening.breaksLine_of_speaks (silent event member)] at breaks

/-- A line breaks off only if one is left over. -/
theorem Shows.breaksLine_eq_false (shows : first.Shows wire events) (freed : first.left = none) :
    ∀ event ∈ events, event.breaksLine = false := by
  intro event member
  cases event with
  | wrotePart part =>
      rcases shows.part part member with ⟨_, line, broken, _⟩
      rw [freed] at broken
      cases broken
  | _ => rfl

theorem Shows.append_silent (before : first.Shows wire earlier)
    (silent : ∀ event ∈ later, event.speaks = false)
    (finished : first.left = none ∨ ∀ event ∈ later, event.written? = none) :
    first.Shows wire (earlier ++ later) where
  wrote := by rw [wroteIn_append, wroteIn_eq_nil silent, List.append_nil, before.wrote]
  sent := by rw [sentIn_append, sentIn_eq_nil silent, List.append_nil, before.sent]
  failed stays := by
    rcases before.failed stays with ⟨cause, member⟩
    exact ⟨cause, List.mem_append_left later member⟩
  part part member := by
    rcases List.mem_append.mp member with member | member
    · exact before.part part member
    · exact absurd (silent _ member) (by simp [Happening.speaks])
  final := by
    have nothing : Shows wire ⟨[], none⟩ later := shows_nothing silent
    refine List.pairwise_append.mpr ⟨before.final, nothing.final, ?_⟩
    intro event member other behind breaks
    rcases finished with freed | silent
    · simp [before.breaksLine_eq_false freed event member] at breaks
    · exact silent other behind

theorem Shows.append (before : first.Shows wire earlier) (freed : first.left = none)
    (after : second.Shows wire later) :
    Shows wire ⟨first.gone ++ second.gone, second.left⟩ (earlier ++ later) where
  wrote := by simp [before.wrote, after.wrote, whole, freed]
  sent := by simp [before.sent, after.sent]
  failed stays := by
    rcases after.failed stays with ⟨cause, member⟩
    exact ⟨cause, List.mem_append_right earlier member⟩
  part part member := by
    rcases List.mem_append.mp member with member | member
    · cases before.breaksLine_eq_false freed _ member
    · exact after.part part member
  final := by
    refine List.pairwise_append.mpr ⟨before.final, after.final, ?_⟩
    intro event member _ _ breaks
    simp [before.breaksLine_eq_false freed event member] at breaks

end Utterance

namespace Connection

def Quiet (before after : Connection) : Prop :=
  ∃ events, before.Leads events after ∧ ∀ event ∈ events, event.speaks = false

def Silent (action : Action Connection α) : Prop :=
  Throughout Quiet action

/-- The operation says nothing, and the value that it comes to, if any, `ends` what there is to say.
-/
def Stops (ends : α → Prop) (action : Action Connection α) : Prop :=
  Silent action ∧
    ∀ connection value, outcome (action connection) = .ok value → ends value

theorem Quiet.trans {first second third : Connection} (before : Quiet first second)
    (after : Quiet second third) : Quiet first third := by
  rcases before with ⟨earlier, leads, quiet⟩
  rcases after with ⟨later, onward, still⟩
  exact ⟨earlier ++ later, leads.trans onward, List.forall_mem_append.mpr ⟨quiet, still⟩⟩

namespace Silent

theorem of_follows {course : Course α} {action : Action Connection α}
    (follows : ∀ connection, Follows connection course (action connection))
    (silent : ∀ events outcome, course events outcome → ∀ event ∈ events, event.speaks = false) :
    Silent action := by
  intro connection
  rcases follows connection with ⟨events, leads, taken⟩
  exact ⟨events, leads, silent events _ taken⟩

theorem pure (value : α) : Silent (Pure.pure value : Action Connection α) :=
  fun connection => ⟨[], .refl connection, nofun⟩

theorem throw (failure : Failure) : Silent (MonadExcept.throw failure : Action Connection α) :=
  fun connection => ⟨[], .refl connection, nofun⟩

theorem bind {action : Action Connection α} {next : α → Action Connection β}
    (begins : Silent action) (goesOn : ∀ value, Silent (next value)) : Silent (action >>= next) :=
  Throughout.bind Quiet.trans begins goesOn

theorem note (level : Level) (text : String) : Silent (note level text) :=
  .of_follows (follows_note level text) fun _ _ course event member =>
    Happening.speaks_of_isNote (course.1 event member)

theorem noticeHangUp : Silent Session.noticeHangUp :=
  .of_follows Session.follows_noticeHangUp fun _ _ course => course.1 ▸ nofun

theorem requireConsole : Silent Session.requireConsole :=
  .of_follows Session.follows_requireConsole fun _ _ course => course.1 ▸ nofun

theorem requireOpen : Silent Session.requireOpen := by
  intro connection
  rw [Session.requireOpen_eq]
  split <;> exact ⟨[], .refl connection, nofun⟩

theorem conclude (response : Response) : Silent (Session.conclude response) :=
  .of_follows (Session.follows_conclude response) fun _ _ course event member =>
    Happening.speaks_of_isNote (course.1 event member)

end Silent

namespace Stops

theorem pure {ends : α → Prop} {value : α} (ended : ends value) :
    Stops ends (Pure.pure value : Action Connection α) := by
  refine ⟨.pure value, fun _ last finished => ?_⟩
  cases finished
  exact ended

theorem bind {ends : β → Prop} {action : Action Connection α} {next : α → Action Connection β}
    (silent : Silent action) (stops : ∀ value, Stops ends (next value)) :
    Stops ends (action >>= next) := by
  refine ⟨silent.bind fun value => (stops value).1, fun connection last finished => ?_⟩
  cases done : action connection with
  | error failure after =>
      rw [bind_of_error done] at finished
      cases finished
  | ok value after =>
      rw [bind_of_ok done] at finished
      exact (stops value).2 after last finished

end Stops

variable [Pace]

/-- The operation says these lines in order, or fewer: then it fails, or the value that it comes to
`ends` what there is to say. -/
def Says (lines : List String) (ends : α → Prop) (action : Action Connection α) : Prop :=
  ∀ connection : Connection, ∃ events, ∃ utterance : Utterance,
    connection.Leads events (stateAfter (action connection)) ∧
    utterance.Shows connection.wire events ∧ utterance.lines <+: lines ∧
    ∀ value, outcome (action connection) = .ok value →
      utterance.left = none ∧ (utterance.gone = lines ∨ ends value)

namespace Silent

theorem await (session : Session) (pattern : Pattern) (watch : Watch) :
    Silent (session.await pattern watch) :=
  .of_follows (Session.follows_await session pattern watch) fun _ _ course event member =>
    Happening.speaks_of_isOfWait (course.isOfWait event member)

theorem awaitQuiet (session : Session) : Silent session.awaitQuiet :=
  .of_follows (Session.follows_awaitQuiet session) fun _ _ course event member =>
    Happening.speaks_of_isOfWait (course.isOfWait event member)

theorem awaitStep (session : Session) (command : String) (pattern : Pattern) (watch : Watch) :
    Silent (session.awaitStep command pattern watch) := by
  refine (Silent.await session pattern watch).bind fun ended => ?_
  match ended with
  | (.matched _, _) => exact .pure _
  | (.hungUp, _) => exact .pure _
  | (.late, _) => exact .throw _

end Silent

namespace Says

variable {first second lines : List String} {ends : α → Prop} {endsFurther : β → Prop}
  {action : Action Connection α} {next : α → Action Connection β}

theorem of_silent (silent : Silent action) : Says [] ends action := by
  intro connection
  rcases silent connection with ⟨events, leads, quiet⟩
  exact ⟨events, ⟨[], none⟩, leads, Utterance.shows_nothing quiet, List.prefix_rfl,
    fun _ _ => ⟨rfl, .inl rfl⟩⟩

theorem say (line : String) : Says [line] (fun _ => False) (say line) := by
  intro connection
  rcases follows_say_encoded line connection with ⟨events, leads, sends, puts⟩
  generalize outcome (Connection.say line connection) = ended at sends ⊢
  cases sends with
  | sent written =>
      cases puts.whole written List.mem_cons_self
      exact ⟨_, ⟨[line], none⟩, leads, ⟨rfl, rfl, nofun, by simp, by simp [Happening.breaksLine]⟩,
        List.prefix_rfl, fun _ _ => ⟨rfl, .inl rfl⟩⟩
  | refused cause =>
      exact ⟨_, ⟨[], none⟩, leads, Utterance.shows_nothing (by simp [Happening.speaks]),
        List.nil_prefix, nofun⟩
  | broken part cause =>
      rcases puts.part part List.mem_cons_self with ⟨stalls, begun⟩
      exact ⟨_, ⟨[], some (.broken line)⟩, leads,
        ⟨rfl, rfl, fun _ => ⟨cause, by simp⟩, by simp [stalls, begun],
          by simp [Happening.written?]⟩,
        List.prefix_rfl, nofun⟩
  | stuck written cause =>
      cases puts.whole written List.mem_cons_self
      exact ⟨_, ⟨[], some (.stuck line)⟩, leads,
        ⟨rfl, rfl, fun _ => ⟨cause, by simp⟩, by simp, by simp [Happening.breaksLine]⟩,
        List.prefix_rfl, nofun⟩

/-- With a value that ends what there is to say, the second operation says nothing more. -/
theorem bind (begins : Says first ends action)
    (goesOn : ∀ value, ¬ends value → Says second endsFurther (next value))
    (stops : ∀ value, ends value → Stops endsFurther (next value)) :
    Says (first ++ second) endsFurther (action >>= next) := by
  intro connection
  rcases begins connection with ⟨earlier, said, leads, shows, begun, completes⟩
  have begun := begun.trans (List.prefix_append first second)
  cases done : action connection with
  | error failure after =>
      rw [done] at leads
      rw [bind_of_error done]
      exact ⟨earlier, said, leads, shows, begun, nofun⟩
  | ok value after =>
      rw [done] at leads completes
      rw [stateAfter_ok] at leads
      rcases completes value rfl with ⟨freed, whole⟩
      rw [bind_of_ok done]
      by_cases ended : ends value
      · rcases stops value ended with ⟨silent, final⟩
        rcases silent after with ⟨later, onward, quiet⟩
        exact ⟨earlier ++ later, said, leads.trans onward, shows.append_silent quiet (.inl freed), begun,
          fun last finished => ⟨freed, .inr (final after last finished)⟩⟩
      · have whole := whole.resolve_right ended
        rcases goesOn value ended after with ⟨later, others, onward, shows', begun', completes'⟩
        rw [leads.wire] at shows'
        refine ⟨earlier ++ later, _, leads.trans onward, shows.append freed shows', ?_, ?_⟩
        · rw [Utterance.lines, List.append_assoc, whole]
          exact List.prefix_append_right_inj first |>.mpr begun'
        · intro last finished
          rcases completes' last finished with ⟨freed', whole'⟩
          exact ⟨freed', whole'.imp (fun same => by rw [whole, same]) id⟩

/-- The first operation says nothing. -/
theorem bind_silent (begins : Silent action)
    (goesOn : ∀ value, Says lines endsFurther (next value)) :
    Says lines endsFurther (action >>= next) :=
  bind (of_silent begins) (fun value _ => goesOn value) fun _ => False.elim

/-- The second operation says nothing. -/
theorem bind_last (begins : Says lines ends action)
    (goesOn : ∀ value, ¬ends value → Says [] endsFurther (next value))
    (stops : ∀ value, ends value → Stops endsFurther (next value)) :
    Says lines endsFurther (action >>= next) :=
  List.append_nil lines ▸ begins.bind goesOn stops

theorem say_bind {line : String} {next : Unit → Action Connection β}
    (goesOn : ∀ value, Says lines endsFurther (next value)) :
    Says (line :: lines) endsFurther (Connection.say line >>= next) :=
  (say line).bind (fun value _ => goesOn value) fun _ => False.elim

end Says

/-! ### From steps to plans -/

namespace Says

theorem interrupt (session : Session) :
    Says [Bootloader.interruptLine] (fun _ => False) session.interrupt := by
  refine bind_silent .requireOpen fun _ => say_bind fun _ =>
    of_silent ((Silent.await session session.prompt _).bind fun ended => ?_)
  match ended with
  | (.matched _, _) => exact .awaitQuiet session
  | (.hungUp, _) => exact Silent.noticeHangUp.bind fun _ => .throw _
  | (.late, _) => exact .throw _

/-- The answer to the question of a step is the only line that it says after its command. -/
theorem awaitAll (session : Session) (step : Step) :
    Says (step.reply.map Reply.answer).toList (fun brought => brought.1 = none)
      (session.awaitAll step) := by
  unfold Session.awaitAll Session.awaitAllFor
  cases step.reply with
  | none => exact of_silent (.awaitStep session _ _ _)
  | some reply =>
      have asks : Says [] (fun asked => asked.1 = none)
          (session.awaitStep step.command reply.question
            (.start session.depth Bootloader.failureMarkers)) :=
        of_silent (.awaitStep session _ _ _)
      refine asks.bind ?_ ?_
      · intro asked answered
        match asked with
        | (none, _) => exact absurd rfl answered
        | (some _, watch) => exact say_bind fun _ => of_silent (.awaitStep session _ _ watch.turn)
      · intro asked gone
        match asked with
        | (none, _) => exact .pure rfl

theorem run (session : Session) (step : Step) :
    Says step.lines (fun response => response.closed = true) (session.run step) := by
  refine bind_silent .requireConsole fun _ => bind_silent .requireOpen fun _ =>
    say_bind fun _ => (awaitAll session step).bind_last ?_ ?_
  · intro brought _
    exact of_silent ((Silent.conclude _).bind fun _ => .pure _)
  · intro brought gone
    exact .bind (.conclude _) fun _ => .pure (by simp [Session.response, gone])

theorem runSteps (session : Session) (total : Nat) (steps : List Step) :
    Says (steps.flatMap Step.lines) (fun _ => True) (session.runSteps total steps) := by
  induction steps with
  | nil => exact of_silent (.pure [])
  | cons step rest induction =>
      refine bind_silent (.note _ _) fun _ => (run session step).bind ?_ ?_
      · intro response goesOn
        rw [if_neg goesOn]
        exact induction.bind_last (fun others _ => of_silent (.pure _)) fun others _ => .pure trivial
      · intro response closed
        rw [if_pos closed]
        split
        · exact .pure trivial
        · exact .bind (.note _ _) fun _ => .pure trivial

theorem perform (session : Session) (plan : Plan) :
    Says plan.script (fun _ => True) (session.perform plan) := by
  have steps : Says plan.script (fun _ => True)
      (if plan.interrupts then do
          session.interrupt
          session.runSteps plan.steps.length plan.steps
        else session.runSteps plan.steps.length plan.steps) := by
    unfold Plan.script
    split
    · exact (interrupt session).bind (fun _ _ => runSteps session _ plan.steps) fun _ => False.elim
    · exact runSteps session _ plan.steps
  unfold Session.perform Session.performFor
  cases plan.mode with
  | unrecognized token => exact bind_silent (.note _ _) fun _ => steps
  | flash | exec => exact steps

end Says

end Connection

end BootConsole
