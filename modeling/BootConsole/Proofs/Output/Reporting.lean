import BootConsole.Proofs.Conversation.Heedless
import BootConsole.Proofs.Output.FirstSeen
import Mathlib.Data.List.Forall2

/-!
# A reported failure stops nothing

A session that looks for no markers does what one that finds them does, at the same time: only the
reports are missing, in its responses and in its log. For the log is never read, and a marker that
was found is only reported.
-/

namespace BootConsole

/-! ## Without markers -/

def Response.unmarked (response : Response) : Response :=
  { response with failure := none }

namespace Watch

def unmarked (watch : Watch) : Watch :=
  { watch with markers := [], failure := none }

@[simp] theorem take_unmarked (watch : Watch) (chunk : Bytes) :
    watch.unmarked.take chunk = (watch.take chunk).unmarked := rfl

@[simp] theorem match?_unmarked (watch : Watch) (pattern : Pattern) :
    watch.unmarked.match? pattern = watch.match? pattern := rfl

end Watch

/-! ## Waiting -/

namespace Session

open Connection

variable {session : Session}

def SameEnd {ending : Type} (first second : ending × Watch) : Prop :=
  second = (first.1, first.2.unmarked)

theorem parallel_await [Pace] (pattern : Pattern) (watch : Watch) :
    Parallel SameEnd (session.await pattern watch) (session.await pattern watch.unmarked) := by
  intro connection journal less
  induction size : connection.weight using Nat.strongRecOn generalizing watch connection journal with
  | _ size induction =>
    have relays := heedless_relay session.deadline connection journal less
    rw [await_eq, await_eq]
    cases relayed : relay session.deadline connection with
    | error failure after =>
        rw [relayed] at relays
        rcases relays.of_error with ⟨others, relayed', less⟩
        rw [relayed']
        dsimp only
        by_cases gone : failure = .disconnected ∧ watch.begun = true
        · have gone' : failure = .disconnected ∧ watch.unmarked.begun = true := gone
          rw [if_pos gone, if_pos gone']
          exact .ok rfl less
        · have other : ¬(failure = .disconnected ∧ watch.unmarked.begun = true) := gone
          rw [if_neg gone, if_neg other]
          exact .error less
    | ok found after =>
        rw [relayed] at relays
        rcases relays.of_ok with ⟨_, others, relayed', rfl, less⟩
        rw [relayed']
        cases found with
        | none => exact .ok rfl less
        | some chunk =>
            simp only [Watch.take_unmarked, Watch.match?_unmarked]
            cases (watch.take chunk).match? pattern with
            | some bytes => exact .ok rfl less
            | none =>
                exact induction _ (size ▸ weight_relay_lt relayed) (watch.take chunk) after others
                  less rfl

theorem heedless_awaitQuiet [Pace] : Heedless session.awaitQuiet := by
  intro connection journal less
  induction size : connection.weight using Nat.strongRecOn generalizing connection journal with
  | _ size induction =>
    have relays := heedless_relay (min (connection.clock + Bootloader.quietTime) session.deadline)
      connection journal less
    have clock : (connection.onto journal).clock = connection.clock := rfl
    rw [awaitQuiet_eq, awaitQuiet_eq, clock]
    cases relayed : relay (min (connection.clock + Bootloader.quietTime) session.deadline)
        connection with
    | error failure after =>
        rw [relayed] at relays
        rcases relays.of_error with ⟨others, relayed', less⟩
        rw [relayed']
        exact .error less
    | ok found after =>
        rw [relayed] at relays
        rcases relays.of_ok with ⟨_, others, relayed', rfl, less⟩
        rw [relayed']
        cases found with
        | none => exact .ok rfl less
        | some chunk =>
            exact induction _ (size ▸ weight_relay_lt relayed) after others less rfl

theorem parallel_awaitStep [Pace] (command : String) (pattern : Pattern) (watch : Watch) :
    Parallel SameEnd (session.awaitStep command pattern watch)
      (session.awaitStep command pattern watch.unmarked) := by
  refine (parallel_await pattern watch).bind fun ended ended' same => ?_
  subst same
  match ended with
  | (.matched _, _) => exact .pure rfl
  | (.hungUp, _) => exact .pure rfl
  | (.late, _) => exact .throw _

theorem parallel_awaitAll [Pace] (step : Step) :
    Parallel SameEnd (session.awaitAll step) (session.awaitAllFor [] step) := by
  unfold awaitAll awaitAllFor
  cases step.reply with
  | none => exact parallel_awaitStep _ _ (.start _ _)
  | some reply =>
      refine (parallel_awaitStep _ _ (.start _ _)).bind fun asked asked' same => ?_
      subst same
      match asked with
      | (none, _) => exact .pure rfl
      | (some _, watch) =>
          exact (heedless_say _).bind fun _ => parallel_awaitStep _ _ watch.turn

/-! ## Steps and plans -/

theorem heedless_requireOpen : Heedless requireOpen := by
  intro connection journal less
  have isOpen : (connection.onto journal).isOpen = connection.isOpen := rfl
  rw [requireOpen_eq, requireOpen_eq, isOpen]
  cases connection.isOpen with
  | true => exact .ok rfl less
  | false => exact .error less

theorem heedless_requireConsole : Heedless requireConsole := by
  intro connection journal less
  have hungUp : (connection.onto journal).hungUp = connection.hungUp := rfl
  rw [requireConsole_eq, requireConsole_eq, hungUp]
  cases connection.hungUp with
  | true => exact .error less
  | false => exact .ok rfl less

theorem heedless_noticeHangUp : Heedless noticeHangUp :=
  fun _ _ less => .ok rfl less

/-- What is concluded from a response is the same, but for the report. -/
theorem parallel_conclude (response : Response) :
    Parallel Eq (conclude response) (conclude response.unmarked) := by
  have last : Heedless (if response.closed then noticeHangUp else pure ()) := by
    split
    · exact heedless_noticeHangUp
    · exact .pure rfl
  unfold conclude
  cases response.failure with
  | none => exact last
  | some marker =>
      intro connection journal less
      exact last (connection.record (reportOf response.command marker)) journal
        (.report connection.clock response.command marker less)

def SameResponse (first second : Response) : Prop :=
  second = first.unmarked

theorem parallel_run [Pace] (step : Step) :
    Parallel SameResponse (session.run step) (session.runFor [] step) := by
  refine heedless_requireConsole.bind fun _ => heedless_requireOpen.bind fun _ =>
    (heedless_say _).bind fun _ => (parallel_awaitAll step).bind fun brought brought' same => ?_
  subst same
  exact (parallel_conclude (response step brought.1 brought.2)).bind fun _ _ _ => .pure rfl

def SameResponses (first second : List Response) : Prop :=
  second = first.map Response.unmarked

theorem parallel_runSteps [Pace] (total : Nat) (steps : List Step) :
    Parallel SameResponses (session.runSteps total steps) (session.runStepsFor [] total steps) := by
  induction steps with
  | nil => exact .pure rfl
  | cons step rest induction =>
      refine (heedless_note _ _).bind fun _ => (parallel_run step).bind fun response _ same => ?_
      subst same
      have closed : response.unmarked.closed = response.closed := rfl
      rw [closed]
      split
      · split
        · exact .pure rfl
        · exact (heedless_note _ _).bind fun _ => .pure rfl
      · refine induction.bind fun others _ same => ?_
        subst same
        exact .pure rfl

theorem heedless_interrupt [Pace] : Heedless session.interrupt := by
  refine heedless_requireOpen.bind fun _ => (heedless_say _).bind fun _ =>
    (parallel_await _ (.start _ _)).bind fun ended ended' same => ?_
  subst same
  match ended with
  | (.matched _, _) => exact heedless_awaitQuiet
  | (.hungUp, _) => exact heedless_noticeHangUp.bind fun _ => .throw _
  | (.late, _) => exact .throw _

theorem parallel_perform [Pace] (session : Session) (plan : Plan) :
    Parallel SameResponses (session.perform plan) (session.performFor [] plan) := by
  have steps : Parallel SameResponses (session.runSteps plan.steps.length plan.steps)
      (session.runStepsFor [] plan.steps.length plan.steps) := parallel_runSteps _ _
  have opened : Parallel SameResponses
      (if plan.interrupts then do
          session.interrupt
          session.runSteps plan.steps.length plan.steps
        else session.runSteps plan.steps.length plan.steps)
      (if plan.interrupts then do
          session.interrupt
          session.runStepsFor [] plan.steps.length plan.steps
        else session.runStepsFor [] plan.steps.length plan.steps) := by
    split
    · exact heedless_interrupt.bind fun _ => steps
    · exact steps
  unfold perform performFor
  cases plan.mode with
  | unrecognized token => exact (heedless_note _ _).bind fun _ => opened
  | flash | exec => exact opened

theorem heedless_close : Heedless close := by
  intro connection journal less
  cases isOpen : connection.isOpen with
  | false =>
      have isOpen' : (connection.onto journal).isOpen = false := isOpen
      rw [close_of_closed isOpen, close_of_closed isOpen']
      exact .ok rfl less
  | true =>
      have isOpen' : (connection.onto journal).isOpen = true := isOpen
      have fails : (connection.onto journal).closeFailure? = connection.closeFailure? := rfl
      rw [close_of_open isOpen, close_of_open isOpen', fails]
      cases connection.closeFailure? with
      | none => exact .ok rfl (less.same ⟨connection.clock, .closed⟩)
      | some failure => exact .error (less.same ⟨connection.clock, .closed⟩)

theorem parallel_conduct [Pace] (session : Session) (plan : Plan) :
    Parallel SameResponses (session.conduct plan) (session.conductFor [] plan) := by
  intro connection journal less
  have performs := parallel_perform session plan connection journal less
  unfold conduct conductFor
  rw [performFor_failureMarkers]
  cases driven : session.perform plan connection with
  | ok responses after =>
      rw [driven] at performs
      rcases performs.of_ok with ⟨_, others, driven', same, less⟩
      have closes := heedless_close after others less
      simp only [driven']
      cases closed : close after with
      | ok _ last =>
          rw [closed] at closes
          rcases closes.of_ok with ⟨_, _, closed', _, less⟩
          rw [closed']
          exact .ok same less
      | error failure last =>
          rw [closed] at closes
          rcases closes.of_error with ⟨_, closed', less⟩
          rw [closed']
          exact .error less
  | error failure after =>
      rw [driven] at performs
      rcases performs.of_error with ⟨others, driven', less⟩
      have closes := heedless_close after others less
      simp only [driven']
      cases closed : close after with
      | ok _ last =>
          rw [closed] at closes
          rcases closes.of_ok with ⟨_, _, closed', _, less⟩
          rw [closed']
          exact .error less
      | error second last =>
          rw [closed] at closes
          rcases closes.of_error with ⟨_, closed', less⟩
          rw [closed']
          exact .error (less.same ⟨last.clock, _⟩)

/-- Whatever step completes, its response reports the marker that was seen first in the output of
this very step, if any was; and a run goes on as if none had been. -/
theorem conduct_reports_first_seen [Pace] (session : Session) (plan : Plan) (wire : Wire)
    (console : Console) (desk : Desk) :
    let connection := Connection.ofConsole wire console desk
    let result := session.conduct plan connection
    let blind := session.conductFor [] plan connection
    (∀ step response before after, session.run step before = .ok response after →
      ∃ events, after.happenings = before.happenings ++ events ∧
        Judged session.depth events response) ∧
    (∀ responses, outcome result = .ok responses →
      ∃ opening parts,
        (stateAfter result).happenings =
          connection.happenings ++ (opening ++ parts.flatten ++ [.closed]) ∧
        List.Forall₂ (fun response part =>
          (sentIn part).head? = some (lineBytes response.command) ∧
            Judged session.depth part response) responses parts) ∧
    session.conductFor Bootloader.failureMarkers plan = session.conduct plan ∧
    outcome blind = (outcome result).map (·.map Response.unmarked) ∧
    stateAfter blind = (stateAfter result).onto (stateAfter blind).journal ∧
    LessReports (stateAfter result).journal (stateAfter blind).journal := by
  intro connection result blind
  have opened : connection.isOpen = true := rfl
  have alike : Alike SameResponses result blind :=
    parallel_conduct session plan connection connection.journal (.refl _)
  refine ⟨fun step response before after => judged_of_run, fun responses succeeded => ?_,
    rfl, ?_⟩
  · rcases carries_of_conduct opened succeeded with ⟨opening, events, happened, carries⟩
    rcases parts_of_carrying carries with ⟨parts, rfl, tell⟩
    refine ⟨opening, parts, happened, tell.imp fun response part tells => ?_⟩
    rcases tells.watched with ⟨shown, step, ending, reported⟩
    exact ⟨tells.sentIn_head?, judged_of_failure shown (congrArg Response.failure reported)⟩
  · generalize result = result at alike
    generalize blind = blind at alike
    cases alike with
    | ok same less => exact ⟨congrArg Except.ok same, rfl, less⟩
    | error less => exact ⟨rfl, rfl, less⟩

/-- A console that complains about the interrupt and, in two ways, about the first command. -/
def complaining : Console :=
  { Console.silent with
    answers :=
      [[.data (Utf8.encode "Can't load\nRedBoot> ")],
        [.data (Utf8.encode "Illegal command\n** Err"), .data (Utf8.encode "or\n** Error\nRedBoot> ")],
        [.data (Utf8.encode "RedBoot> ")]] }

theorem conduct_reports_first_seen_complaining :
    let session := usual Window.defaultDepth
    let plan := { breaking with steps := [.atPrompt "load image", .atPrompt "go"] }
    let connection := Connection.ofConsole .text complaining (.start .none .none)
    let result := session.conduct plan connection
    let blind := session.conductFor [] plan connection
    ∃ responses opening parts,
      outcome result = .ok responses ∧
      responses.map Response.failure = [some "Illegal command", none] ∧
      outcome blind = .ok (responses.map Response.unmarked) ∧
      (stateAfter result).happenings =
        connection.happenings ++ (opening ++ parts.flatten ++ [.closed]) ∧
      List.Forall₂ (fun response part =>
        (sentIn part).head? = some (lineBytes response.command) ∧
          Judged session.depth part response) responses parts := by
  intro session plan connection result blind
  have came : outcome result =
      .ok [⟨"load image", "Illegal command\n** Error\n** Error\nRedBoot> ", "RedBoot>",
          some "Illegal command", false⟩,
        ⟨"go", "RedBoot> ", "RedBoot>", none, false⟩] := by
    decide +kernel
  rcases conduct_reports_first_seen session plan .text complaining (.start .none .none) with
    ⟨_, reports, _, same, _⟩
  rcases reports _ came with ⟨opening, parts, happened, judged⟩
  exact ⟨_, opening, parts, came, rfl, by rw [same, came]; rfl, happened, judged⟩

end Session

end BootConsole
