import BootConsole.Proofs.Conversation.HangUps
import BootConsole.Proofs.Conversation.LifeCycle
import BootConsole.Proofs.Conversation.Stages

/-!
# What a run reports

A run that goes well has a response for each step that it carried out, in the order of the plan. All
of these steps have come to the pattern that they wait for, but perhaps the last, with which the
console closed the connection; and only then the plan may have more steps than there are responses.
-/

namespace BootConsole

/-- The wait was ended by a match of the pattern, in the last bytes that were heard in it, and the
match reads as this prompt. -/
structure EndedBy (depth : Nat) (pattern : Pattern) (wait : List Happening) (prompt : String) :
    Prop where
  flows : ∀ event ∈ wait, event.flows = true
  found : ∃ span, pattern.find? ((heardIn wait).flatten.rtake depth) = some span ∧
    prompt = promptText (span.slice ((heardIn wait).flatten.rtake depth))

namespace Session

variable {session : Session} {step : Step} {response : Response} {responses : List Response}
  {events earlier later : List Happening}

/-! ## The response of a step -/

structure Reports (session : Session) (step : Step) (events : List Happening)
    (response : Response) : Prop where
  command : response.command = step.command
  /-- All lines of the step went out, and what came after the last one ended the step. -/
  ended : response.closed = false → ∃ earlier line wait notes,
    events = earlier ++ .sent (lineBytes line) :: (wait ++ notes) ∧
      sentIn earlier ++ [lineBytes line] = step.lines.map lineBytes ∧
      EndedBy session.depth step.expect wait response.prompt ∧
      ∀ note ∈ notes, note.isNote = true
  hungUp : response.closed = true →
    response.prompt = "" ∧ .hungUp ∈ events ∧ heardIn events ≠ []

theorem sentIn_of_notes (notes : ∀ event ∈ events, event.isNote = true) : sentIn events = [] :=
  sentIn_eq_nil fun event member => Happening.speaks_of_isNote (notes event member)

/-- Notes before and behind a step are nothing to its response. -/
theorem Reports.among_notes (reports : session.Reports step events response)
    (before : ∀ event ∈ earlier, event.isNote = true)
    (behind : ∀ event ∈ later, event.isNote = true) :
    session.Reports step (earlier ++ events ++ later) response where
  command := reports.command
  ended goesOn := by
    rcases reports.ended goesOn with ⟨front, line, wait, rest, rfl, said, ends, noted⟩
    refine ⟨earlier ++ front, line, wait, rest ++ later, by simp, ?_, ends,
      List.forall_mem_append.mpr ⟨noted, behind⟩⟩
    rw [sentIn_append, sentIn_of_notes before, List.nil_append, said]
  hungUp closed := by
    rcases reports.hungUp closed with ⟨empty, gone, heard⟩
    refine ⟨empty, List.mem_append_left later (List.mem_append_right earlier gone), ?_⟩
    rwa [heardIn_append, heardIn_append, (nothing_of_notes before).1, (nothing_of_notes behind).1,
      List.nil_append, List.append_nil]

theorem endedBy_of_waiting {command : String} {pattern : Pattern} {watch seen : Watch}
    {bytes : Bytes} (fresh : watch.Fresh)
    (waits : session.waiting command pattern watch events (.ok (some bytes, seen))) :
    EndedBy watch.window.depth pattern events (promptText bytes) := by
  rcases awaiting_of_waiting waits with ⟨_, same, awaits⟩ | ⟨impossible, _⟩
  · cases same
    rcases awaits.found with ⟨flows, _, found⟩
    rw [awaits.relayed.1, Watch.match?, fresh.searched] at found
    rcases Option.map_eq_some_iff.mp found with ⟨span, first, rfl⟩
    exact ⟨flows, span, first, rfl⟩
  · cases impossible

/-- The match that ends a step is one of its own pattern, behind the last of its lines. -/
theorem ended_of_bringing {seen : Watch} {bytes : Bytes}
    (brings : session.bringing step events (.ok (some bytes, seen))) :
    ∃ earlier line wait,
      .sent (lineBytes step.command) :: events = earlier ++ .sent (lineBytes line) :: wait ∧
        sentIn earlier ++ [lineBytes line] = step.lines.map lineBytes ∧
        EndedBy session.depth step.expect wait (promptText bytes) := by
  have fresh := Watch.fresh_start session.depth Bootloader.failureMarkers
  unfold bringing at brings
  cases replied : step.reply with
  | none =>
      rw [replied] at brings
      refine ⟨[], step.command, events, rfl, ?_, endedBy_of_waiting fresh brings⟩
      rw [Step.lines, replied]
      rfl
  | some reply =>
      rw [replied] at brings
      rcases Course.parts_of_ok brings with ⟨⟨asked, _⟩, asking, _, waits, afterwards, rfl⟩
      cases asked with
      | none =>
          rcases afterwards with ⟨_, impossible⟩
          cases impossible
      | some question =>
          rcases Course.parts_of_ok afterwards with ⟨_, _, wait, sends, waits', rfl⟩
          have silent := speaks_of_flowing (endedBy_of_waiting fresh waits).flows
          cases sends with
          | sent written =>
              refine ⟨.sent (lineBytes step.command) :: (asking ++ [.wrote written]), reply.answer,
                wait, by simp, ?_, ?_⟩
              · have said : sentIn (asking ++ [.wrote written]) = [] := by
                  rw [sentIn_append, sentIn_eq_nil silent]
                  rfl
                rw [← List.singleton_append, sentIn_append, said, Step.lines, replied]
                rfl
              · have turned := endedBy_of_waiting
                  ((relayed_of_waiting waits).1 ▸ fresh.turn (heardIn asking)) waits'
                have depth := Watch.depth_takeAll
                  (.start session.depth Bootloader.failureMarkers) (heardIn asking)
                rw [← (relayed_of_waiting waits).1] at depth
                rwa [Watch.window_turn, Window.hide, depth] at turned

theorem reports_of_stepping (steps : session.stepping step events (.ok response)) :
    session.Reports step events response := by
  have closes := stepping_closed_iff steps
  rcases Course.parts_of_ok steps with ⟨_, _, _, ⟨rfl, _⟩, spoken, rfl⟩
  rcases Course.parts_of_ok spoken with ⟨_, _, _, sends, answered, rfl⟩
  rcases Course.parts_of_ok answered with
    ⟨⟨ending, seen⟩, brought, notes, brings, ⟨noted, same⟩, rfl⟩
  cases same
  refine ⟨rfl, fun goesOn => ?_, fun closed => ?_⟩
  · cases ending with
    | none => cases goesOn
    | some bytes =>
        rcases ended_of_bringing brings with ⟨earlier, line, wait, split, said, ends⟩
        cases sends with
        | sent written =>
            refine ⟨.wrote written :: earlier, line, wait, notes, ?_, said, ends, noted⟩
            have joined := congrArg (.wrote written :: · ++ notes) split
            simpa using joined
  · cases ending with
    | none => exact ⟨rfl, closes.mp ⟨_, rfl, rfl⟩⟩
    | some bytes => cases closed

/-! ## The responses of a plan -/

/-- The responses belong to the first of the steps. The last of them may say that the console has
closed the connection, and then there may be more steps. -/
inductive Reported (session : Session) : List Step → List Happening → List Response → Prop
  | done : Reported session [] [] []
  | closed {step : Step} {rest : List Step} {events : List Happening} {response : Response} :
      session.Reports step events response → response.closed = true →
      Reported session (step :: rest) events [response]
  | goesOn {step : Step} {rest : List Step} {earlier later : List Happening}
      {response : Response} {others : List Response} :
      session.Reports step earlier response → response.closed = false →
      Reported session rest later others →
      Reported session (step :: rest) (earlier ++ later) (response :: others)

theorem reported_of_carrying {steps : List Step}
    (carries : session.carrying steps events (.ok responses)) :
    session.Reported steps events responses := by
  induction steps generalizing events responses with
  | nil =>
      rcases carries with ⟨rfl, same⟩
      cases same
      exact .done
  | cons step rest induction =>
      rcases Course.andThen_of_noted carries with ⟨notes, _, noted, course, rfl⟩
      rcases Course.parts_of_ok course with ⟨response, own, others, steps, goesOn, rfl⟩
      have reports := reports_of_stepping steps
      cases closed : response.closed with
      | true =>
          rw [if_pos closed] at goesOn
          rcases goesOn with ⟨ending, same⟩
          cases same
          rw [← List.append_assoc]
          exact .closed (reports.among_notes noted ending) closed
      | false =>
          rw [if_neg (by simp [closed])] at goesOn
          rcases Course.parts_of_ok goesOn with ⟨_, _, _, rest, ⟨rfl, same⟩, rfl⟩
          cases same
          have alone := reports.among_notes noted (List.forall_mem_nil _)
          rw [List.append_nil] at alone ⊢
          rw [← List.append_assoc]
          exact .goesOn alone closed (induction rest)

namespace Reported

variable {steps : List Step} (reported : session.Reported steps events responses)

include reported

theorem length_le : responses.length ≤ steps.length := by
  induction reported with
  | done => exact Nat.le_refl _
  | closed => exact Nat.succ_le_succ (Nat.zero_le _)
  | goesOn _ _ _ induction => exact Nat.succ_le_succ induction

theorem commands :
    responses.map Response.command = (steps.take responses.length).map Step.command := by
  induction reported with
  | done => rfl
  | closed reports => exact congrArg ([·]) reports.command
  | goesOn reports _ _ induction => exact congr (congrArg List.cons reports.command) induction

theorem closed_of_mem_dropLast : ∀ response ∈ responses.dropLast, response.closed = false := by
  induction reported with
  | done | closed => nofun
  | @goesOn _ _ _ _ response others _ goesOn _ induction =>
      cases others with
      | nil => nofun
      | cons => exact List.forall_mem_cons.mpr ⟨goesOn, induction⟩

theorem closed_of_length_lt (shorter : responses.length < steps.length) :
    ∃ last, responses.getLast? = some last ∧ last.closed = true := by
  induction reported with
  | done => exact absurd shorter (Nat.lt_irrefl _)
  | closed _ closed => exact ⟨_, rfl, closed⟩
  | @goesOn _ _ _ _ response others _ _ _ induction =>
      rcases induction (Nat.lt_of_succ_lt_succ shorter) with ⟨last, ends, closed⟩
      refine ⟨last, ?_, closed⟩
      rw [List.getLast?_cons, ends]
      rfl

theorem prompt_of_closed :
    ∀ response ∈ responses, response.closed = true → response.prompt = "" := by
  induction reported with
  | done => nofun
  | closed reports => exact List.forall_mem_singleton.mpr fun closed => (reports.hungUp closed).1
  | goesOn reports _ _ induction =>
      exact List.forall_mem_cons.mpr ⟨fun closed => (reports.hungUp closed).1, induction⟩

end Reported

/-! ## A whole run -/

variable {plan : Plan} {connection after : Connection}

theorem conduct_eq_of_ok [Pace] (isOpen : after.isOpen = true)
    (driven : session.perform plan connection = .ok responses after) :
    session.conduct plan connection =
      match after.closeFailure? with
      | none => .ok responses (shut after)
      | some failure => .error failure (shut after) := by
  unfold conduct conductFor
  rw [performFor_failureMarkers, driven]
  dsimp only
  rw [close_of_open isOpen]
  cases after.closeFailure? <;> rfl

/-- A run that goes well has carried out its steps, perhaps after an interrupt, and then closed the
connection. -/
theorem carries_of_conduct [Pace] (opened : connection.isOpen = true)
    (succeeded : outcome (session.conduct plan connection) = .ok responses) :
    ∃ opening events,
      (stateAfter (session.conduct plan connection)).happenings =
        connection.happenings ++ (opening ++ events ++ [.closed]) ∧
      session.carrying plan.steps events (.ok responses) := by
  rcases follows_perform session plan opened with ⟨happened, leads, course⟩
  cases driven : session.perform plan connection with
  | error failure after =>
      rw [driven] at leads
      cases (conduct_of_error (leads.isOpen.trans opened) driven).2.symm.trans succeeded
  | ok others after =>
      rw [driven] at leads course
      have isOpen : after.isOpen = true := leads.isOpen.trans opened
      have grown : after.happenings = connection.happenings ++ happened := leads.happenings
      rcases conduct_of_ok isOpen driven with ⟨closed, decided⟩
      cases fails : after.closeFailure? with
      | some failure =>
          rw [fails] at decided
          cases decided.symm.trans succeeded
      | none =>
          rw [fails] at decided
          cases decided.symm.trans succeeded
          rcases Course.andThen_of_noted course with ⟨notes, _, _, opens, rfl⟩
          rcases Course.parts_of_ok opens with ⟨_, opening, events, _, carries, rfl⟩
          refine ⟨notes ++ opening, events, ?_, carries⟩
          rw [closed, grown]
          simp only [List.append_assoc]

def Tells (session : Session) (response : Response) (part : List Happening) : Prop :=
  ∃ step front own back, part = front ++ own ++ back ∧
    (∀ event ∈ front, event.isNote = true) ∧ (∀ event ∈ back, event.isNote = true) ∧
    session.stepping step own (.ok response)

/-- What happens while the steps are carried out falls into a part for each response. -/
theorem parts_of_carrying {steps : List Step}
    (carries : session.carrying steps events (.ok responses)) :
    ∃ parts, parts.flatten = events ∧ List.Forall₂ session.Tells responses parts := by
  induction steps generalizing events responses with
  | nil =>
      rcases carries with ⟨rfl, same⟩
      cases same
      exact ⟨[], rfl, .nil⟩
  | cons step rest induction =>
      rcases Course.andThen_of_noted carries with ⟨notes, _, noted, course, rfl⟩
      rcases Course.parts_of_ok course with ⟨response, own, others, steps, goesOn, rfl⟩
      split at goesOn
      · rcases goesOn with ⟨ending, same⟩
        cases same
        refine ⟨[notes ++ own ++ others], by simp, .cons ?_ .nil⟩
        exact ⟨step, notes, own, others, rfl, noted, ending, steps⟩
      · rcases Course.parts_of_ok goesOn with ⟨_, later, _, rest, ⟨rfl, same⟩, rfl⟩
        cases same
        rcases induction rest with ⟨parts, rfl, tell⟩
        refine ⟨(notes ++ own ++ []) :: parts, by simp, .cons ?_ tell⟩
        exact ⟨step, notes, own, [], rfl, noted, List.forall_mem_nil _, steps⟩

/-- A plan without anything to say is carried out by saying nothing. -/
theorem perform_of_idle [Pace] (session : Session) (connection : Connection) (idle : plan.steps = [])
    (quiet : plan.interrupts = false) :
    ∃ notes : Journal, (∀ entry ∈ notes, entry.event.isNote = true) ∧
      session.perform plan connection =
        .ok [] { connection with journal := notes ++ connection.journal } := by
  unfold perform performFor
  rw [idle, quiet]
  cases plan.mode with
  | unrecognized token =>
      exact ⟨[⟨connection.clock, _⟩], List.forall_mem_singleton.mpr rfl, rfl⟩
  | flash | exec => exact ⟨[], nofun, rfl⟩

theorem idle_of_unrecognized {token : String} (build : String)
    (unknown : token ∉ ["f", "F", "e", "E"]) :
    let plan := Plan.ofMode (.ofToken token) build
    plan.steps = [] ∧ plan.interrupts = false := by
  simp only [List.mem_cons, List.not_mem_nil, or_false, not_or] at unknown
  have mode : Mode.ofToken token = .unrecognized token := by simp [Mode.ofToken, unknown]
  rw [mode]
  exact ⟨rfl, rfl⟩

/-- The responses of a run that goes well are those of the first steps of the plan, each of which
was ended by what it waits for; but with the last one the console may have closed the connection,
and only then steps are left over. A plan without an interrupt and without steps, such as that of
any token that asks for no mode, does nothing but close the connection. -/
theorem conduct_reports_steps [Pace] (session : Session) (plan : Plan) (wire : Wire)
    (console : Console) (desk : Desk) :
    let connection := Connection.ofConsole wire console desk
    let result := session.conduct plan connection
    (∀ responses, outcome result = .ok responses →
      responses.length ≤ plan.steps.length ∧
      responses.map Response.command = (plan.steps.take responses.length).map Step.command ∧
      (∀ response ∈ responses.dropLast, response.closed = false) ∧
      (responses.length < plan.steps.length →
        ∃ last, responses.getLast? = some last ∧ last.closed = true) ∧
      (∀ response ∈ responses, response.closed = true → response.prompt = "") ∧
      ∃ opening events,
        (stateAfter result).happenings =
          connection.happenings ++ (opening ++ events ++ [.closed]) ∧
        session.Reported plan.steps events responses) ∧
    (plan.steps = [] → plan.interrupts = false →
      ∃ notes : Journal, (∀ entry ∈ notes, entry.event.isNote = true) ∧
        stateAfter result = shut { connection with journal := notes ++ desk.journal }) ∧
    ∀ token build, token ∉ ["f", "F", "e", "E"] →
      (Plan.ofMode (.ofToken token) build).steps = [] ∧
        (Plan.ofMode (.ofToken token) build).interrupts = false := by
  intro connection result
  have opened : connection.isOpen = true := rfl
  refine ⟨fun responses succeeded => ?_, fun idle quiet => ?_,
    fun _ build unknown => idle_of_unrecognized build unknown⟩
  · rcases carries_of_conduct opened succeeded with ⟨opening, events, happened, carries⟩
    have reported := reported_of_carrying carries
    exact ⟨reported.length_le, reported.commands, reported.closed_of_mem_dropLast,
      reported.closed_of_length_lt, reported.prompt_of_closed, opening, events, happened, reported⟩
  · rcases session.perform_of_idle connection idle quiet with ⟨notes, noted, driven⟩
    refine ⟨notes, noted, ?_⟩
    rw [show result = _ from conduct_eq_of_ok rfl driven]
    split <;> rfl

theorem conduct_reports_steps_starting :
    let plan := Plan.ofMode (.exec .autoboot) "x"
    let result := (usual Window.defaultDepth).conduct plan
      (.ofConsole .telnet (startingKernel 2) (.start .none .none))
    ∃ responses, outcome result = .ok responses ∧
      responses.map Response.closed = [false, true] ∧ plan.steps.length = 3 ∧
      ∃ last, responses.getLast? = some last ∧ last.closed = true := by
  intro plan result
  have done : outcome result =
      .ok [⟨"load x_kernel", "RedBoot> ", "RedBoot>", none, false⟩,
        ⟨"exec", "Starting kernel", "", none, true⟩] := by
    decide +kernel
  refine ⟨_, done, rfl, rfl, ?_⟩
  rcases conduct_reports_steps (usual Window.defaultDepth) plan .telnet (startingKernel 2)
    (.start .none .none) with ⟨reports, _⟩
  exact (reports _ done).2.2.2.1 (by decide)

end Session

end BootConsole
