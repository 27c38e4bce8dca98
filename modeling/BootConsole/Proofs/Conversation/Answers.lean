import BootConsole.Proofs.Conversation.Supplied

/-!
# Steps and their answers

A console that answers every line of a plan with what ends the wait behind it is heard step by step:
no step takes anything of what was said to another.
-/

namespace BootConsole

def Step.awaited (step : Step) : List Pattern :=
  match step.reply with
  | none => [step.expect]
  | some reply => [reply.question, step.expect]

/-- An answer of which the filter takes nothing away, however it is chunked and delayed, and which
ends a wait for the pattern. -/
structure Event.Completes (depth : Nat) (pattern : Pattern) (answer : List Event) : Prop where
  speech : ∀ event ∈ answer, event.isSpeech = true
  unchanged : (Event.reading .start answer).2.flatten = Event.carried answer
  some : Event.carried answer ≠ []
  ends : EndsWait depth pattern (Event.reading .start answer).2

def Step.AnsweredBy (depth : Nat) (step : Step) (own : List (List Event)) : Prop :=
  List.Forall₂ (Event.Completes depth) step.awaited own

/-- The console says nothing of its own accord, and answers the lines of the plan one by one. -/
structure Console.Answers (console : Console) (depth : Nat) (plan : Plan)
    (answers : List (List (List Event))) : Prop where
  silent : ∀ event ∈ console.queue, event.isPause = true
  heeds : ∀ line ∈ plan.script, console.cue.count (lineBytes line) = 1
  supply : answers.flatten <+: console.answers
  completes : List.Forall₂ (Step.AnsweredBy depth) plan.steps answers

def Response.summary (response : Response) : String × Bool × String :=
  (response.command, response.closed, response.output)

def Step.summary (depth : Nat) (step : Step) (own : List (List Event)) : String × Bool × String :=
  (step.command, false, Utf8.lossy ((Event.carried own.flatten).rtake depth))

theorem exists_partner {α β : Type} {relates : α → β → Prop} {left : List α} {right : List β}
    (pairs : List.Forall₂ relates left right) {member : β} (inside : member ∈ right) :
    ∃ partner, relates partner member := by
  induction pairs with
  | nil => cases inside
  | cons first _ induction =>
      rcases List.mem_cons.mp inside with rfl | inside
      · exact ⟨_, first⟩
      · exact induction inside

theorem Console.Answers.speech {console : Console} {depth : Nat} {plan : Plan}
    {answers : List (List (List Event))} (answered : console.Answers depth plan answers) :
    ∀ event ∈ answers.flatten.flatten, event.isSpeech = true := by
  intro event member
  rcases List.mem_flatten.mp member with ⟨answer, among, member⟩
  rcases List.mem_flatten.mp among with ⟨own, inside, among⟩
  rcases exists_partner answered.completes inside with ⟨step, completes⟩
  rcases exists_partner completes among with ⟨pattern, completes⟩
  exact completes.speech event member

namespace Event

theorem isSpeech_of_isPause {event : Event} (pause : event.isPause = true) :
    event.isSpeech = true := by
  cases event with
  | pause => rfl
  | data | pauseUntil | hangUp | fail => cases pause

/-- Pauses are not to be seen. -/
theorem reading_of_pauses {pauses : List Event} (only : ∀ event ∈ pauses, event.isPause = true)
    (filter : Terminal.State) (queue : List Event) :
    reading filter (pauses ++ queue) = reading filter queue := by
  have speech : ∀ event ∈ pauses, event.isSpeech = true :=
    fun event member => isSpeech_of_isPause (only event member)
  have none := (chunks_eq_nil_iff speech).mpr only
  rw [reading, chunks_append, none, List.nil_append, reading]

variable {depth : Nat} {pattern : Pattern} {answer : List Event}

/-- An answer that is read in full leaves nothing pending. -/
theorem Completes.start (completes : Completes depth pattern answer) :
    (reading .start answer).1 = .start :=
  Terminal.plainTexts_of_unchanged completes.unchanged

/-- If every chunk is plain text on its own, the wait sees the chunks themselves. -/
theorem Completes.of_chunks (speech : ∀ event ∈ answer, event.isSpeech = true)
    (each : ∀ chunk ∈ chunks answer, (Terminal.plainText .start chunk).2 = chunk)
    (some : carried answer ≠ []) (ends : EndsWait depth pattern (chunks answer)) :
    Completes depth pattern answer := by
  have texts : (reading .start answer).2 = chunks answer :=
    congrArg Prod.snd (Terminal.plainTexts_of_each_unchanged each)
  exact ⟨speech, congrArg List.flatten texts, some, texts ▸ ends⟩

end Event

namespace Connection

def Rests (cue : Cue) (deadline : Nat) (added : List Event) (owed : List (List Event))
    (connection : Connection) : Prop :=
  ∃ left, Stands cue deadline .start (left ++ added) owed connection ∧
    ∀ event ∈ left, event.isPause = true

variable {cue : Cue} {deadline : Nat} {added answer : List Event} {owed : List (List Event)}
  {connection : Connection}

theorem Rests.record (rests : Rests cue deadline added owed connection) (event : Happening) :
    Rests cue deadline added owed (connection.record event) := by
  rcases rests with ⟨left, stands, pauses⟩
  exact ⟨left, stands.record event, pauses⟩

theorem goesWell_note (rests : Rests cue deadline added owed connection) (level : Level)
    (text : String) :
    connection.GoesWell
      (fun _ events after => Rests cue deadline added owed after ∧ Yields events [] [])
      (note level text connection) :=
  ⟨[.noted level text], (Leads.refl connection).record _, rests.record _, rfl, rfl⟩

theorem goesWell_put (stands : Stands cue deadline .start added owed connection) (data : Bytes) :
    connection.GoesWell
      (fun _ events after => Stands cue deadline .start added owed after ∧ Yields events [] [])
      (put data connection) := by
  have advanced : Stands cue deadline .start added owed
      { connection with console.writes := connection.console.writes.advance } :=
    { stands with wire := stands.wire }
  rw [put_prompt]
  cases connection.console.writes.next? with
  | none =>
      exact ⟨_, ⟨happenings_record (.wrote data) _, rfl, rfl, rfl, id⟩, advanced.record _, rfl, rfl⟩
  | some cause =>
      exact ⟨_, ⟨happenings_record (.writeFailed cause) _, rfl, rfl, rfl, id⟩, .writeFailed cause,
        List.mem_singleton.mpr rfl, rfl⟩

/-- A line that was sent has its answer coming. -/
theorem goesWell_say {line : String} (heeds : cue.count (lineBytes line) = 1)
    (rests : Rests cue deadline [] (answer :: owed) connection) :
    connection.GoesWell
      (fun _ events after => Rests cue deadline answer owed after ∧
        Yields events [lineBytes line] []) (say line connection) := by
  rcases rests with ⟨left, stands, pauses⟩
  rw [List.append_nil] at stands
  change connection.GoesWell _ (send (lineBytes line) connection)
  rw [send_text _ connection stands.wire]
  refine (goesWell_put stands _).bind fun _ earlier between came => ?_
  rcases came with ⟨stands, yields⟩
  refine ⟨[.sent (lineBytes line)], ⟨happenings_record _ _, rfl, rfl, rfl, id⟩,
    ⟨left, .record ?_ _, pauses⟩, yields.append ⟨rfl, rfl⟩⟩
  -- One cue moves one answer from what is owed to the queue.
  rcases stands.answers with ⟨spare, answers⟩
  have expected : left ++ (answer :: owed).flatten = (left ++ answer) ++ owed.flatten := by simp
  refine { stands with queue := ?_, answers := ⟨spare, ?_⟩, speech := ?_, early := ?_ }
  · rw [Console.answer_eq, stands.cue, heeds, stands.queue, ← answers]
    simp
  · rw [Console.answer_eq, stands.cue, heeds, ← answers]
    rfl
  · exact expected ▸ stands.speech
  · exact expected ▸ stands.early

end Connection

namespace Session

open Connection

variable {session : Session} {cue : Cue} {answer : List Event} {owed own : List (List Event)}
  {connection : Connection} {history : Bytes}

/-! ## Waiting for answers -/

/-- A wait has brought the rest of its answers: this is all that its window has seen. -/
structure Brought (session : Session) (cue : Cue) (owed : List (List Event)) (history : Bytes)
    (ended : Option Bytes × Watch) (after : Connection) : Prop where
  matched : ended.1.isSome = true
  rests : Rests cue session.deadline [] owed after
  keeps : ∃ recent, ended.2.window.Keeps history recent
  depth : ended.2.window.depth = session.depth

theorem goesWell_awaitStep (command : String) {pattern : Pattern} {watch : Watch}
    (rests : Rests cue session.deadline answer owed connection)
    (completes : Event.Completes session.depth pattern answer)
    (keeps : watch.window.Keeps history []) (depth : watch.window.depth = session.depth) :
    connection.GoesWell
      (fun ended events after =>
        session.Brought cue owed (history ++ Event.carried answer) ended after ∧
          Yields events [] (Event.carried answer))
      (session.awaitStep command pattern watch connection) := by
  rcases rests with ⟨left, stands, pauses⟩
  have reading := Event.reading_of_pauses pauses .start answer
  have awaited := session.goesWell_await pattern watch connection [] history stands keeps depth
    (by rw [reading]; exact completes.ends)
    (by rw [reading, completes.unchanged]; exact completes.some)
  rw [reading, completes.start, completes.unchanged] at awaited
  refine awaited.bind fun ended events after came => ?_
  rcases ended with ⟨ended, seen⟩
  rcases came with ⟨bytes, left, rfl, stands, pauses, keeps, depth, yields⟩
  refine GoesWell.pure ⟨⟨rfl, ⟨left, ?_, pauses⟩, keeps, depth⟩, ?_⟩
  · rwa [List.append_nil]
  · rwa [List.append_nil]

theorem goesWell_reachEnd {step : Step}
    (heeds : ∀ line ∈ step.lines, cue.count (lineBytes line) = 1)
    (rests : Rests cue session.deadline [] (own ++ owed) connection)
    (completes : step.AnsweredBy session.depth own) :
    connection.GoesWell
      (fun ended events after =>
        session.Brought cue owed (Event.carried own.flatten) ended after ∧
          Yields events (step.lines.map lineBytes) (Event.carried own.flatten))
      (session.reachEnd step connection) := by
  have fresh := Watch.keeps_start session.depth Bootloader.failureMarkers
  rcases step with ⟨command, expect, reply⟩
  unfold reachEnd Session.awaitAll Session.awaitAllFor
  cases reply with
  | none =>
      rcases completes with _ | ⟨ends, _ | _⟩
      refine (goesWell_say (heeds _ List.mem_cons_self) rests).bind fun _ earlier between came => ?_
      refine (goesWell_awaitStep command came.1 ends fresh rfl).mono
        fun ended later after waited => ?_
      have yields := came.2.append waited.2
      rw [List.flatten_singleton]
      exact ⟨waited.1, yields⟩
  | some reply =>
      rcases completes with _ | ⟨asks, _ | ⟨ends, _ | _⟩⟩
      rename_i question answer
      refine (goesWell_say (heeds _ List.mem_cons_self) rests).bind fun _ first between came => ?_
      refine (goesWell_awaitStep command came.1 asks fresh rfl).bind
        fun asked second between waited => ?_
      rcases asked with ⟨matched, seen⟩
      rcases waited with ⟨⟨found, rests, ⟨recent, keeps⟩, depth⟩, yields⟩
      rcases Option.isSome_iff_exists.mp found with ⟨bytes, rfl⟩
      refine (goesWell_say (heeds _ (by simp [Step.lines])) rests).bind
        fun _ third between said => ?_
      -- The turn hides the question, and the search for the end begins behind it.
      have turned : seen.turn.window.Keeps (Event.carried question) [] := keeps.hide
      refine (goesWell_awaitStep command said.1 ends turned depth).mono
        fun ended fourth after last => ?_
      have spoken := came.2.append (yields.append (said.2.append last.2))
      have text : Event.carried [question, answer].flatten =
          Event.carried question ++ Event.carried answer := by simp
      rw [text]
      exact ⟨last.1, spoken⟩

/-! ## Steps -/

theorem goesWell_conclude {response : Response} (present : response.closed = false)
    (rests : Rests cue session.deadline [] owed connection) :
    connection.GoesWell
      (fun _ events after => Rests cue session.deadline [] owed after ∧ Yields events [] [])
      (conclude response connection) := by
  unfold conclude
  rw [present]
  cases response.failure with
  | none => exact GoesWell.pure ⟨rests, .nil⟩
  | some marker => exact goesWell_note rests _ _

theorem goesWell_run {step : Step}
    (heeds : ∀ line ∈ step.lines, cue.count (lineBytes line) = 1)
    (rests : Rests cue session.deadline [] (own ++ owed) connection)
    (completes : step.AnsweredBy session.depth own) :
    connection.GoesWell
      (fun response events after =>
        response.summary = step.summary session.depth own ∧
          Rests cue session.deadline [] owed after ∧
          Yields events (step.lines.map lineBytes) (Event.carried own.flatten))
      (session.run step connection) := by
  rcases rests with ⟨left, stands, pauses⟩
  rw [run_eq stands.isOpen stands.present]
  refine (goesWell_reachEnd heeds ⟨left, stands, pauses⟩ completes).bind
    fun ended earlier between came => ?_
  rcases came with ⟨⟨matched, rests, ⟨recent, keeps⟩, depth⟩, yields⟩
  have present : (response step ended.1 ended.2).closed = false := by
    rw [response, Option.isNone_eq_false_iff]
    exact matched
  have output : (response step ended.1 ended.2).output =
      Utf8.lossy ((Event.carried own.flatten).rtake session.depth) := by
    rw [response, keeps.bytes, depth]
  refine (goesWell_conclude present rests).bind fun _ later last concluded => ?_
  refine GoesWell.pure ⟨?_, concluded.1, ?_⟩
  · rw [Response.summary, present, output]
    rfl
  · have spoken := yields.append (concluded.2.append .nil)
    simpa only [List.append_nil] using spoken

theorem goesWell_runSteps (total : Nat) {steps : List Step} {answers : List (List (List Event))}
    (heeds : ∀ line ∈ steps.flatMap Step.lines, cue.count (lineBytes line) = 1)
    (rests : Rests cue session.deadline [] answers.flatten connection)
    (completes : List.Forall₂ (Step.AnsweredBy session.depth) steps answers) :
    connection.GoesWell
      (fun responses events _ =>
        responses.map Response.summary =
            List.zipWith (Step.summary session.depth) steps answers ∧
          Yields events ((steps.flatMap Step.lines).map lineBytes)
            (Event.carried answers.flatten.flatten))
      (session.runSteps total steps connection) := by
  induction completes generalizing connection with
  | nil => exact GoesWell.pure ⟨rfl, .nil⟩
  | @cons step own remaining others first completes induction =>
      rw [List.flatten_cons] at rests
      have here : ∀ line ∈ step.lines, cue.count (lineBytes line) = 1 :=
        fun line member => heeds line (List.mem_append_left _ member)
      have behind : ∀ line ∈ remaining.flatMap Step.lines, cue.count (lineBytes line) = 1 :=
        fun line member => heeds line (List.mem_append_right _ member)
      refine (goesWell_note rests _ _).bind fun _ noting begun noted => ?_
      refine (goesWell_run here noted.1 first).bind fun response earlier between ran => ?_
      rcases ran with ⟨told, rests, yields⟩
      have present : response.closed = false := (Prod.mk.inj (Prod.mk.inj told).2).1
      rw [present]
      refine (induction behind rests).bind fun responses later last went => ?_
      refine GoesWell.pure ⟨?_, ?_⟩
      · rw [List.map_cons, List.zipWith_cons_cons, told, went.1]
      · have spoken := noted.2.append (yields.append (went.2.append .nil))
        rw [List.flatMap_cons, List.map_append, List.flatten_cons, List.flatten_append,
          Event.carried_append]
        simpa using spoken

/-! ## Runs -/

theorem goesWell_perform {plan : Plan} {answers : List (List (List Event))}
    (calm : plan.interrupts = false)
    (heeds : ∀ line ∈ plan.script, cue.count (lineBytes line) = 1)
    (rests : Rests cue session.deadline [] answers.flatten connection)
    (completes : List.Forall₂ (Step.AnsweredBy session.depth) plan.steps answers) :
    connection.GoesWell
      (fun responses events _ =>
        responses.map Response.summary =
            List.zipWith (Step.summary session.depth) plan.steps answers ∧
          Yields events (plan.script.map lineBytes) (Event.carried answers.flatten.flatten))
      (session.perform plan connection) := by
  have script : plan.script = plan.steps.flatMap Step.lines := by
    rw [Plan.script, calm]
    rfl
  rw [script] at heeds ⊢
  have steps {connection : Connection}
      (rests : Rests cue session.deadline [] answers.flatten connection) :=
    goesWell_runSteps plan.steps.length heeds rests completes
  unfold perform performFor
  simp only [calm]
  cases plan.mode with
  | unrecognized token =>
      refine (goesWell_note rests _ _).bind fun _ noting begun noted => ?_
      exact (steps noted.1).mono fun responses events after came =>
        ⟨came.1, noted.2.append came.2⟩
  | _ => exact steps rests

/-- When nothing fails, every step of a plan without an interrupt gets the answers to its own lines:
the whole script is sent, everything is shown, and there is a response to every step, which tells
the end of its own answers and nothing else. -/
theorem conduct_keeps_steps_and_answers_together (session : Session) (plan : Plan)
    (console : Console) (desk : Desk) (answers : List (List (List Event)))
    (events : List Happening) (calm : plan.interrupts = false)
    (answered : console.Answers session.depth plan answers)
    (early : desk.clock + Event.delay (console.queue ++ answers.flatten.flatten) ≤
      max desk.clock session.deadline)
    (closes : console.closing = none)
    (happened : (stateAfter (session.conduct plan (.ofConsole .text console desk))).happenings =
      (Connection.ofConsole .text console desk).happenings ++ events)
    (free : ∀ event ∈ events, event.hinders = false) :
    ∃ responses,
      outcome (session.conduct plan (.ofConsole .text console desk)) = .ok responses ∧
      responses.map Response.summary =
        List.zipWith (Step.summary session.depth) plan.steps answers ∧
      sentIn events = plan.script.map lineBytes ∧
      shownIn events = Event.carried answers.flatten.flatten := by
  have rests : Rests console.cue session.deadline [] answers.flatten
      (Connection.ofConsole .text console desk) := by
    refine ⟨console.queue, ⟨rfl, rfl, rfl, rfl, rfl, (List.append_nil _).symm, answered.supply,
      ?_, ?_⟩, answered.silent⟩
    · intro event member
      rw [List.append_nil] at member
      rcases List.mem_append.mp member with waiting | owed
      · exact Event.isSpeech_of_isPause (answered.silent event waiting)
      · exact answered.speech event owed
    · rwa [List.append_nil]
  rcases session.goesWell_perform calm answered.heeds rests answered.completes with
    ⟨inner, leads, came⟩
  have isOpen := leads.isOpen
  have shuts : (stateAfter (session.perform plan (.ofConsole .text console desk))).closeFailure? =
      none := by
    rw [leads.closeFailure?]
    simp only [Connection.closeFailure?, Connection.ofConsole, closes]
  cases reached : session.perform plan (.ofConsole .text console desk) with
  | error failure after =>
      rw [reached] at isOpen leads came
      rcases conduct_of_error isOpen reached with ⟨grown, _⟩
      rw [grown, leads.happenings, List.append_assoc] at happened
      rcases came with ⟨event, member, hinders⟩
      have unhindered := free event
      rw [← List.append_cancel_left happened] at unhindered
      exact absurd hinders (by simp [unhindered (List.mem_append_left _ member)])
  | ok responses after =>
      rw [reached] at isOpen leads came shuts
      rcases conduct_of_ok isOpen reached with ⟨grown, decided⟩
      rw [shuts] at decided
      rw [grown, leads.happenings, List.append_assoc] at happened
      have last : Yields [.closed] [] [] := ⟨rfl, rfl⟩
      have spoken := came.2.append last
      rw [List.append_nil, List.append_nil, List.append_cancel_left happened] at spoken
      exact ⟨responses, decided, came.1, spoken.sent, spoken.shown⟩

def erasing : Plan where
  mode := .flash .manual
  interrupts := false
  prompt := Bootloader.prompt
  steps :=
    [{ Step.atPrompt Bootloader.eraseDirectory with
        reply := some ⟨Bootloader.question, Bootloader.consent⟩ },
      .atPrompt Bootloader.listDirectory]

def asking : List (List (List Event)) :=
  [[[.pause 500, .data (Utf8.encode "About to erase - "),
        .data (Utf8.encode "continue (y/n)? ")],
      [.data (Utf8.encode "y\n"), .data (Utf8.encode "RedBoot> ")]],
    [[.data (Utf8.encode "Name\nRedBoot> ")]]]

theorem conduct_keeps_question_and_answers_together :
    let session := usual Window.defaultDepth
    let start := Connection.ofConsole .text { Console.silent with answers := asking.flatten }
      (.start .none .none)
    let events := (stateAfter (session.conduct erasing start)).happenings
    ∃ responses,
      outcome (session.conduct erasing start) = .ok responses ∧
      responses.map Response.summary =
        [("fis init -f", false, "About to erase - continue (y/n)? y\nRedBoot> "),
          ("fis list", false, "Name\nRedBoot> ")] ∧
      sentIn events = [lineBytes "fis init -f", lineBytes "y", lineBytes "fis list"] ∧
      shownIn events = Utf8.encode
        "About to erase - continue (y/n)? y\nRedBoot> Name\nRedBoot> " := by
  intro session start events
  have question : Event.Completes session.depth Bootloader.question
      [.pause 500, .data (Utf8.encode "About to erase - "),
        .data (Utf8.encode "continue (y/n)? ")] :=
    .of_chunks (by decide) (by decide +kernel) (by decide +kernel)
      ⟨by decide +kernel, by decide +kernel⟩
  have erased : Event.Completes session.depth Bootloader.prompt
      [.data (Utf8.encode "y\n"), .data (Utf8.encode "RedBoot> ")] :=
    .of_chunks (by decide) (by decide +kernel) (by decide +kernel)
      ⟨by decide +kernel, by decide +kernel⟩
  have listed : Event.Completes session.depth Bootloader.prompt
      [.data (Utf8.encode "Name\nRedBoot> ")] :=
    .of_chunks (by decide) (by decide +kernel) (by decide +kernel)
      ⟨by decide +kernel, by decide +kernel⟩
  have answered : Console.Answers { Console.silent with answers := asking.flatten } session.depth
      erasing asking :=
    ⟨nofun, by decide +kernel, List.prefix_rfl,
      .cons (.cons question (.cons erased .nil)) (.cons (.cons listed .nil) .nil)⟩
  rcases conduct_keeps_steps_and_answers_together session erasing _ (.start .none .none) asking
    events rfl answered (by decide +kernel) rfl (List.nil_append _).symm (by decide +kernel) with
    ⟨responses, ended, told, sent, shown⟩
  exact ⟨responses, ended, told.trans (by decide +kernel), sent.trans (by decide +kernel),
    shown.trans (by decide +kernel)⟩

/-- What has nothing in it is no answer, though the pattern would match it: the step is given up. -/
theorem conduct_misses_empty_answer :
    let pattern : Pattern := ⟨"(?m)[.]*", .ofExpr (.repeated (.literal [0x2E]) 0 none true)⟩
    let plan : Plan := ⟨.flash .manual, false, Bootloader.prompt, [⟨"sync", pattern, none⟩]⟩
    let start := Connection.ofConsole .text { Console.silent with answers := [[.data []]] }
      (.start .none .none)
    (pattern.find? []).isSome = true ∧
      outcome ((usual Window.defaultDepth).conduct plan start) =
        .error (.stepTimeout "sync" "(?m)[.]*" Bootloader.sessionTimeout) := by
  decide +kernel

end Session

end BootConsole
