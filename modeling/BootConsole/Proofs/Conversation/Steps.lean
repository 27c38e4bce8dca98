import BootConsole.Proofs.Conversation.Waiting
import BootConsole.Session.Conduct

/-!
# Steps and plans

The courses of an interrupt, of a step and of a whole plan, put together from those of sending and
waiting as the session puts its operations together.
-/

namespace BootConsole

namespace Session

open Connection

variable {connection : Connection}

/-! ## Guards and notes -/

theorem requireOpen_eq (connection : Connection) :
    requireOpen connection =
      if connection.isOpen = true then .ok () connection else .error .notOpen connection := by
  rw [requireOpen, get_bind]
  split <;> rfl

theorem requireOpen_of_open (isOpen : connection.isOpen = true) :
    requireOpen connection = .ok () connection := by
  rw [requireOpen_eq, if_pos isOpen]

theorem requireOpen_bind {α : Type} (next : Unit → Action Connection α)
    (isOpen : connection.isOpen = true) :
    (requireOpen >>= next) connection = next () connection :=
  bind_of_ok (requireOpen_of_open isOpen) next

theorem requireConsole_eq (connection : Connection) :
    requireConsole connection =
      if connection.hungUp = true then .error .disconnected connection
      else .ok () connection := by
  rw [requireConsole, get_bind]
  split <;> rfl

theorem requireConsole_of_present (present : connection.hungUp = false) :
    requireConsole connection = .ok () connection := by
  rw [requireConsole_eq, if_neg (Bool.eq_false_iff.mp present)]

def requiring : Course Unit := fun events outcome =>
  events = [] ∧ (outcome = .ok () ∨ outcome = .error .disconnected)

theorem follows_requireConsole (connection : Connection) :
    connection.Follows requiring (requireConsole connection) := by
  rw [requireConsole_eq]
  split
  · exact ⟨[], .refl connection, rfl, .inr rfl⟩
  · exact ⟨[], .refl connection, rfl, .inl rfl⟩

theorem follows_noticeHangUp (connection : Connection) :
    connection.Follows (.done [] ()) (noticeHangUp connection) :=
  ⟨[], ⟨(List.append_nil _).symm, rfl, rfl, rfl, fun _ => rfl⟩, rfl, rfl⟩

theorem follows_conclude (response : Response) (connection : Connection) :
    connection.Follows (.noted ()) (conclude response connection) := by
  have last (between : Connection) : between.Follows (.noted ())
      ((if response.closed then noticeHangUp else pure () : Action Connection Unit) between) := by
    split
    · exact (follows_noticeHangUp between).mono fun _ _ course => ⟨by simp [course.1], course.2⟩
    · exact ⟨[], .refl between, by simp, rfl⟩
  unfold conclude
  cases response.failure with
  | none => exact last connection
  | some marker =>
      exact ((follows_note _ _ connection).bind fun _ between _ => last between).mono
        fun _ _ => Course.noted_of_noted_andThen

/-! ## The interrupt -/

variable [Pace]

def afterBreak (session : Session) : WaitEnd × Watch → Course Unit
  | (.matched _, _) => Settling
  | (.hungUp, _) => .refused .disconnected
  | (.late, _) => .refused (.promptTimeout session.prompt.text session.timeout)

def interrupting (session : Session) : Course Unit :=
  (Sending (lineBytes Bootloader.interruptLine)).andThen fun _ =>
    (Awaiting session.prompt (.start session.depth [])).andThen session.afterBreak

theorem follows_interrupt (session : Session) (isOpen : connection.isOpen = true) :
    connection.Follows session.interrupting (session.interrupt connection) := by
  unfold interrupt
  rw [requireOpen_bind _ isOpen]
  refine (follows_say _ connection).bind fun _ first _ =>
    (follows_await session session.prompt _ first).bind fun ended second _ => ?_
  match ended with
  | (.matched _, _) => exact follows_awaitQuiet session second
  | (.hungUp, _) =>
      apply ((follows_noticeHangUp second).bind fun _ third _ => .throw .disconnected).mono
      intro events outcome course
      rcases Course.andThen_of_done course with ⟨_, ⟨rfl, rfl⟩, rfl⟩
      exact ⟨rfl, rfl⟩
  | (.late, _) => exact .throw _

/-! ## Steps -/

def afterWait (session : Session) (command : String) (pattern : Pattern) :
    WaitEnd × Watch → Course (Option Bytes × Watch)
  | (.matched bytes, watch) => .done [] (some bytes, watch)
  | (.hungUp, watch) => .done [] (none, watch)
  | (.late, _) => .refused (.stepTimeout command pattern.text session.timeout)

def waiting (session : Session) (command : String) (pattern : Pattern) (watch : Watch) :
    Course (Option Bytes × Watch) :=
  (Awaiting pattern watch).andThen (session.afterWait command pattern)

theorem follows_awaitStep (session : Session) (command : String) (pattern : Pattern)
    (watch : Watch) (connection : Connection) :
    connection.Follows (session.waiting command pattern watch)
      (session.awaitStep command pattern watch connection) := by
  unfold awaitStep
  refine (follows_await session pattern watch connection).bind fun ended after _ => ?_
  match ended with
  | (.matched bytes, _) => exact .pure _
  | (.hungUp, _) => exact .pure _
  | (.late, _) => exact .throw _

def afterQuestion (session : Session) (step : Step) (answer : String) :
    Option Bytes × Watch → Course (Option Bytes × Watch)
  | (none, watch) => .done [] (none, watch)
  | (some _, watch) =>
      (Sending (lineBytes answer)).andThen fun _ =>
        session.waiting step.command step.expect watch.turn

def bringing (session : Session) (step : Step) : Course (Option Bytes × Watch) :=
  let watch := Watch.start session.depth Bootloader.failureMarkers
  match step.reply with
  | none => session.waiting step.command step.expect watch
  | some reply =>
      (session.waiting step.command reply.question watch).andThen
        (session.afterQuestion step reply.answer)

theorem follows_awaitAll (session : Session) (step : Step) (connection : Connection) :
    connection.Follows (session.bringing step) (session.awaitAll step connection) := by
  unfold awaitAll awaitAllFor bringing
  cases step.reply with
  | none => exact follows_awaitStep session _ _ _ connection
  | some reply =>
      refine (follows_awaitStep session _ _ _ connection).bind fun asked first _ => ?_
      match asked with
      | (none, _) => exact .pure _
      | (some _, watch) =>
          exact (follows_say _ first).bind fun _ second _ =>
            follows_awaitStep session _ _ watch.turn second

def stepping (session : Session) (step : Step) : Course Response :=
  requiring.andThen fun _ => (Sending (lineBytes step.command)).andThen fun _ =>
    (session.bringing step).andThen fun brought =>
      .noted (response step brought.1 brought.2)

theorem follows_run (session : Session) (step : Step) (isOpen : connection.isOpen = true) :
    connection.Follows (session.stepping step) (session.run step connection) := by
  unfold run runFor
  refine (follows_requireConsole connection).bind fun _ first stays => ?_
  rw [requireOpen_bind _ (stays.trans isOpen)]
  refine (follows_say _ first).bind fun _ second _ =>
    (follows_awaitAll session step second).bind fun brought third _ => ?_
  apply ((follows_conclude _ third).bind fun _ fourth _ => .pure _).mono
  intro events outcome course
  rcases Course.andThen_of_noted course with ⟨notes, _, noted, ⟨rfl, rfl⟩, rfl⟩
  exact ⟨by simpa using noted, rfl⟩

theorem isOpen_of_run {session : Session} {step : Step} {response : Response} {after : Connection}
    (ran : session.run step connection = .ok response after) : connection.isOpen = true := by
  cases isOpen : connection.isOpen with
  | true => rfl
  | false =>
      have closed : requireOpen connection = .error .notOpen connection := by
        rw [requireOpen_eq, if_neg (by simp [isOpen])]
      unfold run runFor at ran
      cases gone : connection.hungUp with
      | true =>
          rw [bind_of_error (by rw [requireConsole_eq, if_pos gone])] at ran
          cases ran
      | false =>
          rw [bind_of_ok (requireConsole_of_present gone), bind_of_error closed] at ran
          cases ran

def reachEnd (session : Session) (step : Step) : Action Connection (Option Bytes × Watch) := do
  say step.command
  session.awaitAll step

/-- A step that comes to its end gives a response, whatever there is to note about it. -/
theorem run_of_reachEnd {session : Session} {step : Step} {second : Connection}
    {ending : Option Bytes} {seen : Watch} (isOpen : connection.isOpen = true)
    (present : connection.hungUp = false)
    (reached : session.reachEnd step connection = .ok (ending, seen) second) :
    ∃ notes after, session.run step connection = .ok (response step ending seen) after ∧
      after.happenings = second.happenings ++ notes ∧ ∀ note ∈ notes, note.isNote = true := by
  have concluded := follows_conclude (response step ending seen) second
  have ran : session.run step connection =
      (conclude (response step ending seen) >>= fun _ => pure (response step ending seen))
        second := by
    rw [run, runFor, bind_of_ok (requireConsole_of_present present), requireOpen_bind _ isOpen]
    cases said : say step.command connection with
    | error failure first =>
        rw [reachEnd, bind_of_error said] at reached
        cases reached
    | ok _ first =>
        rw [reachEnd, bind_of_ok said] at reached
        exact (bind_of_ok said _).trans (bind_of_ok reached _)
  rw [ran]
  rcases concluded with ⟨notes, leads, noted, done⟩
  cases concluding : conclude (response step ending seen) second with
  | error failure after =>
      rw [concluding] at done
      cases done
  | ok _ after =>
      rw [concluding] at leads
      exact ⟨notes, after, bind_of_ok concluding _, leads.happenings, noted⟩

def usual (depth : Nat) : Session :=
  ⟨Bootloader.prompt, Bootloader.sessionTimeout.milliseconds, Bootloader.sessionTimeout, depth⟩

def saying (chunks : List Bytes) : Connection :=
  .ofConsole .text { Console.silent with queue := chunks.map .data } (.start .none .none)

def answering (chunks : List Bytes) : Connection :=
  .ofConsole .text { Console.silent with answers := [chunks.map .data] } (.start .none .none)

def breaking : Plan :=
  ⟨.exec .autoboot, true, Bootloader.prompt, [.atPrompt Bootloader.listDirectory]⟩

/-- A console that shows its prompt after so many lines, and after one more starts a kernel and
hangs up. -/
def startingKernel (prompts : Nat) : Console :=
  { Console.silent with
    answers :=
      List.replicate prompts [.data (Utf8.encode "RedBoot> ")] ++
        [[.data (Utf8.encode "Starting kernel"), .hangUp]] }

/-! ## Plans -/

def carrying (session : Session) : List Step → Course (List Response)
  | [] => .done [] []
  | step :: rest =>
      (Course.noted ()).andThen fun _ => (session.stepping step).andThen fun response =>
        if response.closed then .noted [response]
        else (session.carrying rest).andThen fun others => .done [] (response :: others)

theorem follows_runSteps (session : Session) (total : Nat) (steps : List Step)
    (isOpen : connection.isOpen = true) :
    connection.Follows (session.carrying steps) (session.runSteps total steps connection) := by
  induction steps generalizing connection with
  | nil => exact .pure []
  | cons step rest induction =>
      unfold runSteps runStepsFor carrying
      refine (follows_note _ _ connection).bind fun _ first stays => ?_
      refine (follows_run session step (stays.trans isOpen)).bind fun response second goesOn => ?_
      have still := goesOn.trans (stays.trans isOpen)
      split
      · split
        · exact ⟨[], .refl second, by simp, rfl⟩
        · exact ((follows_note _ _ second).bind fun _ third _ => .pure_noted [response]).mono
            fun _ _ => Course.noted_of_noted_andThen
      · exact (induction still).bind fun others third _ => .pure (response :: others)

def performing (session : Session) (plan : Plan) : Course (List Response) :=
  (Course.noted ()).andThen fun _ =>
    (if plan.interrupts then session.interrupting else .done [] ()).andThen fun _ =>
      session.carrying plan.steps

theorem follows_perform (session : Session) (plan : Plan) (isOpen : connection.isOpen = true) :
    connection.Follows (session.performing plan) (session.perform plan connection) := by
  have steps (between : Connection) (still : between.isOpen = true) :
      between.Follows
        ((if plan.interrupts then session.interrupting else .done [] ()).andThen fun _ =>
          session.carrying plan.steps)
        ((if plan.interrupts then do
            session.interrupt
            session.runSteps plan.steps.length plan.steps
          else session.runSteps plan.steps.length plan.steps : Action Connection (List Response))
          between) := by
    split
    · exact (follows_interrupt session still).bind fun _ after stays =>
        follows_runSteps session _ plan.steps (stays.trans still)
    · exact (Follows.pure ()).bind fun _ after stays =>
        follows_runSteps session _ plan.steps (stays.trans still)
  unfold perform performFor performing
  cases plan.mode with
  | unrecognized token =>
      exact (follows_note _ _ connection).bind fun _ between stays =>
        steps between (stays.trans isOpen)
  | flash | exec =>
      exact (Follows.pure_noted ()).bind fun _ between stays => steps between (stays.trans isOpen)

end Session

end BootConsole
