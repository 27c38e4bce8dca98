import BootConsole.Proofs.Conversation.HangUps
import BootConsole.Proofs.Conversation.Usage

/-!
# What a session knows of its console

A session that has noticed the end of its console sends no step any more. It notices the end in a
wait for a pattern, and there only when the console has printed something since the operation began:
a console that hangs up at once, or in the quiet after an interrupt, leaves no trace but the failure
of that operation. An interrupt is sent in any case.
-/

namespace BootConsole

variable {events : List Happening} {pattern : Pattern} {watch : Watch}

theorem Sending.writes {data : Bytes} {outcome : Except Failure Unit}
    (sends : Sending data events outcome) : ∃ event ∈ events, event.isWrite = true := by
  cases sends <;> simp [Happening.isWrite]

theorem Sending.writes_andThen {α : Type} {data : Bytes} {second : Unit → Course α}
    {outcome : Except Failure α} (course : (Course.andThen (Sending data) second) events outcome) :
    ∃ event ∈ events, event.isWrite = true := by
  rcases course with ⟨failure, sends, _⟩ | ⟨_, earlier, later, sends, _, rfl⟩
  · exact sends.writes
  · rcases sends.writes with ⟨event, member, isWrite⟩
    exact ⟨event, List.mem_append_left later member, isWrite⟩

namespace Session

open Connection

variable {session : Session} {step : Step} {connection : Connection}

/-! ## What an operation notices -/

/-- By what happened, the operation has noticed that the console is gone: after some output, and in
an interrupt before the prompt. -/
structure Notices (session : Session) (operation : Operation) (events : List Happening) :
    Prop where
  hungUp : .hungUp ∈ events
  heard : heardIn events ≠ []
  unanswered : operation = .interrupt → ∀ count, 0 < count → count ≤ (heardIn events).length →
    session.prompt.find? (((heardIn events).take count).flatten.rtake session.depth) = none

theorem sturdy_hungUp [Pace] (deadline : Nat) :
    Sturdy deadline fun before after => after.hungUp = before.hungUp where
  still _ _ same := same
  trans first second := second.trans first
  record _ _ := rfl
  arrival _ _ _ := rfl
  passing _ _ _ _ := rfl

theorem lasting_hungUp [Pace] (session : Session) :
    Lasting session.deadline fun before after => after.hungUp = before.hungUp :=
  (sturdy_hungUp session.deadline).lasting

theorem find?_of_unmatched {chunks : List Bytes} (fresh : watch.Fresh)
    (unmatched : (watch.takeAll chunks).match? pattern = none) :
    pattern.find? (chunks.flatten.rtake watch.window.depth) = none := by
  rw [← fresh.searched]
  exact Option.map_eq_none_iff.mp unmatched

section Interrupt

variable {sending waiting : List Happening}
  (sends : Sending (lineBytes Bootloader.interruptLine) sending (.ok ()))

include sends

theorem heardIn_sending (later : List Happening) :
    heardIn (sending ++ later) = heardIn later := by
  rw [heardIn_append, sends.nothing.1, List.nil_append]

theorem unnoticed_of_wait {outcome : Except Failure (WaitEnd × Watch)}
    (awaits : Awaiting session.prompt (.start session.depth []) waiting outcome)
    (other : ∀ seen, outcome ≠ .ok (.hungUp, seen)) :
    ¬session.Notices .interrupt (sending ++ waiting) := by
  intro notices
  have gone : Happening.hungUp ∈ waiting := by
    simpa [sends.hungUp_not_mem] using notices.hungUp
  have heard := notices.heard
  rw [heardIn_sending sends] at heard
  rcases awaits.hungUp_iff.mpr ⟨gone, .inr heard⟩ with ⟨seen, same⟩
  exact other seen same

theorem noticed_of_wait {seen : Watch}
    (awaits : Awaiting session.prompt (.start session.depth []) waiting (.ok (.hungUp, seen))) :
    session.Notices .interrupt (sending ++ waiting) := by
  rcases awaits.hungUp_iff.mp ⟨seen, rfl⟩ with ⟨gone, impossible | heard⟩
  · cases impossible
  rw [← heardIn_sending sends] at heard
  refine ⟨List.mem_append_right _ gone, heard, fun _ count positive inside => ?_⟩
  rw [heardIn_sending sends] at inside ⊢
  have unmatched := awaits.unmatched nofun gone count positive inside
  exact find?_of_unmatched (Watch.fresh_start _ _) unmatched

/-- Once the prompt has come, a hang-up in the quiet behind it goes unnoticed. -/
theorem unnoticed_of_match {bytes : Bytes} {seen : Watch} (settling : List Happening)
    (awaits : Awaiting session.prompt (.start session.depth []) waiting
      (.ok (.matched bytes, seen))) :
    ¬session.Notices .interrupt (sending ++ (waiting ++ settling)) := by
  intro notices
  have missed := notices.unanswered rfl (heardIn waiting).length
    (List.length_pos_iff.mpr awaits.found.2.1)
  rw [heardIn_sending sends, heardIn_append, List.length_append, List.take_left] at missed
  have searched : seen.window.searched = (heardIn waiting).flatten.rtake session.depth := by
    rw [awaits.relayed.1]
    exact (Watch.fresh_start session.depth []).searched _
  have found := awaits.found.2.2
  rw [Watch.match?, searched, missed (Nat.le_add_right _ _)] at found
  cases found

end Interrupt

theorem interrupt_notices [Pace] (session : Session) (isOpen : connection.isOpen = true) :
    ∃ events, connection.Leads events (stateAfter (session.interrupt connection)) ∧
      ((stateAfter (session.interrupt connection)).hungUp = true ↔
        connection.hungUp = true ∨ session.Notices .interrupt events) := by
  have lasting := session.lasting_hungUp
  rcases follows_say Bootloader.interruptLine connection with ⟨sending, begins, sends⟩
  have spoken := lasting.say Bootloader.interruptLine connection
  rw [interrupt, requireOpen_bind _ isOpen]
  cases said : say Bootloader.interruptLine connection with
  | error failure first =>
      have unsent := sends.hungUp_not_mem
      rw [said] at begins spoken
      rw [bind_of_error said]
      refine ⟨sending, begins, ?_⟩
      rw [spoken]
      exact (or_iff_left fun notices => unsent notices.hungUp).symm
  | ok _ first =>
      rw [said] at begins spoken sends
      rw [bind_of_ok said]
      rcases follows_await session session.prompt (.start session.depth []) first with
        ⟨waiting, onward, awaits⟩
      have waited := (lasting.await session.prompt (.start session.depth []) first).trans spoken
      cases awaited : session.await session.prompt (.start session.depth []) first with
      | error failure second =>
          rw [awaited] at onward waited awaits
          rw [bind_of_error awaited]
          refine ⟨sending ++ waiting, begins.trans onward, ?_⟩
          rw [stateAfter_error] at waited ⊢
          rw [waited]
          exact (or_iff_left (unnoticed_of_wait sends awaits nofun)).symm
      | ok ended second =>
          rw [awaited] at awaits onward waited
          rw [bind_of_ok awaited]
          rcases ended with ⟨ended, seen⟩
          cases ended with
          -- A hang-up in the quiet behind the prompt fails the interrupt, but sets nothing.
          | matched bytes =>
              rcases follows_awaitQuiet session second with ⟨settling, further, _⟩
              have settled := (lasting.awaitQuiet second).trans waited
              refine ⟨_, begins.trans (onward.trans further), ?_⟩
              rw [settled]
              exact (or_iff_left (unnoticed_of_match sends settling awaits)).symm
          | hungUp =>
              have noticed : second.Leads [] { second with hungUp := true } :=
                ⟨(List.append_nil _).symm, rfl, rfl, rfl, fun _ => rfl⟩
              have leads := begins.trans (onward.trans noticed)
              rw [List.append_nil] at leads
              exact ⟨_, leads, iff_of_true rfl (.inr (noticed_of_wait sends awaits))⟩
          | late =>
              refine ⟨sending ++ waiting, begins.trans onward, ?_⟩
              rw [stateAfter_ok] at waited
              change second.hungUp = true ↔ _
              rw [waited]
              exact (or_iff_left (unnoticed_of_wait sends awaits nofun)).symm

/-- Noticing is the last thing that a step may do. -/
theorem conclude_ok (response : Response) (connection : Connection) :
    ∃ after, conclude response connection = .ok () after ∧
      after.hungUp = (connection.hungUp || response.closed) := by
  have last (between : Connection) : ∃ after,
      (if response.closed then noticeHangUp else pure () : Action Connection Unit) between =
        .ok () after ∧ after.hungUp = (between.hungUp || response.closed) := by
    cases response.closed with
    | true => exact ⟨_, rfl, by simp⟩
    | false => exact ⟨between, rfl, by simp⟩
  unfold conclude
  cases response.failure with
  | none => exact last connection
  | some marker => exact last (connection.record _)

theorem hungUp_run_iff [Pace] (isOpen : connection.isOpen = true)
    (present : connection.hungUp = false) :
    (stateAfter (session.run step connection)).hungUp = true ↔
      ∃ response, outcome (session.run step connection) = .ok response ∧
        response.closed = true := by
  have lasting := session.lasting_hungUp
  have reaches : Throughout _ (session.reachEnd step) :=
    lasting.bind (lasting.say step.command) fun _ => lasting.composed.awaitAll step
  have reached := reaches connection
  rw [run_eq isOpen present]
  cases ended : session.reachEnd step connection with
  | error failure second =>
      rw [bind_of_error ended]
      rw [ended] at reached
      change second.hungUp = true ↔ _
      rw [stateAfter_error] at reached
      rw [reached, present]
      simp
  | ok brought second =>
      rcases conclude_ok (response step brought.1 brought.2) second with ⟨after, concluded, gone⟩
      rw [bind_of_ok ended, bind_of_ok concluded]
      rw [ended, stateAfter_ok] at reached
      change after.hungUp = true ↔
        ∃ other : Response, Except.ok _ = Except.ok other ∧ other.closed = true
      rw [gone, reached, present]
      simp

theorem run_notices [Pace] (session : Session) (step : Step) (isOpen : connection.isOpen = true)
    (present : connection.hungUp = false) :
    ∃ events, connection.Leads events (stateAfter (session.run step connection)) ∧
      ((stateAfter (session.run step connection)).hungUp = true ↔
        session.Notices (.step step) events) := by
  rcases follows_run session step isOpen with ⟨events, leads, course⟩
  refine ⟨events, leads, ?_⟩
  rw [hungUp_run_iff isOpen present, stepping_closed_iff course]
  exact ⟨fun gone => ⟨gone.1, gone.2, nofun⟩, fun notices => ⟨notices.hungUp, notices.heard⟩⟩

/-- A hang-up is known after an operation if it was before or the operation has noticed it. -/
theorem hungUp_resume_iff [Pace] (session : Session) (operation : Operation)
    (connection : Connection) :
    (session.resume operation connection).hungUp = true ↔
      connection.hungUp = true ∨
        session.Notices operation (session.happeningsOf operation connection) := by
  have untouched (same : session.resume operation connection = connection) :
      session.happeningsOf operation connection = [] := by
    rw [happeningsOf, same, List.drop_length]
  have unnoticed : ¬session.Notices operation [] := fun notices => List.not_mem_nil notices.hungUp
  cases operation with
  | interrupt =>
      cases isOpen : connection.isOpen with
      | false =>
          have same : session.resume .interrupt connection = connection := by
            rw [resume_interrupt, interrupt_of_closed isOpen, stateAfter_error]
          rw [untouched same, same]
          exact (or_iff_left unnoticed).symm
      | true =>
          rcases session.interrupt_notices isOpen with ⟨events, leads, noticed⟩
          rw [← resume_interrupt] at leads noticed
          rw [happeningsOf_eq leads.happenings]
          exact noticed
  | step step =>
      cases gone : connection.hungUp with
      | true =>
          rw [resume_step, run_of_gone gone]
          simp [gone]
      | false =>
          cases isOpen : connection.isOpen with
          | false =>
              have same : session.resume (.step step) connection = connection := by
                rw [resume_step, run_of_closed isOpen gone, stateAfter_error]
              rw [untouched same, same, gone]
              exact (or_iff_right Bool.false_ne_true).symm.trans
                (or_congr_right (iff_of_false (by simp) unnoticed))
          | true =>
              rcases session.run_notices step isOpen gone with ⟨events, leads, noticed⟩
              rw [← resume_step] at leads noticed
              rw [happeningsOf_eq leads.happenings, noticed]
              simp
  | close =>
      have kept := (sturdy_hungUp 0).close connection
      rw [← resume_close] at kept
      rw [kept]
      refine (or_iff_left fun notices => ?_).symm
      cases isOpen : connection.isOpen with
      | false =>
          have same : session.resume .close connection = connection := by
            rw [resume_close, close_of_closed isOpen, stateAfter_ok]
          rw [untouched same] at notices
          exact unnoticed notices
      | true =>
          have hungUp := notices.hungUp
          rw [happeningsOf_eq (happenings_close isOpen)] at hungUp
          simp at hungUp

theorem hungUp_resumeAll_iff [Pace] (session : Session) (operations : List Operation)
    (connection : Connection) :
    (session.resumeAll operations connection).hungUp = true ↔
      connection.hungUp = true ∨
        ∃ earlier operation later, operations = earlier ++ operation :: later ∧
          session.Notices operation
            (session.happeningsOf operation (session.resumeAll earlier connection)) := by
  induction operations generalizing connection with
  | nil => simp
  | cons operation rest induction =>
      rw [resumeAll_cons, induction, hungUp_resume_iff, or_assoc]
      refine or_congr_right ⟨?_, ?_⟩
      · intro noticed
        rcases noticed with notices | ⟨earlier, other, later, rfl, notices⟩
        · exact ⟨[], operation, rest, rfl, notices⟩
        · exact ⟨operation :: earlier, other, later, rfl, notices⟩
      · intro noticed
        rcases noticed with ⟨earlier, other, later, split, notices⟩
        rcases List.cons_eq_append_iff.mp split with ⟨rfl, same⟩ | ⟨front, rfl, onward⟩
        · cases same
          exact .inl notices
        · exact .inr ⟨front, other, later, onward, notices⟩

/-! ## What an operation writes -/

theorem sturdy_growing [Pace] (deadline : Nat) :
    Sturdy deadline fun before after => before.happenings <+: after.happenings where
  still {before after} _ journal _ := by
    have same : after.happenings = before.happenings := congrArg Journal.happenings journal
    exact same ▸ List.prefix_rfl
  trans first second := first.trans second
  record event connection := by
    rw [happenings_record]
    exact List.prefix_append _ _
  arrival _ connection _ := List.prefix_refl connection.happenings
  passing connection _ _ _ := List.prefix_refl connection.happenings

theorem interrupt_writes [Pace] (session : Session) (isOpen : connection.isOpen = true) :
    ∃ event ∈ session.happeningsOf .interrupt connection, event.isWrite = true := by
  rcases follows_interrupt session isOpen with ⟨events, leads, course⟩
  rw [← resume_interrupt] at leads
  rw [happeningsOf_eq leads.happenings]
  exact Sending.writes_andThen course

theorem run_writes [Pace] (session : Session) (step : Step) (isOpen : connection.isOpen = true)
    (present : connection.hungUp = false) :
    ∃ event ∈ session.happeningsOf (.step step) connection, event.isWrite = true := by
  have begun : connection.Follows _ (session.reachEnd step connection) :=
    (follows_say step.command connection).bind fun _ first _ => follows_awaitAll session step first
  rcases begun with ⟨events, leads, course⟩
  have writes := Sending.writes_andThen course
  have lasting := (sturdy_growing session.deadline).lasting
  have notices : Throughout (fun before after => before.happenings <+: after.happenings)
      noticeHangUp := fun connection => List.prefix_refl connection.happenings
  cases ended : session.reachEnd step connection with
  | error failure second =>
      have ran : session.resume (.step step) connection = second := by
        rw [resume_step, run_eq isOpen present, bind_of_error ended, stateAfter_error]
      rw [ended, stateAfter_error, ← ran] at leads
      rw [happeningsOf_eq leads.happenings]
      exact writes
  | ok brought second =>
      rw [ended, stateAfter_ok] at leads
      have concluding : Throughout (fun before after => before.happenings <+: after.happenings)
          (conclude (response step brought.1 brought.2) >>= fun _ =>
            pure (response step brought.1 brought.2)) :=
        lasting.bind ((lasting.inherited notices).conclude _) fun _ => lasting.pure _
      rcases concluding second with ⟨further, grown⟩
      have ran : (session.resume (.step step) connection).happenings =
          connection.happenings ++ (events ++ further) := by
        rw [resume_step, run_eq isOpen present, bind_of_ok ended, ← grown, leads.happenings,
          List.append_assoc]
      rw [happeningsOf_eq ran]
      rcases writes with ⟨event, member, isWrite⟩
      exact ⟨event, List.mem_append_left _ member, isWrite⟩

/-- Only an interrupt writes to a console that is known to be gone. -/
theorem writes_iff [Pace] (session : Session) (operation : Operation) (connection : Connection) :
    (∃ event ∈ session.happeningsOf operation connection, event.isWrite = true) ↔
      connection.isOpen = true ∧
        (operation = .interrupt ∨
          connection.hungUp = false ∧ ∃ step, operation = .step step) := by
  have unchanged (same : session.resume operation connection = connection) :
      ¬∃ event ∈ session.happeningsOf operation connection, event.isWrite = true := by
    rw [happeningsOf, same, List.drop_length]
    simp
  cases operation with
  | interrupt =>
      cases isOpen : connection.isOpen with
      | false =>
          refine iff_of_false (unchanged ?_) (by simp)
          rw [resume_interrupt, interrupt_of_closed isOpen, stateAfter_error]
      | true => exact iff_of_true (session.interrupt_writes isOpen) ⟨rfl, .inl rfl⟩
  | step step =>
      cases gone : connection.hungUp with
      | true =>
          refine iff_of_false (unchanged ?_) (by simp)
          rw [resume_step, run_of_gone gone, stateAfter_error]
      | false =>
          cases isOpen : connection.isOpen with
          | false =>
              refine iff_of_false (unchanged ?_) (by simp)
              rw [resume_step, run_of_closed isOpen gone, stateAfter_error]
          | true =>
              exact iff_of_true (session.run_writes step isOpen gone) ⟨rfl, .inr ⟨rfl, step, rfl⟩⟩
  | close =>
      refine iff_of_false ?_ (by simp)
      cases isOpen : connection.isOpen with
      | false =>
          apply unchanged
          rw [resume_close, close_of_closed isOpen, stateAfter_ok]
      | true =>
          rw [happeningsOf_eq (happenings_close isOpen)]
          simp [Happening.isWrite]

/-! ## A session that goes on -/

/-- However a session is used, it knows that its console is gone if and only if one of its
operations has noticed that, and what it writes from then on are interrupts. -/
theorem resumeAll_heeds_hangUp [Pace] (session : Session) (wire : Wire) (console : Console)
    (desk : Desk) (operations : List Operation) :
    let start := Connection.ofConsole wire console desk
    let reached := session.resumeAll operations start
    (reached.hungUp = true ↔
      ∃ earlier operation later, operations = earlier ++ operation :: later ∧
        session.Notices operation
          (session.happeningsOf operation (session.resumeAll earlier start))) ∧
      ∀ operation,
        (∃ event ∈ session.happeningsOf operation reached, event.isWrite = true) ↔
          reached.isOpen = true ∧
            (operation = .interrupt ∨
              reached.hungUp = false ∧ ∃ step, operation = .step step) := by
  intro start reached
  have present : start.hungUp = false := rfl
  refine ⟨?_, fun operation => session.writes_iff operation reached⟩
  rw [hungUp_resumeAll_iff, present]
  exact or_iff_right Bool.false_ne_true

/-- A console that answers the interrupt with a prompt and hangs up in the quiet behind it. -/
def leaving : Connection :=
  .ofConsole .text
    { Console.silent with answers := [[.data (Utf8.encode "^C\nRedBoot> "), .hangUp]] }
    (.start .none .none)

/-- A read has found the console gone, the session does not know it, and erases the flash memory. -/
theorem resumeAll_misses_hangUp :
    let session := usual Window.defaultDepth
    let interrupted := session.resumeAll [.interrupt] leaving
    .hungUp ∈ interrupted.happenings ∧ interrupted.hungUp = false ∧
      sentIn (session.happeningsOf (.step (.atPrompt Bootloader.eraseDirectory)) interrupted) =
        [lineBytes "fis init -f"] := by
  decide +kernel

end Session

end BootConsole
