import BootConsole.Proofs.Conversation.Usage
import BootConsole.Proofs.Telnet.RoundTrip

/-!
# The same console on either wire

A console that hands its text over chunk by chunk can as well be reached by telnet, with every chunk
encoded. If each chunk is read back as it was and by one read, a session cannot tell the difference:
what it does on the one connection is, step by step, what it does on the other, but for the bytes
that the stream takes.
-/

namespace BootConsole

/-! ## Events and journals -/

/-- The chunk comes out of a telnet stream as it was, and by one read. -/
structure Telnet.Survives (chunk : Bytes) : Prop where
  some : chunk ≠ []
  unpadded : ¬[carriageReturn, Telnet.nul] <:+: chunk
  ends : chunk.getLast? ≠ Option.some carriageReturn
  fits : (Telnet.encode chunk).length ≤ readSize

namespace Event

def encoded : Event → Event
  | .data bytes => .data (Telnet.encode bytes)
  | event => event

def Survives : Event → Prop
  | .data bytes => Telnet.Survives bytes
  | _ => True

end Event

def Arrival.encoded : Arrival → Arrival
  | .data bytes => .data (Telnet.encode bytes)
  | arrived => arrived

/-- The same on the telnet wire: only what the stream takes is encoded. -/
def Happening.encoded : Happening → Happening
  | .wrote data => .wrote (Telnet.encode data)
  | .wrotePart data => .wrotePart (Telnet.encode data)
  | .replied data => .replied (Telnet.encode data)
  | .repliedPart data => .repliedPart (Telnet.encode data)
  | event => event

def Entry.encoded (entry : Entry) : Entry :=
  { entry with event := entry.event.encoded }

def Console.encoded (console : Console) : Console :=
  { console with
    queue := console.queue.map Event.encoded
    answers := console.answers.map (·.map Event.encoded)
    flushes := .none }

theorem Console.answer_encoded (data : Bytes) (console : Console) :
    console.encoded.answer data = (console.answer data).encoded := by
  simp [answer, encoded, List.map_flatten, List.map_take, List.map_drop]

namespace Journal

variable {journal : Journal}

theorem happenings_encoded (journal : Journal) :
    happenings (journal.map Entry.encoded) = journal.happenings.map Happening.encoded := by
  simp [happenings, Entry.encoded, Function.comp_def]

/-- The stream takes the same writes, encoded. -/
theorem writes_encoded (journal : Journal) :
    writes (journal.map Entry.encoded) = journal.writes.map Telnet.encode := by
  rw [writes, collect, happenings_encoded, List.filterMap_map, writes, collect, List.map_filterMap]
  congr 1
  funext event
  cases event <;> rfl

/-- The operator sees the same. -/
theorem pages_encoded (journal : Journal) :
    pages (journal.map Entry.encoded) = journal.pages := by
  have same (waiting : Option Bytes) (events : List Happening) :
      pagesFrom waiting (events.map Happening.encoded) = pagesFrom waiting events := by
    induction events generalizing waiting with
    | nil => rfl
    | cons event rest induction =>
        cases event <;> simp only [List.map_cons, Happening.encoded, pagesFrom, induction]
  rw [pages, happenings_encoded, same, pages]

/-- As long as the stream has taken nothing there is nothing to encode. -/
theorem encoded_of_unwritten (unwritten : journal.writes = []) :
    journal.map Entry.encoded = journal := by
  refine (List.map_congr_left fun entry member => ?_).trans (List.map_id journal)
  have inside : entry.event ∈ journal.happenings :=
    List.mem_reverse.mpr (List.mem_map_of_mem member)
  have kept := List.filterMap_eq_nil_iff.mp unwritten entry.event inside
  rcases entry with ⟨time, event⟩
  cases event with
  | wrote | wrotePart | replied | repliedPart => cases kept
  | _ => rfl

end Journal

/-- A read comes to the same on either wire. -/
theorem Event.next_encoded (limit now : Nat) {queue : List Event}
    (survives : ∀ event ∈ queue, event.Survives) :
    next .telnet limit now (queue.map encoded) =
      ((next .text limit now queue).1.encoded, (next .text limit now queue).2.1,
        (next .text limit now queue).2.2.map encoded) := by
  induction queue generalizing now with
  | nil => rfl
  | cons event rest induction =>
      rcases List.forall_mem_cons.mp survives with ⟨first, others⟩
      cases event with
      | data bytes =>
          have some : (Telnet.encode bytes).isEmpty = false := by
            simpa using Telnet.encode_ne_nil first.some
          have whole : (Telnet.encode bytes).take readSize = Telnet.encode bytes :=
            List.take_of_length_le first.fits
          have nothing : (Telnet.encode bytes).drop readSize = [] :=
            List.drop_of_length_le first.fits
          simp [encoded, next, some, whole, nothing, Arrival.encoded]
      | pause milliseconds =>
          simp only [List.map_cons, encoded, next]
          split
          · exact induction _ others
          · rfl
      | pauseUntil time =>
          simp only [List.map_cons, encoded, next]
          split
          · exact induction _ others
          · rfl
      | hangUp => rfl
      | fail cause => rfl

/-- What a read leaves in the queue was in it before. -/
theorem Event.survives_next {limit now : Nat} {queue : List Event}
    (survives : ∀ event ∈ queue, event.Survives) :
    (∀ event ∈ (next .text limit now queue).2.2, event.Survives) ∧
      ∀ bytes, (next .text limit now queue).1 = .data bytes → Telnet.Survives bytes := by
  induction queue generalizing now with
  | nil => exact ⟨survives, fun bytes same => by cases same⟩
  | cons event rest induction =>
      rcases List.forall_mem_cons.mp survives with ⟨first, others⟩
      cases event with
      | data bytes =>
          refine ⟨others, fun chunk same => ?_⟩
          cases same
          exact first
      | pause milliseconds =>
          simp only [next]
          split
          · exact induction others
          · exact ⟨List.forall_mem_cons.mpr ⟨trivial, others⟩, fun bytes same => by cases same⟩
      | pauseUntil time =>
          simp only [next]
          split
          · exact induction others
          · exact ⟨List.forall_mem_cons.mpr ⟨trivial, others⟩, fun bytes same => by cases same⟩
      | hangUp => exact ⟨survives, fun bytes same => by cases same⟩
      | fail cause => exact ⟨others, fun bytes same => by cases same⟩

variable {α β : Type}

namespace Connection

/-- The telnet connection to the same console, after `calls` flushes of its stream. -/
def overTelnet (calls : Nat) (connection : Connection) : Connection :=
  { connection with
    journal := connection.journal.map Entry.encoded
    wire := .telnet
    console := { connection.console.encoded with flushes := ⟨[], calls⟩ }
    decoder := .text }

/-- A text connection to a console that does not behave otherwise behind telnet. -/
structure IsSuited (connection : Connection) : Prop where
  wire : connection.wire = .text
  queue : ∀ event ∈ connection.console.queue, event.Survives
  answers : ∀ answer ∈ connection.console.answers, ∀ event ∈ answer, event.Survives
  closing : ∀ cause, connection.console.closing = some cause → cause.kind ≠ .notConnected

def resultOverTelnet (calls : Nat) :
    EStateM.Result Failure Connection α → EStateM.Result Failure Connection α
  | .ok value after => .ok value (after.overTelnet calls)
  | .error failure after => .error failure (after.overTelnet calls)

def Agrees (action : Action Connection α) : Prop :=
  ∀ connection calls, IsSuited connection →
    IsSuited (stateAfter (action connection)) ∧
      ∃ further, action (connection.overTelnet calls) = resultOverTelnet further (action connection)

variable {connection : Connection} {calls : Nat}

namespace IsSuited

theorem record (suited : IsSuited connection) (event : Happening) :
    IsSuited (connection.record event) :=
  { suited with wire := suited.wire }

end IsSuited

namespace Agrees

theorem pure (value : α) : Agrees (Pure.pure value : Action Connection α) :=
  fun _ calls suited => ⟨suited, calls, rfl⟩

theorem throw (failure : Failure) : Agrees (MonadExcept.throw failure : Action Connection α) :=
  fun _ calls suited => ⟨suited, calls, rfl⟩

theorem bind {action : Action Connection α} {next : α → Action Connection β}
    (begins : Agrees action) (goesOn : ∀ value, Agrees (next value)) :
    Agrees (action >>= next) := by
  intro connection calls suited
  rcases begins connection calls suited with ⟨stays, between, same⟩
  cases done : action connection with
  | error failure after =>
      rw [done] at stays same
      rw [bind_of_error done, bind_of_error same]
      exact ⟨stays, between, rfl⟩
  | ok value after =>
      rw [done] at stays same
      rw [bind_of_ok done, bind_of_ok same]
      exact goesOn value after between stays

theorem note (level : Level) (text : String) : Agrees (note level text) :=
  fun _ calls suited => ⟨suited.record _, calls, rfl⟩

end Agrees

/-! ## Reading -/

theorem arrival_overTelnet (limit calls : Nat) (suited : IsSuited connection) :
    (connection.overTelnet calls).arrival limit =
      ((connection.arrival limit).1.encoded, (connection.arrival limit).2.overTelnet calls) := by
  have next := Event.next_encoded limit connection.clock suited.queue
  simp only [arrival, suited.wire]
  exact congrArg (fun next : Arrival × Nat × List Event =>
    (next.1, { connection.overTelnet calls with
      clock := next.2.1
      console.queue := next.2.2 })) next

theorem IsSuited.arrival (suited : IsSuited connection) (limit : Nat) :
    IsSuited (connection.arrival limit).2 ∧
      ∀ bytes, (connection.arrival limit).1 = .data bytes → Telnet.Survives bytes := by
  have left := @Event.survives_next limit connection.clock _ suited.queue
  rw [← suited.wire] at left
  exact ⟨{ suited with queue := left.1 }, left.2⟩

/-- The stream is read to the chunk, and nothing of it has to be answered. -/
theorem decode_overTelnet {chunk : Bytes} (limit : Nat) (survives : Telnet.Survives chunk) :
    decode limit (Telnet.encode chunk) (connection.overTelnet calls) =
      .ok (some chunk) (connection.overTelnet calls) := by
  have read : Telnet.decode .text (Telnet.encode chunk) = (.text, .ofText chunk) := by
    rw [Telnet.decode_eq_run, Telnet.run_encode_of_unpadded survives.unpadded survives.ends]
  have decoded : Telnet.decode (connection.overTelnet calls).decoder (Telnet.encode chunk) =
      (.text, .ofText chunk) := read
  simp only [decode, show (connection.overTelnet calls).wire = .telnet from rfl, decoded]
  rfl

theorem receive_overTelnet (limit calls : Nat) (suited : IsSuited connection) :
    receive limit (connection.overTelnet calls) =
        resultOverTelnet calls (receive limit connection) ∧
      IsSuited (stateAfter (receive limit connection)) := by
  have stays := suited.arrival limit
  rw [receive_eq, receive_eq, arrival_overTelnet limit calls suited]
  generalize connection.arrival limit = arrived at stays
  rcases arrived with ⟨arrived, after⟩
  cases arrived with
  | silence | hangUp | fail cause => exact ⟨rfl, stays.1.record _⟩
  | data bytes =>
      have survives := stays.2 bytes rfl
      have given : decode limit bytes after = .ok (some bytes) after := by
        rw [decode, stays.1.wire]
      have some : bytes.isEmpty = false := by simpa using survives.some
      simp only [Arrival.encoded, decode_overTelnet limit survives, given, some]
      exact ⟨rfl, stays.1.record _⟩

theorem hear_overTelnet (limit calls : Nat) (suited : IsSuited connection) :
    hear limit (connection.overTelnet calls) = resultOverTelnet calls (hear limit connection) ∧
      IsSuited (stateAfter (hear limit connection)) := by
  fun_induction hear limit connection with
  | case1 connection failure after received | case2 connection after received =>
      have read := receive_overTelnet limit calls suited
      rw [received] at read
      rw [hear_eq, read.1]
      exact ⟨rfl, read.2⟩
  | case3 connection bytes between received stripped filtered empty induction =>
      have read := receive_overTelnet limit calls suited
      rw [received] at read
      have silent : hear limit (connection.overTelnet calls) =
          hear limit (filtered.overTelnet calls) := by
        rw [hear_eq, read.1]
        exact if_pos empty
      rw [silent]
      exact induction { read.2 with wire := read.2.wire }
  | case4 connection bytes between received stripped filtered some =>
      have read := receive_overTelnet limit calls suited
      rw [received] at read
      have filtered : IsSuited { between with filter := stripped.1 } :=
        { read.2 with wire := read.2.wire }
      refine ⟨?_, filtered.record _⟩
      rw [hear_eq, read.1]
      exact if_neg some

/-! ## Showing and sending -/

theorem echo_overTelnet (text : Bytes) (calls : Nat) (connection : Connection) :
    echo text (connection.overTelnet calls) = resultOverTelnet calls (echo text connection) := by
  have writes : (connection.overTelnet calls).writes = connection.writes := rfl
  have flushes : (connection.overTelnet calls).flushes = connection.flushes := rfl
  rw [echo_eq, echo_eq, writes, flushes]
  cases connection.writes.next? with
  | some cause => rfl
  | none =>
      cases connection.flushes.next? with
      | some cause => rfl
      | none => rfl

theorem IsSuited.echo (suited : IsSuited connection) (text : Bytes) :
    IsSuited (stateAfter (echo text connection)) := by
  unfold Connection.echo atDesk
  cases Desk.display text connection.toDesk with
  | ok _ desk => exact { suited with wire := suited.wire }
  | error failure desk => exact { suited with wire := suited.wire }

theorem put_overTelnet (data : Bytes) (calls : Nat) (connection : Connection) :
    put (Telnet.encode data) (connection.overTelnet calls) =
      resultOverTelnet calls (put data connection) := by
  have writes : (connection.overTelnet calls).console.writes = connection.console.writes := rfl
  rw [put_prompt, put_prompt, writes]
  cases connection.console.writes.next? with
  | some cause => rfl
  | none => rfl

theorem flush_overTelnet (calls : Nat) (connection : Connection) :
    flush (connection.overTelnet calls) = .ok () (connection.overTelnet (calls + 1)) := rfl

theorem delivered_overTelnet (data : Bytes) (calls : Nat) (connection : Connection) :
    delivered data (connection.overTelnet calls) =
      resultOverTelnet calls (delivered data connection) := by
  have answered : (connection.overTelnet calls).console.answer data =
      { (connection.console.answer data).encoded with flushes := ⟨[], calls⟩ } := by
    rw [← Console.answer_encoded]
    rfl
  exact congrArg (fun console : Console =>
    (EStateM.Result.ok () (record (.sent data) { connection.overTelnet calls with console }) :
      EStateM.Result Failure Connection Unit)) answered

theorem IsSuited.delivered (suited : IsSuited connection) (data : Bytes) :
    IsSuited (stateAfter (delivered data connection)) := by
  refine { suited with wire := suited.wire, queue := ?_, answers := ?_ }
  · intro event member
    rcases List.mem_append.mp member with member | member
    · exact suited.queue event member
    · rcases List.mem_flatten.mp member with ⟨answer, among, member⟩
      exact suited.answers answer (List.mem_of_mem_take among) event member
  · intro answer among
    exact suited.answers answer (List.mem_of_mem_drop among)

theorem Agrees.say (line : String) : Agrees (say line) := by
  intro connection calls suited
  have some : lineBytes line ≠ [] := by simp [lineBytes]
  change IsSuited (stateAfter (send (lineBytes line) connection)) ∧
    ∃ further, send (lineBytes line) (connection.overTelnet calls) =
      resultOverTelnet further (send (lineBytes line) connection)
  rw [send_text _ connection suited.wire, send_telnet _ some _ rfl]
  have same := put_overTelnet (lineBytes line) calls connection
  have written : IsSuited (stateAfter (put (lineBytes line) connection)) := by
    rw [put_prompt]
    cases connection.console.writes.next? <;> exact { suited with wire := suited.wire }
  cases done : put (lineBytes line) connection with
  | error failure after =>
      rw [done] at same written
      rw [bind_of_error done, bind_of_error same]
      exact ⟨written, calls, rfl⟩
  | ok _ after =>
      rw [done] at same written
      rw [bind_of_ok done, bind_of_ok same, bind_of_ok (flush_overTelnet calls after)]
      exact ⟨written.delivered _, calls + 1, delivered_overTelnet _ _ after⟩

/-! ## Waiting -/

theorem relay_overTelnet (limit calls : Nat) (suited : IsSuited connection) :
    relay limit (connection.overTelnet calls) = resultOverTelnet calls (relay limit connection) ∧
      IsSuited (stateAfter (relay limit connection)) := by
  rcases hear_overTelnet limit calls suited with ⟨read, stays⟩
  rw [relay_eq, relay_eq, read]
  cases heard : hear limit connection with
  | error failure after =>
      rw [heard] at stays
      exact ⟨rfl, stays⟩
  | ok found after =>
      rw [heard] at stays
      cases found with
      | none => exact ⟨rfl, stays⟩
      | some chunk =>
          have still := IsSuited.echo (show IsSuited after from stays) chunk
          simp only [resultOverTelnet, echo_overTelnet]
          cases echoed : Connection.echo chunk after with
          | ok _ last =>
              rw [echoed] at still
              exact ⟨rfl, still⟩
          | error failure last =>
              rw [echoed] at still
              exact ⟨rfl, still⟩

theorem await_overTelnet (session : Session) (pattern : Pattern) (watch : Watch) (calls : Nat)
    (suited : IsSuited connection) :
    session.await pattern watch (connection.overTelnet calls) =
        resultOverTelnet calls (session.await pattern watch connection) ∧
      IsSuited (stateAfter (session.await pattern watch connection)) := by
  induction size : connection.weight using Nat.strongRecOn generalizing watch connection with
  | _ size induction =>
    rcases relay_overTelnet session.deadline calls suited with ⟨same, stays⟩
    rw [Session.await_eq, Session.await_eq, same]
    cases relayed : relay session.deadline connection with
    | error failure after =>
        rw [relayed] at stays
        simp only [resultOverTelnet]
        split <;> exact ⟨rfl, stays⟩
    | ok found after =>
        rw [relayed] at stays
        cases found with
        | none => exact ⟨rfl, stays⟩
        | some chunk =>
            simp only [resultOverTelnet]
            cases (watch.take chunk).match? pattern with
            | some bytes => exact ⟨rfl, stays⟩
            | none => exact induction _ (size ▸ weight_relay_lt relayed) (watch.take chunk) stays rfl

theorem awaitQuiet_overTelnet (session : Session) (calls : Nat) (suited : IsSuited connection) :
    session.awaitQuiet (connection.overTelnet calls) =
        resultOverTelnet calls (session.awaitQuiet connection) ∧
      IsSuited (stateAfter (session.awaitQuiet connection)) := by
  induction size : connection.weight using Nat.strongRecOn generalizing connection with
  | _ size induction =>
    rcases relay_overTelnet (min (connection.clock + Bootloader.quietTime) session.deadline) calls
      suited with ⟨same, stays⟩
    have clock : (connection.overTelnet calls).clock = connection.clock := rfl
    rw [Session.awaitQuiet_eq, Session.awaitQuiet_eq, clock, same]
    cases relayed : relay (min (connection.clock + Bootloader.quietTime) session.deadline)
        connection with
    | error failure after =>
        rw [relayed] at stays
        exact ⟨rfl, stays⟩
    | ok found after =>
        rw [relayed] at stays
        cases found with
        | none => exact ⟨rfl, stays⟩
        | some chunk => exact induction _ (size ▸ weight_relay_lt relayed) stays rfl

end Connection

/-! ## Sessions -/

namespace Session

open Connection

variable {session : Session}

theorem agrees_await (pattern : Pattern) (watch : Watch) :
    Agrees (session.await pattern watch) := by
  intro connection calls suited
  have same := await_overTelnet session pattern watch calls suited
  exact ⟨same.2, calls, same.1⟩

theorem agrees_awaitQuiet : Agrees session.awaitQuiet := by
  intro connection calls suited
  have same := awaitQuiet_overTelnet session calls suited
  exact ⟨same.2, calls, same.1⟩

theorem agrees_requireOpen : Agrees requireOpen := by
  intro connection calls suited
  rw [requireOpen_eq, requireOpen_eq]
  change IsSuited _ ∧ ∃ further, (if connection.isOpen = true then _ else _) = _
  split <;> exact ⟨suited, calls, rfl⟩

theorem agrees_requireConsole : Agrees requireConsole := by
  intro connection calls suited
  rw [requireConsole_eq, requireConsole_eq]
  change IsSuited _ ∧ ∃ further, (if connection.hungUp = true then _ else _) = _
  split <;> exact ⟨suited, calls, rfl⟩

theorem agrees_noticeHangUp : Agrees noticeHangUp :=
  fun _ calls suited => ⟨{ suited with wire := suited.wire }, calls, rfl⟩

theorem agrees_awaitStep (command : String) (pattern : Pattern) (watch : Watch) :
    Agrees (session.awaitStep command pattern watch) := by
  refine (agrees_await pattern watch).bind fun ended => ?_
  match ended with
  | (.matched _, _) => exact .pure _
  | (.hungUp, _) => exact .pure _
  | (.late, _) => exact .throw _

theorem agrees_interrupt : Agrees session.interrupt := by
  refine agrees_requireOpen.bind fun _ => (Agrees.say _).bind fun _ =>
    (agrees_await _ _).bind fun ended => ?_
  match ended with
  | (.matched _, _) => exact agrees_awaitQuiet
  | (.hungUp, _) => exact agrees_noticeHangUp.bind fun _ => .throw _
  | (.late, _) => exact .throw _

theorem agrees_perform (session : Session) (plan : Plan) : Agrees (session.perform plan) :=
  have inherited : session.Inherited fun _ action => Agrees action := {
    pure := .pure
    bind := .bind
    say := .say
    awaitStep := agrees_awaitStep
    requireConsole := agrees_requireConsole
    requireOpen := agrees_requireOpen
    note := .note
    notice := agrees_noticeHangUp
    interrupt := agrees_interrupt }
  inherited.perform plan

/-- A close that does not fail for want of a peer fails on both wires or on neither. -/
theorem closeFailure?_overTelnet {connection : Connection} (suited : IsSuited connection)
    (calls : Nat) : (connection.overTelnet calls).closeFailure? = connection.closeFailure? := by
  have same : (connection.overTelnet calls).console.closing = connection.console.closing := rfl
  unfold closeFailure?
  rw [same]
  cases closing : connection.console.closing with
  | none => rfl
  | some cause =>
      have other := suited.closing cause closing
      simp [suited.wire, other]

theorem agrees_close : Agrees close := by
  intro connection calls suited
  cases isOpen : connection.isOpen with
  | false =>
      have same : close (connection.overTelnet calls) = .ok () (connection.overTelnet calls) :=
        close_of_closed isOpen
      rw [close_of_closed isOpen, same]
      exact ⟨suited, calls, rfl⟩
  | true =>
      have shut : IsSuited { connection with isOpen := false } :=
        { suited with wire := suited.wire }
      have isOpen' : (connection.overTelnet calls).isOpen = true := isOpen
      have same := close_of_open isOpen'
      rw [closeFailure?_overTelnet suited calls] at same
      rw [close_of_open isOpen, same]
      cases connection.closeFailure? with
      | none => exact ⟨shut.record _, calls, rfl⟩
      | some failure => exact ⟨shut.record _, calls, rfl⟩

theorem agrees_conduct (session : Session) (plan : Plan) : Agrees (session.conduct plan) := by
  intro connection calls suited
  rcases agrees_perform session plan connection calls suited with ⟨stays, further, same⟩
  unfold conduct conductFor
  rw [performFor_failureMarkers, same]
  cases driven : session.perform plan connection with
  | ok responses after =>
      rw [driven] at stays
      rcases agrees_close after further stays with ⟨last, calls, same⟩
      simp only [resultOverTelnet, same]
      cases closed : close after with
      | ok _ after => rw [closed] at last; exact ⟨last, calls, rfl⟩
      | error failure after => rw [closed] at last; exact ⟨last, calls, rfl⟩
  | error failure after =>
      rw [driven] at stays
      rcases agrees_close after further stays with ⟨last, calls, same⟩
      simp only [resultOverTelnet, same]
      cases closed : close after with
      | ok _ after => rw [closed] at last; exact ⟨last, calls, rfl⟩
      | error second after =>
          rw [closed] at last
          exact ⟨IsSuited.record last _, calls, rfl⟩

/-- If every chunk of a console survives the way through telnet, and closing the connection does not
fail because the peer is gone, a session over telnet comes to what it comes to over plain text, at
the same time. The operator sees the same, page by page, and the stream takes the same writes,
encoded. -/
theorem conduct_same_over_telnet (session : Session) (plan : Plan) (console : Console)
    (desk : Desk) (unwritten : desk.journal.writes = [])
    (survives : ∀ event ∈ console.queue ++ console.answers.flatten, event.Survives)
    (closing : ∀ cause, console.closing = some cause → cause.kind ≠ .notConnected) :
    let text := session.conduct plan (.ofConsole .text console desk)
    let telnet := session.conduct plan (.ofConsole .telnet console.encoded desk)
    outcome telnet = outcome text ∧
      (stateAfter telnet).clock = (stateAfter text).clock ∧
      (stateAfter telnet).journal.pages = (stateAfter text).journal.pages ∧
      (stateAfter telnet).journal.writes =
        (stateAfter text).journal.writes.map Telnet.encode := by
  intro text telnet
  have suited : IsSuited (.ofConsole .text console desk) := by
    refine ⟨rfl, fun event member => ?_, fun answer among event member => ?_, closing⟩
    · exact survives event (List.mem_append_left _ member)
    · exact survives event (List.mem_append_right _ (List.mem_flatten.mpr ⟨answer, among, member⟩))
  have start : (Connection.ofConsole .text console desk).overTelnet 0 =
      .ofConsole .telnet console.encoded desk := by
    rw [overTelnet, show (Connection.ofConsole .text console desk).journal = desk.journal from rfl,
      Journal.encoded_of_unwritten unwritten]
    rfl
  rcases agrees_conduct session plan _ 0 suited with ⟨_, calls, same⟩
  rw [start] at same
  change telnet = resultOverTelnet calls text at same
  have after : stateAfter telnet = (stateAfter text).overTelnet calls := by
    rw [same]
    cases text <;> rfl
  refine ⟨?_, ?_, ?_, ?_⟩
  · rw [same]
    cases text <;> rfl
  · rw [after]
    rfl
  · rw [after]
    exact Journal.pages_encoded _
  · rw [after]
    exact Journal.writes_encoded _

/-- A console whose text holds carriage returns of all kinds, and what would be a telnet command. -/
def unruly : Console :=
  { Console.silent with
    answers :=
      [[.data (Utf8.encode "^C\r\nRedBoot> "), .pause 200, .data (Utf8.encode "\nRedBoot> ")],
        [.data [0x2D, 0x0D, 0x5C, 0x0D, 0x0D, 0x0A, 255, 253, 1], .pause 20,
          .data (Utf8.encode "\r\nRedBoot> ")]] }

theorem conduct_same_over_telnet_unruly :
    let session := usual Window.defaultDepth
    let text := session.conduct breaking (.ofConsole .text unruly (.start .none .none))
    let telnet := session.conduct breaking (.ofConsole .telnet unruly.encoded (.start .none .none))
    (Desk.start .none .none).journal.writes = [] ∧
      (∀ event ∈ unruly.queue ++ unruly.answers.flatten, event.Survives) ∧
      outcome telnet = outcome text ∧
      (stateAfter telnet).clock = 520 ∧
      (stateAfter telnet).journal.pages = (stateAfter text).journal.pages ∧
      (stateAfter telnet).journal.writes =
        [Utf8.encode "\x03\r\n", Utf8.encode "fis list\r\n"] := by
  intro session text telnet
  have survives : ∀ event ∈ unruly.queue ++ unruly.answers.flatten, event.Survives := by
    intro event member
    simp only [unruly, Console.silent, List.flatten_cons, List.flatten_nil, List.nil_append,
      List.cons_append, List.append_nil, List.mem_cons, List.not_mem_nil, or_false] at member
    rcases member with rfl | rfl | rfl | rfl | rfl | rfl
    · exact ⟨by decide +kernel, by decide +kernel, by decide +kernel, by decide +kernel⟩
    · trivial
    · exact ⟨by decide +kernel, by decide +kernel, by decide +kernel, by decide +kernel⟩
    · exact ⟨by decide +kernel, by decide +kernel, by decide +kernel, by decide +kernel⟩
    · trivial
    · exact ⟨by decide +kernel, by decide +kernel, by decide +kernel, by decide +kernel⟩
  rcases conduct_same_over_telnet session breaking unruly (.start .none .none) rfl survives
    (by simp [unruly, Console.silent]) with ⟨ended, clock, pages, writes⟩
  exact ⟨rfl, survives, ended, clock.trans (by decide +kernel), pages,
    writes.trans (by decide +kernel)⟩

end Session

end BootConsole
