import BootConsole.Proofs.Conversation.Deadline
import BootConsole.Proofs.Conversation.Supplied

/-!
# Reads of a stream

A console sends a stream, however cut and delayed, and hangs up. A read takes a part off it, answers
what there is to answer in the part, as slowly as the stream takes it, and comes to its text. A read
may be given up while it waits for the console; given up over an answer, it is one whose write
failed.
-/

namespace BootConsole

/-! ## A queue that holds a stream -/

namespace Event

/-- The queue brings the stream, with delays anywhere, and then its end. -/
inductive Streams : Bytes → List Event → Prop
  | ended : Streams [] [.hangUp]
  | data (bytes : Bytes) {stream : Bytes} {queue : List Event} :
      Streams stream queue → Streams (bytes ++ stream) (.data bytes :: queue)
  | pause (milliseconds : Nat) {stream : Bytes} {queue : List Event} :
      Streams stream queue → Streams stream (.pause milliseconds :: queue)
  | pauseUntil (time : Nat) {stream : Bytes} {queue : List Event} :
      Streams stream queue → Streams stream (.pauseUntil time :: queue)

theorem Streams.carried_eq {stream : Bytes} {queue : List Event} (streams : Streams stream queue) :
    carried queue = stream := by
  induction streams with
  | ended => rfl
  | data bytes _ induction => rw [carried_cons, induction]; rfl
  | pause _ _ induction | pauseUntil _ _ induction => rw [carried_cons, induction]; rfl

/-- When a read that begins now and is never given up has waited out all delays. -/
def due (now : Nat) : List Event → Nat
  | .data _ :: rest => due now rest
  | .pause milliseconds :: rest => due (now + milliseconds) rest
  | .pauseUntil time :: rest => due (max now time) rest
  | [] | .hangUp :: _ | .fail _ :: _ => now

theorem le_due (now : Nat) (queue : List Event) : now ≤ due now queue := by
  fun_induction due now queue with
  | case1 now bytes rest induction => exact induction
  | case2 now milliseconds rest induction => omega
  | case3 now time rest induction => omega
  | case4 | case5 | case6 => exact Nat.le_refl _

/-- Who begins later has waited no longer in the end. -/
theorem due_add_le (now idle : Nat) (queue : List Event) :
    due (now + idle) queue ≤ due now queue + idle := by
  fun_induction due now queue generalizing idle with
  | case1 now bytes rest induction => exact induction idle
  | case2 now milliseconds rest induction =>
      rw [due, Nat.add_right_comm]
      exact induction idle
  | case3 now time rest induction =>
      have later : max (now + idle) time =
          max now time + (max (now + idle) time - max now time) := by
        omega
      rw [due, later]
      have waited := induction (max (now + idle) time - max now time)
      omega
  | case4 | case5 | case6 => exact Nat.le_refl _

inductive Arrives (late : Prop) : Bytes → Arrival → Bytes → Prop
  | silence {stream : Bytes} : late → Arrives late stream .silence stream
  | data {bytes rest : Bytes} : bytes ≠ [] → Arrives late (bytes ++ rest) (.data bytes) rest
  | hangUp : Arrives late [] .hangUp []

theorem Arrives.mono {late later : Prop} {stream rest : Bytes} {arrival : Arrival}
    (arrives : Arrives late stream arrival rest) (included : late → later) :
    Arrives later stream arrival rest := by
  cases arrives with
  | silence late => exact .silence (included late)
  | data some => exact .data some
  | hangUp => exact .hangUp

theorem Streams.arrives {stream : Bytes} {queue : List Event} (streams : Streams stream queue)
    (limit now : Nat) :
    ∃ rest, Arrives (limit < due now queue) stream (next .telnet limit now queue).1 rest ∧
      Streams rest (next .telnet limit now queue).2.2 ∧
      due (next .telnet limit now queue).2.1 (next .telnet limit now queue).2.2 = due now queue := by
  induction streams generalizing now with
  | ended => exact ⟨[], .hangUp, .ended, rfl⟩
  | @data bytes stream queue streams induction =>
      rw [next]
      split
      · next empty =>
          rw [List.isEmpty_iff.mp empty]
          exact induction now
      · next nonempty =>
          have some : bytes.take readSize ≠ [] := by
            intro nothing
            rw [List.take_eq_nil_iff] at nothing
            simp_all [readSize]
          have whole : bytes ++ stream =
              bytes.take readSize ++ (bytes.drop readSize ++ stream) := by
            rw [← List.append_assoc, List.take_append_drop]
          rw [whole]
          refine ⟨_, .data some, ?_, ?_⟩
          · dsimp only
            split
            · next all =>
                rw [List.isEmpty_iff.mp all]
                exact streams
            · exact .data _ streams
          · dsimp only
            split <;> rfl
  | @pause milliseconds stream queue streams induction =>
      rw [next]
      split
      · exact induction (now + milliseconds)
      · next passed =>
          refine ⟨stream, .silence ?_, .pauseUntil _ streams, ?_⟩
          · have := le_due (now + milliseconds) queue
            simp only [due]
            omega
          · simp only [due]
            congr 1
            omega
  | @pauseUntil time stream queue streams induction =>
      rw [next]
      split
      · exact induction (max now time)
      · next passed =>
          refine ⟨stream, .silence ?_, .pauseUntil _ streams, ?_⟩
          · have := le_due (max now time) queue
            simp only [due]
            omega
          · simp only [due]
            congr 1
            omega

theorem Streams.eq_of_hangUp {stream : Bytes} {queue : List Event} (streams : Streams stream queue)
    (hangUp : ∃ others, queue = .hangUp :: others) : queue = [.hangUp] := by
  rcases hangUp with ⟨others, rfl⟩
  cases streams
  rfl

/-- The end of the stream stays in the queue. -/
theorem queue_of_hangUp {wire : Wire} {limit now : Nat} {queue : List Event}
    (hangUp : (next wire limit now queue).1 = .hangUp) :
    ∃ others, (next wire limit now queue).2.2 = .hangUp :: others := by
  fun_induction next wire limit now queue with
  | case3 _ _ _ telnet _ induction =>
      subst telnet
      exact induction hangUp
  | case5 _ _ _ _ _ induction | case7 _ _ _ _ induction => exact induction hangUp
  | case9 now rest => exact ⟨rest, rfl⟩
  | case1 | case2 | case4 | case6 | case8 | case10 => cases hangUp

end Event

/-! ## Writes that stall -/

def Stall.delay : List Stall → Nat
  | [] => 0
  | stall :: stalls => stall.milliseconds + delay stalls

/-- How long so many writes stall in all, from a number on. -/
def Pace.delay [Pace] (number : Nat) : Nat → Nat
  | 0 => 0
  | count + 1 => Stall.delay (Pace.stalls number) + Pace.delay (number + 1) count

theorem Pace.delay_mono [Pace] (number : Nat) {fewer count : Nat} (bound : fewer ≤ count) :
    Pace.delay number fewer ≤ Pace.delay number count := by
  induction fewer generalizing number count with
  | zero => exact Nat.zero_le _
  | succ fewer induction =>
      cases count with
      | zero => exact absurd bound (Nat.not_succ_le_zero fewer)
      | succ count =>
          exact Nat.add_le_add_left (induction (number + 1) (Nat.le_of_succ_le_succ bound)) _

theorem Stall.time_pass_le (limit : Option Nat) (size taken now : Nat) (stalls : List Stall) :
    (pass limit size taken now stalls).time ≤ now + delay stalls := by
  fun_induction pass limit size taken now stalls with
  | case1 => exact Nat.le_refl _
  | case2 taken now stall stalls further time latest early induction =>
      rw [delay]
      omega
  | case3 taken now stall stalls further time latest late =>
      rw [delay]
      dsimp only
      omega

namespace Happening

/-- A write was refused, or not all of it was taken. -/
def failsWrite : Happening → Bool
  | .writeFailed _ | .wrotePart _ | .repliedPart _ => true
  | _ => false

end Happening

/-- What is read of two parts, one after the other. -/
theorem Telnet.text_append (state : Telnet.State) (first second : Bytes) :
    (Telnet.run state (first ++ second)).2.text =
      (Telnet.run state first).2.text ++
        (Telnet.run (Telnet.run state first).1 second).2.text := by
  rw [Telnet.run_append]
  rfl

namespace Connection

/-! ## One read -/

def Unfailing (before after : Connection) : Prop :=
  ∀ events, after.happenings = before.happenings ++ events →
    ∀ event ∈ events, event.failsWrite = false

/-- When a connection that is never given up has waited out all delays, with so many writes to come.
-/
def due [Pace] (writes : Nat) (connection : Connection) : Nat :=
  Event.due connection.clock connection.console.queue +
    Pace.delay connection.console.writes.calls writes

/-- The connection has this stream to give, all of it by `due` if it is let wait. There are no more
answers to it than bytes. -/
structure Ready [Pace] (stream : Bytes) (due : Nat) (connection : Connection) : Prop where
  wire : connection.wire = .telnet
  queue : Event.Streams stream connection.console.queue
  due : connection.due stream.length ≤ due

structure Took [Pace] (due : Nat) (stream part rest : Bytes) (before : Connection)
    (events : List Happening) (after : Connection) : Prop where
  split : stream = part ++ rest
  ready : Ready rest due after
  happenings : after.happenings = before.happenings ++ events
  replied : (repliedIn events).flatten = (Telnet.run before.decoder part).2.replies
  decoder : after.decoder = (Telnet.run before.decoder part).1
  clock : before.clock ≤ after.clock

/-- A read comes to the text of what it takes off, if there is any. Else it was given up, or there
is nothing left. -/
inductive Comes (late : Prop) :
    Bytes → Bytes → EStateM.Result Failure Connection (Option Bytes) → Prop
  | silence {rest : Bytes} {after : Connection} : late → Comes late rest [] (.ok none after)
  | text {rest text : Bytes} {after : Connection} :
      text ≠ [] → Comes late rest text (.ok (some text) after)
  | hungUp {after : Connection} :
      after.console.queue = [.hangUp] → Comes late [] [] (.error .disconnected after)

variable {stream part rest bytes : Bytes} {due limit : Nat}
  {before connection between after : Connection} {events earlier later : List Happening}

theorem Comes.mono {late later : Prop} {text : Bytes}
    {result : EStateM.Result Failure Connection (Option Bytes)}
    (comes : Comes late rest text result) (included : late → later) :
    Comes later rest text result := by
  cases comes with
  | silence late => exact .silence (included late)
  | text visible => exact .text visible
  | hungUp queue => exact .hungUp queue

namespace Unfailing

/-- What happens up to some point is what happens first. -/
theorem front (unfailing : Unfailing before after)
    (later : ∃ events, after.happenings = between.happenings ++ events) :
    Unfailing before between := by
  rcases later with ⟨others, onward⟩
  intro events happened event member
  refine unfailing (events ++ others) ?_ event (List.mem_append_left others member)
  rw [onward, happened, List.append_assoc]

theorem back (unfailing : Unfailing before after)
    (earlier : ∃ events, between.happenings = before.happenings ++ events) :
    Unfailing between after := by
  rcases earlier with ⟨others, led⟩
  intro events happened event member
  refine unfailing (others ++ events) ?_ event (List.mem_append_right others member)
  rw [happened, led, List.append_assoc]

end Unfailing

theorem unrecorded_arrival {arrived : Arrival}
    (next : connection.arrival limit = (arrived, between)) :
    ∃ events, between.happenings = connection.happenings ++ events := by
  obtain ⟨rfl, rfl⟩ := Prod.mk.inj next
  exact ⟨[], (leads_arrival limit connection).happenings⟩

variable [Pace]

theorem Ready.record (ready : Ready stream due connection) (event : Happening) :
    Ready stream due (connection.record event) :=
  ⟨ready.wire, ready.queue, ready.due⟩

namespace Took

theorem refl (ready : Ready stream due connection) :
    Took due stream [] stream connection [] connection :=
  ⟨rfl, ready, (List.append_nil _).symm, rfl, rfl, Nat.le_refl _⟩

theorem trans {first second left : Bytes}
    (begins : Took due stream first left before earlier between)
    (goesOn : Took due left second rest between later after) :
    Took due stream (first ++ second) rest before (earlier ++ later) after where
  split := by rw [begins.split, goesOn.split, List.append_assoc]
  ready := goesOn.ready
  happenings := by rw [goesOn.happenings, begins.happenings, List.append_assoc]
  replied := by
    rw [repliedIn_append, List.flatten_append, begins.replied, goesOn.replied, begins.decoder,
      Telnet.run_append]
    rfl
  decoder := by rw [goesOn.decoder, begins.decoder, Telnet.run_append]
  clock := begins.clock.trans goesOn.clock

/-- An entry in the journal that is no answer. -/
theorem record (took : Took due stream part rest before events after) {event : Happening}
    (other : event.replied? = none) :
    Took due stream part rest before (events ++ [event]) (after.record event) where
  split := took.split
  ready := took.ready.record event
  happenings := by rw [happenings_record, took.happenings, List.append_assoc]
  replied := by
    rw [repliedIn_append, List.flatten_append, took.replied, repliedIn,
      List.filterMap_cons_none other]
    exact List.append_nil _
  decoder := took.decoder
  clock := took.clock

/-- The filter goes on by itself. -/
theorem filtered (took : Took due stream part rest before events after)
    (filter : Terminal.State) :
    Took due stream part rest before events { after with filter := filter } where
  split := took.split
  ready := ⟨took.ready.wire, took.ready.queue, took.ready.due⟩
  happenings := took.happenings
  replied := took.replied
  decoder := took.decoder
  clock := took.clock

end Took

theorem ready_of_arrival {arrived : Arrival} (ready : Ready stream due connection)
    (next : connection.arrival limit = (arrived, between)) :
    ∃ rest, Event.Arrives (limit < due) stream arrived rest ∧ Ready rest due between ∧
      between.due stream.length ≤ due ∧ between.decoder = connection.decoder ∧
      between.filter = connection.filter := by
  obtain ⟨rfl, rfl⟩ := Prod.mk.inj next
  rcases ready.queue.arrives limit connection.clock with ⟨rest, arrives, queue, same⟩
  rw [← ready.wire] at arrives queue same
  have room : (connection.arrival limit).2.due stream.length ≤ due :=
    (Nat.add_le_add_right same.le _).trans ready.due
  have fewer : rest.length ≤ stream.length := by
    generalize (Event.next _ _ _ _).1 = arrived at arrives
    cases arrives <;> simp
  refine ⟨rest, arrives.mono fun late => ?_, ⟨ready.wire, queue, ?_⟩, room, rfl, rfl⟩
  · exact Nat.lt_of_lt_of_le late ((Nat.le_add_right _ _).trans ready.due)
  · exact (Nat.add_le_add_left (Pace.delay_mono _ fewer) _).trans room

/-- What is taken after a look at the queue was taken from there. -/
theorem Took.arrived {arrived : Arrival} (next : connection.arrival limit = (arrived, between))
    (took : Took due stream part rest between events after) :
    Took due stream part rest connection events after := by
  obtain ⟨rfl, rfl⟩ := Prod.mk.inj next
  have clock := (Event.le_next connection.wire limit connection.clock connection.console.queue).1
  exact ⟨took.split, took.ready, took.happenings, took.replied, took.decoder,
    clock.trans took.clock⟩

/-- A write that does not fail waits out the stalls of the stream. -/
theorem write_of_unfailing {whole part : Bytes → Happening} {data : Bytes} {limit : Option Nat}
    (fails : ∀ data, (part data).failsWrite = true)
    (unfailing : Unfailing connection (stateAfter (write limit whole part data connection))) :
    ∃ time, connection.clock ≤ time ∧
      time ≤ connection.clock + Stall.delay (Pace.stalls connection.console.writes.calls) ∧
      write limit whole part data connection =
        .ok true ({ connection with
          clock := time
          console.writes := connection.console.writes.advance }.record (whole data)) := by
  have done : outcome (write limit whole part data connection) = .ok true := by
    rcases follows_write limit whole part data connection with ⟨events, leads, course⟩
    have fine := unfailing events leads.happenings
    generalize outcome (write limit whole part data connection) = ended at course ⊢
    cases course with
    | taken => rfl
    | givenUp => simp [fails] at fine
    | refused cause | broken cause => simp [Happening.failsWrite] at fine
  refine ⟨_, Stall.le_time_pass limit data.length 0 _ _, Stall.time_pass_le _ _ _ _ _, ?_⟩
  simp only [write] at done ⊢
  split at done
  · cases done
  · next inTime =>
      rw [if_neg inTime]
      split at done
      · cases done
      · rfl

theorem due_written (time count : Nat) (later : connection.clock ≤ time)
    (bound : time ≤ connection.clock +
      Stall.delay (Pace.stalls connection.console.writes.calls)) :
    Connection.due count { connection with
        clock := time
        console.writes := connection.console.writes.advance } ≤
      connection.due (count + 1) := by
  have waited := Event.due_add_le connection.clock (time - connection.clock)
    connection.console.queue
  rw [Nat.add_sub_cancel' later] at waited
  simp only [Connection.due, Pace.delay, FaultSchedule.advance]
  omega

/-- If no write fails, what is decoded comes out. -/
theorem took_decode (ready : Ready stream due connection) (arrived : bytes ≠ [])
    (room : connection.due (bytes ++ stream).length ≤ due)
    (unfailing : Unfailing connection (stateAfter (decode limit bytes connection))) :
    ∃ events,
      outcome (decode limit bytes connection) =
        .ok (some (Telnet.run connection.decoder bytes).2.text) ∧
      Took due (bytes ++ stream) bytes stream connection events
        (stateAfter (decode limit bytes connection)) ∧
      (stateAfter (decode limit bytes connection)).filter = connection.filter := by
  rw [decode_telnet limit bytes ready.wire, Telnet.decode_eq_run] at unfailing ⊢
  let answers := (Telnet.run connection.decoder bytes).2.replies
  let decoded := { connection with decoder := (Telnet.run connection.decoder bytes).1 }
  by_cases silent : answers.isEmpty
  · have replied : reply limit answers decoded = .ok true decoded := by
      rw [reply, if_pos silent]
      rfl
    rw [bind_of_ok replied]
    exact ⟨[], rfl, ⟨rfl, ⟨ready.wire, ready.queue, ready.due⟩, (List.append_nil _).symm,
      (List.isEmpty_iff.mp silent).symm, rfl, Nat.le_refl _⟩, rfl⟩
  · have kept : Unfailing decoded (stateAfter (reply limit answers decoded)) := by
      cases answered : reply limit answers decoded with
      | ok taken after =>
          rw [bind_of_ok answered] at unfailing
          exact unfailing
      | error failure after =>
          rw [bind_of_error answered] at unfailing
          exact unfailing
    have writes : reply limit answers decoded =
        write (some limit) .replied .repliedPart answers decoded := by
      rw [reply, if_neg silent]
    rw [writes] at kept
    rcases write_of_unfailing (fun _ => rfl) kept with ⟨time, later, bound, written⟩
    rw [bind_of_ok (writes.trans written)]
    have longer : stream.length + 1 ≤ (bytes ++ stream).length := by
      have := List.length_pos_iff.mpr arrived
      rw [List.length_append]
      omega
    have due := (due_written time stream.length later bound).trans
      ((Nat.add_le_add_left (Pace.delay_mono _ longer) _).trans room)
    exact ⟨_, rfl, ⟨rfl, ⟨ready.wire, ready.queue, due⟩, happenings_record _ _,
      List.append_nil _, rfl, later⟩, rfl⟩

theorem took_receive (ready : Ready stream due connection) (limit : Nat)
    (unfailing : Unfailing connection (stateAfter (receive limit connection))) :
    ∃ part rest events,
      Took due stream part rest connection events (stateAfter (receive limit connection)) ∧
      (stateAfter (receive limit connection)).filter = connection.filter ∧
      Comes (limit < due) rest (Telnet.run connection.decoder part).2.text
        (receive limit connection) := by
  fun_induction receive limit connection generalizing stream with
  | case1 connection after next =>
      rcases ready_of_arrival ready next with ⟨rest, arrives, readied, _, _, filter⟩
      cases arrives with
      | silence late =>
          exact ⟨[], stream, _, .arrived next ((Took.refl readied).record rfl), filter,
            .silence late⟩
  | case2 connection after next =>
      rcases ready_of_arrival ready next with ⟨rest, arrives, readied, _, _, filter⟩
      cases arrives with
      | hangUp =>
          have queue := Event.queue_of_hangUp (congrArg Prod.fst next)
          rw [show (Event.next _ _ _ _).2.2 = after.console.queue from
            congrArg (fun arrival => arrival.2.console.queue) next] at queue
          exact ⟨[], [], _, .arrived next ((Took.refl readied).record rfl), filter,
            .hungUp (readied.queue.eq_of_hangUp queue)⟩
  | case3 connection cause after next =>
      rcases ready_of_arrival ready next with ⟨rest, arrives, _⟩
      cases arrives
  | case4 connection bytes between next failure after decoded =>
      rcases ready_of_arrival ready next with ⟨rest, arrives, readied, room, _⟩
      cases arrives with
      | data some =>
          have kept : Unfailing between (stateAfter (decode limit bytes between)) := by
            rw [decoded]
            exact unfailing.back (unrecorded_arrival next)
          rcases took_decode readied some room kept with ⟨events, comes, _⟩
          rw [decoded] at comes
          cases comes
  | case5 connection bytes between next after decoded =>
      rcases ready_of_arrival ready next with ⟨rest, arrives, readied, room, _⟩
      cases arrives with
      | data some =>
          have kept : Unfailing between (stateAfter (decode limit bytes between)) := by
            rw [decoded]
            exact (unfailing.back (unrecorded_arrival next)).front ⟨_, happenings_record _ _⟩
          rcases took_decode readied some room kept with ⟨events, comes, _⟩
          rw [decoded] at comes
          cases comes
  -- Nothing but commands: they are answered, and the read goes on.
  | case6 connection bytes between next text after decoded silent induction =>
      rcases ready_of_arrival ready next with ⟨rest, arrives, readied, room, decoder, filter⟩
      have onward := unfailing.back (unrecorded_arrival next)
      cases arrives with
      | data some =>
          have kept : Unfailing between (stateAfter (decode limit bytes between)) := by
            rw [decoded]
            rcases follows_receive limit after with ⟨events, leads, _⟩
            exact onward.front ⟨events, leads.happenings⟩
          rcases took_decode readied some room kept with ⟨events, comes, took, filter'⟩
          rw [decoded] at comes took filter'
          rcases induction took.ready (onward.back ⟨events, took.happenings⟩) with
            ⟨part, left, others, onward, filter'', ends⟩
          refine ⟨bytes ++ part, left, events ++ others, .arrived next (took.trans onward),
            filter''.trans (filter'.trans filter), ?_⟩
          have empty : text = [] := by simp_all
          cases comes
          have text : (Telnet.run connection.decoder (bytes ++ part)).2.text =
              (Telnet.run after.decoder part).2.text := by
            rw [Telnet.run_append, Telnet.Output.append, ← decoder, empty, ← took.decoder]
            rfl
          rwa [text]
  | case7 connection bytes between next text after decoded visible =>
      rcases ready_of_arrival ready next with ⟨rest, arrives, readied, room, decoder, filter⟩
      cases arrives with
      | data some =>
          have kept : Unfailing between (stateAfter (decode limit bytes between)) := by
            rw [decoded]
            exact (unfailing.back (unrecorded_arrival next)).front ⟨_, happenings_record _ _⟩
          rcases took_decode readied some room kept with ⟨events, comes, took, filter'⟩
          rw [decoded] at comes took filter'
          refine ⟨bytes, rest, _, .arrived next (took.record rfl), filter'.trans filter, ?_⟩
          have wired : after.wire = .telnet := took.ready.wire
          have nonempty : text ≠ [] := by simp_all
          cases comes
          rw [← decoder]
          exact .text nonempty

/-- A chunk of ASCII is stripped as if it came with what was received before, and what is to come is
still ASCII. -/
theorem took_text (ready : Ready stream due connection) (whole : connection.filter.IsWhole)
    (ascii : ∀ byte ∈ (Telnet.run connection.decoder stream).2.text, byte.toNat < 0x80)
    (received : receive limit connection = .ok (some bytes) between)
    (unfailing : Unfailing connection between) :
    ∃ part rest events, Took due stream part rest connection events between ∧
      bytes = (Telnet.run connection.decoder part).2.text ∧
      Terminal.plainText between.filter bytes = Terminal.run connection.filter bytes ∧
      (Terminal.run connection.filter bytes).1.IsWhole ∧
      ∀ byte ∈ (Telnet.run between.decoder rest).2.text, byte.toNat < 0x80 := by
  rcases took_receive ready limit (by rwa [received]) with
    ⟨part, rest, events, took, filter, comes⟩
  rw [received] at took filter comes
  rw [stateAfter_ok] at took filter
  rw [took.split, Telnet.text_append, ← took.decoder] at ascii
  generalize same : (Telnet.run connection.decoder part).2.text = text at ascii comes
  cases comes with
  | text some =>
      refine ⟨part, rest, events, took, same.symm, ?_, ?_, ?_⟩
      · rw [filter]
        exact Terminal.plainText_of_whole whole bytes
      · exact whole.run fun byte member => ascii byte (List.mem_append_left _ member)
      · exact fun byte member => ascii byte (List.mem_append_right _ member)

/-- Of ASCII, a read gives what there is to see in the part that it takes, read as one piece. -/
theorem took_hear (ready : Ready stream due connection) (limit : Nat)
    (whole : connection.filter.IsWhole)
    (ascii : ∀ byte ∈ (Telnet.run connection.decoder stream).2.text, byte.toNat < 0x80)
    (unfailing : Unfailing connection (stateAfter (hear limit connection))) :
    ∃ part rest events,
      Took due stream part rest connection events (stateAfter (hear limit connection)) ∧
      (stateAfter (hear limit connection)).filter =
        (Terminal.run connection.filter (Telnet.run connection.decoder part).2.text).1 ∧
      Comes (limit < due) rest
        (Terminal.run connection.filter (Telnet.run connection.decoder part).2.text).2
        (hear limit connection) := by
  fun_induction hear limit connection generalizing stream with
  | case1 connection failure after received =>
      rcases took_receive ready limit (by rwa [received]) with
        ⟨part, rest, events, took, filter, comes⟩
      rw [received] at took filter comes
      refine ⟨part, rest, events, took, ?_⟩
      generalize (Telnet.run connection.decoder part).2.text = text at comes ⊢
      cases comes with
      | hungUp queue => exact ⟨filter, .hungUp queue⟩
  | case2 connection after received =>
      rcases took_receive ready limit (by rwa [received]) with
        ⟨part, rest, events, took, filter, comes⟩
      rw [received] at took filter comes
      refine ⟨part, rest, events, took, ?_⟩
      generalize (Telnet.run connection.decoder part).2.text = text at comes ⊢
      cases comes with
      | silence late => exact ⟨filter, .silence late⟩
  -- Nothing to see in the chunk: the filter has gone on, and the read goes on.
  | case3 connection bytes between received stripped filtered empty =>
      rename_i induction
      have kept : Unfailing connection between := by
        rcases follows_hear limit filtered with ⟨events, leads, _⟩
        exact unfailing.front ⟨events, leads.happenings⟩
      rcases took_text ready whole ascii received kept with
        ⟨part, rest, events, took, rfl, plain, still, ascii⟩
      have filter : filtered.filter = (Terminal.run connection.filter _).1 :=
        congrArg Prod.fst plain
      rw [← filter] at still
      have took : Took due stream part rest connection events filtered := took.filtered stripped.1
      rcases induction took.ready still ascii (unfailing.back ⟨events, took.happenings⟩) with
        ⟨further, left, others, onward, behind, comes⟩
      refine ⟨part ++ further, left, events ++ others, took.trans onward, ?_⟩
      have nothing : (Terminal.run connection.filter _).2 = [] :=
        (congrArg Prod.snd plain).symm.trans (List.isEmpty_iff.mp empty)
      rw [Telnet.text_append, Terminal.run_append, ← filter, ← took.decoder, nothing]
      exact ⟨behind, comes⟩
  | case4 connection bytes between received stripped filtered =>
      rename_i visible
      have kept : Unfailing connection between := unfailing.front ⟨_, happenings_record _ _⟩
      rcases took_text ready whole ascii received kept with
        ⟨part, rest, events, took, rfl, plain, _, _⟩
      refine ⟨part, rest, _, (took.filtered stripped.1).record rfl, congrArg Prod.fst plain, ?_⟩
      rw [← plain]
      exact .text fun nothing => visible (List.isEmpty_iff.mpr nothing)

end Connection

/-! ## A stream that takes everything at once -/

namespace Connection

variable {before between after : Connection}

/-- If the stream has no faults to come, no write has failed meanwhile, and still none is to come. -/
def Willing (before after : Connection) : Prop :=
  before.console.writes.faults = [] → after.console.writes.faults = [] ∧
    ∃ events, after.happenings = before.happenings ++ events ∧
      ∀ event ∈ events, event.failsWrite = false

namespace Willing

theorem still (writes : after.console.writes.faults = before.console.writes.faults)
    (happenings : after.happenings = before.happenings) : Willing before after :=
  fun faultless => ⟨writes.trans faultless, [], by rw [happenings, List.append_nil], nofun⟩

theorem trans (begins : Willing before between) (goesOn : Willing between after) :
    Willing before after := by
  intro faultless
  rcases begins faultless with ⟨faultless, earlier, happened, fine⟩
  rcases goesOn faultless with ⟨faultless, later, onward, fine'⟩
  refine ⟨faultless, earlier ++ later, by rw [onward, happened, List.append_assoc], ?_⟩
  exact fun event member => (List.mem_append.mp member).elim (fine event) (fine' event)

theorem record {event : Happening} (other : event.failsWrite = false) (connection : Connection) :
    Willing connection (connection.record event) :=
  fun faultless => ⟨faultless, [event], happenings_record event connection,
    List.forall_mem_singleton.mpr other⟩

variable [Pace] (prompt : ¬Pace.Stalls)

include prompt

theorem reply (limit : Nat) (replies : Bytes) : Throughout Willing (reply limit replies) := by
  intro connection
  have unstalled : Pace.stalls connection.console.writes.calls = [] :=
    not_not.mp fun stalls => prompt ⟨_, stalls⟩
  unfold Connection.reply
  split
  · exact still rfl rfl
  · intro faultless
    have none : connection.console.writes.next? = none := by
      rw [FaultSchedule.next?, faultless]
      rfl
    simp only [write, unstalled, Stall.pass_nil, none]
    exact ⟨faultless, [.replied replies], happenings_record _ _, by simp [Happening.failsWrite]⟩

theorem hear (limit : Nat) : Throughout Willing (hear limit) := by
  have entered (event : Happening) (other : event.isWrite = false) (connection : Connection) :
      Willing connection (connection.record event) := by
    refine record ?_ connection
    cases event with
    | writeFailed | wrotePart | repliedPart => cases other
    | _ => rfl
  have decodes (bytes : Bytes) : Throughout Willing (decode limit bytes) :=
    throughout_decode (fun _ => still rfl rfl) trans (fun _ _ => still rfl rfl)
      (fun _ _ => reply prompt limit _) bytes
  have receives : Throughout Willing (receive limit) :=
    throughout_receive trans (fun _ => still rfl rfl) decodes entered
  exact throughout_hear trans receives (fun _ _ => still rfl rfl) entered

end Willing

end Connection

end BootConsole
