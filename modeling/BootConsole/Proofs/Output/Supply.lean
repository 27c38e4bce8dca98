import BootConsole.Proofs.Conversation.Usage

/-!
# What is taken off a console

A console's bytes are in its queue, or will be when it is written to, until a read takes them off.
What the reads of a run took off, and what is still queued, is all that the console has put there;
and the text and the answers of a run are those of the bytes that were taken, read as one stream.
-/

namespace BootConsole

/-! ## Bytes in a queue -/

namespace Event

def chunk? : Event → Option Bytes
  | .data bytes => some bytes
  | _ => none

def chunks (events : List Event) : List Bytes :=
  events.filterMap chunk?

def carried (events : List Event) : Bytes :=
  (chunks events).flatten

@[simp] theorem carried_nil : carried [] = [] := rfl

@[simp] theorem carried_cons (event : Event) (rest : List Event) :
    carried (event :: rest) = event.chunk?.getD [] ++ carried rest := by
  cases event <;> rfl

@[simp] theorem carried_append (first second : List Event) :
    carried (first ++ second) = carried first ++ carried second := by
  simp [carried, chunks]

end Event

def Cue.count (cue : Cue) (data : Bytes) : Nat :=
  match cue with
  | .write => 1
  | .lineFeed => data.count BootConsole.lineFeed

theorem Console.answer_eq (data : Bytes) (console : Console) :
    console.answer data =
      { console with
        queue := console.queue ++ (console.answers.take (console.cue.count data)).flatten
        answers := console.answers.drop (console.cue.count data) } := rfl

def Arrival.bytes : Arrival → Bytes
  | .data bytes => bytes
  | _ => []

/-- Whatever a read comes to, the bytes that it does not take stay queued. -/
theorem Event.carried_next (wire : Wire) (limit now : Nat) (queue : List Event) :
    carried queue =
      (next wire limit now queue).1.bytes ++ carried (next wire limit now queue).2.2 := by
  fun_induction next wire limit now queue with
  | case1 | case2 | case6 | case8 | case9 | case10 => simp [Arrival.bytes, chunk?]
  | case3 now bytes rest telnet empty induction =>
      subst telnet
      rw [carried_cons, induction, chunk?, List.isEmpty_iff.mp empty]
      rfl
  | case4 now bytes rest telnet nonempty left =>
      have queued : carried (if left.isEmpty then rest else .data left :: rest) =
          left ++ carried rest := by
        split
        · next none => rw [List.isEmpty_iff.mp none, List.nil_append]
        · rfl
      rw [carried_cons, queued, ← List.append_assoc]
      exact congrArg (· ++ carried rest) (List.take_append_drop readSize bytes).symm
  | case5 now milliseconds rest time early induction => rw [carried_cons, induction]; rfl
  | case7 now time rest early induction => rw [carried_cons, induction]; rfl

def Wire.read (wire : Wire) (state : Telnet.State) (raw : Bytes) : Telnet.State × Telnet.Output :=
  match wire with
  | .text => (state, .ofText raw)
  | .telnet => Telnet.run state raw

@[simp] theorem Wire.read_nil (wire : Wire) (state : Telnet.State) :
    wire.read state [] = (state, .empty) := by
  cases wire <;> rfl

theorem Wire.read_append (wire : Wire) (state : Telnet.State) (first second : Bytes) :
    wire.read state (first ++ second) =
      ((wire.read (wire.read state first).1 second).1,
        (wire.read state first).2.append (wire.read (wire.read state first).1 second).2) := by
  cases wire with
  | text => simp [read, Telnet.Output.ofText, Telnet.Output.append]
  | telnet => exact Telnet.run_append state first second

/-! ## Bytes in a journal -/

namespace Happening

def received? : Happening → Option Bytes
  | .received text => some text
  | _ => none

def replied? : Happening → Option Bytes
  | .replied data => some data
  | _ => none

end Happening

def receivedIn (events : List Happening) : List Bytes :=
  events.filterMap Happening.received?

def repliedIn (events : List Happening) : List Bytes :=
  events.filterMap Happening.replied?

@[simp] theorem receivedIn_append (earlier later : List Happening) :
    receivedIn (earlier ++ later) = receivedIn earlier ++ receivedIn later :=
  List.filterMap_append

@[simp] theorem repliedIn_append (earlier later : List Happening) :
    repliedIn (earlier ++ later) = repliedIn earlier ++ repliedIn later :=
  List.filterMap_append

def WriteFailed (events : List Happening) : Prop :=
  ∃ cause, .writeFailed cause ∈ events

theorem writeFailed_append {earlier later : List Happening} :
    WriteFailed (earlier ++ later) ↔ WriteFailed earlier ∨ WriteFailed later := by
  simp only [WriteFailed, List.mem_append, exists_or]

/-- The text has been received and the answers written, or an answer was not taken. -/
def Balanced (events : List Happening) (output : Telnet.Output) : Prop :=
  ((receivedIn events).flatten = output.text ∧ (repliedIn events).flatten = output.replies) ∨
    (WriteFailed events ∧ (repliedIn events).flatten.length < output.replies.length)

theorem Balanced.append {earlier later : List Happening} {first second : Telnet.Output}
    (before : Balanced earlier first) (behind : Balanced later second) :
    Balanced (earlier ++ later) (first.append second) := by
  simp only [Balanced, receivedIn_append, repliedIn_append, List.flatten_append,
    Telnet.Output.append, List.length_append, writeFailed_append]
  rcases before with ⟨text, replies⟩ | ⟨failed, fewer⟩
  · rcases behind with ⟨others, answers⟩ | ⟨failed, fewer⟩
    · exact .inl (by simp only [text, others, replies, answers, and_self])
    · exact .inr ⟨.inr failed, replies ▸ Nat.add_lt_add_left fewer _⟩
  · rcases behind with ⟨_, answers⟩ | ⟨_, others⟩
    · exact .inr ⟨.inl failed, answers ▸ Nat.add_lt_add_right fewer _⟩
    · exact .inr ⟨.inl failed, Nat.add_lt_add fewer others⟩

theorem Balanced.text_of_replies {events : List Happening} {output : Telnet.Output}
    (balanced : Balanced events output)
    (replied : ¬WriteFailed events ∨ (repliedIn events).flatten = output.replies) :
    (receivedIn events).flatten = output.text := by
  rcases balanced with both | ⟨failed, fewer⟩
  · exact both.1
  · rcases replied with free | replied
    · exact absurd failed free
    · rw [replied] at fewer
      exact absurd fewer (Nat.lt_irrefl _)

namespace Connection

/-- The account of a piece of a run: these things happened, these bytes were taken off, and this
many cues were given. -/
structure Account (before : Connection) (events : List Happening) (raw : Bytes) (cues : Nat)
    (after : Connection) : Prop where
  happenings : after.happenings = before.happenings ++ events
  wire : after.wire = before.wire
  answers : after.console.answers = before.console.answers.drop cues
  supply : Event.carried
      (before.console.queue ++ (before.console.answers.take cues).flatten) =
    raw ++ Event.carried after.console.queue
  decoder : after.decoder = (before.wire.read before.decoder raw).1
  balance : Balanced events (before.wire.read before.decoder raw).2
  weight : (receivedIn events).length + after.weight ≤ before.weight

def Accounts (before after : Connection) : Prop :=
  ∃ events raw cues, Account before events raw cues after

variable {before between after : Connection} {events earlier later : List Happening}

namespace Account

theorem trans {first second : Bytes} {some more : Nat}
    (begins : Account before earlier first some between)
    (goesOn : Account between later second more after) :
    Account before (earlier ++ later) (first ++ second) (some + more) after where
  happenings := by rw [goesOn.happenings, begins.happenings, List.append_assoc]
  wire := goesOn.wire.trans begins.wire
  answers := by rw [goesOn.answers, begins.answers, List.drop_drop]
  supply := by
    have later := goesOn.supply
    rw [begins.answers, Event.carried_append] at later
    rw [List.take_add, List.flatten_append, ← List.append_assoc, Event.carried_append,
      begins.supply, List.append_assoc, later, List.append_assoc]
  decoder := by rw [goesOn.decoder, begins.wire, begins.decoder, Wire.read_append]
  balance := by
    have later := goesOn.balance
    rw [begins.wire, begins.decoder] at later
    rw [Wire.read_append]
    exact begins.balance.append later
  weight := by
    have first := begins.weight
    have second := goesOn.weight
    rw [receivedIn_append, List.length_append]
    omega

/-- Nothing is taken off and nobody is asked for more. -/
theorem aside (happenings : after.happenings = before.happenings ++ events)
    (received : receivedIn events = []) (replied : repliedIn events = [])
    (wire : after.wire = before.wire) (decoder : after.decoder = before.decoder)
    (queue : after.console.queue = before.console.queue)
    (answers : after.console.answers = before.console.answers) :
    Account before events [] 0 after where
  happenings := happenings
  wire := wire
  answers := by rw [answers, List.drop_zero]
  supply := by simp [queue]
  decoder := by simp [decoder]
  balance := .inl (by simp [received, replied, Telnet.Output.empty])
  weight := by simp [received, Connection.weight, Console.weight, queue, answers]

end Account

namespace Accounts

theorem refl (connection : Connection) : Accounts connection connection :=
  ⟨[], [], 0, .aside (List.append_nil _).symm rfl rfl rfl rfl rfl rfl⟩

theorem trans (begins : Accounts before between) (goesOn : Accounts between after) :
    Accounts before after := by
  rcases begins with ⟨earlier, first, some, begins⟩
  rcases goesOn with ⟨later, second, more, goesOn⟩
  exact ⟨_, _, _, begins.trans goesOn⟩

theorem record {event : Happening} (received : event.received? = none)
    (replied : event.replied? = none) (connection : Connection) :
    Accounts connection (connection.record event) :=
  ⟨[event], [], 0, .aside (happenings_record event connection) (by simp [receivedIn, received])
    (by simp [repliedIn, replied]) rfl rfl rfl rfl⟩

/-! ## Writing and showing -/

theorem put (data : Bytes) : Throughout Accounts (put data) := by
  intro connection
  rw [put_prompt]
  cases connection.console.writes.next? with
  | none => exact ⟨[.wrote data], [], 0, .aside (happenings_record _ _) rfl rfl rfl rfl rfl rfl⟩
  | some cause =>
      exact ⟨[.writeFailed cause], [], 0, .aside (happenings_record _ _) rfl rfl rfl rfl rfl rfl⟩

theorem flush : Throughout Accounts flush := by
  intro connection
  unfold Connection.flush
  cases connection.console.flushes.next? with
  | none => exact ⟨[], [], 0, .aside (List.append_nil _).symm rfl rfl rfl rfl rfl rfl⟩
  | some cause =>
      exact ⟨[.writeFailed cause], [], 0, .aside (happenings_record _ _) rfl rfl rfl rfl rfl rfl⟩

/-- What the console adds to its queue is what it had in store. -/
theorem delivered (data : Bytes) : Throughout Accounts (delivered data) := by
  intro connection
  refine ⟨[.sent data], [], connection.console.cue.count data, happenings_record _ _, rfl, rfl, rfl,
    by simp; rfl, ?_, ?_⟩
  · exact .inl (by simp [receivedIn, repliedIn, Happening.received?, Happening.replied?,
      Telnet.Output.empty])
  · have kept := Console.weight_answer data connection.console
    exact Nat.le_of_eq ((Nat.zero_add _).trans kept)

theorem say (line : String) : Throughout Accounts (say line) :=
  throughout_say @trans put flush delivered line

theorem echo (text : Bytes) : Throughout Accounts (echo text) := by
  intro connection
  have desk : ∃ desk, stateAfter (Connection.echo text connection) =
      { connection with toDesk := desk } := by
    unfold Connection.echo atDesk
    cases Desk.display text connection.toDesk with
    | ok _ desk => exact ⟨desk, rfl⟩
    | error failure desk => exact ⟨desk, rfl⟩
  rcases follows_echo text connection with ⟨events, leads, shows⟩
  rcases desk with ⟨desk, after⟩
  rw [after] at leads ⊢
  have untouched : receivedIn events = [] ∧ repliedIn events = [] := by
    generalize outcome (Connection.echo text connection) = outcome at shows
    cases shows <;> exact ⟨rfl, rfl⟩
  exact ⟨events, [], 0, .aside leads.happenings untouched.1 untouched.2 rfl rfl rfl rfl⟩

end Accounts

/-! ## Decoding -/

structure Decoded (before : Connection) (bytes : Bytes) (events : List Happening)
    (after : Connection) : Prop where
  happenings : after.happenings = before.happenings ++ events
  received : receivedIn events = []
  wire : after.wire = before.wire
  decoder : after.decoder = (before.wire.read before.decoder bytes).1
  console : after.console.queue = before.console.queue ∧
    after.console.answers = before.console.answers

/-- The text comes out if all answers go in. -/
theorem decoded (limit : Nat) (bytes : Bytes) (connection : Connection) :
    let output := (connection.wire.read connection.decoder bytes).2
    ∃ events, Decoded connection bytes events (stateAfter (decode limit bytes connection)) ∧
      match outcome (decode limit bytes connection) with
      | .ok text => text = some output.text ∧ (repliedIn events).flatten = output.replies
      | .error _ =>
          WriteFailed events ∧ (repliedIn events).flatten.length < output.replies.length := by
  intro output
  unfold decode
  split
  · next wired =>
      have read : connection.wire.read connection.decoder bytes =
          (connection.decoder, .ofText bytes) := by rw [wired]; rfl
      refine ⟨[], ⟨(List.append_nil _).symm, rfl, rfl, by rw [read]; rfl, rfl, rfl⟩, ?_⟩
      simp only [outcome_ok, output, read]
      exact ⟨rfl, rfl⟩
  · next wired =>
      have read : connection.wire.read connection.decoder bytes =
          Telnet.decode connection.decoder bytes := by
        rw [wired, Telnet.decode_eq_run]
        rfl
      simp only [output, ← read]
      unfold reply
      by_cases none : (connection.wire.read connection.decoder bytes).2.replies.isEmpty
      · rw [if_pos none]
        refine ⟨[], ⟨(List.append_nil _).symm, rfl, rfl, rfl, rfl, rfl⟩, rfl, ?_⟩
        exact (List.isEmpty_iff.mp none).symm
      · rw [if_neg none]
        rw [write_prompt]
        dsimp only
        cases connection.console.writes.next? with
        | none =>
            exact ⟨_, ⟨happenings_record _ _, rfl, rfl, rfl, rfl, rfl⟩, rfl, List.append_nil _⟩
        | some cause =>
            refine ⟨_, ⟨happenings_record _ _, rfl, rfl, rfl, rfl, rfl⟩,
              ⟨cause, List.mem_singleton.mpr rfl⟩, ?_⟩
            exact List.length_pos_iff.mpr fun nothing => none (List.isEmpty_iff.mpr nothing)

/-! ## Reading -/

structure Arrived (before : Connection) (arrived : Arrival) (after : Connection) : Prop where
  happenings : after.happenings = before.happenings
  wire : after.wire = before.wire
  decoder : after.decoder = before.decoder
  answers : after.console.answers = before.console.answers
  supply : Event.carried before.console.queue =
    arrived.bytes ++ Event.carried after.console.queue
  weight : after.weight ≤ before.weight

variable {limit : Nat} {arrived : Arrival} {bytes : Bytes}

theorem arrived_of_next (next : before.arrival limit = (arrived, after)) :
    Arrived before arrived after := by
  obtain ⟨rfl, rfl⟩ := Prod.mk.inj next
  exact ⟨rfl, rfl, rfl, rfl, Event.carried_next _ _ _ _,
    Nat.add_le_add_right (Event.weight_next_le _ _ _ _) _⟩

theorem account_of_nothing (next : before.arrival limit = (arrived, after))
    (nothing : arrived.bytes = []) {event : Happening} (received : event.received? = none)
    (replied : event.replied? = none) : Account before [event] [] 0 (after.record event) := by
  have kept := arrived_of_next next
  have none : receivedIn [event] = [] := List.filterMap_cons_none received
  refine ⟨?_, kept.wire, kept.answers, ?_, ?_, .inl ⟨?_, ?_⟩, ?_⟩
  · rw [happenings_record, kept.happenings]
  · have supply := kept.supply
    rw [nothing] at supply
    rw [List.take_zero, List.flatten_nil, List.append_nil]
    exact supply
  · rw [Wire.read_nil]
    exact kept.decoder
  · rw [none, Wire.read_nil]
    rfl
  · rw [repliedIn, List.filterMap_cons_none replied, Wire.read_nil]
    rfl
  · rw [none, List.length_nil, Nat.zero_add]
    exact kept.weight

/-- The account of a read that took bytes off, with what becomes of their text. -/
theorem account_of_data (next : before.arrival limit = (.data bytes, between))
    (decoded : Decoded between bytes earlier after) {last : Connection}
    (happened : last.happenings = after.happenings ++ later) (wire : last.wire = after.wire)
    (decoder : last.decoder = after.decoder) (console : last.console = after.console)
    (balanced : Balanced (earlier ++ later) (between.wire.read between.decoder bytes).2)
    (once : (receivedIn later).length ≤ 1) : Account before (earlier ++ later) bytes 0 last := by
  have kept := arrived_of_next next
  have lighter := weight_arrival_lt limit before bytes (by rw [next])
  have same : last.weight = between.weight := by
    simp only [Connection.weight, Console.weight, console, decoded.console]
  rw [next] at lighter
  refine ⟨?_, ?_, ?_, ?_, ?_, ?_, ?_⟩
  · rw [happened, decoded.happenings, kept.happenings, List.append_assoc]
  · rw [wire, decoded.wire, kept.wire]
  · rw [console, decoded.console.2, kept.answers, List.drop_zero]
  · have supply := kept.supply
    rw [console, decoded.console.1]
    simpa [Arrival.bytes] using supply
  · rw [decoder, decoded.decoder, kept.wire, kept.decoder]
  · rwa [kept.wire, kept.decoder] at balanced
  · rw [receivedIn_append, decoded.received, List.nil_append, same]
    simp only at lighter
    omega

/-- Whatever a read comes to, it gives the text of what it takes off. -/
theorem accounts_receive (limit : Nat) : Throughout Accounts (receive limit) := by
  intro connection
  fun_induction receive limit connection with
  | case1 connection after next | case2 connection after next | case3 connection _ after next =>
      exact ⟨_, _, _, account_of_nothing next rfl rfl rfl⟩
  | case4 connection bytes between next failure after read =>
      rcases decoded limit bytes between with ⟨events, decoded, fewer⟩
      rw [read] at decoded fewer
      refine ⟨_, _, _, account_of_data next decoded (List.append_nil _).symm rfl rfl rfl ?_
        (Nat.zero_le 1)⟩
      rw [List.append_nil]
      exact .inr fewer
  | case5 connection bytes between next after read => exact absurd read (decode_ne_none _ _ _ _)
  -- Nothing but commands: the bytes are taken, and the read goes on.
  | case6 connection bytes between next text after read silent induction =>
      rcases decoded limit bytes between with ⟨events, decoded, output⟩
      rw [read] at decoded output
      rcases output with ⟨whole, replied⟩
      obtain rfl := Option.some.inj whole
      have empty : (between.wire.read between.decoder bytes).2.text = [] := by simp_all
      have passed : Account connection (events ++ []) bytes 0 after := by
        refine account_of_data next decoded (List.append_nil _).symm rfl rfl rfl ?_ (Nat.zero_le 1)
        rw [List.append_nil]
        exact .inl ⟨by rw [decoded.received, empty]; rfl, replied⟩
      exact Accounts.trans ⟨_, _, _, passed⟩ induction
  | case7 connection bytes between next text after read some =>
      rcases decoded limit bytes between with ⟨events, decoded, output⟩
      rw [read] at decoded output
      rcases output with ⟨whole, replied⟩
      obtain rfl := Option.some.inj whole
      refine ⟨_, _, _, account_of_data next decoded (happenings_record (.received _) after) rfl rfl
        rfl (.inl ⟨?_, ?_⟩) (Nat.le_refl 1)⟩
      · rw [receivedIn_append, decoded.received]
        exact List.append_nil _
      · rw [repliedIn_append, List.flatten_append, replied]
        exact List.append_nil _

theorem accounts_hear (limit : Nat) : Throughout Accounts (hear limit) := by
  intro connection
  have receives := accounts_receive limit
  fun_induction hear limit connection with
  | case1 connection failure after received | case2 connection after received =>
      have read := receives connection
      rwa [received] at read
  | case3 connection bytes between received stripped filtered empty induction =>
      have read := receives connection
      rw [received] at read
      have filtering : Accounts between filtered :=
        ⟨[], [], 0, .aside (List.append_nil _).symm rfl rfl rfl rfl rfl rfl⟩
      exact (read.trans filtering).trans induction
  | case4 connection bytes between received stripped filtered some =>
      have read := receives connection
      rw [received] at read
      have filtering : Accounts between filtered :=
        ⟨[], [], 0, .aside (List.append_nil _).symm rfl rfl rfl rfl rfl rfl⟩
      exact (read.trans filtering).trans (.record rfl rfl filtered)

theorem lasting_accounts (deadline : Nat) : Lasting deadline Accounts where
  refl := .refl
  trans := .trans
  say := .say
  note _ _ := .record rfl rfl
  relay limit _ := throughout_relay .refl @Accounts.trans (accounts_hear limit) .echo

end Connection

namespace Session

open Connection

theorem accounts_close : Throughout Accounts close := by
  intro connection
  cases isOpen : connection.isOpen with
  | false =>
      rw [close_of_closed isOpen]
      exact .refl connection
  | true =>
      rw [close_of_open isOpen]
      dsimp only
      split
      · exact ⟨[.closed], [], 0, .aside (happenings_last connection) rfl rfl rfl rfl rfl rfl⟩
      · exact ⟨[.closed], [], 0, .aside (happenings_last connection) rfl rfl rfl rfl rfl rfl⟩

/-- Every run has an account. -/
theorem accounts_conduct (session : Session) (plan : Plan) :
    Throughout Accounts (session.conduct plan) := by
  have notices : Throughout Accounts noticeHangUp := fun connection =>
    ⟨[], [], 0, .aside (List.append_nil _).symm rfl rfl rfl rfl rfl rfl⟩
  exact (lasting_accounts session.deadline).conduct notices accounts_close plan

end Session

end BootConsole
