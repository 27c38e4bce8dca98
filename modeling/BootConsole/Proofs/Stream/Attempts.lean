import BootConsole.Proofs.Stream.Reads

/-!
# Attempts at a stream

A stream is read by attempts, each of which may be given up. Unless a write fails in one of them,
what they come to together depends on nothing but the stream.
-/

namespace BootConsole

/-! ## One attempt after another -/

/-- An attempt at reading: how long after the last one it begins, and how long it waits. -/
structure Attempt where
  idle : Nat
  patience : Nat

structure Hearing where
  outcome : Except Failure (Option Bytes)
  events : List Happening
  left : Bytes

namespace Hearing

def text (hearing : Hearing) : Bytes :=
  match hearing.outcome with
  | .ok (some text) => text
  | _ => []

def answers (hearing : Hearing) : Bytes :=
  (repliedIn hearing.events).flatten

/-- All answers that were begun in the attempt were taken to their end. -/
def IsUnfailing (hearing : Hearing) : Prop :=
  ∀ event ∈ hearing.events, event.failsWrite = false

instance (hearing : Hearing) : Decidable hearing.IsUnfailing :=
  inferInstanceAs (Decidable (∀ event ∈ hearing.events, event.failsWrite = false))

def IsEnd (hearing : Hearing) : Prop :=
  hearing.outcome = .error .disconnected

/-- An attempt was given up, or found the end, or came to some text, which is the last that happened
in it: all answers were written before. -/
inductive Orderly : Hearing → Prop
  | givenUp (events : List Happening) (left : Bytes) : Orderly ⟨.ok none, events, left⟩
  | ended (events : List Happening) (left : Bytes) : Orderly ⟨.error .disconnected, events, left⟩
  | heard {text : Bytes} (visible : text ≠ []) (events : List Happening) (left : Bytes) :
      Orderly ⟨.ok (some text), events ++ [.heard text], left⟩

structure IsBehind (hearing : Hearing) : Prop where
  ends : hearing.IsEnd
  answers : hearing.answers = []
  left : hearing.left = []

end Hearing

def textIn (hearings : List Hearing) : Bytes :=
  hearings.flatMap Hearing.text

def answersIn (hearings : List Hearing) : Bytes :=
  hearings.flatMap Hearing.answers

theorem textIn_append (earlier later : List Hearing) :
    textIn (earlier ++ later) = textIn earlier ++ textIn later :=
  List.flatMap_append

theorem answersIn_append (earlier later : List Hearing) :
    answersIn (earlier ++ later) = answersIn earlier ++ answersIn later :=
  List.flatMap_append

theorem textIn_cons (hearing : Hearing) (rest : List Hearing) :
    textIn (hearing :: rest) = hearing.text ++ textIn rest := rfl

theorem answersIn_cons (hearing : Hearing) (rest : List Hearing) :
    answersIn (hearing :: rest) = hearing.answers ++ answersIn rest := rfl

namespace Connection

def pass (milliseconds : Nat) (connection : Connection) : Connection :=
  { connection with toDesk := connection.toDesk.pass milliseconds }

variable [Pace]

def attempt (attempt : Attempt) (connection : Connection) :
    EStateM.Result Failure Connection (Option Bytes) :=
  hear (connection.clock + attempt.idle + attempt.patience) (connection.pass attempt.idle)

def hearing (attempt : Attempt) (connection : Connection) : Hearing where
  outcome := outcome (connection.attempt attempt)
  events := (stateAfter (connection.attempt attempt)).happenings.drop connection.happenings.length
  left := Event.carried (stateAfter (connection.attempt attempt)).console.queue

def hearAll : List Attempt → Connection → List Hearing
  | [], _ => []
  | attempt :: rest, connection =>
      connection.hearing attempt :: hearAll rest (stateAfter (connection.attempt attempt))

end Connection

def plainTextOf (raw : Bytes) : Bytes :=
  (Terminal.plainText .start (Telnet.decode .text raw).2.text).2

def answersTo (raw : Bytes) : Bytes :=
  (Telnet.decode .text raw).2.replies

theorem plainTextOf_nil : plainTextOf [] = [] := by
  rw [plainTextOf, Telnet.decode_eq_run]
  rfl

theorem answersTo_nil : answersTo [] = [] := by
  rw [answersTo, Telnet.decode_eq_run]
  rfl

theorem plainTextOf_append (front part : Bytes) :
    plainTextOf (front ++ part) =
      plainTextOf front ++
        (Terminal.run (Terminal.run .start (Telnet.run .text front).2.text).1
          (Telnet.run (Telnet.run .text front).1 part).2.text).2 := by
  simp only [plainTextOf, Telnet.decode_eq_run,
    Terminal.plainText_of_whole Terminal.State.isWhole_start, Telnet.text_append,
    Terminal.run_append]

theorem answersTo_append (front part : Bytes) :
    answersTo (front ++ part) =
      answersTo front ++ (Telnet.run (Telnet.run .text front).1 part).2.replies := by
  simp only [answersTo, Telnet.decode_eq_run, Telnet.run_append, Telnet.Output.append]

theorem prefix_plainTextOf {front raw : Bytes} (begins : front <+: raw) :
    plainTextOf front <+: plainTextOf raw := by
  rcases begins with ⟨rest, rfl⟩
  rw [plainTextOf_append]
  exact List.prefix_append _ _

/-- Behind the front of a stream, the next part gives this text and is answered so. -/
structure Gives (front part text answers : Bytes) : Prop where
  text : plainTextOf (front ++ part) = plainTextOf front ++ text
  answers : answersTo (front ++ part) = answersTo front ++ answers

namespace Gives

theorem of_start {part text answers : Bytes} (gives : Gives [] part text answers) :
    text = plainTextOf part ∧ answers = answersTo part := by
  have text := gives.text
  have answers := gives.answers
  rw [List.nil_append, plainTextOf_nil, List.nil_append] at text
  rw [List.nil_append, answersTo_nil, List.nil_append] at answers
  exact ⟨text.symm, answers.symm⟩

theorem trans {front part further text more answers others : Bytes}
    (begins : Gives front part text answers) (goesOn : Gives (front ++ part) further more others) :
    Gives front (part ++ further) (text ++ more) (answers ++ others) where
  text := by rw [← List.append_assoc, goesOn.text, begins.text, List.append_assoc]
  answers := by rw [← List.append_assoc, goesOn.answers, begins.answers, List.append_assoc]

end Gives

namespace Connection

variable [Pace]

structure Placed (front rest : Bytes) (due : Nat) (connection : Connection) : Prop where
  ready : Ready rest due connection
  decoder : connection.decoder = (Telnet.run .text front).1
  filter : connection.filter = (Terminal.run .start (Telnet.run .text front).2.text).1

variable {front rest : Bytes} {due : Nat} {connection : Connection}

theorem Comes.text_hearing {late : Prop} {text : Bytes} {attempt : Attempt}
    (comes : Comes late rest text (connection.attempt attempt)) :
    (connection.hearing attempt).text = text := by
  unfold hearing Hearing.text
  generalize connection.attempt attempt = result at comes ⊢
  cases comes <;> rfl

theorem due_pass_le (idle writes : Nat) :
    (connection.pass idle).due writes ≤ connection.due writes + idle := by
  have waited := Event.due_add_le connection.clock idle connection.console.queue
  change Event.due (connection.clock + idle) connection.console.queue +
    Pace.delay connection.console.writes.calls writes ≤ _
  rw [Connection.due]
  omega

theorem events_hearing {attempt : Attempt} {events : List Happening}
    (happened : (stateAfter (connection.attempt attempt)).happenings =
      connection.happenings ++ events) : (connection.hearing attempt).events = events := by
  rw [hearing, happened]
  exact List.drop_left

theorem orderly_hearing {late : Prop} {text : Bytes} {attempt : Attempt}
    (comes : Comes late rest text (connection.attempt attempt)) :
    (connection.hearing attempt).Orderly := by
  rcases follows_hear (connection.clock + attempt.idle + attempt.patience)
    (connection.pass attempt.idle) with ⟨events, leads, reads⟩
  have happened : (stateAfter (connection.attempt attempt)).happenings =
      connection.happenings ++ events := leads.happenings
  change Reading .heard events (outcome (connection.attempt attempt)) at reads
  rw [hearing, happened, List.drop_left]
  generalize connection.attempt attempt = result at comes reads ⊢
  cases comes with
  | silence late => exact .givenUp _ _
  | text visible =>
      rcases reads.ends_with_text with ⟨earlier, rfl⟩
      exact .heard visible earlier _
  | hungUp queue => exact .ended _ _

theorem placed_attempt (placed : Placed front rest due connection)
    (ascii : ∀ byte ∈ (Telnet.run .text (front ++ rest)).2.text, byte.toNat < 0x80)
    (attempt : Attempt) (unfailing : (connection.hearing attempt).IsUnfailing) :
    ∃ part left, rest = part ++ left ∧
      Placed (front ++ part) left (due + attempt.idle) (stateAfter (connection.attempt attempt)) ∧
      connection.clock + attempt.idle ≤ (stateAfter (connection.attempt attempt)).clock ∧
      (connection.hearing attempt).left = left ∧
      Gives front part (connection.hearing attempt).text (connection.hearing attempt).answers ∧
      Comes (connection.clock + attempt.patience < due) left (connection.hearing attempt).text
        (connection.attempt attempt) := by
  have ready : Ready rest (due + attempt.idle) (connection.pass attempt.idle) := by
    refine ⟨placed.ready.wire, placed.ready.queue, ?_⟩
    exact (due_pass_le attempt.idle rest.length).trans (Nat.add_le_add_right placed.ready.due _)
  have decoder : (connection.pass attempt.idle).decoder = _ := placed.decoder
  have filter : (connection.pass attempt.idle).filter = _ := placed.filter
  rw [Telnet.text_append, ← decoder] at ascii
  have whole : (connection.pass attempt.idle).filter.IsWhole := by
    rw [filter]
    exact Terminal.State.isWhole_start.run fun byte member =>
      ascii byte (List.mem_append_left _ member)
  have kept : Unfailing (connection.pass attempt.idle)
      (stateAfter (connection.attempt attempt)) := by
    intro events happened event member
    exact unfailing event (events_hearing happened ▸ member)
  rcases took_hear ready (connection.clock + attempt.idle + attempt.patience) whole
    (fun byte member => ascii byte (List.mem_append_right _ member)) kept with
    ⟨part, left, events, took, filtered, comes⟩
  rw [decoder, filter] at filtered comes
  have replied := took.replied
  have decoded := took.decoder
  rw [decoder] at replied decoded
  have happened : (stateAfter (connection.attempt attempt)).happenings =
      connection.happenings ++ events := took.happenings
  refine ⟨part, left, took.split, ⟨took.ready, ?_, ?_⟩, took.clock,
    took.ready.queue.carried_eq, ⟨?_, ?_⟩, ?_⟩
  · rw [Telnet.run_append]
    exact decoded
  · rw [Telnet.text_append, Terminal.run_append]
    exact filtered
  · rw [plainTextOf_append, Comes.text_hearing comes]
  · rw [answersTo_append, ← replied, Hearing.answers, events_hearing happened]
  · rw [Comes.text_hearing comes]
    exact comes.mono fun late => by omega

/-! ### Reading on -/

theorem attempt_of_ended (queue : connection.console.queue = [.hangUp]) (attempt : Attempt) :
    ∃ after, connection.attempt attempt = .error .disconnected after ∧
      after.happenings = connection.happenings ++ [.hungUp] ∧
      after.console.queue = [.hangUp] := by
  rw [Connection.attempt, hear_eq, receive_eq, arrival,
    show (connection.pass attempt.idle).console.queue = _ from queue, Event.next]
  exact ⟨_, rfl, happenings_record _ _, rfl⟩

/-- When the end has been found, it is found again. -/
theorem ended_hearAll (queue : connection.console.queue = [.hangUp]) (attempts : List Attempt) :
    ∀ hearing ∈ connection.hearAll attempts, hearing.IsBehind := by
  induction attempts generalizing connection with
  | nil => nofun
  | cons attempt rest induction =>
      rcases attempt_of_ended queue attempt with ⟨after, ended, happened, still⟩
      intro hearing member
      rcases List.mem_cons.mp member with rfl | member
      · rw [Connection.hearing, ended, stateAfter_error, happened, List.drop_left, still]
        exact ⟨rfl, rfl, rfl⟩
      · rw [ended] at member
        exact induction still hearing member

theorem length_hearAll (attempts : List Attempt) (connection : Connection) :
    (connection.hearAll attempts).length = attempts.length := by
  induction attempts generalizing connection with
  | nil => rfl
  | cons attempt rest induction => rw [hearAll, List.length_cons, induction, List.length_cons]

end Connection

inductive Hears (delay : Nat) : Bytes → Bytes → List Attempt → List Hearing → Prop
  | nil (front rest : Bytes) : Hears delay front rest [] []
  | goesOn {front part rest : Bytes} {attempt : Attempt} {attempts : List Attempt}
      {hearing : Hearing} {hearings : List Hearing} :
      Gives front part hearing.text hearing.answers → hearing.left = rest →
      hearing.Orderly → ¬hearing.IsEnd → (delay ≤ attempt.patience → hearing.text ≠ []) →
      Hears delay (front ++ part) rest attempts hearings →
      Hears delay front (part ++ rest) (attempt :: attempts) (hearing :: hearings)
  | ends {front part : Bytes} {attempt : Attempt} {attempts : List Attempt}
      {hearing : Hearing} {hearings : List Hearing} :
      Gives front part hearing.text hearing.answers → hearing.left = [] → hearing.IsEnd →
      (∀ other ∈ hearings, other.IsBehind) → hearings.length = attempts.length →
      Hears delay front part (attempt :: attempts) (hearing :: hearings)

theorem Connection.hears_hearAll [Pace] {front rest : Bytes} {due delay : Nat}
    {connection : Connection}
    (placed : connection.Placed front rest due) (early : due ≤ connection.clock + delay)
    (ascii : ∀ byte ∈ (Telnet.run .text (front ++ rest)).2.text, byte.toNat < 0x80)
    (attempts : List Attempt)
    (unfailing : ∀ hearing ∈ connection.hearAll attempts, hearing.IsUnfailing) :
    Hears delay front rest attempts (connection.hearAll attempts) := by
  induction attempts generalizing connection front rest due with
  | nil => exact .nil front rest
  | cons attempt others induction =>
      rcases List.forall_mem_cons.mp unfailing with ⟨first, further⟩
      rcases placed_attempt placed ascii attempt first with
        ⟨part, left, rfl, goesOn, clock, unread, gives, comes⟩
      have orderly := orderly_hearing comes
      rw [← List.append_assoc] at ascii
      have later := induction goesOn (by omega) ascii further
      generalize shown : (connection.hearing attempt).text = text at comes
      generalize tried : connection.attempt attempt = result at comes
      have came : (connection.hearing attempt).outcome = outcome result := by rw [hearing, tried]
      cases comes with
      | silence late =>
          refine .goesOn gives unread orderly ?_ (fun patient => absurd late (by omega)) later
          rw [Hearing.IsEnd, came]
          nofun
      | text visible =>
          refine .goesOn gives unread orderly ?_ (fun _ => shown ▸ visible) later
          rw [Hearing.IsEnd, came]
          nofun
      | hungUp queue =>
          rw [List.append_nil]
          rw [hearAll, tried]
          exact .ends gives unread came (ended_hearAll queue others) (length_hearAll others _)

/-! ## What attempts come to -/

namespace Hearing

variable {hearing : Hearing}

theorem IsEnd.text_eq (ended : hearing.IsEnd) : hearing.text = [] := by
  rw [text, ended]

theorem IsEnd.orderly (ended : hearing.IsEnd) : hearing.Orderly := by
  obtain ⟨outcome, events, left⟩ := hearing
  cases ended
  exact .ended events left

end Hearing

theorem nothing_behind {hearings : List Hearing}
    (behind : ∀ hearing ∈ hearings, hearing.IsBehind) :
    textIn hearings = [] ∧ answersIn hearings = [] :=
  ⟨List.flatMap_eq_nil_iff.mpr fun hearing member => (behind hearing member).ends.text_eq,
    List.flatMap_eq_nil_iff.mpr fun hearing member => (behind hearing member).answers⟩

namespace Hears

variable {delay : Nat} {front rest : Bytes} {attempts : List Attempt} {hearings : List Hearing}
  {earlier later : List Hearing} {hearing : Hearing}

theorem orderly (hears : Hears delay front rest attempts hearings) :
    ∀ hearing ∈ hearings, hearing.Orderly := by
  induction hears with
  | nil => nofun
  | goesOn _ _ orderly _ _ _ induction => exact List.forall_mem_cons.mpr ⟨orderly, induction⟩
  | ends _ _ ended behind _ =>
      exact List.forall_mem_cons.mpr
        ⟨ended.orderly, fun other member => (behind other member).ends.orderly⟩

/-- Behind any attempt, what was given and what was answered are those of what it and the attempts
before it took. -/
theorem reached (hears : Hears delay front rest attempts hearings)
    (split : hearings = earlier ++ hearing :: later) :
    ∃ part, rest = part ++ hearing.left ∧
      Gives front part (textIn (earlier ++ [hearing])) (answersIn (earlier ++ [hearing])) := by
  induction hears generalizing earlier with
  | nil => simp at split
  | @goesOn front part rest _ _ first _ gives unread _ _ _ _ induction =>
      rcases List.cons_eq_append_iff.mp split with ⟨rfl, same⟩ | ⟨others, rfl, onward⟩
      · cases same
        refine ⟨part, by rw [unread], ?_⟩
        simpa [textIn, answersIn] using gives
      · rcases induction onward with ⟨further, rfl, goesOn⟩
        exact ⟨part ++ further, (List.append_assoc _ _ _).symm, gives.trans goesOn⟩
  | @ends front part _ _ first _ gives unread _ behind _ =>
      rcases List.cons_eq_append_iff.mp split with ⟨rfl, same⟩ | ⟨others, rfl, rfl⟩
      · cases same
        refine ⟨part, by rw [unread, List.append_nil], ?_⟩
        simpa [textIn, answersIn] using gives
      · rw [List.append_cons] at behind
        have behind := (List.forall_mem_append.mp behind).1
        have left := (behind hearing (List.mem_append_right _ (List.mem_singleton_self _))).left
        refine ⟨part, by rw [left, List.append_nil], ?_⟩
        rw [List.cons_append, textIn_cons, answersIn_cons, (nothing_behind behind).1,
          (nothing_behind behind).2, List.append_nil, List.append_nil]
        exact gives

theorem patient (hears : Hears delay front rest attempts hearings) :
    ∀ tried ∈ attempts.zip hearings, delay ≤ tried.1.patience → tried.2.outcome ≠ .ok none := by
  induction hears with
  | nil => nofun
  | goesOn _ _ _ _ waits _ induction =>
      refine List.forall_mem_cons.mpr ⟨fun patient given => ?_, induction⟩
      exact waits patient (by rw [Hearing.text, given])
  | ends _ _ ended behind _ =>
      refine List.forall_mem_cons.mpr ⟨fun _ given => ?_, fun tried member _ given => ?_⟩
      · cases ended.symm.trans given
      · cases (behind _ (List.of_mem_zip member).2).ends.symm.trans given

/-- The end is found when everything has been taken, and then again and again. -/
theorem ended (hears : Hears delay front rest attempts hearings)
    (split : hearings = earlier ++ hearing :: later) (ends : hearing.IsEnd) :
    hearing.left = [] ∧ ∀ other ∈ later, other.IsBehind := by
  induction hears generalizing earlier with
  | nil => simp at split
  | goesOn _ _ _ goesOn _ _ induction =>
      rcases List.cons_eq_append_iff.mp split with ⟨rfl, same⟩ | ⟨others, rfl, onward⟩
      · cases same
        exact absurd ends goesOn
      · exact induction onward
  | ends _ unread _ behind _ =>
      rcases List.cons_eq_append_iff.mp split with ⟨rfl, same⟩ | ⟨others, rfl, rfl⟩
      · cases same
        exact ⟨unread, behind⟩
      · rcases List.forall_mem_cons.mp (List.forall_mem_append.mp behind).2 with ⟨first, others⟩
        exact ⟨first.left, others⟩

theorem comes (hears : Hears delay front rest attempts hearings)
    (enough : rest.length < attempts.length)
    (patient : ∀ attempt ∈ attempts, delay ≤ attempt.patience) :
    ∃ hearing ∈ hearings, hearing.IsEnd := by
  induction hears with
  | nil => exact absurd enough (Nat.not_lt_zero _)
  | @goesOn front part rest attempt attempts hearing hearings gives _ _ _ waits _ induction =>
      rcases List.forall_mem_cons.mp patient with ⟨first, others⟩
      have some : part ≠ [] := by
        rintro rfl
        have text := gives.text
        rw [List.append_nil, List.self_eq_append_right] at text
        exact waits first text
      have positive := List.length_pos_iff.mpr some
      rw [List.length_append, List.length_cons] at enough
      rcases induction (by omega) others with ⟨last, member, ended⟩
      exact ⟨last, List.mem_cons_of_mem _ member, ended⟩
  | ends _ _ ended => exact ⟨_, List.mem_cons_self, ended⟩

theorem length_eq (hears : Hears delay front rest attempts hearings) :
    hearings.length = attempts.length := by
  induction hears with
  | nil => rfl
  | goesOn _ _ _ _ _ _ induction => rw [List.length_cons, induction, List.length_cons]
  | ends _ _ _ _ length => rw [List.length_cons, length, List.length_cons]

/-- What is behind all text of the stream has no text. -/
theorem text_of_finished (hears : Hears delay [] rest attempts hearings)
    (split : hearings = earlier ++ hearing :: later)
    (all : textIn earlier = plainTextOf rest) : hearing.text = [] := by
  rcases hears.reached split with ⟨front, whole, gives⟩
  have most := (prefix_plainTextOf ⟨hearing.left, whole.symm⟩).length_le
  have only : textIn [hearing] = hearing.text := List.append_nil _
  rw [← gives.of_start.1, textIn_append, all, only, List.length_append] at most
  exact List.length_eq_zero_iff.mp (by omega)

end Hears

/-- How attempts on a stream go, when they are given up or have to wait no longer than `delay` for
what comes next. -/
structure Renders (stream : Bytes) (delay : Nat) (attempts : List Attempt)
    (hearings : List Hearing) : Prop where
  length : hearings.length = attempts.length
  orderly : ∀ hearing ∈ hearings, hearing.Orderly
  /-- When an attempt is over, text and answers are those of all that was taken off the stream. -/
  reached : ∀ earlier hearing later, hearings = earlier ++ hearing :: later →
    ∃ front, stream = front ++ hearing.left ∧
      textIn (earlier ++ [hearing]) = plainTextOf front ∧
      answersIn (earlier ++ [hearing]) = answersTo front
  /-- The end is reported when everything was taken, and by every attempt from then on. -/
  ended : ∀ earlier hearing later, hearings = earlier ++ hearing :: later → hearing.IsEnd →
    hearing.left = [] ∧ ∀ other ∈ later, other.IsBehind
  /-- When all text has been given, nothing is left to report but the end. -/
  finished : ∀ earlier hearing later, hearings = earlier ++ hearing :: later →
    textIn earlier = plainTextOf stream → hearing.outcome = .ok none ∨ hearing.IsEnd
  patient : ∀ tried ∈ attempts.zip hearings,
    delay ≤ tried.1.patience → tried.2.outcome ≠ .ok none
  comes : stream.length < attempts.length → (∀ attempt ∈ attempts, delay ≤ attempt.patience) →
    ∃ hearing ∈ hearings, hearing.IsEnd

section

variable {stream : Bytes} {delay : Nat} {attempts : List Attempt} {hearings : List Hearing}

theorem Hears.renders (hears : Hears delay [] stream attempts hearings) :
    Renders stream delay attempts hearings where
  length := hears.length_eq
  orderly := hears.orderly
  reached earlier hearing later split := by
    rcases hears.reached split with ⟨front, whole, gives⟩
    exact ⟨front, whole, gives.of_start⟩
  ended earlier hearing later := hears.ended
  finished earlier hearing later split all := by
    have nothing := hears.text_of_finished split all
    have orderly := hears.orderly hearing (by simp [split])
    cases orderly with
    | givenUp events => exact .inl rfl
    | ended events => exact .inr rfl
    | heard visible events => exact absurd nothing visible
  patient := hears.patient
  comes := hears.comes

theorem Renders.all_of_ended (renders : Renders stream delay attempts hearings)
    (ends : ∃ hearing ∈ hearings, hearing.IsEnd) :
    textIn hearings = plainTextOf stream ∧ answersIn hearings = answersTo stream := by
  rcases ends with ⟨hearing, member, ended⟩
  rcases List.append_of_mem member with ⟨earlier, later, split⟩
  rcases renders.ended earlier hearing later split ended with ⟨nothing, behind⟩
  rcases renders.reached earlier hearing later split with ⟨front, whole, text, answers⟩
  rw [nothing, List.append_nil] at whole
  rw [split, List.append_cons, textIn_append, answersIn_append, text, answers,
    (nothing_behind behind).1, (nothing_behind behind).2, List.append_nil, List.append_nil, whole]
  exact ⟨rfl, rfl⟩

end

/-! ## A console that sends a stream -/

namespace Event

variable {speech : List Event}

theorem streams_of_speech (only : ∀ event ∈ speech, event.isSpeech = true) :
    Streams (carried speech) (speech ++ [.hangUp]) := by
  induction speech with
  | nil => exact .ended
  | cons event others induction =>
      rcases List.forall_mem_cons.mp only with ⟨first, further⟩
      cases event with
      | data bytes => exact .data bytes (induction further)
      | pause milliseconds => exact .pause milliseconds (induction further)
      | pauseUntil | hangUp | fail => cases first

theorem due_of_speech (only : ∀ event ∈ speech, event.isSpeech = true) (now : Nat) :
    due now (speech ++ [.hangUp]) = now + delay speech := by
  induction speech generalizing now with
  | nil => rfl
  | cons event others induction =>
      rcases List.forall_mem_cons.mp only with ⟨first, further⟩
      cases event with
      | data bytes => exact induction further now
      | pause milliseconds =>
          rw [delay, ← Nat.add_assoc]
          exact induction further (now + milliseconds)
      | pauseUntil | hangUp | fail => cases first

end Event

def Console.Streams (stream : Bytes) (console : Console) : Prop :=
  ∃ speech, console.queue = speech ++ [.hangUp] ∧
    (∀ event ∈ speech, event.isSpeech = true) ∧ Event.carried speech = stream

/-- How long reading it can take: the delays of the console, and those of the writes, of which there
are no more than bytes to be answered. -/
def Console.delay [Pace] (console : Console) : Nat :=
  Event.delay console.queue +
    Pace.delay console.writes.calls (Event.carried console.queue).length

/-- No write fails on a stream without faults that takes everything at once. -/
theorem Connection.isUnfailing_hearAll [Pace] (prompt : ¬Pace.Stalls) {connection : Connection}
    (faultless : connection.console.writes.faults = []) (attempts : List Attempt) :
    ∀ hearing ∈ connection.hearAll attempts, hearing.IsUnfailing := by
  induction attempts generalizing connection with
  | nil => nofun
  | cons attempt rest induction =>
      rcases Willing.hear prompt (connection.clock + attempt.idle + attempt.patience)
        (connection.pass attempt.idle) faultless with ⟨still, events, happened, fine⟩
      refine List.forall_mem_cons.mpr ⟨?_, induction still⟩
      exact fun event member => fine event (events_hearing happened ▸ member)

/-- Unless a write fails, reading a stream of ASCII depends on nothing but the stream. -/
theorem renders_hearAll [Pace] {stream : Bytes}
    (ascii : ∀ byte ∈ (Telnet.decode .text stream).2.text, byte < 0x80) {console : Console}
    (streams : console.Streams stream) (desk : Desk) (attempts : List Attempt)
    (unfailing : ∀ hearing ∈ (Connection.ofConsole .telnet console desk).hearAll attempts,
      hearing.IsUnfailing) :
    Renders stream console.delay attempts
      ((Connection.ofConsole .telnet console desk).hearAll attempts) := by
  rcases streams with ⟨speech, queue, only, rfl⟩
  have carried : Event.carried console.queue = Event.carried speech := by
    rw [queue]
    exact (Event.streams_of_speech only).carried_eq
  have due : (Connection.ofConsole .telnet console desk).due (Event.carried speech).length ≤
      desk.clock + console.delay := by
    rw [Console.delay, carried, queue, Event.delay_append, Connection.due,
      show (Connection.ofConsole .telnet console desk).console.queue = _ from queue,
      Event.due_of_speech only]
    exact Nat.le_of_eq (by simp [Connection.ofConsole, Event.delay, Nat.add_assoc])
  have placed : (Connection.ofConsole .telnet console desk).Placed [] (Event.carried speech)
      (desk.clock + console.delay) := by
    refine ⟨⟨rfl, ?_, due⟩, rfl, rfl⟩
    exact queue ▸ Event.streams_of_speech only
  apply Hears.renders
  refine Connection.hears_hearAll placed (Nat.le_refl _) ?_ attempts unfailing
  intro byte member
  rw [List.nil_append, ← Telnet.decode_eq_run] at member
  exact UInt8.lt_iff_toNat_lt.mp (ascii byte member)

/-- `A`, then a sequence for a colour that is interrupted by a request to echo, then `B`. -/
def interrupted : Bytes :=
  [0x41, 0x1B, 0x5B, Telnet.iac, Telnet.will, 1, 0x31, 0x6D, 0x42]

def inOnePiece : Console :=
  { Console.silent with queue := [.data interrupted, .hangUp] }

/-- Cut inside the sequence, and there inside the command. -/
def inPieces : Console :=
  { Console.silent with
    queue :=
      [.data [0x41, 0x1B], .pause 30, .data [0x5B, Telnet.iac, Telnet.will], .pause 40,
        .data [1, 0x31], .pause 50, .data [0x6D, 0x42], .hangUp] }

theorem streams_inOnePiece : inOnePiece.Streams interrupted :=
  ⟨[.data interrupted], rfl, by decide, rfl⟩

theorem streams_inPieces : inPieces.Streams interrupted :=
  ⟨inPieces.queue.dropLast, rfl, by decide, rfl⟩

/-- A stream that takes the first byte of each answer ten milliseconds before the others. -/
abbrev hesitant : Pace :=
  ⟨fun _ => [⟨1, 10⟩]⟩

end BootConsole
