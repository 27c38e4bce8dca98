import BootConsole.Desk.Basic

/-!
# The far end

A console as a session meets it: a queue of what it will say, with the pauses it makes, and what it
will add to the queue when something is sent to it. Every behaviour that a session can see, up to
the end of any run, is one of these consoles.

A pause begins when a read first comes to it and goes on when that read is given up. The queue only
shrinks under reading, which is why every wait ends (`weight_next_lt`).
-/

namespace BootConsole

inductive Wire where
  /-- Chunks of text arrive as they are sent. -/
  | text
  /-- A stream of bytes in the telnet protocol. -/
  | telnet
  deriving DecidableEq, Repr

inductive Event where
  | data (bytes : Bytes)
  /-- A pause that no read has come to yet. -/
  | pause (milliseconds : Nat)
  /-- A pause that is over at this time. -/
  | pauseUntil (time : Nat)
  | hangUp
  | fail (cause : Fault)
  deriving DecidableEq, Repr

inductive Arrival where
  | data (bytes : Bytes)
  | hangUp
  | fail (cause : Fault)
  /-- Nothing came by the limit. -/
  | silence
  deriving DecidableEq, Repr

inductive Cue where
  | write
  /-- Every line feed in what is written. -/
  | lineFeed
  deriving DecidableEq, Repr

def readSize : Nat := 4096

/-- A read that began at the time `now` and is given up at the time `limit`: what it comes to, when,
and what is left of the queue. What is there at the very end of the limit is not missed. -/
def Event.next (wire : Wire) (limit : Nat) : Nat → List Event → Arrival × Nat × List Event
  | now, [] => (.silence, max now limit, [])
  | now, .data bytes :: rest =>
      match wire with
      | .text => (.data bytes, now, rest)
      | .telnet =>
          if bytes.isEmpty then next wire limit now rest
          else
            let left := bytes.drop readSize
            (.data (bytes.take readSize), now,
              if left.isEmpty then rest else .data left :: rest)
  | now, .pause milliseconds :: rest =>
      let time := now + milliseconds
      if time ≤ max now limit then next wire limit time rest
      else (.silence, max now limit, .pauseUntil time :: rest)
  | now, .pauseUntil time :: rest =>
      if time ≤ max now limit then next wire limit (max now time) rest
      else (.silence, max now limit, .pauseUntil time :: rest)
  | now, .hangUp :: rest => (.hangUp, now, .hangUp :: rest)
  | now, .fail cause :: rest => (.fail cause, now, rest)

structure Console where
  queue : List Event
  /-- What each cue adds to the queue. -/
  answers : List (List Event)
  cue : Cue
  writes : FaultSchedule
  flushes : FaultSchedule
  /-- How closing the connection fails. -/
  closing : Option Fault
  deriving DecidableEq, Repr

namespace Console

def silent : Console := ⟨[], [], .write, .none, .none, none⟩

def answer (data : Bytes) (console : Console) : Console :=
  let count := match console.cue with
    | .write => 1
    | .lineFeed => data.count lineFeed
  { console with
    queue := console.queue ++ (console.answers.take count).flatten
    answers := console.answers.drop count }

end Console

/-! ## Reading uses the console up -/

def Event.weight : Event → Nat
  | .data bytes => bytes.length + 1
  | _ => 1

def Event.totalWeight : List Event → Nat
  | [] => 0
  | event :: queue => event.weight + totalWeight queue

@[simp] theorem Event.totalWeight_nil : totalWeight [] = 0 := rfl

@[simp] theorem Event.totalWeight_cons (event : Event) (queue : List Event) :
    totalWeight (event :: queue) = event.weight + totalWeight queue := rfl

@[simp] theorem Event.totalWeight_append (first second : List Event) :
    totalWeight (first ++ second) = totalWeight first + totalWeight second := by
  induction first with
  | nil => simp
  | cons event rest induction => simp [induction, Nat.add_assoc]

@[simp] theorem Event.totalWeight_unread (left : Bytes) (rest : List Event) :
    totalWeight (if left.isEmpty then rest else .data left :: rest) =
      (if left.isEmpty then 0 else left.length + 1) + totalWeight rest := by
  split <;> simp [weight]

theorem Event.weight_next_le (wire : Wire) (limit now : Nat) (queue : List Event) :
    totalWeight (next wire limit now queue).2.2 ≤ totalWeight queue := by
  fun_induction next wire limit now queue with
  | case1 => simp
  | case2 => simp
  | case3 => simp_all [weight]; omega
  | case4 now bytes rest telnet nonempty left =>
      have shorter : left.length ≤ bytes.length := by simp [left]
      rw [totalWeight_unread, totalWeight_cons, weight]
      split <;> omega
  | case5 => simp_all; omega
  | case6 => simp [weight]
  | case7 => simp_all; omega
  | case8 => simp
  | case9 => simp
  | case10 => simp

theorem Event.weight_next_lt (wire : Wire) (limit now : Nat) (queue : List Event) (bytes : Bytes)
    (arrived : (next wire limit now queue).1 = .data bytes) :
    totalWeight (next wire limit now queue).2.2 < totalWeight queue := by
  fun_induction next wire limit now queue with
  | case1 => simp at arrived
  | case2 => simp [weight]
  | case3 now data rest telnet empty induction =>
      subst telnet
      have smaller := induction arrived
      rw [totalWeight_cons]
      omega
  | case4 now data rest telnet nonempty left =>
      have positive : 0 < data.length := by
        cases data with
        | nil => simp at nonempty
        | cons => simp
      have shorter : left.length < data.length := by
        simp only [left, List.length_drop, readSize]
        omega
      rw [totalWeight_unread, totalWeight_cons, weight]
      split <;> omega
  | case5 now milliseconds rest time early induction =>
      have smaller := induction arrived
      simp only [totalWeight_cons]
      omega
  | case6 => simp at arrived
  | case7 now time rest early induction =>
      have smaller := induction arrived
      simp only [totalWeight_cons]
      omega
  | case8 => simp at arrived
  | case9 => simp at arrived
  | case10 => simp at arrived

def Console.weight (console : Console) : Nat :=
  Event.totalWeight console.queue + Event.totalWeight console.answers.flatten

@[simp] theorem Console.weight_answer (data : Bytes) (console : Console) :
    (console.answer data).weight = console.weight := by
  have parts (count : Nat) :
      (console.answers.take count).flatten ++ (console.answers.drop count).flatten =
        console.answers.flatten := by
    rw [← List.flatten_append, List.take_append_drop]
  rw [weight, weight, answer, Event.totalWeight_append, Nat.add_assoc, ← Event.totalWeight_append,
    parts]

end BootConsole
