import BootConsole.Connection.Console
import BootConsole.Connection.Pace
import BootConsole.Telnet.Encoder
import BootConsole.Terminal.Filter

/-!
# Connections

A console at the far end, what has been learned of its stream so far, and the operator's desk. Text
is read in two layers: `receive` gives what the wire carried as text, `hear` what of it an operator
would see. Both use the console up (`weight_receive_lt`, `weight_hear_lt`).

Both may be given up at a time limit. While they wait for the console, nothing is lost by that. But
the peer's options are answered within a read, and where the stream is slow to take the answer, a
read may be given up over it: then the text that came with the options is lost, and the stream is
left with a part of the answer.
-/

namespace BootConsole

structure Connection extends Desk where
  wire : Wire
  console : Console
  decoder : Telnet.State
  filter : Terminal.State
  /-- Whether the session has not been closed. -/
  isOpen : Bool
  /-- Whether a step has found the connection closed by the console. -/
  hungUp : Bool
  deriving DecidableEq, Repr

namespace Connection

def ofConsole (wire : Wire) (console : Console) (desk : Desk) : Connection where
  toDesk := desk
  wire := wire
  console := console
  decoder := .text
  filter := .start
  isOpen := true
  hungUp := false

def atDesk {α : Type} (action : Action Desk α) : Action Connection α := fun connection =>
  match action connection.toDesk with
  | .ok value desk => .ok value { connection with toDesk := desk }
  | .error failure desk => .error failure { connection with toDesk := desk }

def record (event : Happening) (connection : Connection) : Connection :=
  { connection with toDesk := connection.toDesk.record event }

def note (level : Level) (text : String) : Action Connection Unit :=
  modify fun connection => connection.record (.noted level text)

def echo (text : Bytes) : Action Connection Unit :=
  atDesk (Desk.display text)

def weight (connection : Connection) : Nat :=
  connection.console.weight

/-! ## Writing -/

section

variable [Pace]

/-- Write to the stream or channel below, and say whether all of the data was taken by the limit.
The journal gets `whole` or `part` of what was taken. -/
def write (limit : Option Nat) (whole part : Bytes → Happening) (data : Bytes) :
    Action Connection Bool := fun connection =>
  let writes := connection.console.writes
  let passage := Stall.pass limit data.length 0 connection.clock (Pace.stalls writes.calls)
  let taken := data.take passage.taken
  let after :=
    { connection with
      clock := passage.time
      console.writes := writes.advance }
  if passage.givenUp then .ok false (after.record (part taken))
  else
    match writes.next? with
    | some fault =>
        let left := if taken.isEmpty then after else after.record (part taken)
        .error (.transport fault) (left.record (.writeFailed fault))
    | none => .ok true (after.record (whole data))

def put (data : Bytes) : Action Connection Unit := do
  let _ ← write none .wrote .wrotePart data

def flush : Action Connection Unit := fun connection =>
  let after :=
    { connection with
      console.flushes := connection.console.flushes.advance }
  match connection.console.flushes.next? with
  | some fault => .error (.transport fault) (after.record (.writeFailed fault))
  | none => .ok () after

def delivered (data : Bytes) : Action Connection Unit :=
  modify fun connection =>
    { connection with console := connection.console.answer data }.record (.sent data)

def send (data : Bytes) : Action Connection Unit := do
  match (← get).wire with
  | .text => put data
  | .telnet =>
      let encoded := Telnet.encode data
      unless encoded.isEmpty do put encoded
      flush
  delivered data

def say (line : String) : Action Connection Unit :=
  send (Utf8.encode line ++ [lineFeed])

/-- Answer the peer's options, within the limit of the read that came to them. Nobody waits for
this, so it is not flushed. -/
def reply (limit : Nat) (replies : Bytes) : Action Connection Bool :=
  if replies.isEmpty then return true
  else write (some limit) .replied .repliedPart replies

end

/-- Close the connection. That the peer of a stream is gone already is no failure. -/
def shutDown : Action Connection Unit := fun connection =>
  let after := connection.record .closed
  match connection.console.closing with
  | none => .ok () after
  | some fault =>
      if connection.wire = .telnet ∧ fault.kind = .notConnected then .ok () after
      else .error (.transport fault) after

/-! ## Reading -/

def arrival (limit : Nat) (connection : Connection) : Arrival × Connection :=
  let next := Event.next connection.wire limit connection.clock connection.console.queue
  (next.1,
    { connection with
      clock := next.2.1
      console.queue := next.2.2 })

theorem weight_arrival_lt (limit : Nat) (connection : Connection) (bytes : Bytes)
    (arrived : (connection.arrival limit).1 = .data bytes) :
    (connection.arrival limit).2.weight < connection.weight := by
  have smaller := Event.weight_next_lt _ _ _ _ _ arrived
  simp only [weight, arrival, Console.weight]
  omega

section

variable [Pace]

/-- Read what the stream carried, telnet commands taken out. There is nothing to give if the limit
comes before the commands are answered. -/
def decode (limit : Nat) (bytes : Bytes) : Action Connection (Option Bytes) := fun connection =>
  match connection.wire with
  | .text => .ok (some bytes) connection
  | .telnet =>
      let read := Telnet.decode connection.decoder bytes
      match reply limit read.2.replies { connection with decoder := read.1 } with
      | .ok answered after => .ok (if answered then some read.2.text else none) after
      | .error failure after => .error failure after

theorem weight_write (limit : Option Nat) (whole part : Bytes → Happening) (data : Bytes)
    (connection after : Connection) (taken : Bool)
    (done : write limit whole part data connection = .ok taken after) :
    after.weight = connection.weight := by
  simp only [write] at done
  split at done
  · cases done
    rfl
  · split at done
    · simp at done
    · cases done
      rfl

theorem weight_reply (limit : Nat) (replies : Bytes) (connection after : Connection)
    (answered : Bool) (done : reply limit replies connection = .ok answered after) :
    after.weight = connection.weight := by
  unfold reply at done
  split at done
  · cases done
    rfl
  · exact weight_write _ _ _ _ _ _ _ done

theorem weight_decode (limit : Nat) (bytes : Bytes) (text : Option Bytes)
    (connection after : Connection) (done : decode limit bytes connection = .ok text after) :
    after.weight = connection.weight := by
  simp only [decode] at done
  split at done
  · cases done
    rfl
  · split at done
    · rename_i written
      cases done
      have kept := weight_reply _ _ _ _ _ written
      exact kept
    · simp at done

/-- The next text of the connection, or nothing if the read was given up at the limit. On a stream,
a read that carries no text, only commands, is passed over. -/
def receive (limit : Nat) (connection : Connection) :
    EStateM.Result Failure Connection (Option Bytes) :=
  match _next : connection.arrival limit with
  | (.silence, after) => .ok none (after.record .silence)
  | (.hangUp, after) => .error .disconnected (after.record .hungUp)
  | (.fail cause, after) => .error (.transport cause) (after.record (.readFailed cause))
  | (.data bytes, after) =>
      match _decoded : decode limit bytes after with
      | .error failure after => .error failure after
      | .ok none after => .ok none (after.record .silence)
      | .ok (some text) after =>
          if text.isEmpty && after.wire = .telnet then receive limit after
          else .ok (some text) (after.record (.received text))
termination_by connection.weight
decreasing_by
  have smaller := weight_arrival_lt limit connection bytes (by rw [_next])
  rw [_next] at smaller
  rw [weight_decode _ _ _ _ _ _decoded]
  exact smaller

theorem weight_receive_lt (limit : Nat) (connection after : Connection) (text : Bytes)
    (done : receive limit connection = .ok (some text) after) :
    after.weight < connection.weight := by
  fun_induction receive limit connection with
  | case1 | case2 | case3 | case4 | case5 => simp at done
  | case6 connection bytes between next text between' decoded empty induction =>
      have smaller := weight_arrival_lt limit connection bytes (by rw [next])
      rw [next, ← weight_decode _ _ _ _ _ decoded] at smaller
      exact Nat.lt_trans (induction done) smaller
  | case7 connection bytes between next text between' decoded nonempty =>
      have smaller := weight_arrival_lt limit connection bytes (by rw [next])
      rw [next, ← weight_decode _ _ _ _ _ decoded] at smaller
      cases done
      exact smaller

/-- The next plain text of the console, or nothing if the read was given up at the limit. Chunks
without any, only escape sequences for instance, are passed over. -/
def hear (limit : Nat) (connection : Connection) :
    EStateM.Result Failure Connection (Option Bytes) :=
  match _received : receive limit connection with
  | .error failure after => .error failure after
  | .ok none after => .ok none after
  | .ok (some bytes) after =>
      let stripped := Terminal.plainText after.filter bytes
      let filtered := { after with filter := stripped.1 }
      if stripped.2.isEmpty then hear limit filtered
      else .ok (some stripped.2) (filtered.record (.heard stripped.2))
termination_by connection.weight
decreasing_by exact weight_receive_lt limit connection after bytes _received

theorem weight_hear_lt (limit : Nat) (connection after : Connection) (text : Bytes)
    (done : hear limit connection = .ok (some text) after) : after.weight < connection.weight := by
  fun_induction hear limit connection with
  | case1 | case2 => simp at done
  | case3 connection bytes between received stripped filtered empty induction =>
      have smaller := weight_receive_lt _ _ _ _ received
      exact Nat.lt_trans (induction done) smaller
  | case4 connection bytes between received stripped filtered nonempty =>
      have smaller := weight_receive_lt _ _ _ _ received
      cases done
      exact smaller

end

theorem weight_echo (text : Bytes) (connection after : Connection)
    (done : echo text connection = .ok () after) : after.weight = connection.weight := by
  simp only [echo, atDesk] at done
  split at done
  · cases done
    rfl
  · simp at done

end Connection

end BootConsole
