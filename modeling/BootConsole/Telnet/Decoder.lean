import BootConsole.Bytes

/-!
# Reading the telnet wire

A client that wants nothing but plain text: commands are taken out of the stream, every option that
the peer offers or asks for is refused, and the line ends of the wire become line feeds. `step`
reads one byte and `run` reads them one by one; the state carries over, so a command may be cut
anywhere (`run_append`). `decode` reads a chunk and copies plain text as a whole, to the same effect
(`decode_eq_run`).
-/

namespace BootConsole.Telnet

/-- Interpret as command: begins every command, and stands twice for itself. -/
def iac : UInt8 := 255

def dont : UInt8 := 254

def doIt : UInt8 := 253

def wont : UInt8 := 252

def will : UInt8 := 251

def sb : UInt8 := 250

def se : UInt8 := 240

def nul : UInt8 := 0

inductive Verb where
  | will
  | wont
  | doIt
  | dont
  deriving DecidableEq, Repr

def Verb.ofByte? (byte : UInt8) : Option Verb :=
  if byte = Telnet.will then some .will
  else if byte = Telnet.wont then some .wont
  else if byte = Telnet.doIt then some .doIt
  else if byte = Telnet.dont then some .dont
  else none

/-- A request and an offer are refused; a refusal needs no answer. -/
def Verb.refusal (verb : Verb) (option : UInt8) : Bytes :=
  match verb with
  | .doIt => [iac, Telnet.wont, option]
  | .will => [iac, Telnet.dont, option]
  | .wont | .dont => []

inductive State where
  | text
  /-- A carriage return whose meaning the next byte decides. -/
  | carriageReturn
  | command
  | option (verb : Verb)
  | subnegotiation
  /-- An IAC inside a sub-negotiation. -/
  | subnegotiationCommand
  deriving DecidableEq, Repr

structure Output where
  text : Bytes
  replies : Bytes
  deriving DecidableEq, Repr

namespace Output

def empty : Output := ⟨[], []⟩

def ofText (text : Bytes) : Output := ⟨text, []⟩

def append (first second : Output) : Output :=
  ⟨first.text ++ second.text, first.replies ++ second.replies⟩

@[simp] theorem empty_append (output : Output) : empty.append output = output := rfl

@[simp] theorem append_empty (output : Output) : output.append empty = output := by
  simp [append, empty]

theorem append_assoc (first second third : Output) :
    (first.append second).append third = first.append (second.append third) := by
  simp [append]

end Output

def textStep (byte : UInt8) : State × Output :=
  if byte = iac then (.command, .empty)
  else if byte = BootConsole.carriageReturn then (.carriageReturn, .empty)
  else (.text, .ofText [byte])

/-- The byte after a carriage return: a line feed makes the two a line end, NUL makes them a
carriage return, and before anything else the carriage return stands for itself. -/
def carriageReturnStep (byte : UInt8) : State × Output :=
  if byte = lineFeed then (.text, .ofText [lineFeed])
  else if byte = nul then (.text, .ofText [BootConsole.carriageReturn])
  else
    ((textStep byte).1, (Output.ofText [BootConsole.carriageReturn]).append (textStep byte).2)

def commandStep (byte : UInt8) : State × Output :=
  if byte = iac then (.text, .ofText [iac])
  else if byte = sb then (.subnegotiation, .empty)
  else
    match Verb.ofByte? byte with
    | some verb => (.option verb, .empty)
    | none => (.text, .empty)

def step (state : State) (byte : UInt8) : State × Output :=
  match state with
  | .text => textStep byte
  | .carriageReturn => carriageReturnStep byte
  | .command => commandStep byte
  | .option verb => (.text, ⟨[], verb.refusal byte⟩)
  | .subnegotiation =>
      (if byte = iac then .subnegotiationCommand else .subnegotiation, .empty)
  | .subnegotiationCommand => (if byte = se then .text else .subnegotiation, .empty)

def run (state : State) : Bytes → State × Output
  | [] => (state, .empty)
  | byte :: rest =>
      let first := step state byte
      let others := run first.1 rest
      (others.1, first.2.append others.2)

theorem run_append (state : State) (first second : Bytes) :
    run state (first ++ second) =
      ((run (run state first).1 second).1,
        (run state first).2.append (run (run state first).1 second).2) := by
  induction first generalizing state with
  | nil => simp [run]
  | cons byte rest induction => simp [run, induction, Output.append_assoc]

/-- What is read of a part is a part of what is read, without an answer if there is none to the
whole. -/
theorem run_of_prefix {state after : State} {part whole text : Bytes} (begins : part <+: whole)
    (read : run state whole = (after, .ofText text)) :
    ∃ between front, run state part = (between, .ofText front) ∧ front <+: text := by
  rcases begins with ⟨rest, rfl⟩
  rw [run_append, Prod.mk.injEq, Output.append, Output.ofText, Output.mk.injEq] at read
  rcases read with ⟨_, texts, replies⟩
  have unanswered : (run state part).2.replies = [] := (List.append_eq_nil_iff.mp replies).1
  refine ⟨(run state part).1, (run state part).2.text, ?_, _, texts⟩
  rw [Output.ofText, ← unanswered]

def isPlain (byte : UInt8) : Bool :=
  byte != iac && byte != BootConsole.carriageReturn

/-- Plain text stands for itself. -/
theorem run_plain (text : Bytes) (plain : ∀ byte ∈ text, isPlain byte = true) :
    run .text text = (.text, .ofText text) := by
  induction text with
  | nil => rfl
  | cons byte rest induction =>
      have others := induction fun other member => plain other (List.mem_cons_of_mem _ member)
      have head := plain byte List.mem_cons_self
      simp only [isPlain, Bool.and_eq_true, bne_iff_ne, ne_eq] at head
      have first : step .text byte = (.text, .ofText [byte]) := by
        simp [step, textStep, head]
      simp [run, first, others, Output.append, Output.ofText]

def plainFront (state : State) (chunk : Bytes) : Bytes :=
  if state = .text then chunk.takeWhile isPlain else []

theorem run_plainFront (state : State) (chunk : Bytes) :
    run state (plainFront state chunk) = (state, .ofText (plainFront state chunk)) := by
  unfold plainFront
  split
  · next isText =>
      rw [isText]
      exact run_plain _ fun byte member => List.all_eq_true.mp List.all_takeWhile byte member
  · rfl

theorem plainFront_append_drop (state : State) (chunk : Bytes) :
    plainFront state chunk ++ chunk.drop (plainFront state chunk).length = chunk := by
  unfold plainFront
  split
  · exact List.prefix_iff_eq_append.mp (List.takeWhile_prefix isPlain)
  · rfl

/-- Read a chunk. Plain text is copied up to the next byte that needs care. -/
def decode (state : State) (chunk : Bytes) : State × Output :=
  let plain := plainFront state chunk
  match _rest : chunk.drop plain.length with
  | [] => (state, .ofText plain)
  | byte :: rest =>
      let first := step state byte
      let others := decode first.1 rest
      (others.1, (Output.ofText plain).append (first.2.append others.2))
termination_by chunk.length
decreasing_by
  have size := congrArg List.length _rest
  simp only [List.length_drop, List.length_cons] at size
  omega

/-- Copying plain text as a whole reads the same as going byte by byte. -/
theorem decode_eq_run (state : State) (chunk : Bytes) : decode state chunk = run state chunk := by
  fun_induction decode state chunk with
  | case1 state chunk plain rest =>
      have whole := plainFront_append_drop state chunk
      rw [rest, List.append_nil] at whole
      have read := run_plainFront state chunk
      rw [whole] at read
      rw [read, show plain = chunk from whole]
  | case2 state chunk plain byte rest equal first others induction =>
      have whole := plainFront_append_drop state chunk
      rw [equal] at whole
      rw [← whole, run_append, run_plainFront]
      simp only [run, others, induction, plain, first]

/-- What is left of a stream when every command is taken out of it, line ends as they were. -/
def withoutCommands (state : State) : Bytes → Bytes
  | [] => []
  | byte :: rest =>
      let kept := match state with
        | .text | .carriageReturn => if byte = iac then [] else [byte]
        | .command => if byte = iac then [iac] else []
        | _ => []
      let next := match state with
        | .carriageReturn => (textStep byte).1
        | _ => (step state byte).1
      kept ++ withoutCommands next rest

end BootConsole.Telnet
