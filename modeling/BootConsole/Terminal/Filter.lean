import BootConsole.Text.Utf8

/-!
# Plain text from terminal output

The console writes for a terminal: colours, cursor moves and window titles travel as escape
sequences inside the text. The filter keeps what a terminal would print, and of the controls only
line feed, carriage return, tab and backspace.

`step` reads one byte and `run` a stretch of bytes; the state carries over. `plainText` reads a
chunk as it came from the wire. The two differ in one place: a character that the end of a chunk cut
off is completed from at most four bytes, looked at all at once (`resume`).
-/

namespace BootConsole.Terminal

def escapeByte : UInt8 := 0x1B

inductive Part where
  | entry
  | parameters
  | intermediates
  /-- Out of order; the sequence is read to its end and means nothing. -/
  | refused
  deriving DecidableEq, Repr

inductive State where
  /-- In the text, after the beginning `kept` of a character. -/
  | ground (kept : Bytes)
  | escape
  | escapeIntermediate
  /-- In a control sequence: ESC and an opening bracket. -/
  | control (part : Part)
  /-- In the head of a device control string: ESC and `P`. -/
  | device (part : Part)
  | deviceBody
  /-- In an operating system command: ESC and a closing bracket. -/
  | systemCommand
  /-- In a string that no terminal shows: ESC and one of `X`, `^`, `_`. -/
  | hiddenString
  deriving DecidableEq, Repr

def State.start : State := .ground []

def isLayout (byte : UInt8) : Bool :=
  byte == 0x0A || byte == 0x0D || byte == 0x09 || byte == 0x08

/-- Carry out a control: a layout control is kept, any other has no place in plain text. -/
def execute (byte : UInt8) : Bytes :=
  if isLayout byte then [byte] else []

/-- The controls that a sequence lets through: all below 0x20 but those that end or restart it. -/
def isPassing (byte : UInt8) : Bool :=
  byte ≤ 0x17 || byte == 0x19 || (0x1C ≤ byte && byte ≤ 0x1F)

def isAbort (byte : UInt8) : Bool :=
  byte == 0x18 || byte == 0x1A

def isBetween (low high byte : UInt8) : Bool :=
  low ≤ byte && byte ≤ high

/-- The bytes that work in every sequence: two give it up, ESC begins another. -/
def anywhere (state : State) (byte : UInt8) : State :=
  if isAbort byte then .start
  else if byte = escapeByte then .escape
  else state

/-- A whole character in the text. ESC begins a sequence; the other controls, also those above
U+007F, are carried out. -/
def groundCharacter (character : Char) : State × Bytes :=
  let code := character.toNat
  if code = 0x1B then (.escape, [])
  else if code < 0x20 || (0x80 ≤ code && code ≤ 0x9F) then (.start, execute (UInt8.ofNat code))
  else (.start, String.utf8EncodeChar character)

/-- A byte that begins no character: the range of the upper controls is carried out. -/
def strayByte (byte : UInt8) : Bytes :=
  if byte ≤ 0x9F then execute byte else String.utf8EncodeChar Utf8.replacement

def groundByte (byte : UInt8) : State × Bytes :=
  match Utf8.push [] byte with
  | .more => (.ground [byte], [])
  | .scalar character => groundCharacter character
  | .broken => (.start, strayByte byte)

/-- A byte in the text. A character that breaks off is replaced, and the byte read anew. -/
def groundStep (kept : Bytes) (byte : UInt8) : State × Bytes :=
  if kept.isEmpty then groundByte byte
  else
    match Utf8.push kept byte with
    | .more => (.ground (kept ++ [byte]), [])
    | .scalar character => groundCharacter character
    | .broken =>
        let next := groundByte byte
        (next.1, String.utf8EncodeChar Utf8.replacement ++ next.2)

def escapeStep (byte : UInt8) : State × Bytes :=
  if isPassing byte then (.escape, execute byte)
  else if isBetween 0x20 0x2F byte then (.escapeIntermediate, [])
  else if byte = 0x50 then (.device .entry, [])
  else if byte = 0x5B then (.control .entry, [])
  else if byte = 0x5D then (.systemCommand, [])
  else if byte = 0x58 || byte = 0x5E || byte = 0x5F then (.hiddenString, [])
  else if isBetween 0x30 0x7E byte || isAbort byte then (.start, [])
  else (.escape, [])

def escapeIntermediateStep (byte : UInt8) : State × Bytes :=
  if isPassing byte then (.escapeIntermediate, execute byte)
  else if isBetween 0x30 0x7E byte then (.start, [])
  else (anywhere .escapeIntermediate byte, [])

/-- The part that a parameter or intermediate byte leads to. Intermediates come after the
parameters, and the marks `<`, `=`, `>`, `?` only in front of them. -/
def Part.next (part : Part) (byte : UInt8) : Part :=
  match part with
  | .entry => if byte ≤ 0x2F then .intermediates else .parameters
  | .parameters =>
      if byte ≤ 0x2F then .intermediates
      else if byte ≤ 0x3B then .parameters
      else .refused
  | .intermediates => if byte ≤ 0x2F then .intermediates else .refused
  | .refused => .refused

def controlStep (part : Part) (byte : UInt8) : State × Bytes :=
  if isPassing byte then (.control part, execute byte)
  else if isBetween 0x20 0x3F byte then (.control (part.next byte), [])
  else if isBetween 0x40 0x7E byte then (.start, [])
  else (anywhere (.control part) byte, [])

def deviceStep (part : Part) (byte : UInt8) : State :=
  if part = .refused then anywhere (.device .refused) byte
  else if isBetween 0x20 0x3F byte then .device (part.next byte)
  else if isBetween 0x40 0x7E byte then .deviceBody
  else anywhere (.device part) byte

def step (state : State) (byte : UInt8) : State × Bytes :=
  match state with
  | .ground kept => groundStep kept byte
  | .escape => escapeStep byte
  | .escapeIntermediate => escapeIntermediateStep byte
  | .control part => controlStep part byte
  | .device part => (deviceStep part byte, [])
  | .deviceBody => (if byte = 0x9C then .start else anywhere .deviceBody byte, [])
  | .systemCommand => (if byte = 0x07 then .start else anywhere .systemCommand byte, [])
  | .hiddenString => (anywhere .hiddenString byte, [])

def run (state : State) : Bytes → State × Bytes
  | [] => (state, [])
  | byte :: rest =>
      let first := step state byte
      let others := run first.1 rest
      (others.1, first.2 ++ others.2)

theorem run_append (state : State) (first second : Bytes) :
    run state (first ++ second) =
      ((run (run state first).1 second).1,
        (run state first).2 ++ (run (run state first).1 second).2) := by
  induction first generalizing state with
  | nil => simp [run]
  | cons byte rest induction => simp [run, induction]

inductive Resumed where
  | waiting (kept : Bytes)
  /-- `printed` stands for it, and `used` bytes of it and of the chunk are done with. -/
  | finished (printed : Char) (used : Nat)
  deriving DecidableEq, Repr

def brokenLength (kept : Bytes) : Bytes → Nat
  | [] => kept.length
  | byte :: rest =>
      match Utf8.push kept byte with
      | .more => brokenLength (kept ++ [byte]) rest
      | _ => max 1 kept.length

/-- Read the character at the head of `joined`, at most four bytes that a cut character begins.
When all of `joined` is well formed only the character counts as read; when something broken or
unfinished follows, everything in front of that does. -/
def resume (joined : Bytes) : Resumed :=
  match Utf8.leading? [] joined with
  | some (character, width) =>
      let valid := Utf8.validLength [] joined
      .finished character (if valid = joined.length then width else valid)
  | none =>
      let broken := brokenLength [] joined
      if broken = joined.length then .waiting joined
      else .finished Utf8.replacement broken

def plainText (state : State) (chunk : Bytes) : State × Bytes :=
  match state with
  | .ground (first :: others) =>
      let kept := first :: others
      match resume (kept ++ chunk.take (4 - kept.length)) with
      | .waiting kept => (.ground kept, [])
      | .finished printed used =>
          let rest := run .start (chunk.drop (used - kept.length))
          (rest.1, String.utf8EncodeChar printed ++ rest.2)
  | state => run state chunk

def plainTexts (state : State) : List Bytes → State × List Bytes
  | [] => (state, [])
  | chunk :: rest =>
      let first := plainText state chunk
      let others := plainTexts first.1 rest
      (others.1, first.2 :: others.2)

end BootConsole.Terminal
