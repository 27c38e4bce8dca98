import BootConsole.Bytes

/-!
# UTF-8, one byte at a time

`push` says what one more byte makes of a character that has begun: it is still unfinished, it is
complete, or the byte cannot continue it. The reader of arbitrary bytes (`lossy`), the measure of a
well-formed beginning (`validLength`) and the terminal filter are all written over `push`, so they
agree on where a broken sequence ends: before the first byte that cannot continue it.
-/

namespace BootConsole.Utf8

inductive Push where
  | more
  | scalar (character : Char)
  /-- The byte cannot continue the character, or cannot begin one. -/
  | broken
  deriving DecidableEq, Repr

def isContinuation (byte : UInt8) : Bool :=
  0x80 ≤ byte && byte ≤ 0xBF

/-- The second byte is narrower than a continuation where a wider one would write a character in
too many bytes, a surrogate, or a number above the last character. -/
def isSecond (lead byte : UInt8) : Bool :=
  (if lead = 0xE0 then 0xA0 else if lead = 0xF0 then 0x90 else 0x80) ≤ byte &&
    byte ≤ (if lead = 0xED then 0x9F else if lead = 0xF4 then 0x8F else 0xBF)

def payload (byte : UInt8) : Nat :=
  byte.toNat % 64

def push (kept : Bytes) (byte : UInt8) : Push :=
  match kept with
  | [] =>
      if byte < 0x80 then .scalar (Char.ofNat byte.toNat)
      else if 0xC2 ≤ byte && byte ≤ 0xF4 then .more
      else .broken
  | [lead] =>
      if !isSecond lead byte then .broken
      else if lead < 0xE0 then .scalar (Char.ofNat (lead.toNat % 32 * 64 + payload byte))
      else .more
  | [lead, second] =>
      if !isContinuation byte then .broken
      else if lead < 0xF0 then
        .scalar (Char.ofNat (lead.toNat % 16 * 4096 + payload second * 64 + payload byte))
      else .more
  | [lead, second, third] =>
      if !isContinuation byte then .broken
      else
        .scalar (Char.ofNat
          (lead.toNat % 8 * 262144 + payload second * 4096 + payload third * 64 + payload byte))
  | _ => .broken

def replacement : Char := '\uFFFD'

def charactersAfter (kept : Bytes) : Bytes → List Char
  | [] => if kept.isEmpty then [] else [replacement]
  | byte :: rest =>
      match push kept byte with
      | .more => charactersAfter (kept ++ [byte]) rest
      | .scalar character => character :: charactersAfter [] rest
      | .broken =>
          if kept.isEmpty then replacement :: charactersAfter [] rest
          else
            match push [] byte with
            | .more => replacement :: charactersAfter [byte] rest
            | .scalar character => replacement :: character :: charactersAfter [] rest
            | .broken => replacement :: replacement :: charactersAfter [] rest

/-- The characters of arbitrary bytes: each longest beginning of a character that does not become
one is read as one replacement character, and so is each byte that begins none. -/
def characters (bytes : Bytes) : List Char :=
  charactersAfter [] bytes

def lossy (bytes : Bytes) : String :=
  String.ofList (characters bytes)

def encode (text : String) : Bytes :=
  text.toList.flatMap String.utf8EncodeChar

/-- The character at the head of the input, after the unfinished character `kept`, and its number
of bytes. -/
def leading? (kept : Bytes) : Bytes → Option (Char × Nat)
  | [] => none
  | byte :: rest =>
      match push kept byte with
      | .more => leading? (kept ++ [byte]) rest
      | .scalar character => some (character, kept.length + 1)
      | .broken => none

def validLength (kept : Bytes) : Bytes → Nat
  | [] => 0
  | byte :: rest =>
      match push kept byte with
      | .more => validLength (kept ++ [byte]) rest
      | .scalar _ => kept.length + 1 + validLength [] rest
      | .broken => 0

end BootConsole.Utf8
