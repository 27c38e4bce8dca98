import BootConsole.Text.Utf8
import BootConsole.Pattern.Program

/-!
# Searching

The search walks over the text once and keeps every way in which a match may still come about, the
preferred one first. The leftmost match wins, and of several that begin there the preferred one: a
new way starts at every place until one has come to its end, and when one does, the ways behind it
are given up. No instruction is entered twice at one place, so the time is bounded by the product of
the sizes of program and text.
-/

namespace BootConsole.Pattern

structure Place where
  before : Option UInt8
  after : Bytes
  deriving DecidableEq, Repr

def isWordByte (byte : UInt8) : Bool :=
  CharSet.word.contains byte.toNat

namespace Place

def wordBefore (place : Place) : Bool :=
  place.before.any isWordByte

def wordAfter (place : Place) : Bool :=
  place.after.head?.any isWordByte

def holds (place : Place) : Assertion → Bool
  | .textStart => place.before.isNone
  | .textEnd => place.after.isEmpty
  | .lineStart => place.before.all (· == lineFeed)
  | .lineEnd => place.after.head?.all (· == lineFeed)
  | .anyLineStart =>
      place.before.all fun byte =>
        byte == lineFeed || (byte == carriageReturn && place.after.head? != some lineFeed)
  | .anyLineEnd =>
      place.after.head?.all fun byte =>
        byte == carriageReturn || (byte == lineFeed && place.before != some carriageReturn)
  | .wordBoundary => place.wordBefore != place.wordAfter
  | .notWordBoundary => place.wordBefore == place.wordAfter
  | .wordStart => !place.wordBefore && place.wordAfter
  | .wordEnd => place.wordBefore && !place.wordAfter
  | .notAfterWord => !place.wordBefore
  | .notBeforeWord => !place.wordAfter
  | .unavailable => false

end Place

structure Span where
  start : Nat
  stop : Nat
  deriving DecidableEq, Repr

def Span.slice (span : Span) (bytes : Bytes) : Bytes :=
  (bytes.drop span.start).take (span.stop - span.start)

/-- A way in which a match may come about: it began at `start`, and goes on at an instruction as
soon as `pending` more bytes of a character have gone by. -/
structure Thread where
  instruction : Nat
  pending : Nat
  start : Nat
  deriving DecidableEq, Repr

namespace Program

structure Frontier where
  /-- The threads that take the next byte, the preferred one first. -/
  threads : List Thread
  /-- Where the match began that ends here. -/
  accepted : Option Nat
  deriving DecidableEq, Repr

/-- Entering an instruction leaves fewer to be entered. -/
theorem count_set_lt (seen : Array Bool) (index : Nat) (known : index < seen.size)
    (fresh : seen[index] = false) :
    (seen.set index true).count false < seen.count false := by
  have present : 0 < seen.count false :=
    Array.count_pos_iff.2 (fresh ▸ Array.getElem_mem known)
  rw [Array.count_set, fresh]
  change seen.count false - 1 + 0 < seen.count false
  omega

/-- Follow threads, in order, up to the instructions that take a byte. `seen` tells which
instructions have been entered at this place, and `ready` holds the threads that have come to their
next byte, the latest first. -/
def follow (program : Program) (place : Place) (seen : Array Bool) (ready : List Thread) :
    List Thread → Frontier
  | [] => ⟨ready.reverse, none⟩
  | thread :: others =>
      if thread.pending ≠ 0 then follow program place seen (thread :: ready) others
      else if known : thread.instruction < seen.size then
        if fresh : seen[thread.instruction] = false then
          let entered := seen.set thread.instruction true
          match program[thread.instruction]? with
          | none => follow program place entered ready others
          | some .accept => ⟨ready.reverse, some thread.start⟩
          | some (.jump next) =>
              follow program place entered ready ({ thread with instruction := next } :: others)
          | some (.fork preferred other) =>
              follow program place entered ready
                ({ thread with instruction := preferred } ::
                  { thread with instruction := other } :: others)
          | some (.assertion condition next) =>
              if place.holds condition then
                follow program place entered ready ({ thread with instruction := next } :: others)
              else follow program place entered ready others
          | some _ => follow program place entered (thread :: ready) others
        else follow program place seen ready others
      else follow program place seen ready others
termination_by threads => 2 * seen.count false + threads.length
decreasing_by
  all_goals
    simp only [List.length_cons]
    first
      | omega
      | (have fewer := count_set_lt seen _ known fresh
         omega)

def take? (program : Program) (byte : UInt8) (rest : Bytes) (thread : Thread) : Option Thread :=
  if thread.pending ≠ 0 then some { thread with pending := thread.pending - 1 }
  else
    match program[thread.instruction]? with
    | some (.byte value next) =>
        if byte = value then some { thread with instruction := next } else none
    | some (.byteIn set next) =>
        if set.contains byte.toNat then some { thread with instruction := next } else none
    | some (.characterIn set next) =>
        match Utf8.leading? [] (byte :: rest) with
        | some (character, width) =>
            if set.contains character.toNat then some ⟨next, width - 1, thread.start⟩ else none
        | none => none
    | _ => none

/-- Search on from a place, where `position` bytes have gone by, `threads` are under way, and
`found` is the best match so far. -/
def searchFrom (program : Program) (before : Option UInt8) (position : Nat)
    (threads : List Thread) (found : Option Span) (text : Bytes) : Option Span :=
  let threads := if found.isNone then threads ++ [⟨0, 0, position⟩] else threads
  let frontier :=
    follow program ⟨before, text⟩ (Array.replicate program.size false) [] threads
  let found :=
    match frontier.accepted with
    | some start => some ⟨start, position⟩
    | none => found
  match text with
  | [] => found
  | byte :: rest =>
      let threads := frontier.threads.filterMap (program.take? byte rest)
      if threads.isEmpty && found.isSome then found
      else searchFrom program (some byte) (position + 1) threads found rest

def search (program : Program) (text : Bytes) : Option Span :=
  searchFrom program none 0 [] none text

end Program

end BootConsole.Pattern
