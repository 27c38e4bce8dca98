/-!
# Byte strings

Everything that travels between the console, the session and the operator is a list of bytes. The
one search that the library needs on lists, contiguous occurrence, stands here with its meaning.
-/

namespace BootConsole

abbrev Bytes := List UInt8

def carriageReturn : UInt8 := 0x0D

def lineFeed : UInt8 := 0x0A

/-- Whether `part` stands in `whole` without a gap. The empty list stands everywhere. -/
def occursIn {α : Type} [BEq α] (part : List α) : List α → Bool
  | [] => part.isEmpty
  | first :: rest => part.isPrefixOf (first :: rest) || occursIn part rest

theorem occursIn_iff {α : Type} [BEq α] [LawfulBEq α] (part whole : List α) :
    occursIn part whole = true ↔ part <:+: whole := by
  induction whole with
  | nil => simp [occursIn]
  | cons first rest induction =>
      simp only [occursIn, Bool.or_eq_true, List.isPrefixOf_iff_prefix, induction]
      exact List.infix_cons_iff.symm

/-- The lines of `bytes` that a line feed ends, without it, and what follows the last one. -/
def splitLines : Bytes → List Bytes × Bytes
  | [] => ([], [])
  | byte :: rest =>
      if byte = lineFeed then
        ([] :: (splitLines rest).1, (splitLines rest).2)
      else
        match splitLines rest with
        | ([], tail) => ([], byte :: tail)
        | (line :: lines, tail) => ((byte :: line) :: lines, tail)

end BootConsole
