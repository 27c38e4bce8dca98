import BootConsole.Pattern.Footprint

/-!
# Programs

An expression laid out as numbered instructions. The code of an expression stands in one piece and
is entered at its first instruction; whatever it matches, it goes on at the instruction `next`.
-/

namespace BootConsole.Pattern

inductive Instruction where
  | byte (value : UInt8) (next : Nat)
  | byteIn (set : CharSet) (next : Nat)
  | characterIn (set : CharSet) (next : Nat)
  | assertion (condition : Assertion) (next : Nat)
  /-- Go on in two places, preferably in the first. -/
  | fork (preferred other : Nat)
  | jump (next : Nat)
  | accept
  deriving DecidableEq, Repr

abbrev Program := Array Instruction

namespace Instruction

def enterOrLeave (greedy : Bool) (body exit : Nat) : Instruction :=
  if greedy then .fork body exit else .fork exit body

end Instruction

namespace Program

/-- The code of a body that takes `size` instructions, by where it stands and where it goes on. -/
abbrev Layout := Nat → Nat → List Instruction

def copies (size : Nat) (body : Layout) (tail : Nat → List Instruction) :
    Nat → Nat → List Instruction
  | 0, position => tail position
  | count + 1, position =>
      body position (position + size) ++ copies size body tail count (position + size)

def upTo (size : Nat) (body : Layout) (greedy : Bool) (next : Nat) :
    Nat → Nat → List Instruction
  | 0, _ => [.jump next]
  | count + 1, position =>
      .enterOrLeave greedy (position + 1) next ::
        (body (position + 1) (position + 1 + size) ++
          upTo size body greedy next count (position + 1 + size))

def oneOrMore (size : Nat) (body : Layout) (greedy : Bool) (next position : Nat) :
    List Instruction :=
  body position (position + size) ++ [.enterOrLeave greedy position next]

/-- Any number of copies of the body: a way around the loop in front of it, so that a body that
may take nothing is still preferred as written. -/
def zeroOrMore (size : Nat) (body : Layout) (greedy : Bool) (next position : Nat) :
    List Instruction :=
  .enterOrLeave greedy (position + 1) next :: oneOrMore size body greedy next (position + 1)

def spell : Bytes → Layout
  | [], _, next => [.jump next]
  | [value], _, next => [.byte value next]
  | value :: rest, position, next =>
      .byte value (position + 1) :: spell rest (position + 1) next

end Program

namespace Expr

open Program

def size : Expr → Nat
  | .empty | .byteIn _ | .characterIn _ | .assertion _ => 1
  | .literal bytes => max 1 bytes.length
  | .group _ body => size body
  | .sequence first second => size first + size second
  | .choice first second => 1 + size first + size second
  | .repeated body 0 none _ => size body + 2
  | .repeated body (least + 1) none _ => least * size body + (size body + 1)
  | .repeated body least (some most) _ =>
      least * size body + ((most - least) * (size body + 1) + 1)

def emit : Expr → Nat → Nat → List Instruction
  | .empty, _, next => [.jump next]
  | .literal bytes, position, next => spell bytes position next
  | .byteIn set, _, next => [.byteIn set next]
  | .characterIn set, _, next => [.characterIn set next]
  | .assertion condition, _, next => [.assertion condition next]
  | .group _ body, position, next => emit body position next
  | .sequence first second, position, next =>
      emit first position (position + size first) ++ emit second (position + size first) next
  | .choice first second, position, next =>
      .fork (position + 1) (position + 1 + size first) ::
        (emit first (position + 1) next ++ emit second (position + 1 + size first) next)
  | .repeated body 0 none greedy, position, next =>
      zeroOrMore (size body) (emit body) greedy next position
  | .repeated body (least + 1) none greedy, position, next =>
      copies (size body) (emit body) (oneOrMore (size body) (emit body) greedy next) least position
  | .repeated body least (some most) greedy, position, next =>
      copies (size body) (emit body)
        (upTo (size body) (emit body) greedy next (most - least)) least position

end Expr

namespace Program

theorem length_spell (bytes : Bytes) (position next : Nat) :
    (spell bytes position next).length = max 1 bytes.length := by
  fun_induction spell bytes position next with
  | case1 | case2 => simp
  | case3 value rest position next nonempty induction =>
      have := List.length_pos_iff.2 nonempty
      simp only [List.length_cons, induction]
      omega

def ofExpr (expr : Expr) : Program :=
  (expr.emit 0 expr.size ++ [Instruction.accept]).toArray

/-- The program of an expression, unless it holds a condition that cannot be decided or takes too
much memory. -/
def ofExpr? (expr : Expr) : Option Program :=
  if expr.isAvailable && Footprint.fits expr then some (ofExpr expr) else none

end Program

end BootConsole.Pattern
