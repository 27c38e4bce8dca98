/-!
# The pace of writes

A stream need not take at once all that is written to it. It may take a part and then, for a while,
nothing; meanwhile the write waits, and may be given up or fail. What a stream has taken stays
taken.
-/

namespace BootConsole

/-- The stream takes so many bytes more, but not the last one, and then none for a while. -/
structure Stall where
  size : Nat
  milliseconds : Nat
  deriving DecidableEq, Repr

/-- How the stream paces the writes to it: the stalls in each, by its number. What they leave of a
write is taken in one go, unless the write fails. It stands beside everything that writes, as a
class, because no operation changes it. -/
class Pace where
  stalls : Nat → List Stall

/-- The stream takes everything at once. This is meant where no other pace is given. -/
instance (priority := low) Pace.prompt : Pace := ⟨fun _ => []⟩

def Pace.Stalls [Pace] : Prop :=
  ∃ number, Pace.stalls number ≠ []

theorem Pace.not_stalls_prompt : ¬Pace.Stalls :=
  fun stalls => stalls.elim fun _ stalls => stalls rfl

structure Passage where
  taken : Nat
  time : Nat
  givenUp : Bool
  deriving DecidableEq, Repr

/-- A write of `size` bytes that is given up at the time `limit`, if at any, with the bytes already
taken and the time now. As in a read, what comes at the very end of the limit is not missed. -/
def Stall.pass (limit : Option Nat) (size : Nat) : Nat → Nat → List Stall → Passage
  | taken, now, [] => ⟨taken, now, false⟩
  | taken, now, stall :: stalls =>
      let taken := min (taken + stall.size) (size - 1)
      let time := now + stall.milliseconds
      let latest := max now (limit.getD time)
      if time ≤ latest then pass limit size taken time stalls
      else ⟨taken, latest, true⟩

namespace Stall

variable (limit : Option Nat) (size taken now : Nat) (stalls : List Stall)

@[simp] theorem pass_nil : pass limit size taken now [] = ⟨taken, now, false⟩ := rfl

theorem le_time_pass : now ≤ (pass limit size taken now stalls).time := by
  fun_induction pass limit size taken now stalls with
  | case1 => exact Nat.le_refl _
  | case2 taken now stall stalls further time latest early induction =>
      exact Nat.le_trans (Nat.le_add_right now stall.milliseconds) induction
  | case3 taken now stall stalls further time latest late => exact Nat.le_max_left _ _

/-- Without a limit nothing is given up. -/
@[simp] theorem givenUp_pass_none : (pass none size taken now stalls).givenUp = false := by
  induction stalls generalizing taken now with
  | nil => rfl
  | cons stall stalls induction => simp [pass, induction]

end Stall

end BootConsole
