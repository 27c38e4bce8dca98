import BootConsole.Desk.Journal

/-!
# The operator's desk

Where a run takes place as the operator sees it: a clock, a terminal that may fail, and the journal.
-/

namespace BootConsole

/-- An operation on a state, which fails with a cause and leaves the state behind even then. -/
abbrev Action (σ α : Type) := EStateM Failure σ α

structure FaultSchedule where
  faults : List (Nat × Fault)
  calls : Nat
  deriving DecidableEq, Repr

namespace FaultSchedule

def none : FaultSchedule := ⟨[], 0⟩

def next? (schedule : FaultSchedule) : Option Fault :=
  schedule.faults.lookup schedule.calls

def advance (schedule : FaultSchedule) : FaultSchedule :=
  { schedule with calls := schedule.calls + 1 }

end FaultSchedule

/-- The operator's side of a run. Time is in whole milliseconds. -/
structure Desk where
  clock : Nat
  writes : FaultSchedule
  flushes : FaultSchedule
  journal : Journal
  deriving DecidableEq, Repr

namespace Desk

def start (writes flushes : FaultSchedule) : Desk := ⟨0, writes, flushes, []⟩

def record (event : Happening) (desk : Desk) : Desk :=
  { desk with journal := ⟨desk.clock, event⟩ :: desk.journal }

def pass (milliseconds : Nat) (desk : Desk) : Desk :=
  { desk with clock := desk.clock + milliseconds }

def note (level : Level) (text : String) (desk : Desk) : Desk :=
  desk.record (.noted level text)

def write (data : Bytes) : Action Desk Unit := fun desk =>
  let after := { desk with writes := desk.writes.advance }
  match desk.writes.next? with
  | some fault => .error (.output fault) (after.record (.showFailed fault))
  | none => .ok () (after.record (.shown data))

def flush : Action Desk Unit := fun desk =>
  let after := { desk with flushes := desk.flushes.advance }
  match desk.flushes.next? with
  | some fault => .error (.output fault) (after.record (.showFailed fault))
  | none => .ok () (after.record .flushed)

def display (data : Bytes) : Action Desk Unit := do
  write data
  flush

end Desk

end BootConsole
