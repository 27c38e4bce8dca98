import BootConsole.Pattern.Basic
import BootConsole.Proofs.Output.History

/-!
# A window by its operations

Whatever is done to a window, in whatever order, it answers as its whole past would: everything that
came since it was emptied, and how much of that the last mark hides. The past forgets nothing and
trims nothing; only what it answers is cut to the depth.
-/

namespace BootConsole

namespace Window

inductive Operation where
  | append (data : Bytes)
  | hide
  | search (pattern : Pattern)
  /-- Take the bytes out. -/
  | empty
  deriving DecidableEq, Repr

inductive Answer where
  | nothing
  /-- Where in the searched part the pattern matches. -/
  | found (span : Option Pattern.Span)
  | taken (bytes : Bytes)
  deriving DecidableEq, Repr

def perform (window : Window) : Operation → Window × Answer
  | .append data => (window.append data, .nothing)
  | .hide => (window.hide, .nothing)
  | .search pattern => (window, .found (pattern.find? window.searched))
  | .empty => (window.cleared, .taken window.bytes)

def performAll (window : Window) : List Operation → Window × List Answer
  | [] => (window, [])
  | operation :: rest =>
      let first := window.perform operation
      let others := first.1.performAll rest
      (others.1, first.2 :: others.2)

end Window

/-- All that came since a window was last emptied, of which a mark hides the first `hidden`. -/
structure Past where
  bytes : Bytes
  hidden : Nat
  deriving DecidableEq, Repr

namespace Past

open Window (Operation Answer)

def fresh : Past := ⟨[], 0⟩

def kept (past : Past) (depth : Nat) : Bytes :=
  past.bytes.rtake (min depth past.bytes.length)

def searched (past : Past) (depth : Nat) : Bytes :=
  past.bytes.rtake (min depth (past.bytes.length - past.hidden))

def perform (past : Past) (depth : Nat) : Operation → Past × Answer
  | .append data => (⟨past.bytes ++ data, past.hidden⟩, .nothing)
  | .hide => (⟨past.bytes, past.bytes.length⟩, .nothing)
  | .search pattern => (past, .found (pattern.find? (past.searched depth)))
  | .empty => (fresh, .taken (past.kept depth))

def performAll (past : Past) (depth : Nat) : List Operation → Past × List Answer
  | [] => (past, [])
  | operation :: rest =>
      let first := past.perform depth operation
      let others := first.1.performAll depth rest
      (others.1, first.2 :: others.2)

def recent (past : Past) : Bytes :=
  past.bytes.drop past.hidden

structure Behind (past : Past) (depth : Nat) (window : Window) : Prop where
  depth : window.depth = depth
  hidden : past.hidden ≤ past.bytes.length
  keeps : window.Keeps past.bytes past.recent

namespace Behind

variable {past : Past} {depth : Nat} {window : Window}

theorem bytes (behind : past.Behind depth window) : window.bytes = past.kept depth := by
  rw [behind.keeps.bytes, behind.depth, kept, List.rtake, List.rtake]
  congr 1
  omega

theorem searched (behind : past.Behind depth window) :
    window.searched = past.searched depth := by
  have whole : past.bytes.take past.hidden ++ past.recent = past.bytes :=
    List.take_append_drop past.hidden past.bytes
  have length : past.recent.length = past.bytes.length - past.hidden := List.length_drop
  rw [behind.keeps.searched, behind.depth,
    Window.rtake_eq_drop (past.bytes.take past.hidden) past.recent, whole, length]
  rfl

theorem fresh (depth : Nat) : Past.fresh.Behind depth (.ofDepth depth) :=
  ⟨rfl, Nat.le_refl 0, .ofDepth depth⟩

/-- The window and its past give the same answer, and go on together. -/
theorem perform (behind : past.Behind depth window) (operation : Operation) :
    (window.perform operation).2 = (past.perform depth operation).2 ∧
      (past.perform depth operation).1.Behind depth (window.perform operation).1 := by
  cases operation with
  | append data =>
      have recent : (⟨past.bytes ++ data, past.hidden⟩ : Past).recent = past.recent ++ data :=
        List.drop_append_of_le_length behind.hidden
      refine ⟨rfl, behind.depth, ?_, ?_⟩
      · exact behind.hidden.trans (List.prefix_append past.bytes data).length_le
      · exact recent ▸ behind.keeps.append data
  | hide =>
      have recent : (⟨past.bytes, past.bytes.length⟩ : Past).recent = [] := List.drop_length
      exact ⟨rfl, behind.depth, Nat.le_refl _, recent ▸ behind.keeps.hide⟩
  | search pattern =>
      refine ⟨?_, behind⟩
      simp only [Window.perform, Past.perform, behind.searched]
  | empty =>
      have cleared : window.cleared = .ofDepth depth := congrArg Window.ofDepth behind.depth
      refine ⟨?_, ?_⟩
      · simp only [Window.perform, Past.perform, behind.bytes]
      · simp only [Window.perform, Past.perform, cleared]
        exact fresh depth

theorem performAll (behind : past.Behind depth window) (operations : List Operation) :
    (window.performAll operations).2 = (past.performAll depth operations).2 ∧
      (past.performAll depth operations).1.Behind depth (window.performAll operations).1 := by
  induction operations generalizing past window with
  | nil => exact ⟨rfl, behind⟩
  | cons operation rest induction =>
      rcases behind.perform operation with ⟨same, onward⟩
      rcases induction onward with ⟨others, ends⟩
      exact ⟨congrArg₂ List.cons same others, ends⟩

end Behind

end Past

namespace Window

/-- From a new window on, every answer is the one that the past gives; the window is the end of the
past and the search sees the end of what no mark hides; the floor stays inside and the length below
the depth; and emptied, the window is as new. -/
theorem performAll_answers_past (depth : Nat) (operations : List Operation) :
    let window := ((ofDepth depth).performAll operations).1
    let past := (Past.fresh.performAll depth operations).1
    ((ofDepth depth).performAll operations).2 = (Past.fresh.performAll depth operations).2 ∧
      window.bytes = past.bytes.rtake (min depth past.bytes.length) ∧
      window.searched = past.bytes.rtake (min depth (past.bytes.length - past.hidden)) ∧
      window.floor ≤ window.bytes.length ∧
      window.bytes.length ≤ depth ∧
      window.perform .empty = (ofDepth depth, .taken window.bytes) := by
  intro window past
  rcases (Past.Behind.fresh depth).performAll operations with ⟨answers, behind⟩
  have floor : window.floor ≤ window.bytes.length :=
    behind.keeps.floor ▸ Nat.le_add_right _ _
  have length : window.bytes.length ≤ depth := by
    rw [behind.keeps.length_bytes, behind.depth]
    exact Nat.min_le_left _ _
  have cleared : window.cleared = ofDepth depth := congrArg ofDepth behind.depth
  exact ⟨answers, behind.bytes, behind.searched, floor, length,
    congrArg (·, Answer.taken window.bytes) cleared⟩

end Window

end BootConsole
