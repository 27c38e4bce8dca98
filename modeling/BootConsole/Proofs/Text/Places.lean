import BootConsole.Bytes
import Mathlib.Data.List.DropRight
import Mathlib.Data.List.Infix

/-!
# Places in a text

Where a word stands in a text, and where the lines of the text start.
-/

namespace BootConsole

def StandsAt (word text : Bytes) (place : Nat) : Prop :=
  word <+: text.drop place

instance (word text : Bytes) (place : Nat) : Decidable (StandsAt word text place) :=
  inferInstanceAs (Decidable (word <+: text.drop place))

def AtLineStart (text : Bytes) (place : Nat) : Prop :=
  place = 0 ∨ text[place - 1]? = some lineFeed

instance (text : Bytes) (place : Nat) : Decidable (AtLineStart text place) :=
  inferInstanceAs (Decidable (_ ∨ _))

def StartsLine (word text : Bytes) (place : Nat) : Prop :=
  StandsAt word text place ∧ AtLineStart text place

theorem StandsAt.bound {word text : Bytes} {place : Nat} (nonempty : word ≠ [])
    (stands : StandsAt word text place) : place + word.length ≤ text.length := by
  have shorter := stands.length_le
  have some := List.length_pos_iff.mpr nonempty
  rw [List.length_drop] at shorter
  omega

theorem StandsAt.getElem?_add {word text : Bytes} {place index : Nat}
    (stands : StandsAt word text place) (inside : index < word.length) :
    text[place + index]? = some word[index] := by
  rw [← List.getElem?_drop]
  exact List.prefix_iff_getElem?.mp stands index inside

variable {word text : Bytes} {place edge : Nat}

theorem standsAt_drop :
    StandsAt word (text.drop edge) place ↔ StandsAt word text (edge + place) := by
  rw [StandsAt, StandsAt, List.drop_drop]

theorem standsAt_append_iff (nonempty : word ≠ []) (more : Bytes) :
    StandsAt word text place ↔
      StandsAt word (text ++ more) place ∧ place + word.length ≤ text.length := by
  constructor
  · intro stands
    have bound := stands.bound nonempty
    refine ⟨?_, bound⟩
    rw [StandsAt, List.drop_append_of_le_length (by omega)]
    exact stands.trans (List.prefix_append _ more)
  · intro bounded
    rcases bounded with ⟨stands, bound⟩
    rw [StandsAt, List.drop_append_of_le_length (by omega)] at stands
    exact List.prefix_of_prefix_length_le stands (List.prefix_append _ more)
      (by rw [List.length_drop]; omega)

theorem infix_iff_standsAt : word <:+: text ↔ ∃ place, StandsAt word text place := by
  constructor
  · intro inside
    rcases inside with ⟨before, after, rfl⟩
    exact ⟨before.length, by simp [StandsAt]⟩
  · intro somewhere
    rcases somewhere with ⟨place, stands⟩
    exact stands.isInfix.trans (List.drop_suffix place text).isInfix

/-- The word stands in the end of the text that is this long. -/
theorem infix_rtake_iff {depth : Nat} :
    word <:+: text.rtake depth ↔
      ∃ place, StandsAt word text place ∧ text.length ≤ place + depth := by
  rw [infix_iff_standsAt, List.rtake]
  constructor
  · intro somewhere
    rcases somewhere with ⟨place, stands⟩
    exact ⟨_, standsAt_drop.mp stands, by omega⟩
  · intro somewhere
    rcases somewhere with ⟨place, stands, near⟩
    refine ⟨place - (text.length - depth), standsAt_drop.mpr ?_⟩
    rwa [Nat.add_sub_cancel' (by omega)]

/-- Behind its first place, a part of a text has its line starts in common with the whole. -/
theorem atLineStart_drop (inside : 0 < place) :
    AtLineStart (text.drop edge) place ↔ AtLineStart text (edge + place) := by
  rw [AtLineStart, AtLineStart, List.getElem?_drop, Nat.add_sub_assoc inside]
  have first : place ≠ 0 := by omega
  have also : edge + place ≠ 0 := by omega
  rw [or_iff_right first, or_iff_right also]

end BootConsole
