import BootConsole.Proofs.Terminal.Resumption
import BootConsole.Proofs.Text.Encoding

/-!
# Plain text is left as it is

Text without controls, but for those that give it its shape, goes through the filter unchanged, and
nothing else does. So to filter what was filtered already changes nothing.
-/

namespace BootConsole.Terminal

variable {bytes : Bytes} {byte : UInt8} {character : Char}

/-- A character in the text is read to its last byte, and then taken as a whole. -/
theorem run_character (character : Char) :
    run .start (String.utf8EncodeChar character) = groundCharacter character := by
  rcases Utf8.spells_character character with ⟨middle, last, spelled, continues, scalar⟩
  rw [spelled, State.start, run_of_scalar continues scalar]
  simp [run]

theorem execute_of_layout (layout : isLayout byte = true) : execute byte = [byte] :=
  if_pos layout

theorem execute_of_other (other : isLayout byte = false) : execute byte = [] :=
  if_neg (by simp [other])

theorem isLayout_of_toNat {byte : UInt8} (code : byte.toNat ∈ [0x08, 0x09, 0x0A, 0x0D]) :
    isLayout byte = true := by
  have same (other : UInt8) : (byte == other) = true ↔ byte.toNat = other.toNat := by
    rw [beq_iff_eq, Utf8.eq_iff_toNat]
  simp only [isLayout, Bool.or_eq_true, same, UInt8.reduceToNat]
  simp only [List.mem_cons, List.not_mem_nil, or_false] at code
  omega

theorem groundCharacter_of_shown (shown : IsShown character) :
    groundCharacter character = (.start, String.utf8EncodeChar character) := by
  rcases shown with layout | ⟨least, other⟩
  · have narrow : character.toNat < 0x20 ∧ character.toNat ≠ 0x1B := by
      simp only [List.mem_cons, List.not_mem_nil, or_false] at layout
      omega
    have kept : isLayout (UInt8.ofNat character.toNat) = true :=
      isLayout_of_toNat (by rwa [Utf8.toNat_ofNat (by omega)])
    rw [Utf8.encoded_of_narrow (by omega), ← execute_of_layout kept]
    simp [groundCharacter, narrow]
  · have escape : character.toNat ≠ 0x1B := by omega
    have visible : ¬(character.toNat < 0x20 || (0x80 ≤ character.toNat && character.toNat ≤ 0x9F)) =
        true := by
      simp only [Bool.or_eq_true, Bool.and_eq_true, decide_eq_true_eq]
      omega
    rw [groundCharacter, if_neg escape, if_neg visible]

theorem run_of_shown (shown : IsShown character) :
    run .start (String.utf8EncodeChar character) = (.start, String.utf8EncodeChar character) := by
  rw [run_character, groundCharacter_of_shown shown]

theorem run_of_plain (plain : IsPlain bytes) : run .start bytes = (.start, bytes) := by
  rcases plain with ⟨characters, shown, rfl⟩
  induction characters with
  | nil => rfl
  | cons character rest induction =>
      rcases List.forall_mem_cons.mp shown with ⟨first, others⟩
      rw [List.flatMap_cons, run_append, run_of_shown first, induction others]

/-- What the filter makes of bytes it leaves alone from then on, and of the bytes that it leaves
alone all are characters with a place in plain text. -/
theorem plainText_normalises (bytes : Bytes) :
    let filtered (bytes : Bytes) := (plainText .start bytes).2
    filtered (filtered bytes) = filtered bytes ∧ (filtered bytes = bytes ↔ IsPlain bytes) := by
  intro filtered
  have filters (bytes : Bytes) : filtered bytes = (run .start bytes).2 := rfl
  have left {bytes : Bytes} (plain : IsPlain bytes) : filtered bytes = bytes := by
    rw [filters, run_of_plain plain]
  have image (bytes : Bytes) : IsPlain (filtered bytes) := isPlain_run .start bytes
  refine ⟨left (image bytes), fun same => ?_, left⟩
  rw [← same]
  exact image bytes

end BootConsole.Terminal
