import BootConsole.Terminal.Filter

/-!
# Plain text

What the filter lets through when it goes byte by byte is text without controls: whole characters,
and of the controls only those that give the text its shape. Within a sequence no character is shown
at all.
-/

namespace BootConsole.Terminal

/-! ## Within a sequence -/

def State.InSequence (state : State) : Prop :=
  ∀ kept, state ≠ .ground kept

theorem State.ground_or_inSequence (state : State) :
    (∃ kept, state = .ground kept) ∨ state.InSequence := by
  cases state with
  | ground kept => exact .inl ⟨kept, rfl⟩
  | _ => exact .inr nofun

theorem anywhere_of_sequence (state : State) (sequence : state.InSequence) (byte : UInt8) :
    anywhere state byte = .start ∨ (anywhere state byte).InSequence := by
  rw [anywhere]
  split
  · exact .inl rfl
  · split
    · exact .inr nofun
    · exact .inr sequence

/-- A byte leads on in the sequence or to the text behind it, and at most it is a control that is
carried out. -/
theorem step_of_sequence {state : State} (sequence : state.InSequence) (byte : UInt8) :
    ((step state byte).1 = .start ∨ (step state byte).1.InSequence) ∧
      ((step state byte).2 = [] ∨ (step state byte).2 = execute byte) := by
  have onward := anywhere_of_sequence state sequence byte
  simp only [State.InSequence] at onward ⊢
  cases state with
  | ground kept => exact absurd rfl (sequence kept)
  | escape =>
      simp only [step, escapeStep]
      repeat' split
      all_goals simp
  | escapeIntermediate =>
      simp only [step, escapeIntermediateStep]
      repeat' split
      all_goals simp [onward]
  | control part =>
      simp only [step, controlStep]
      repeat' split
      all_goals simp [onward]
  | device part =>
      refine ⟨?_, .inl rfl⟩
      simp only [step, deviceStep]
      split
      · next refused => exact refused ▸ onward
      · repeat' split
        all_goals simp [onward]
  | deviceBody | systemCommand =>
      refine ⟨?_, .inl rfl⟩
      simp only [step]
      split
      · exact .inl rfl
      · exact onward
  | hiddenString => exact ⟨onward, .inl rfl⟩

/-! ## Shown characters -/

def IsShown (character : Char) : Prop :=
  character.toNat ∈ [0x08, 0x09, 0x0A, 0x0D] ∨
    0x20 ≤ character.toNat ∧ ¬(0x80 ≤ character.toNat ∧ character.toNat ≤ 0x9F)

def IsPlain (bytes : Bytes) : Prop :=
  ∃ characters : List Char, (∀ character ∈ characters, IsShown character) ∧
    bytes = characters.flatMap String.utf8EncodeChar

theorem isPlain_nil : IsPlain [] :=
  ⟨[], by simp, rfl⟩

theorem IsPlain.append {first second : Bytes} (before : IsPlain first) (behind : IsPlain second) :
    IsPlain (first ++ second) := by
  rcases before with ⟨earlier, shownEarlier, rfl⟩
  rcases behind with ⟨later, shownLater, rfl⟩
  refine ⟨earlier ++ later, ?_, List.flatMap_append.symm⟩
  intro character member
  rcases List.mem_append.mp member with member | member
  · exact shownEarlier character member
  · exact shownLater character member

theorem isPlain_character {character : Char} (shown : IsShown character) :
    IsPlain (String.utf8EncodeChar character) :=
  ⟨[character], by simpa using shown, by simp⟩

theorem isPlain_replacement : IsPlain (String.utf8EncodeChar Utf8.replacement) :=
  isPlain_character (.inr (by decide))

theorem isPlain_execute (byte : UInt8) : IsPlain (execute byte) := by
  rw [execute]
  split
  · next layout =>
      simp only [isLayout, Bool.or_eq_true, beq_iff_eq] at layout
      rcases layout with ((rfl | rfl) | rfl) | rfl
      · exact ⟨['\n'], by simp [IsShown], by decide⟩
      · exact ⟨['\r'], by simp [IsShown], by decide⟩
      · exact ⟨['\t'], by simp [IsShown], by decide⟩
      · exact ⟨['\x08'], by simp [IsShown], by decide⟩
  · exact isPlain_nil

/-! ## What a step lets through -/

theorem isPlain_groundCharacter (character : Char) : IsPlain (groundCharacter character).2 := by
  simp only [groundCharacter]
  split
  · exact isPlain_nil
  · split
    · exact isPlain_execute _
    · next visible =>
        simp only [Bool.or_eq_true, Bool.and_eq_true, decide_eq_true_eq] at visible
        exact isPlain_character (.inr (by omega))

theorem isPlain_strayByte (byte : UInt8) : IsPlain (strayByte byte) := by
  rw [strayByte]
  split
  · exact isPlain_execute byte
  · exact isPlain_replacement

theorem isPlain_groundByte (byte : UInt8) : IsPlain (groundByte byte).2 := by
  rw [groundByte]
  split
  · exact isPlain_nil
  · exact isPlain_groundCharacter _
  · exact isPlain_strayByte byte

theorem isPlain_groundStep (kept : Bytes) (byte : UInt8) : IsPlain (groundStep kept byte).2 := by
  rw [groundStep]
  split
  · exact isPlain_groundByte byte
  · split
    · exact isPlain_nil
    · exact isPlain_groundCharacter _
    · exact isPlain_replacement.append (isPlain_groundByte byte)

theorem isPlain_step (state : State) (byte : UInt8) : IsPlain (step state byte).2 := by
  rcases state.ground_or_inSequence with ⟨kept, rfl⟩ | sequence
  · exact isPlain_groundStep kept byte
  · rcases (step_of_sequence sequence byte).2 with silent | carried
    · exact silent ▸ isPlain_nil
    · exact carried ▸ isPlain_execute byte

theorem isPlain_run (state : State) (bytes : Bytes) : IsPlain (run state bytes).2 := by
  induction bytes generalizing state with
  | nil => exact isPlain_nil
  | cons byte rest induction => exact (isPlain_step state byte).append (induction _)

/-! ## What plain text begins with -/

/-- No spelling of a character is the beginning of another. -/
theorem eq_of_encoded_front {first second : Char} {rest : Bytes}
    (begins : String.utf8EncodeChar first <+: String.utf8EncodeChar second ++ rest) :
    first = second := by
  rcases begins with ⟨others, same⟩
  have bytes := congrArg List.toByteArray same
  rw [List.toByteArray_append, List.toByteArray_append] at bytes
  have read := congrArg (ByteArray.utf8DecodeChar? · 0) bytes
  simpa only [ByteArray.utf8DecodeChar?_utf8EncodeChar_append, Option.some.injEq] using read

theorem IsPlain.shown_of_prefix {bytes : Bytes} (plain : IsPlain bytes) {character : Char}
    (begins : String.utf8EncodeChar character <+: bytes) : IsShown character := by
  rcases plain with ⟨characters, shown, rfl⟩
  cases characters with
  | nil => exact absurd (List.prefix_nil.mp begins) String.utf8EncodeChar_ne_nil
  | cons first others =>
      rw [List.flatMap_cons] at begins
      rw [eq_of_encoded_front begins]
      exact shown first List.mem_cons_self

end BootConsole.Terminal
