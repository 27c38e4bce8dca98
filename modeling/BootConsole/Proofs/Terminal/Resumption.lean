import BootConsole.Proofs.Terminal.Plain
import BootConsole.Proofs.Text.Beginnings

/-!
# How a cut character ends

Byte by byte, a character that has begun waits for more, is completed, or breaks off. When the end
of a chunk cut it off, the filter comes to the same from a glance at four bytes; but of the bytes
behind a completed character it may take some with it.
-/

namespace BootConsole.Terminal

open Utf8 (Continues Begins push leading? validLength)

variable {kept front middle chunk : Bytes} {byte : UInt8} {character : Char} {state : State}

/-! ## A character, byte by byte -/

theorem step_of_more (more : push kept byte = .more) :
    step (.ground kept) byte = (.ground (kept ++ [byte]), []) := by
  by_cases begun : kept = []
  · subst begun
    simp [step, groundStep, groundByte, more]
  · simp [step, groundStep, begun, more]

theorem step_of_scalar (scalar : push kept byte = .scalar character) :
    step (.ground kept) byte = groundCharacter character := by
  by_cases begun : kept = []
  · subst begun
    simp [step, groundStep, groundByte, scalar]
  · simp [step, groundStep, begun, scalar]

/-- A byte that breaks a character off is read as if it came first. -/
theorem step_of_broken (begun : kept ≠ []) (broken : push kept byte = .broken) :
    step (.ground kept) byte =
      ((step .start byte).1,
        String.utf8EncodeChar Utf8.replacement ++ (step .start byte).2) := by
  simp [step, groundStep, State.start, begun, broken]

theorem run_of_continues (continues : Continues kept middle) :
    run (.ground kept) middle = (.ground (kept ++ middle), []) := by
  induction middle generalizing kept with
  | nil => simp [run]
  | cons byte rest induction =>
      simp [run, step_of_more continues.1, induction continues.2]

theorem run_of_scalar (continues : Continues kept middle)
    (scalar : push (kept ++ middle) byte = .scalar character) (rest : Bytes) :
    run (.ground kept) (middle ++ byte :: rest) =
      ((run (groundCharacter character).1 rest).1,
        (groundCharacter character).2 ++ (run (groundCharacter character).1 rest).2) := by
  rw [run_append, run_of_continues continues, List.nil_append, run, step_of_scalar scalar]

theorem run_of_broken (begun : kept ≠ []) (continues : Continues kept middle)
    (broken : push (kept ++ middle) byte = .broken) (rest : Bytes) :
    run (.ground kept) (middle ++ byte :: rest) =
      ((run .start (byte :: rest)).1,
        String.utf8EncodeChar Utf8.replacement ++ (run .start (byte :: rest)).2) := by
  have also : kept ++ middle ≠ [] := by simp [begun]
  rw [run_append, run_of_continues continues, List.nil_append, run, run,
    step_of_broken also broken]
  simp

/-- A character above ASCII is shown unless it is a control. -/
theorem groundCharacter_of_wide (wide : 0x80 ≤ character.toNat) :
    groundCharacter character =
      (.start,
        if character.toNat ≤ 0x9F then [] else String.utf8EncodeChar character) := by
  have controls : ∀ number < 0x20, execute (UInt8.ofNat (0x80 + number)) = [] := by decide
  have other : ¬character.toNat = 0x1B := by omega
  simp only [groundCharacter, if_neg other]
  by_cases control : character.toNat ≤ 0x9F
  · have silent := controls (character.toNat - 0x80) (by omega)
    rw [Nat.add_sub_cancel' wide] at silent
    simp [control, wide, silent]
  · have high : ¬character.toNat < 0x20 := by omega
    simp [control, high]

/-! ## What is kept -/

def Sound : State → Prop
  | .ground kept => Begins kept
  | _ => True

theorem sound_start : Sound .start :=
  trivial

theorem sound_of_sequence (sequence : state.InSequence) : Sound state := by
  cases state with
  | ground kept => exact absurd rfl (sequence kept)
  | _ => exact trivial

theorem sound_groundCharacter (character : Char) : Sound (groundCharacter character).1 := by
  simp only [groundCharacter]
  repeat' split
  all_goals exact True.intro

theorem sound_of_unbroken (begins : Begins kept) (unbroken : push kept byte ≠ .broken) :
    Sound (step (.ground kept) byte).1 := by
  cases pushed : push kept byte with
  | more =>
      rw [step_of_more pushed]
      exact begins.append ⟨pushed, trivial⟩
  | scalar character =>
      rw [step_of_scalar pushed]
      exact sound_groundCharacter character
  | broken => exact absurd pushed unbroken

theorem sound_step_start (byte : UInt8) : Sound (step .start byte).1 := by
  by_cases broken : push [] byte = .broken
  · simp only [step, State.start, groundStep, groundByte, broken]
    exact True.intro
  · exact sound_of_unbroken trivial broken

theorem sound_step (sound : Sound state) (byte : UInt8) : Sound (step state byte).1 := by
  rcases state.ground_or_inSequence with ⟨kept, rfl⟩ | sequence
  · by_cases begun : kept = []
    · subst begun
      exact sound_step_start byte
    · by_cases broken : push kept byte = .broken
      · rw [step_of_broken begun broken]
        exact sound_step_start byte
      · exact sound_of_unbroken sound broken
  · rcases (step_of_sequence sequence byte).1 with ended | onward
    · rw [ended]
      exact sound_start
    · exact sound_of_sequence onward

theorem sound_run (sound : Sound state) (bytes : Bytes) : Sound (run state bytes).1 := by
  induction bytes generalizing state with
  | nil => exact sound
  | cons byte rest induction => exact induction (sound_step sound byte)

/-! ## A cut character -/

theorem brokenLength_append (continues : Continues kept middle) (rest : Bytes) :
    brokenLength kept (middle ++ rest) = brokenLength (kept ++ middle) rest :=
  continues.read_append brokenLength (fun _ _ _ more => by rw [brokenLength, more]) rest

theorem resume_of_begins (begins : Begins kept) : resume kept = .waiting kept := by
  have unread : leading? [] kept = none := Continues.leading?_eq_none begins
  have whole : brokenLength [] kept = kept.length := by
    simpa [brokenLength] using brokenLength_append begins []
  simp only [resume, unread, whole, if_true]

/-- How much of the bytes behind a completed character is done with together with it: nothing, if
they are well formed as a whole. -/
def overtaken (room : Bytes) : Nat :=
  if validLength [] room = room.length then 0 else validLength [] room

theorem resume_of_scalar (begins : Begins front) (scalar : push front byte = .scalar character)
    (room : Bytes) :
    resume (front ++ byte :: room) =
      .finished character (front.length + 1 + overtaken room) := by
  have read : leading? [] (front ++ byte :: room) = some (character, front.length + 1) := by
    rw [Continues.leading?_append begins, List.nil_append, Utf8.leading?_of_scalar scalar]
  have valid : validLength [] (front ++ byte :: room) =
      front.length + 1 + validLength [] room := by
    rw [Continues.validLength_append begins, List.nil_append, Utf8.validLength_of_scalar scalar]
  have length : (front ++ byte :: room).length = front.length + 1 + room.length := by
    rw [List.length_append, List.length_cons]
    omega
  simp only [resume, read, valid, length, overtaken, Nat.add_left_cancel_iff]
  split <;> rfl

theorem resume_of_broken (begins : Begins front) (begun : front ≠ [])
    (broken : push front byte = .broken) (room : Bytes) :
    resume (front ++ byte :: room) = .finished Utf8.replacement front.length := by
  have unread : leading? [] (front ++ byte :: room) = none := by
    rw [Continues.leading?_append begins, List.nil_append, Utf8.leading?_of_broken broken]
  have some := List.length_pos_iff.mpr begun
  have ended : brokenLength [] (front ++ byte :: room) = front.length := by
    rw [brokenLength_append begins, List.nil_append, brokenLength, broken]
    exact Nat.max_eq_right some
  have shorter : front.length ≠ (front ++ byte :: room).length := by
    rw [List.length_append, List.length_cons]
    omega
  simp only [resume, unread, ended, if_neg shorter]

theorem plainText_of_resume (begun : kept ≠ []) (chunk : Bytes) :
    plainText (.ground kept) chunk =
      match resume (kept ++ chunk.take (4 - kept.length)) with
      | .waiting kept => (.ground kept, [])
      | .finished printed used =>
          ((run .start (chunk.drop (used - kept.length))).1,
            String.utf8EncodeChar printed ++ (run .start (chunk.drop (used - kept.length))).2) := by
  cases kept with
  | nil => contradiction
  | cons first others => rfl

/-- The four bytes at which the filter looks, if a byte of the chunk ends the cut character. -/
theorem glance (begins : Begins kept) (continues : Continues kept middle) (byte : UInt8)
    (rest : Bytes) :
    kept ++ (middle ++ byte :: rest).take (4 - kept.length) =
      (kept ++ middle) ++ byte :: rest.take (3 - (kept ++ middle).length) := by
  have short := (begins.append continues).length_le
  rw [List.length_append] at short
  have inside : middle.take (4 - kept.length) = middle := List.take_of_length_le (by omega)
  have behind : 4 - kept.length - middle.length = 3 - (kept ++ middle).length + 1 := by
    rw [List.length_append]
    omega
  rw [List.take_append, inside, behind, List.take_succ_cons, List.append_assoc]

theorem plainText_of_continues (begins : Begins kept) (begun : kept ≠ [])
    (continues : Continues kept chunk) :
    plainText (.ground kept) chunk = (.ground (kept ++ chunk), []) := by
  have short := (begins.append continues).length_le
  rw [List.length_append] at short
  have whole : chunk.take (4 - kept.length) = chunk := List.take_of_length_le (by omega)
  rw [plainText_of_resume begun, whole, resume_of_begins (begins.append continues)]

theorem plainText_of_scalar (begins : Begins kept) (begun : kept ≠ [])
    (continues : Continues kept middle)
    (scalar : push (kept ++ middle) byte = .scalar character) (rest : Bytes) :
    let behind := rest.drop (overtaken (rest.take (3 - (kept ++ middle).length)))
    plainText (.ground kept) (middle ++ byte :: rest) =
      ((run .start behind).1, String.utf8EncodeChar character ++ (run .start behind).2) := by
  intro behind
  have left : (middle ++ byte :: rest).drop
      ((kept ++ middle).length + 1 + overtaken (rest.take (3 - (kept ++ middle).length)) -
        kept.length) = behind := by
    have used : (kept ++ middle).length + 1 +
        overtaken (rest.take (3 - (kept ++ middle).length)) - kept.length =
        middle.length + (overtaken (rest.take (3 - (kept ++ middle).length)) + 1) := by
      rw [List.length_append]
      omega
    rw [used, List.drop_length_add_append, List.drop_succ_cons]
  rw [plainText_of_resume begun, glance begins continues,
    resume_of_scalar (begins.append continues) scalar]
  simp only [left]

theorem plainText_of_broken (begins : Begins kept) (begun : kept ≠ [])
    (continues : Continues kept middle) (broken : push (kept ++ middle) byte = .broken)
    (rest : Bytes) :
    plainText (.ground kept) (middle ++ byte :: rest) =
      run (.ground kept) (middle ++ byte :: rest) := by
  have also : kept ++ middle ≠ [] := by simp [begun]
  have left : (middle ++ byte :: rest).drop ((kept ++ middle).length - kept.length) =
      byte :: rest := by
    rw [List.length_append, Nat.add_sub_cancel_left, List.drop_left]
  rw [plainText_of_resume begun, glance begins continues,
    resume_of_broken (begins.append continues) also broken]
  simp only [left, run_of_broken begun continues broken]

end BootConsole.Terminal
