import BootConsole.Proofs.Text.AsciiWords

/-!
# Beginnings of characters

A character that has begun goes on byte by byte until a byte completes it or cannot continue it.
What the readers of UTF-8 see in an input follows from where that happens.
-/

namespace BootConsole.Utf8

/-- Every one of the bytes goes on with the character that `kept` begins, and none completes it. -/
def Continues (kept : Bytes) : Bytes → Prop
  | [] => True
  | byte :: rest => push kept byte = .more ∧ Continues (kept ++ [byte]) rest

def Begins (kept : Bytes) : Prop :=
  Continues [] kept

variable {kept bytes middle rest : Bytes} {byte : UInt8} {character : Char}

theorem continues_append_iff :
    Continues kept (middle ++ rest) ↔ Continues kept middle ∧ Continues (kept ++ middle) rest := by
  induction middle generalizing kept with
  | nil => simp [Continues]
  | cons byte others induction => simp [Continues, induction, and_assoc]

theorem Begins.append (begins : Begins kept) (continues : Continues kept middle) :
    Begins (kept ++ middle) :=
  continues_append_iff.mpr ⟨begins, continues⟩

theorem Continues.unfinished (unfinished : Unfinished kept) (continues : Continues kept middle) :
    Unfinished (kept ++ middle) := by
  induction middle generalizing kept with
  | nil => simpa using unfinished
  | cons byte others induction =>
      have longer := (unfinished_of_more unfinished continues.1).1
      simpa using induction longer continues.2

theorem Continues.wide (unfinished : Unfinished kept) (continues : Continues kept middle) :
    ∀ byte ∈ middle, 0x80 ≤ byte.toNat := by
  induction middle generalizing kept with
  | nil => simp
  | cons byte others induction =>
      have longer := unfinished_of_more unfinished continues.1
      exact List.forall_mem_cons.mpr ⟨longer.2, induction longer.1 continues.2⟩

theorem Begins.unfinished (begins : Begins kept) : Unfinished kept :=
  Continues.unfinished unfinished_nil begins

theorem Unfinished.length_le (unfinished : Unfinished kept) : kept.length ≤ 3 := by
  match kept with
  | [] | [_] | [_, _] | [_, _, _] => simp
  | _ :: _ :: _ :: _ :: _ => exact unfinished.elim

theorem Begins.length_le (begins : Begins kept) : kept.length ≤ 3 :=
  begins.unfinished.length_le

/-- A byte of ASCII goes on with nothing. -/
theorem push_of_begun (begun : kept ≠ []) (unfinished : Unfinished kept)
    (narrow : byte.toNat < 0x80) : push kept byte = .broken := by
  cases pushed : push kept byte with
  | more =>
      have wide := (unfinished_of_more unfinished pushed).2
      omega
  | scalar character =>
      have wide := (wide_of_scalar unfinished begun pushed).2
      omega
  | broken => rfl

/-- Either the input ends before the character does, or some byte ends it. -/
theorem continues_or_ends (kept bytes : Bytes) :
    Continues kept bytes ∨
      ∃ middle byte rest, bytes = middle ++ byte :: rest ∧ Continues kept middle ∧
        push (kept ++ middle) byte ≠ .more := by
  induction bytes generalizing kept with
  | nil => exact .inl trivial
  | cons byte rest induction =>
      by_cases more : push kept byte = .more
      · rcases induction (kept ++ [byte]) with continues | ⟨middle, last, behind, rfl, continues, ends⟩
        · exact .inl ⟨more, continues⟩
        · refine .inr ⟨byte :: middle, last, behind, rfl, ⟨more, continues⟩, ?_⟩
          simpa using ends
      · exact .inr ⟨[], byte, rest, rfl, trivial, by simpa using more⟩

/-! ## What the readers see -/

/-- A reader that waits while a character goes on has read as far as it went. -/
theorem Continues.read_append {α : Type} (read : Bytes → Bytes → α)
    (waits : ∀ kept byte rest, push kept byte = .more →
      read kept (byte :: rest) = read (kept ++ [byte]) rest)
    (continues : Continues kept middle) (rest : Bytes) :
    read kept (middle ++ rest) = read (kept ++ middle) rest := by
  induction middle generalizing kept with
  | nil => simp
  | cons byte others induction =>
      rw [List.cons_append, waits kept byte _ continues.1]
      simpa using induction continues.2

theorem Continues.leading?_append (continues : Continues kept middle) (rest : Bytes) :
    leading? kept (middle ++ rest) = leading? (kept ++ middle) rest :=
  continues.read_append leading? (fun _ _ _ more => by rw [leading?, more]) rest

theorem Continues.leading?_eq_none (continues : Continues kept middle) :
    leading? kept middle = none := by
  simpa [leading?] using continues.leading?_append []

theorem Continues.validLength_append (continues : Continues kept middle) (rest : Bytes) :
    validLength kept (middle ++ rest) = validLength (kept ++ middle) rest :=
  continues.read_append validLength (fun _ _ _ more => by rw [validLength, more]) rest

theorem leading?_of_scalar (scalar : push kept byte = .scalar character) (rest : Bytes) :
    leading? kept (byte :: rest) = some (character, kept.length + 1) := by
  rw [leading?, scalar]

theorem leading?_of_broken (broken : push kept byte = .broken) (rest : Bytes) :
    leading? kept (byte :: rest) = none := by
  rw [leading?, broken]

/-- What has begun before an input turns out to be above ASCII. -/
theorem wide_of_leading? {width : Nat} (unfinished : Unfinished kept) (begun : kept ≠ [])
    (read : leading? kept bytes = some (character, width)) : 0x80 ≤ character.toNat := by
  induction bytes generalizing kept with
  | nil => cases read
  | cons byte rest induction =>
      cases pushed : push kept byte with
      | more =>
          rw [leading?, pushed] at read
          exact induction (unfinished_of_more unfinished pushed).1 (by simp) read
      | scalar other =>
          rw [leading?_of_scalar pushed] at read
          cases read
          exact (wide_of_scalar unfinished begun pushed).1
      | broken =>
          rw [leading?_of_broken pushed] at read
          cases read

theorem validLength_of_scalar (scalar : push kept byte = .scalar character) (rest : Bytes) :
    validLength kept (byte :: rest) = kept.length + 1 + validLength [] rest := by
  rw [validLength, scalar]

theorem validLength_of_wide (wide : 0x80 ≤ byte.toNat) : validLength [] [byte] = 0 := by
  cases pushed : push [] byte with
  | more => simp only [validLength, pushed]
  | scalar character =>
      have narrow := narrow_of_scalar pushed
      omega
  | broken => simp only [validLength, pushed]

theorem validLength_pair_of_wide (wide : 0x80 ≤ byte.toNat) (last : UInt8) :
    validLength [] [byte, last] = 0 ∨ validLength [] [byte, last] = 2 := by
  cases pushed : push [] byte with
  | more =>
      cases ended : push [byte] last with
      | more => simp [validLength, pushed, ended]
      | scalar character => simp [validLength, pushed, ended]
      | broken => simp [validLength, pushed, ended]
  | scalar character =>
      have narrow := narrow_of_scalar pushed
      omega
  | broken => simp [validLength, pushed]

end BootConsole.Utf8
