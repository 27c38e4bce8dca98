import BootConsole.Text.Utf8
import Mathlib.Data.List.Infix

/-!
# ASCII words in arbitrary bytes

Whatever else is in the bytes, well-formed or not, an ASCII word stands in their text exactly where
its bytes stand: a byte below 0x80 is always a character of its own, and no other bytes are read as
one.
-/

namespace BootConsole.Utf8

/-! ## Bytes that are part of a character -/

structure Seconds (lead second : UInt8) : Prop where
  least : 0x80 ≤ second.toNat
  most : second.toNat ≤ 0xBF
  long : lead.toNat = 0xE0 → 0xA0 ≤ second.toNat
  longest : lead.toNat = 0xF0 → 0x90 ≤ second.toNat
  surrogate : lead.toNat = 0xED → second.toNat ≤ 0x9F
  last : lead.toNat = 0xF4 → second.toNat ≤ 0x8F

theorem eq_iff_toNat (byte number : UInt8) : byte = number ↔ byte.toNat = number.toNat :=
  ⟨congrArg UInt8.toNat, UInt8.toNat.inj⟩

theorem seconds_of_isSecond {lead second : UInt8} (follows : isSecond lead second = true) :
    Seconds lead second := by
  simp only [isSecond, Bool.and_eq_true, decide_eq_true_eq, UInt8.le_iff_toNat_le, eq_iff_toNat,
    apply_ite UInt8.toNat, UInt8.reduceToNat] at follows
  rcases follows with ⟨least, most⟩
  constructor <;> grind

theorem continuation_least {byte : UInt8} (follows : isContinuation byte = true) :
    0x80 ≤ byte.toNat := by
  simp only [isContinuation, Bool.and_eq_true, decide_eq_true_eq] at follows
  exact UInt8.le_iff_toNat_le.mp follows.1

/-- The beginnings of characters: a lead byte, and continuations that may follow it. -/
def Unfinished : Bytes → Prop
  | [] => True
  | [lead] => 0xC2 ≤ lead.toNat ∧ lead.toNat ≤ 0xF4
  | [lead, second] =>
      0xE0 ≤ lead.toNat ∧ lead.toNat ≤ 0xF4 ∧ isSecond lead second = true
  | [lead, second, _] =>
      0xF0 ≤ lead.toNat ∧ lead.toNat ≤ 0xF4 ∧ isSecond lead second = true
  | _ => False

theorem unfinished_nil : Unfinished [] := trivial

theorem unfinished_of_more {kept : Bytes} {byte : UInt8} (unfinished : Unfinished kept)
    (more : push kept byte = .more) : Unfinished (kept ++ [byte]) ∧ 0x80 ≤ byte.toNat := by
  match kept with
  | [] =>
      simp only [push] at more
      split at more
      · cases more
      · split at more
        · next leads =>
            simp only [Bool.and_eq_true, decide_eq_true_eq, UInt8.le_iff_toNat_le,
              UInt8.reduceToNat] at leads
            exact ⟨leads, by omega⟩
        · cases more
  | [lead] =>
      simp only [push] at more
      split at more
      · cases more
      · next follows =>
          split at more
          · cases more
          · next long =>
              rw [Bool.not_eq_true, Bool.not_eq_false'] at follows
              rw [UInt8.lt_iff_toNat_lt] at long
              exact ⟨⟨Nat.not_lt.mp long, unfinished.2, follows⟩,
                (seconds_of_isSecond follows).least⟩
  | [lead, second] =>
      simp only [push] at more
      split at more
      · cases more
      · next follows =>
          split at more
          · cases more
          · next long =>
              rw [Bool.not_eq_true, Bool.not_eq_false'] at follows
              have least := continuation_least follows
              rw [UInt8.lt_iff_toNat_lt] at long
              exact ⟨⟨Nat.not_lt.mp long, unfinished.2⟩, least⟩
  | [lead, second, third] =>
      simp only [push] at more
      split at more <;> cases more

theorem toNat_ofNat_of_valid {number : Nat}
    (valid : number < 0xD800 ∨ 0xDFFF < number ∧ number < 0x110000) :
    (Char.ofNat number).toNat = number := by
  rw [Char.ofNat, dif_pos valid]
  rfl

/-- A character of more than one byte is not ASCII. -/
theorem wide_of_scalar {kept : Bytes} {byte : UInt8} {character : Char}
    (unfinished : Unfinished kept) (begun : kept ≠ [])
    (scalar : push kept byte = .scalar character) :
    0x80 ≤ character.toNat ∧ 0x80 ≤ byte.toNat := by
  match kept with
  | [] => contradiction
  | [lead] =>
      simp only [push] at scalar
      split at scalar
      · cases scalar
      · next follows =>
          split at scalar
          · next short =>
              rw [Bool.not_eq_true, Bool.not_eq_false'] at follows
              have short := UInt8.lt_iff_toNat_lt.mp short
              rw [show UInt8.toNat 0xE0 = 0xE0 from rfl] at short
              cases scalar
              rcases unfinished with ⟨least, most⟩
              refine ⟨?_, (seconds_of_isSecond follows).least⟩
              rw [toNat_ofNat_of_valid] <;> simp only [payload] <;> omega
          · cases scalar
  | [lead, second] =>
      simp only [push] at scalar
      split at scalar
      · cases scalar
      · next follows =>
          split at scalar
          · next short =>
              rw [Bool.not_eq_true, Bool.not_eq_false'] at follows
              have least := continuation_least follows
              have short := UInt8.lt_iff_toNat_lt.mp short
              rw [show UInt8.toNat 0xF0 = 0xF0 from rfl] at short
              cases scalar
              rcases unfinished with ⟨lower, upper, secondly⟩
              rcases seconds_of_isSecond secondly with ⟨first, second, long, _, surrogate, _⟩
              refine ⟨?_, least⟩
              rw [toNat_ofNat_of_valid] <;> simp only [payload] <;> omega
          · cases scalar
  | [lead, second, third] =>
      simp only [push] at scalar
      split at scalar
      · cases scalar
      · next follows =>
          rw [Bool.not_eq_true, Bool.not_eq_false'] at follows
          have least := continuation_least follows
          cases scalar
          rcases unfinished with ⟨lower, upper, secondly⟩
          rcases seconds_of_isSecond secondly with ⟨first, second, _, longest, _, last⟩
          refine ⟨?_, least⟩
          rw [toNat_ofNat_of_valid] <;> simp only [payload] <;> omega

/-! ## ASCII words -/

def IsAscii (word : List Char) : Prop :=
  ∀ character ∈ word, character.toNat < 0x80

instance (word : List Char) : Decidable (IsAscii word) :=
  List.decidableBAll (fun character : Char => character.toNat < 0x80) word

def asciiBytes (word : List Char) : Bytes :=
  word.map fun character => UInt8.ofNat character.toNat

/-- A character of one byte is spelled by its number. -/
theorem encoded_of_narrow {character : Char} (narrow : character.toNat < 0x80) :
    String.utf8EncodeChar character = [UInt8.ofNat character.toNat] := by
  have short : character.utf8Size = 1 :=
    Char.utf8Size_eq_one_iff.mpr (UInt32.le_iff_toNat_le.mpr (Nat.le_of_lt_succ narrow))
  exact String.utf8EncodeChar_eq_singleton short

theorem encode_ascii {text : String} (ascii : IsAscii text.toList) :
    encode text = asciiBytes text.toList := by
  unfold encode
  generalize text.toList = word at ascii
  induction word with
  | nil => rfl
  | cons character others induction =>
      have narrow := ascii character List.mem_cons_self
      have later : IsAscii others := fun other member => ascii other (List.mem_cons_of_mem _ member)
      rw [List.flatMap_cons, encoded_of_narrow narrow, induction later]
      rfl

variable {word : List Char}

theorem not_prefix_of_wide (some : word ≠ []) (ascii : IsAscii word) {first : Char}
    (wide : 0x80 ≤ first.toNat) (rest : List Char) : ¬word <+: first :: rest := by
  cases word with
  | nil => contradiction
  | cons character others =>
      intro starts
      rcases List.cons_prefix_cons.mp starts with ⟨rfl, _⟩
      have narrow := ascii character List.mem_cons_self
      omega

theorem not_prefix_of_wide_byte (some : word ≠ []) (ascii : IsAscii word) {first : UInt8}
    (wide : 0x80 ≤ first.toNat) (rest : Bytes) : ¬asciiBytes word <+: first :: rest := by
  cases word with
  | nil => contradiction
  | cons character others =>
      intro starts
      rcases List.cons_prefix_cons.mp starts with ⟨rfl, _⟩
      have narrow := ascii character List.mem_cons_self
      rw [UInt8.toNat_ofNat'] at wide
      omega

theorem infix_cons_of_wide (some : word ≠ []) (ascii : IsAscii word) {first : Char}
    (wide : 0x80 ≤ first.toNat) (rest : List Char) : word <:+: first :: rest ↔ word <:+: rest := by
  rw [List.infix_cons_iff]
  exact or_iff_right (not_prefix_of_wide some ascii wide rest)

theorem infix_cons_of_wide_byte (some : word ≠ []) (ascii : IsAscii word) {first : UInt8}
    (wide : 0x80 ≤ first.toNat) (rest : Bytes) :
    asciiBytes word <:+: first :: rest ↔ asciiBytes word <:+: rest := by
  rw [List.infix_cons_iff]
  exact or_iff_right (not_prefix_of_wide_byte some ascii wide rest)

/-! ## Reading -/

theorem wide_replacement : 0x80 ≤ replacement.toNat := by decide

theorem push_of_narrow {byte : UInt8} (narrow : byte.toNat < 0x80) :
    push [] byte = .scalar (Char.ofNat byte.toNat) :=
  if_pos (UInt8.lt_iff_toNat_lt.mpr narrow)

theorem narrow_of_scalar {byte : UInt8} {character : Char}
    (scalar : push [] byte = .scalar character) : byte.toNat < 0x80 := by
  simp only [push] at scalar
  split at scalar
  · next narrow => exact UInt8.lt_iff_toNat_lt.mp narrow
  · split at scalar <;> cases scalar

/-- A byte that cannot go on with a character is read as if it came first. -/
theorem charactersAfter_of_broken {kept rest : Bytes} {byte : UInt8} (begun : kept ≠ [])
    (broken : push kept byte = .broken) :
    charactersAfter kept (byte :: rest) = replacement :: charactersAfter [] (byte :: rest) := by
  have some : kept.isEmpty = false := by simpa using begun
  simp only [charactersAfter, broken, some]
  cases push [] byte <;> simp

/-- Nothing that has begun before a byte string turns out to be ASCII. -/
theorem wide_of_begun {kept : Bytes} (unfinished : Unfinished kept) (begun : kept ≠ [])
    (bytes : Bytes) :
    ∃ first rest, charactersAfter kept bytes = first :: rest ∧ 0x80 ≤ first.toNat := by
  induction bytes generalizing kept with
  | nil =>
      refine ⟨replacement, [], ?_, wide_replacement⟩
      simp [charactersAfter, begun]
  | cons byte rest induction =>
      cases pushed : push kept byte with
      | more =>
          have longer := (unfinished_of_more unfinished pushed).1
          simpa only [charactersAfter, pushed] using induction longer (by simp)
      | scalar character =>
          refine ⟨character, charactersAfter [] rest, ?_,
            (wide_of_scalar unfinished begun pushed).1⟩
          simp only [charactersAfter, pushed]
      | broken => exact ⟨_, _, charactersAfter_of_broken begun pushed, wide_replacement⟩

theorem wide_of_wide_byte {byte : UInt8} (wide : 0x80 ≤ byte.toNat) (rest : Bytes) :
    ∃ first others, charactersAfter [] (byte :: rest) = first :: others ∧ 0x80 ≤ first.toNat := by
  cases pushed : push [] byte with
  | more =>
      have begun := (unfinished_of_more unfinished_nil pushed).1
      simpa only [charactersAfter, pushed] using wide_of_begun begun (by simp) rest
  | scalar character =>
      have narrow := narrow_of_scalar pushed
      omega
  | broken =>
      refine ⟨replacement, charactersAfter [] rest, ?_, wide_replacement⟩
      simp [charactersAfter, pushed]

theorem eq_ofNat_iff {character : Char} {byte : UInt8} (narrow : character.toNat < 0x80)
    (small : byte.toNat < 0x80) :
    character = Char.ofNat byte.toNat ↔ UInt8.ofNat character.toNat = byte := by
  constructor
  · intro read
    rw [read, toNat_ofNat_of_valid (.inl (by omega)), UInt8.ofNat_toNat]
  · intro written
    rw [← written, UInt8.toNat_ofNat', Nat.mod_eq_of_lt (by omega), Char.ofNat_toNat]

theorem prefix_characters_iff (ascii : IsAscii word) (bytes : Bytes) :
    word <+: characters bytes ↔ asciiBytes word <+: bytes := by
  unfold characters
  induction word generalizing bytes with
  | nil => simp [asciiBytes]
  | cons character others induction =>
      have narrow := ascii character List.mem_cons_self
      have later : IsAscii others := fun other member => ascii other (List.mem_cons_of_mem _ member)
      cases bytes with
      | nil => simp [charactersAfter, asciiBytes]
      | cons byte rest =>
          rcases Nat.lt_or_ge byte.toNat 0x80 with small | wide
          · have read : charactersAfter [] (byte :: rest) =
                Char.ofNat byte.toNat :: charactersAfter [] rest := by
              simp only [charactersAfter, push_of_narrow small]
            rw [read, asciiBytes, List.map_cons, List.cons_prefix_cons, List.cons_prefix_cons,
              eq_ofNat_iff narrow small]
            exact and_congr_right fun _ => induction later rest
          · rcases wide_of_wide_byte wide rest with ⟨first, more, read, wider⟩
            rw [read]
            exact iff_of_false (not_prefix_of_wide (by simp) ascii wider more)
              (not_prefix_of_wide_byte (by simp) ascii wide rest)

/-- A byte at a character boundary, where the rest may be read after any beginning of a
character. -/
theorem infix_charactersAfter_nil_cons_iff (some : word ≠ []) (ascii : IsAscii word)
    {byte : UInt8} {rest : Bytes}
    (onward : ∀ kept, Unfinished kept →
      (word <:+: charactersAfter kept rest ↔ asciiBytes word <:+: rest)) :
    word <:+: charactersAfter [] (byte :: rest) ↔ asciiBytes word <:+: byte :: rest := by
  cases pushed : push [] byte with
  | more =>
      rcases unfinished_of_more unfinished_nil pushed with ⟨begun, wide⟩
      rw [infix_cons_of_wide_byte some ascii wide]
      simpa only [charactersAfter, pushed] using onward _ begun
  -- Only here can the word begin, and then it does so in the characters as in the bytes.
  | scalar character =>
      have starts := prefix_characters_iff ascii (byte :: rest)
      have read : characters (byte :: rest) = character :: charactersAfter [] rest := by
        simp only [characters, charactersAfter, pushed]
      rw [← characters, read, List.infix_cons_iff, ← read, starts, List.infix_cons_iff]
      exact or_congr_right (onward [] unfinished_nil)
  | broken =>
      have wide : 0x80 ≤ byte.toNat := by
        by_contra narrow
        rw [push_of_narrow (by omega)] at pushed
        cases pushed
      have read : charactersAfter [] (byte :: rest) =
          replacement :: charactersAfter [] rest := by
        simp [charactersAfter, pushed]
      rw [read, infix_cons_of_wide some ascii wide_replacement,
        infix_cons_of_wide_byte some ascii wide]
      exact onward [] unfinished_nil

/-- With a character begun or not, the word stands in the characters where it stands in the
bytes. -/
theorem infix_charactersAfter_iff (some : word ≠ []) (ascii : IsAscii word) {kept : Bytes}
    (unfinished : Unfinished kept) (bytes : Bytes) :
    word <:+: charactersAfter kept bytes ↔ asciiBytes word <:+: bytes := by
  have someBytes : asciiBytes word ≠ [] := by simpa [asciiBytes] using some
  induction bytes generalizing kept with
  | nil =>
      rw [List.infix_nil, iff_false_right someBytes, charactersAfter]
      split
      · rwa [List.infix_nil]
      · rw [infix_cons_of_wide some ascii wide_replacement]
        rwa [List.infix_nil]
  | cons byte rest induction =>
      have fresh : word <:+: charactersAfter [] (byte :: rest) ↔
          asciiBytes word <:+: byte :: rest :=
        infix_charactersAfter_nil_cons_iff some ascii fun _ begun => induction begun
      by_cases begun : kept = []
      · rw [begun]
        exact fresh
      · cases pushed : push kept byte with
        | more =>
            rcases unfinished_of_more unfinished pushed with ⟨longer, wide⟩
            rw [infix_cons_of_wide_byte some ascii wide]
            simpa only [charactersAfter, pushed] using induction longer
        | scalar character =>
            rcases wide_of_scalar unfinished begun pushed with ⟨wide, wideByte⟩
            rw [infix_cons_of_wide_byte some ascii wideByte]
            simp only [charactersAfter, pushed]
            rw [infix_cons_of_wide some ascii wide]
            exact induction unfinished_nil
        -- The byte is read once more, now at a boundary.
        | broken =>
            rw [charactersAfter_of_broken begun pushed,
              infix_cons_of_wide some ascii wide_replacement]
            exact fresh

/-- An ASCII word stands in the text of bytes exactly where its bytes stand. -/
theorem infix_characters_iff (some : word ≠ []) (ascii : IsAscii word) (bytes : Bytes) :
    word <:+: characters bytes ↔ asciiBytes word <:+: bytes :=
  infix_charactersAfter_iff some ascii unfinished_nil bytes

end BootConsole.Utf8
