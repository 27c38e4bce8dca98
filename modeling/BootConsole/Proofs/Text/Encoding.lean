import BootConsole.Proofs.Text.Beginnings
import Mathlib.Data.List.Infix

/-!
# Characters and their bytes

The bytes of a character, pushed one by one, go on to the last one and come to the character.
-/

namespace BootConsole.Utf8

/-! ## Bytes by their numbers -/

theorem toNat_ofNat {number : Nat} (byte : number < 256) :
    (UInt8.ofNat number).toNat = number :=
  UInt8.toNat_ofNat_of_lt byte

theorem ofNat_lt_iff {number : Nat} (bound : Nat) (byte : number < 256) (small : bound < 256) :
    UInt8.ofNat number < UInt8.ofNat bound ↔ number < bound := by
  rw [UInt8.lt_iff_toNat_lt, toNat_ofNat byte, toNat_ofNat small]

theorem isContinuation_ofNat {bits : Nat} (six : bits < 64) :
    isContinuation (UInt8.ofNat (bits + 128)) = true := by
  simp only [isContinuation, Bool.and_eq_true, decide_eq_true_eq, UInt8.le_iff_toNat_le,
    toNat_ofNat (show bits + 128 < 256 by omega), UInt8.reduceToNat]
  omega

theorem payload_ofNat {bits : Nat} (six : bits < 64) :
    payload (UInt8.ofNat (bits + 128)) = bits := by
  rw [payload, toNat_ofNat (by omega)]
  omega

/-- The second byte keeps clear of too many bytes, of surrogates and of too large numbers. -/
theorem isSecond_ofNat {lead bits : Nat} (byte : lead < 256) (six : bits < 64)
    (short : lead = 0xE0 → 32 ≤ bits) (surrogate : lead = 0xED → bits < 32)
    (longest : lead = 0xF0 → 16 ≤ bits) (last : lead = 0xF4 → bits < 16) :
    isSecond (UInt8.ofNat lead) (UInt8.ofNat (bits + 128)) = true := by
  simp only [isSecond, Bool.and_eq_true, decide_eq_true_eq, UInt8.le_iff_toNat_le, eq_iff_toNat,
    apply_ite UInt8.toNat, toNat_ofNat byte, toNat_ofNat (show bits + 128 < 256 by omega),
    UInt8.reduceToNat]
  constructor <;> repeat' split
  all_goals omega

/-! ## What the bytes of a character push -/

variable {lead second third : UInt8} {number bits : Nat}

theorem push_lead (least : 0xC2 ≤ number) (most : number ≤ 0xF4) :
    push [] (UInt8.ofNat number) = .more := by
  have wide : ¬UInt8.ofNat number < 0x80 :=
    (ofNat_lt_iff 0x80 (by omega) (by decide)).not.mpr (by omega)
  have leads : (0xC2 ≤ UInt8.ofNat number && UInt8.ofNat number ≤ 0xF4) = true := by
    simp only [Bool.and_eq_true, decide_eq_true_eq, UInt8.le_iff_toNat_le,
      toNat_ofNat (show number < 256 by omega), UInt8.reduceToNat]
    exact ⟨least, most⟩
  rw [push, if_neg wide, if_pos leads]

theorem push_second_more (follows : isSecond lead second = true) (long : ¬lead < 0xE0) :
    push [lead] second = .more := by
  rw [push, follows, if_neg (by decide), if_neg long]

theorem push_second_scalar (follows : isSecond lead second = true) (short : lead < 0xE0) :
    push [lead] second = .scalar (Char.ofNat (lead.toNat % 32 * 64 + payload second)) := by
  rw [push, follows, if_neg (by decide), if_pos short]

theorem push_third_more (six : bits < 64) (long : ¬lead < 0xF0) :
    push [lead, second] (UInt8.ofNat (bits + 128)) = .more := by
  rw [push, isContinuation_ofNat six, if_neg (by decide), if_neg long]

theorem push_third_scalar (six : bits < 64) (short : lead < 0xF0) :
    push [lead, second] (UInt8.ofNat (bits + 128)) =
      .scalar (Char.ofNat (lead.toNat % 16 * 4096 + payload second * 64 + bits)) := by
  rw [push, isContinuation_ofNat six, if_neg (by decide), if_pos short, payload_ofNat six]

theorem push_fourth (six : bits < 64) :
    push [lead, second, third] (UInt8.ofNat (bits + 128)) =
      .scalar (Char.ofNat (lead.toNat % 8 * 262144 + payload second * 4096 +
        payload third * 64 + bits)) := by
  rw [push, isContinuation_ofNat six, if_neg (by decide), payload_ofNat six]

/-! ## Spelling -/

def Spells (bytes : Bytes) (number : Nat) : Prop :=
  ∃ middle byte, bytes = middle ++ [byte] ∧ Continues [] middle ∧
    push middle byte = .scalar (Char.ofNat number)

theorem spells_one (small : number ≤ 0x7F) : Spells [UInt8.ofNat number] number := by
  refine ⟨[], _, rfl, trivial, ?_⟩
  rw [push, if_pos, toNat_ofNat (by omega)]
  exact (ofNat_lt_iff 0x80 (by omega) (by decide)).mpr (Nat.lt_succ_of_le small)

theorem spells_two (least : 0x7F < number) (most : number ≤ 0x7FF) :
    Spells [UInt8.ofNat (number / 64 % 32 + 192), UInt8.ofNat (number % 64 + 128)] number := by
  have follows := @isSecond_ofNat (number / 64 % 32 + 192) (number % 64)
    (by omega) (by omega) (by omega) (by omega) (by omega) (by omega)
  have short : UInt8.ofNat (number / 64 % 32 + 192) < 0xE0 :=
    (ofNat_lt_iff 0xE0 (by omega) (by decide)).mpr (by omega)
  refine ⟨[_], _, rfl, ⟨push_lead (by omega) (by omega), trivial⟩, ?_⟩
  rw [push_second_scalar follows short, payload_ofNat (by omega), toNat_ofNat (by omega)]
  congr 2
  omega

theorem spells_three (least : 0x7FF < number) (most : number ≤ 0xFFFF)
    (valid : number < 0xD800 ∨ 0xDFFF < number) :
    Spells [UInt8.ofNat (number / 4096 % 16 + 224), UInt8.ofNat (number / 64 % 64 + 128),
      UInt8.ofNat (number % 64 + 128)] number := by
  have follows := @isSecond_ofNat (number / 4096 % 16 + 224) (number / 64 % 64)
    (by omega) (by omega) (by omega) (by omega) (by omega) (by omega)
  have long : ¬UInt8.ofNat (number / 4096 % 16 + 224) < 0xE0 :=
    (ofNat_lt_iff 0xE0 (by omega) (by decide)).not.mpr (by omega)
  have short : UInt8.ofNat (number / 4096 % 16 + 224) < 0xF0 :=
    (ofNat_lt_iff 0xF0 (by omega) (by decide)).mpr (by omega)
  refine ⟨[_, _], _, rfl,
    ⟨push_lead (by omega) (by omega), push_second_more follows long, trivial⟩, ?_⟩
  rw [push_third_scalar (by omega) short, payload_ofNat (by omega), toNat_ofNat (by omega)]
  congr 2
  omega

theorem spells_four (least : 0xFFFF < number) (most : number < 0x110000) :
    Spells [UInt8.ofNat (number / 262144 % 8 + 240), UInt8.ofNat (number / 4096 % 64 + 128),
      UInt8.ofNat (number / 64 % 64 + 128), UInt8.ofNat (number % 64 + 128)] number := by
  have follows := @isSecond_ofNat (number / 262144 % 8 + 240)
    (number / 4096 % 64) (by omega) (by omega) (by omega) (by omega) (by omega) (by omega)
  have long : ¬UInt8.ofNat (number / 262144 % 8 + 240) < 0xE0 :=
    (ofNat_lt_iff 0xE0 (by omega) (by decide)).not.mpr (by omega)
  have longer : ¬UInt8.ofNat (number / 262144 % 8 + 240) < 0xF0 :=
    (ofNat_lt_iff 0xF0 (by omega) (by decide)).not.mpr (by omega)
  refine ⟨[_, _, _], _, rfl, ⟨push_lead (by omega) (by omega), push_second_more follows long,
    push_third_more (by omega) longer, trivial⟩, ?_⟩
  rw [push_fourth (by omega), payload_ofNat (by omega), payload_ofNat (by omega),
    toNat_ofNat (by omega)]
  congr 2
  omega

theorem spells_character (character : Char) :
    ∃ middle byte, String.utf8EncodeChar character = middle ++ [byte] ∧ Continues [] middle ∧
      push middle byte = .scalar character := by
  have valid : character.toNat < 0xD800 ∨ 0xDFFF < character.toNat ∧ character.toNat < 0x110000 :=
    character.valid
  have spells : Spells (String.utf8EncodeChar character) character.toNat := by
    unfold String.utf8EncodeChar
    simp only [show character.val.toNat = character.toNat from rfl]
    split
    · exact spells_one ‹_›
    · split
      · exact spells_two (by omega) ‹_›
      · split
        · exact spells_three (by omega) ‹_› (by omega)
        · exact spells_four (by omega) (by omega)
  rwa [Spells, Char.ofNat_toNat] at spells

/-- A byte of ASCII is in the spelling of no character but its own. -/
theorem mem_utf8EncodeChar_iff {byte : UInt8} (narrow : byte.toNat < 0x80) (character : Char) :
    byte ∈ String.utf8EncodeChar character ↔ character = Char.ofNat byte.toNat := by
  rcases spells_character character with ⟨middle, last, spelled, continues, scalar⟩
  rw [spelled, List.mem_append, List.mem_singleton]
  have own : (Char.ofNat byte.toNat).toNat = byte.toNat :=
    toNat_ofNat_of_valid (.inl (by omega))
  by_cases begun : middle = []
  · rw [begun] at scalar
    have least := narrow_of_scalar scalar
    rw [push_of_narrow least] at scalar
    cases scalar
    have other : (Char.ofNat last.toNat).toNat = last.toNat :=
      toNat_ofNat_of_valid (.inl (by omega))
    constructor
    · rintro (inside | rfl)
      · simp [begun] at inside
      · rfl
    · intro same
      rw [← same, other] at own
      exact .inr (UInt8.toNat.inj own.symm)
  · have wide := wide_of_scalar (Begins.unfinished continues) begun scalar
    constructor
    · rintro (inside | rfl)
      · have least := continues.wide unfinished_nil byte inside
        omega
      · omega
    · rintro rfl
      omega

/-- A byte of ASCII is read as its own character, wherever it stands. -/
theorem mem_characters_iff {byte : UInt8} (narrow : byte.toNat < 0x80) (bytes : Bytes) :
    Char.ofNat byte.toNat ∈ characters bytes ↔ byte ∈ bytes := by
  have own : (Char.ofNat byte.toNat).toNat = byte.toNat :=
    toNat_ofNat_of_valid (.inl (by omega))
  have ascii : IsAscii [Char.ofNat byte.toNat] := by
    intro character member
    rw [List.mem_singleton.mp member, own]
    exact narrow
  have spelled : asciiBytes [Char.ofNat byte.toNat] = [byte] := by
    rw [asciiBytes, List.map_singleton, own, UInt8.ofNat_toNat]
  rw [← List.singleton_infix_iff, infix_characters_iff (by simp) ascii, spelled,
    List.singleton_infix_iff]

theorem mem_encode_iff {byte : UInt8} (narrow : byte.toNat < 0x80) (text : String) :
    byte ∈ encode text ↔ Char.ofNat byte.toNat ∈ text.toList := by
  simp [encode, mem_utf8EncodeChar_iff narrow]

end BootConsole.Utf8
