import BootConsole.Proofs.Text.Encoding
import Mathlib.Data.List.DropRight

/-!
# The end of a text, read on its own

A text of whole characters may be cut at any byte. The bytes that are left of a character whose
first byte is gone are read as one replacement character each, which takes three bytes where there
was one.
-/

namespace BootConsole.Utf8

variable {kept bytes middle rest : Bytes} {byte : UInt8} {character : Char}

/-! ## First bytes and others -/

theorem isContinuation_of_isSecond {lead : UInt8} (follows : isSecond lead byte = true) :
    isContinuation byte = true := by
  have bounds := seconds_of_isSecond follows
  simp only [isContinuation, Bool.and_eq_true, decide_eq_true_eq, UInt8.le_iff_toNat_le,
    UInt8.reduceToNat]
  exact ⟨bounds.least, bounds.most⟩

/-- A character that has begun goes on with a continuation, or breaks off. -/
theorem isContinuation_of_push (begun : kept ≠ []) (unbroken : push kept byte ≠ .broken) :
    isContinuation byte = true := by
  match kept with
  | [lead] =>
      cases follows : isSecond lead byte with
      | true => exact isContinuation_of_isSecond follows
      | false => simp [push, follows] at unbroken
  | [_, _] | [_, _, _] =>
      cases follows : isContinuation byte with
      | true => rfl
      | false => simp [push, follows] at unbroken
  | _ :: _ :: _ :: _ :: _ => simp [push] at unbroken

theorem push_of_isContinuation (follows : isContinuation byte = true) :
    push [] byte = .broken := by
  simp only [isContinuation, Bool.and_eq_true, decide_eq_true_eq, UInt8.le_iff_toNat_le,
    UInt8.reduceToNat] at follows
  have wide : ¬byte < 0x80 := by
    simp only [UInt8.lt_iff_toNat_lt, UInt8.reduceToNat]
    omega
  have leads : ¬(0xC2 ≤ byte && byte ≤ 0xF4) = true := by
    simp only [Bool.and_eq_true, decide_eq_true_eq, UInt8.le_iff_toNat_le, UInt8.reduceToNat]
    omega
  rw [push, if_neg wide, if_neg leads]

theorem Continues.isContinuation (begun : kept ≠ []) (continues : Continues kept middle) :
    ∀ byte ∈ middle, isContinuation byte = true := by
  induction middle generalizing kept with
  | nil => nofun
  | cons byte others induction =>
      have first := isContinuation_of_push begun (by rw [continues.1]; nofun)
      exact List.forall_mem_cons.mpr ⟨first, induction (by simp) continues.2⟩

/-- The first byte of a character is none of those that continue one, and all the others are. -/
theorem exists_lead (character : Char) :
    ∃ lead others, String.utf8EncodeChar character = lead :: others ∧
      isContinuation lead = false ∧ (∀ byte ∈ others, isContinuation byte = true) ∧
      others.length ≤ 3 := by
  have leads {byte : UInt8} (unbroken : push [] byte ≠ .broken) : isContinuation byte = false := by
    cases follows : isContinuation byte with
    | true => exact absurd (push_of_isContinuation follows) unbroken
    | false => rfl
  rcases spells_character character with ⟨middle, last, spelled, continues, scalar⟩
  cases middle with
  | nil => exact ⟨last, [], spelled, leads (by rw [scalar]; nofun), nofun, Nat.zero_le _⟩
  | cons lead others =>
      have begun : (lead :: others : Bytes) ≠ [] := by simp
      have behind := continues.2.isContinuation (by simp)
      have ends := isContinuation_of_push begun (by rw [scalar]; nofun)
      have begins : Begins (lead :: others) := continues
      have short := begins.length_le
      refine ⟨lead, others ++ [last], spelled, leads (by rw [continues.1]; nofun), ?_, ?_⟩
      · intro byte member
        rcases List.mem_append.mp member with member | member
        · exact behind byte member
        · exact List.mem_singleton.mp member ▸ ends
      · simpa using short

/-! ## Reading -/

theorem charactersAfter_of_scalar (scalar : push kept byte = .scalar character) (rest : Bytes) :
    charactersAfter kept (byte :: rest) = character :: characters rest := by
  rw [charactersAfter, scalar]
  rfl

theorem characters_encoded_append (character : Char) (rest : Bytes) :
    characters (String.utf8EncodeChar character ++ rest) = character :: characters rest := by
  rcases spells_character character with ⟨middle, last, spelled, continues, scalar⟩
  have waits := continues.read_append charactersAfter
    (fun _ _ _ more => by rw [charactersAfter, more]) ([last] ++ rest)
  rw [characters, spelled, List.append_assoc, waits, List.nil_append]
  exact charactersAfter_of_scalar scalar rest

theorem characters_whole (text : List Char) :
    characters (text.flatMap String.utf8EncodeChar) = text := by
  induction text with
  | nil => rfl
  | cons character others induction =>
      rw [List.flatMap_cons, characters_encoded_append, induction]

/-- A byte that continues no character is read as a replacement character. -/
theorem characters_orphans_append {orphans : Bytes}
    (follow : ∀ byte ∈ orphans, isContinuation byte = true) (rest : Bytes) :
    characters (orphans ++ rest) =
      List.replicate orphans.length replacement ++ characters rest := by
  induction orphans with
  | nil => rfl
  | cons byte others induction =>
      rcases List.forall_mem_cons.mp follow with ⟨first, behind⟩
      have read : characters (byte :: (others ++ rest)) =
          replacement :: characters (others ++ rest) := by
        rw [characters, charactersAfter, push_of_isContinuation first]
        rfl
      rw [List.cons_append, read, induction behind]
      rfl

/-! ## Cuts -/

def IsWhole (bytes : Bytes) : Prop :=
  ∃ text : List Char, bytes = text.flatMap String.utf8EncodeChar

theorem isWhole_nil : IsWhole [] :=
  ⟨[], rfl⟩

theorem isWhole_character (character : Char) : IsWhole (String.utf8EncodeChar character) :=
  ⟨[character], by simp⟩

theorem IsWhole.append {first second : Bytes} (before : IsWhole first) (behind : IsWhole second) :
    IsWhole (first ++ second) := by
  rcases before with ⟨earlier, rfl⟩
  rcases behind with ⟨later, rfl⟩
  exact ⟨earlier ++ later, List.flatMap_append.symm⟩

theorem isWhole_flatten {chunks : List Bytes} (whole : ∀ chunk ∈ chunks, IsWhole chunk) :
    IsWhole chunks.flatten := by
  induction chunks with
  | nil => exact isWhole_nil
  | cons chunk others induction =>
      rcases List.forall_mem_cons.mp whole with ⟨first, behind⟩
      exact first.append (induction behind)

/-- How many bytes at the head of the input continue a character that is not there. -/
def severed (bytes : Bytes) : Nat :=
  (bytes.takeWhile isContinuation).length

theorem severed_orphans_append {orphans : Bytes}
    (follow : ∀ byte ∈ orphans, isContinuation byte = true) (whole : IsWhole rest) :
    severed (orphans ++ rest) = orphans.length := by
  have none : rest.takeWhile isContinuation = [] := by
    rcases whole with ⟨text, rfl⟩
    cases text with
    | nil => rfl
    | cons character others =>
        rcases exists_lead character with ⟨lead, behind, spelled, begins, _⟩
        rw [List.flatMap_cons, spelled, List.cons_append,
          List.takeWhile_cons_of_neg (by simp [begins])]
  rw [severed, List.takeWhile_append_of_pos follow, none, List.append_nil]

theorem IsWhole.severed_eq_zero (whole : IsWhole bytes) : severed bytes = 0 :=
  @severed_orphans_append bytes [] nofun whole

/-- Behind a cut stand at most three bytes of the character that it goes through, and then whole
characters. -/
theorem IsWhole.drop (whole : IsWhole bytes) (edge : Nat) :
    ∃ orphans rest, bytes.drop edge = orphans ++ rest ∧
      (∀ byte ∈ orphans, isContinuation byte = true) ∧ orphans.length ≤ 3 ∧ IsWhole rest := by
  rcases whole with ⟨text, rfl⟩
  induction text generalizing edge with
  | nil => exact ⟨[], [], by simp, nofun, Nat.zero_le _, isWhole_nil⟩
  | cons character others induction =>
      rcases exists_lead character with ⟨lead, behind, spelled, _, follow, short⟩
      cases edge with
      | zero => exact ⟨[], _, rfl, nofun, Nat.zero_le _, character :: others, rfl⟩
      | succ edge =>
          rw [List.flatMap_cons, spelled, List.cons_append, List.drop_succ_cons]
          rcases Nat.le_total edge behind.length with inside | beyond
          · refine ⟨behind.drop edge, _, List.drop_append_of_le_length inside, ?_, ?_, others, rfl⟩
            · exact fun byte member => follow byte (List.mem_of_mem_drop member)
            · rw [List.length_drop]
              omega
          · rw [List.drop_append, List.drop_eq_nil_of_le beyond, List.nil_append]
            exact induction _

/-- Read on its own, the end of a text takes two bytes more for every byte of a character that was
cut off at its front. -/
theorem length_encode_lossy_rtake (whole : IsWhole bytes) (depth : Nat) :
    let tail := bytes.rtake depth
    (encode (lossy tail)).length = tail.length + 2 * severed tail ∧ severed tail ≤ 3 := by
  intro tail
  rcases whole.drop (bytes.length - depth) with ⟨orphans, rest, split, follow, short, whole⟩
  rw [show tail = orphans ++ rest from split, severed_orphans_append follow whole]
  refine ⟨?_, short⟩
  rcases whole with ⟨text, rfl⟩
  have replaced (count : Nat) :
      ((List.replicate count replacement).flatMap String.utf8EncodeChar).length = 3 * count := by
    have width : replacement.utf8Size = 3 := by decide
    simp [List.length_flatMap, width, Nat.mul_comm]
  rw [encode, lossy, String.toList_ofList, characters_orphans_append follow, characters_whole,
    List.flatMap_append, List.length_append, List.length_append, replaced]
  omega

end BootConsole.Utf8
