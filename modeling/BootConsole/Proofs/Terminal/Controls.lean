import BootConsole.Proofs.Terminal.Cuts
import BootConsole.Proofs.Text.Tails

/-!
# Controls that get through

Whatever chunks the filter is given, each of them comes out as whole characters, and of the controls
of ASCII only those get through that shape text.
-/

namespace BootConsole.Terminal

open Utf8 (Begins)

def FreeOfControls (bytes : Bytes) : Prop :=
  ∀ byte ∈ bytes, byte < 0x20 → isLayout byte = true

structure IsTame (bytes : Bytes) : Prop where
  whole : Utf8.IsWhole bytes
  free : FreeOfControls bytes

theorem FreeOfControls.subset {bytes part : Bytes} (free : FreeOfControls bytes)
    (inside : part ⊆ bytes) : FreeOfControls part :=
  fun byte member => free byte (inside member)

theorem freeOfControls_flatten {chunks : List Bytes}
    (free : ∀ chunk ∈ chunks, FreeOfControls chunk) : FreeOfControls chunks.flatten := by
  intro byte member
  rcases List.mem_flatten.mp member with ⟨chunk, among, inside⟩
  exact free chunk among byte inside

theorem freeOfControls_nil : FreeOfControls [] :=
  List.forall_mem_nil _

theorem FreeOfControls.append {first second : Bytes} (before : FreeOfControls first)
    (behind : FreeOfControls second) : FreeOfControls (first ++ second) :=
  List.forall_mem_append.mpr ⟨before, behind⟩

/-! ## What the filter lets through -/

variable {state : State} {kept chunk : Bytes}

theorem freeOfControls_characters {characters : List Char}
    (shape : ∀ character ∈ characters, character.toNat < 0x20 →
      character.toNat ∈ [0x08, 0x09, 0x0A, 0x0D]) :
    FreeOfControls (characters.flatMap String.utf8EncodeChar) := by
  intro byte member low
  have low : byte.toNat < 0x20 := UInt8.lt_iff_toNat_lt.mp low
  rcases List.mem_flatMap.mp member with ⟨character, among, inside⟩
  rw [Utf8.mem_utf8EncodeChar_iff (by omega)] at inside
  have code : character.toNat = byte.toNat := by
    rw [inside, Utf8.toNat_ofNat_of_valid (.inl (by omega))]
  have shapes := shape character among (by omega)
  rw [code] at shapes
  exact isLayout_of_toNat shapes

theorem IsPlain.freeOfControls {bytes : Bytes} (plain : IsPlain bytes) : FreeOfControls bytes := by
  rcases plain with ⟨characters, shown, rfl⟩
  refine freeOfControls_characters fun character member low => ?_
  rcases shown character member with shapes | ⟨least, _⟩
  · exact shapes
  · omega

/-- What stands for a cut character is none of ASCII. -/
theorem freeOfControls_added (begins : Begins kept) (begun : kept ≠ []) (chunk : Bytes) :
    FreeOfControls (added kept chunk) := by
  rw [added]
  split
  · next character width read =>
      have wide := Utf8.wide_of_leading? begins.unfinished begun read
      split
      · have alone := @freeOfControls_characters [character] (by simp; omega)
        simpa using alone
      · exact freeOfControls_nil
  · exact freeOfControls_nil

theorem freeOfControls_plainText (sound : Sound state) (chunk : Bytes) :
    FreeOfControls (plainText state chunk).2 := by
  rcases state.isWhole_or_cut with whole | ⟨kept, rfl, begun⟩
  · rw [plainText_of_whole whole]
    exact (isPlain_run state chunk).freeOfControls
  · rw [plainText_of_begun sound begun]
    exact (freeOfControls_added sound begun chunk).append (isPlain_run _ _).freeOfControls

theorem IsPlain.isWhole {bytes : Bytes} (plain : IsPlain bytes) : Utf8.IsWhole bytes := by
  rcases plain with ⟨text, _, spelled⟩
  exact ⟨text, spelled⟩

/-- A chunk never ends within a character when it has been read for plain text. -/
theorem isWhole_plainText (state : State) (chunk : Bytes) :
    Utf8.IsWhole (plainText state chunk).2 := by
  unfold plainText
  split
  · dsimp only
    split
    · exact Utf8.isWhole_nil
    · exact (Utf8.isWhole_character _).append (isPlain_run _ _).isWhole
  · exact (isPlain_run _ _).isWhole

theorem isWhole_plainTexts (state : State) (chunks : List Bytes) :
    ∀ text ∈ (plainTexts state chunks).2, Utf8.IsWhole text := by
  induction chunks generalizing state with
  | nil => nofun
  | cons chunk rest induction =>
      exact List.forall_mem_cons.mpr ⟨isWhole_plainText state chunk, induction _⟩

theorem sound_plainText (sound : Sound state) (chunk : Bytes) :
    Sound (plainText state chunk).1 := by
  rcases plainText_parts sound chunk with ⟨_, left, _, parts, _⟩
  rw [parts]
  exact sound_run sound left

theorem sound_plainTexts (sound : Sound state) (chunks : List Bytes) :
    Sound (plainTexts state chunks).1 := by
  induction chunks generalizing state with
  | nil => exact sound
  | cons chunk rest induction => exact induction (sound_plainText sound chunk)

/-- However a stream is cut, every chunk of it comes out tame. -/
theorem isTame_plainTexts (sound : Sound state) (chunks : List Bytes) :
    ∀ text ∈ (plainTexts state chunks).2, IsTame text := by
  induction chunks generalizing state with
  | nil => nofun
  | cons chunk rest induction =>
      have first : IsTame (plainText state chunk).2 :=
        ⟨isWhole_plainText state chunk, freeOfControls_plainText sound chunk⟩
      exact List.forall_mem_cons.mpr ⟨first, induction (sound_plainText sound chunk)⟩

end BootConsole.Terminal
