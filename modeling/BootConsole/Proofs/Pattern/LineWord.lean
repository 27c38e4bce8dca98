import BootConsole.Pattern.Basic
import BootConsole.Proofs.Text.Places

/-!
# A word at the start of a line

The search for a pattern that is a word behind `^`, where no line feed stands in the word: it comes
to the first place where the word stands at the start of a line, and only fails if there is none.
What is the start of a line is settled by the text that is searched.
-/

namespace BootConsole

namespace Pattern.Program

/-! ## The program -/

def lineWord (word : Bytes) : Program :=
  ofExpr (.sequence (.assertion .lineStart) (.literal word))

theorem getElem?_spell (word : Bytes) (position index : Nat) (inside : index < word.length) :
    (spell word position (position + word.length))[index]? =
      some (.byte word[index] (position + index + 1)) := by
  induction word generalizing position index with
  | nil => simp at inside
  | cons value rest induction =>
      cases rest with
      | nil =>
          have first : index = 0 := by simpa using inside
          subst first
          rfl
      | cons second rest =>
          rw [spell]
          · cases index with
            | zero => rfl
            | succ index =>
                have later := induction (position + 1) index (by simpa using inside)
                rw [List.getElem?_cons_succ]
                rw [show position + (value :: second :: rest).length =
                  position + 1 + (second :: rest).length by simp; omega, later]
                simp
                omega
          · simp

variable {word : Bytes}

theorem lineWord_eq (nonempty : word ≠ []) :
    lineWord word =
      (.assertion .lineStart 1 :: (spell word 1 (1 + word.length) ++ [.accept])).toArray := by
  have some : max 1 word.length = word.length := by
    have := List.length_pos_iff.mpr nonempty
    omega
  simp [lineWord, ofExpr, Expr.emit, Expr.size, some]

theorem size_lineWord (nonempty : word ≠ []) : (lineWord word).size = word.length + 2 := by
  have some := List.length_pos_iff.mpr nonempty
  rw [lineWord_eq nonempty]
  simp [length_spell]
  omega

theorem lineWord_zero (nonempty : word ≠ []) :
    (lineWord word)[0]? = some (.assertion .lineStart 1) := by
  rw [lineWord_eq nonempty]
  rfl

theorem lineWord_byte (nonempty : word ≠ []) (index : Nat) (inside : index < word.length) :
    (lineWord word)[index + 1]? = some (.byte word[index] (index + 2)) := by
  have length := length_spell word 1 (1 + word.length)
  rw [lineWord_eq nonempty, List.getElem?_toArray, List.getElem?_cons_succ,
    List.getElem?_append_left (by omega), getElem?_spell word 1 index inside]
  congr 2
  omega

theorem lineWord_accept (nonempty : word ≠ []) :
    (lineWord word)[word.length + 1]? = some .accept := by
  have some := List.length_pos_iff.mpr nonempty
  have length := length_spell word 1 (1 + word.length)
  rw [lineWord_eq nonempty, List.getElem?_toArray, List.getElem?_cons_succ,
    List.getElem?_append_right (by omega)]
  simp [show word.length - (spell word 1 (1 + word.length)).length = 0 by omega]

/-! ## One step -/

def reading (count position : Nat) : List Thread :=
  if count = 0 then [] else [⟨count + 1, 0, position - count⟩]

theorem follow_start (nonempty : word ≠ []) (place : Place) (position : Nat) :
    follow (lineWord word) place (Array.replicate (lineWord word).size false) []
        [⟨0, 0, position⟩] =
      ⟨if place.holds .lineStart then [⟨1, 0, position⟩] else [], none⟩ := by
  have first := lineWord_byte nonempty 0 (List.length_pos_iff.mpr nonempty)
  rw [size_lineWord nonempty]
  cases holds : place.holds .lineStart <;>
    simp [follow, lineWord_zero nonempty, first, holds]

theorem follow_reading (nonempty : word ≠ []) (place : Place) (inside : ¬place.holds .lineStart)
    (count position start : Nat) (some : count < word.length) :
    follow (lineWord word) place (Array.replicate (lineWord word).size false) []
        [⟨count + 1, 0, start⟩, ⟨0, 0, position⟩] = ⟨[⟨count + 1, 0, start⟩], none⟩ := by
  have known : count < word.length + 1 := by omega
  rw [size_lineWord nonempty]
  simp [follow, lineWord_zero nonempty, lineWord_byte nonempty count some, inside, known]

theorem follow_accept (nonempty : word ≠ []) (place : Place) (position start : Nat) :
    follow (lineWord word) place (Array.replicate (lineWord word).size false) []
        [⟨word.length + 1, 0, start⟩, ⟨0, 0, position⟩] = ⟨[], some start⟩ := by
  rw [size_lineWord nonempty]
  simp [follow, lineWord_accept nonempty]

/-! ## The whole search -/

/-- How far the search has come: it has read `front`, and the only place there at which the word
may still start a line is `count` bytes back. -/
structure Tracks (word front text : Bytes) (count : Nat) : Prop where
  within : count ≤ word.length
  read : word.take count <:+ front
  started : 0 < count → AtLineStart (front ++ text) (front.length - count)
  only : ∀ place < front.length, StartsLine word (front ++ text) place →
    0 < count ∧ place + count = front.length

namespace Tracks

variable {front text rest : Bytes} {byte : UInt8} {count : Nat}

theorem start (word text : Bytes) : Tracks word [] text 0 :=
  ⟨Nat.zero_le _, by simp, nofun, nofun⟩

theorem length_le (tracks : Tracks word front text count) : count ≤ front.length := by
  have shorter := tracks.read.length_le
  have within := tracks.within
  rw [List.length_take] at shorter
  omega

/-- No line starts behind a part of the word. -/
theorem inside (plain : lineFeed ∉ word) (tracks : Tracks word front text count)
    (begun : 0 < count) : ¬AtLineStart (front ++ text) front.length := by
  rcases tracks.read with ⟨before, rfl⟩
  have within := tracks.within
  have length : (word.take count).length = count := by
    rw [List.length_take]
    omega
  intro starts
  rcases starts with empty | fed
  · rw [List.length_append] at empty
    omega
  -- The byte in front is one of the word's own, and none of those is a line feed.
  · apply plain
    rw [List.getElem?_append_left (by rw [List.length_append]; omega),
      List.getElem?_append_right (by rw [List.length_append]; omega)] at fed
    exact List.mem_of_mem_take (List.mem_of_getElem? fed)

theorem candidate (plain : lineFeed ∉ word) (tracks : Tracks word front text count) {place : Nat}
    (near : place ≤ front.length) (starts : StartsLine word (front ++ text) place) :
    (0 < count ∨ AtLineStart (front ++ text) front.length) ∧ place + count = front.length := by
  rcases Nat.lt_or_eq_of_le near with before | rfl
  · rcases tracks.only place before starts with ⟨begun, met⟩
    exact ⟨.inl begun, met⟩
  · refine ⟨.inr starts.2, ?_⟩
    have fresh : ¬0 < count := fun begun => tracks.inside plain begun starts.2
    omega

/-- The next byte goes on with the word, or no line can start with it any more. -/
theorem advance (plain : lineFeed ∉ word) (tracks : Tracks word front (byte :: rest) count)
    (some : count < word.length) :
    Tracks word (front ++ [byte]) rest
      (if (0 < count ∨ AtLineStart (front ++ byte :: rest) front.length) ∧
          word[count]? = .some byte
        then count + 1 else 0) := by
  have joined : front ++ [byte] ++ rest = front ++ byte :: rest := by simp
  have length := tracks.length_le
  split
  · next goesOn =>
      rcases goesOn with ⟨alive, same⟩
      refine ⟨some, ?_, ?_, ?_⟩
      · rw [List.take_add_one, same]
        exact List.suffix_append_self_iff.mpr tracks.read
      · intro _
        rw [joined, List.length_append, List.length_singleton, Nat.add_sub_add_right]
        rcases Nat.eq_zero_or_pos count with rfl | begun
        · exact alive.resolve_left (Nat.lt_irrefl 0)
        · exact tracks.started begun
      · intro place before starts
        rw [joined] at starts
        rw [List.length_append, List.length_singleton] at before ⊢
        have met := (tracks.candidate plain (by omega) starts).2
        omega
  -- A line that could still start with the word would have needed this very byte.
  · next stops =>
      refine ⟨Nat.zero_le _, by simp, nofun, ?_⟩
      intro place before starts
      rw [joined] at starts
      rw [List.length_append, List.length_singleton] at before
      rcases tracks.candidate plain (by omega) starts with ⟨alive, met⟩
      refine absurd ⟨alive, ?_⟩ stops
      have read := starts.1.getElem?_add some
      rw [met, List.getElem?_append_right (Nat.le_refl _), Nat.sub_self] at read
      rw [List.getElem?_eq_getElem some, ← read]
      rfl

end Tracks

/-- What a search has to come to: the first place at which the word starts a line, and nothing only
if there is none. -/
def Leftmost (word text : Bytes) : Option Span → Prop
  | none => ∀ place, ¬StartsLine word text place
  | some span =>
      span.stop = span.start + word.length ∧ StartsLine word text span.start ∧
        ∀ earlier < span.start, ¬StartsLine word text earlier

theorem holds_lineStart (front text : Bytes) :
    (Place.mk front.getLast? text).holds .lineStart = true ↔
      AtLineStart (front ++ text) front.length := by
  rcases List.eq_nil_or_concat front with rfl | ⟨front, last, rfl⟩
  · simp [Place.holds, AtLineStart]
  · simp [Place.holds, AtLineStart]

variable {text : Bytes}

theorem leftmost_of_accept (nonempty : word ≠ []) {front : Bytes}
    (tracks : Tracks word front text word.length) :
    Leftmost word (front ++ text) (some ⟨front.length - word.length, front.length⟩) := by
  have length := tracks.length_le
  have some := List.length_pos_iff.mpr nonempty
  refine ⟨by dsimp only; omega, ⟨?_, tracks.started some⟩, ?_⟩
  · rcases tracks.read with ⟨before, rfl⟩
    simp [StandsAt]
  · intro earlier before starts
    dsimp only at before
    have met := (tracks.only earlier (by omega) starts).2
    omega

theorem leftmost_of_end (nonempty : word ≠ []) {front : Bytes} {count : Nat}
    (tracks : Tracks word front [] count) (unfinished : count < word.length) :
    Leftmost word (front ++ []) none := by
  intro place starts
  have bound := starts.1.bound nonempty
  have some := List.length_pos_iff.mpr nonempty
  rw [List.append_nil] at bound
  have met := (tracks.only place (by omega) starts).2
  omega

theorem follow_tracks (nonempty : word ≠ []) (plain : lineFeed ∉ word) {front : Bytes}
    {count : Nat} (tracks : Tracks word front text count) :
    follow (lineWord word) ⟨front.getLast?, text⟩ (Array.replicate (lineWord word).size false) []
        (reading count front.length ++ [⟨0, 0, front.length⟩]) =
      if count = word.length then ⟨[], some (front.length - word.length)⟩
      else
        ⟨if 0 < count ∨ AtLineStart (front ++ text) front.length then
            [⟨count + 1, 0, front.length - count⟩]
          else [], none⟩ := by
  have some := List.length_pos_iff.mpr nonempty
  rcases Nat.eq_zero_or_pos count with rfl | begun
  · rw [if_neg (by omega), reading, if_pos rfl, List.nil_append, follow_start nonempty]
    simp only [holds_lineStart, Nat.lt_irrefl, false_or, Nat.sub_zero]
  · rw [reading, if_neg (by omega)]
    rcases Nat.lt_or_eq_of_le tracks.within with unfinished | rfl
    · rw [if_neg (by omega), if_pos (.inl begun)]
      exact follow_reading nonempty _
        (fun holds => tracks.inside plain begun ((holds_lineStart _ _).mp holds)) _ _ _ unfinished
    · rw [if_pos rfl]
      exact follow_accept nonempty _ _ _

theorem take_tracks (nonempty : word ≠ []) {alive : Prop} [Decidable alive] (byte : UInt8)
    (rest : Bytes) {count position : Nat} (unfinished : count < word.length) :
    (if alive then [Thread.mk (count + 1) 0 (position - count)] else []).filterMap
        ((lineWord word).take? byte rest) =
      reading (if alive ∧ word[count]? = some byte then count + 1 else 0) (position + 1) := by
  have read := lineWord_byte nonempty count unfinished
  by_cases goesOn : alive
  · by_cases same : byte = word[count]
    · simp [goesOn, same, take?, read, reading, unfinished]
    · have other : ¬word[count] = byte := fun equal => same equal.symm
      simp [goesOn, same, other, take?, read, reading, unfinished]
  · simp [goesOn, reading]

theorem searchFrom_lineWord (nonempty : word ≠ []) (plain : lineFeed ∉ word) (front : Bytes)
    (count : Nat) (tracks : Tracks word front text count) :
    Leftmost word (front ++ text)
      (searchFrom (lineWord word) front.getLast? front.length (reading count front.length) none
        text) := by
  induction text generalizing front count with
  | nil =>
      rw [searchFrom]
      simp only [Option.isNone_none, if_true, follow_tracks nonempty plain tracks]
      by_cases finished : count = word.length
      · subst finished
        simpa only [if_true] using leftmost_of_accept nonempty tracks
      · have within := tracks.within
        simpa only [if_neg finished] using leftmost_of_end nonempty tracks (by omega)
  | cons byte rest induction =>
      rw [searchFrom]
      simp only [Option.isNone_none, if_true, follow_tracks nonempty plain tracks]
      by_cases finished : count = word.length
      · subst finished
        simpa using leftmost_of_accept nonempty tracks
      -- One byte on, the threads under way are again those of the only candidate.
      · have within := tracks.within
        have unfinished : count < word.length := by omega
        have later := induction _ _ (tracks.advance plain unfinished)
        simp only [if_neg finished, take_tracks nonempty byte rest unfinished]
        simpa using later

/-- The search finds the first line that starts with the word. -/
theorem search_lineWord (nonempty : word ≠ []) (plain : lineFeed ∉ word) (text : Bytes) :
    Leftmost word text ((lineWord word).search text) :=
  searchFrom_lineWord nonempty plain [] 0 (.start word text)

end Pattern.Program

end BootConsole
