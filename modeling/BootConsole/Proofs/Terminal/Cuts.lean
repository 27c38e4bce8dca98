import BootConsole.Proofs.Terminal.NormalForm

/-!
# Text cut into chunks

A cut within a sequence, or in front of a whole character, is not to be seen in the plain text. A
cut within a character may be: a control that is completed behind it is let through, and an ASCII
byte behind a completed character of two bytes is lost if another character follows. Both are said
exactly, and with them when a stream reads as if it had not been cut.
-/

namespace BootConsole.Terminal

open Utf8 (Continues Begins push leading? validLength)

variable {kept middle chunk : Bytes} {byte : UInt8} {character : Char} {state : State}

/-! ## What a cut changes -/

/-- The chunk less the byte that is lost when it goes on with the character `kept`: behind a
character of two bytes, an ASCII byte in front of one that is none. -/
def surviving (kept chunk : Bytes) : Bytes :=
  match chunk with
  | second :: lost :: next :: rest =>
      if (leading? kept chunk).map Prod.snd = some 2 ∧ lost < 0x80 ∧ 0x80 ≤ next then
        second :: next :: rest
      else chunk
  | _ => chunk

def added (kept chunk : Bytes) : Bytes :=
  match leading? kept chunk with
  | some (character, _) =>
      if character.toNat ≤ 0x9F then String.utf8EncodeChar character else []
  | none => []

theorem surviving_of_unread
    (unread : leading? kept chunk = none) : surviving kept chunk = chunk := by
  unfold surviving
  split
  · rw [unread]
    exact if_neg (by simp)
  · rfl

theorem added_of_unread (unread : leading? kept chunk = none) : added kept chunk = [] := by
  rw [added, unread]

theorem overtaken_of_short {room : Bytes} (short : room.length ≤ 1) : overtaken room = 0 := by
  match room with
  | [] => rfl
  | [byte] =>
      rcases Nat.lt_or_ge byte.toNat 0x80 with narrow | wide
      · have valid : validLength [] [byte] = 1 :=
          Utf8.validLength_of_scalar (Utf8.push_of_narrow narrow) []
        simp [overtaken, valid]
      · simp [overtaken, Utf8.validLength_of_wide wide]

theorem overtaken_pair (lost next : UInt8) :
    overtaken [lost, next] = if lost < 0x80 ∧ 0x80 ≤ next then 1 else 0 := by
  simp only [UInt8.lt_iff_toNat_lt, UInt8.le_iff_toNat_le, UInt8.reduceToNat]
  rcases Nat.lt_or_ge lost.toNat 0x80 with narrow | wide
  · have valid : validLength [] [lost, next] = 1 + validLength [] [next] :=
      Utf8.validLength_of_scalar (Utf8.push_of_narrow narrow) [next]
    rcases Nat.lt_or_ge next.toNat 0x80 with also | other
    · have behind : validLength [] [next] = 1 :=
        Utf8.validLength_of_scalar (Utf8.push_of_narrow also) []
      simp [overtaken, valid, behind, also]
    · simp [overtaken, valid, Utf8.validLength_of_wide other, narrow, other]
  · have broad : ¬lost.toNat < 0x80 := Nat.not_lt.mpr wide
    rcases Utf8.validLength_pair_of_wide wide next with none | both
    · simp [overtaken, none, broad]
    · simp [overtaken, both, broad]

theorem surviving_of_scalar (begun : kept ≠ []) (continues : Continues kept middle)
    (scalar : push (kept ++ middle) byte = .scalar character) (rest : Bytes) :
    surviving kept (middle ++ byte :: rest) =
      middle ++ byte :: rest.drop (overtaken (rest.take (3 - (kept ++ middle).length))) := by
  have read : leading? kept (middle ++ byte :: rest) =
      some (character, (kept ++ middle).length + 1) := by
    rw [continues.leading?_append, Utf8.leading?_of_scalar scalar]
  have longer := List.length_pos_iff.mpr begun
  by_cases pair : (kept ++ middle).length = 1
  · have alone : middle = [] := by
      rw [List.length_append] at pair
      exact List.length_eq_zero_iff.mp (by omega)
    subst alone
    rw [pair] at read ⊢
    match rest with
    | [] => rfl
    | [lost] => simp [surviving, overtaken_of_short]
    | lost :: next :: rest =>
        simp only [List.nil_append] at read ⊢
        simp only [surviving, read, List.take_succ_cons, List.take_zero, overtaken_pair]
        by_cases loses : lost < 0x80 ∧ 0x80 ≤ next
        · simp [loses]
        · simp [loses]
  -- Behind a longer character the filter looks at one byte at most.
  · have none : overtaken (rest.take (3 - (kept ++ middle).length)) = 0 := by
      apply overtaken_of_short
      rw [List.length_take, List.length_append] at *
      omega
    rw [none, List.drop_zero]
    unfold surviving
    split
    · have other : (leading? kept (middle ++ byte :: rest)).map Prod.snd ≠ some 2 := by
        simpa [read] using pair
      exact if_neg fun loses => other loses.1
    · rfl

theorem added_of_scalar (continues : Continues kept middle)
    (scalar : push (kept ++ middle) byte = .scalar character) (rest : Bytes) :
    added kept (middle ++ byte :: rest) =
      if character.toNat ≤ 0x9F then String.utf8EncodeChar character else [] := by
  rw [added, continues.leading?_append, Utf8.leading?_of_scalar scalar]

/-- A chunk that goes on with a cut character reads as what survives of it does in the uncut
stream, behind what is added. -/
theorem plainText_of_begun (begins : Begins kept) (begun : kept ≠ []) (chunk : Bytes) :
    plainText (.ground kept) chunk =
      ((run (.ground kept) (surviving kept chunk)).1,
        added kept chunk ++ (run (.ground kept) (surviving kept chunk)).2) := by
  rcases Utf8.continues_or_ends kept chunk with continues | ⟨middle, byte, rest, rfl, continues, ends⟩
  · have unread := continues.leading?_eq_none
    rw [plainText_of_continues begins begun continues, surviving_of_unread unread,
      added_of_unread unread, run_of_continues continues]
    rfl
  · cases pushed : push (kept ++ middle) byte with
    | more => exact absurd pushed ends
    | scalar character =>
        have also : kept ++ middle ≠ [] := by simp [begun]
        have wide := (Utf8.wide_of_scalar (begins.append continues).unfinished also pushed).1
        rw [plainText_of_scalar begins begun continues pushed,
          surviving_of_scalar begun continues pushed, added_of_scalar continues pushed,
          run_of_scalar continues pushed, groundCharacter_of_wide wide]
        by_cases control : character.toNat ≤ 0x9F
        · simp [control]
        · simp [control]
    | broken =>
        have unread : leading? kept (middle ++ byte :: rest) = none := by
          rw [continues.leading?_append, Utf8.leading?_of_broken pushed]
        rw [plainText_of_broken begins begun continues pushed, surviving_of_unread unread,
          added_of_unread unread]
        rfl

/-! ## A stream in chunks -/

/-- That the stream was cut in front of the chunk makes no difference: if the chunk goes on with a
cut character, nothing is added and what is lost is not missed. -/
def Harmless (state : State) (chunk : Bytes) : Prop :=
  ∀ kept, state = .ground kept → kept ≠ [] →
    added kept chunk = [] ∧ run state (surviving kept chunk) = run state chunk

def State.IsWhole (state : State) : Prop :=
  ∀ kept, state = .ground kept → kept = []

theorem State.isWhole_or_cut (state : State) :
    state.IsWhole ∨ ∃ kept, state = .ground kept ∧ kept ≠ [] := by
  by_cases cut : ∃ kept, state = .ground kept ∧ kept ≠ []
  · exact .inr cut
  · refine .inl fun kept same => ?_
    by_contra begun
    exact cut ⟨kept, same, begun⟩

theorem plainText_of_whole (whole : state.IsWhole) (chunk : Bytes) :
    plainText state chunk = run state chunk := by
  unfold plainText
  split
  · next first others => exact absurd (whole _ rfl) (by simp)
  · rfl

/-- What is added in a cut stream is never there in the uncut one. -/
theorem added_eq_nil_of_plain {rest : Bytes} (begins : Begins kept) (begun : kept ≠ [])
    (plain : IsPlain (added kept chunk ++ rest)) : added kept chunk = [] := by
  cases read : leading? kept chunk with
  | none => exact added_of_unread read
  | some ending =>
      rcases ending with ⟨character, width⟩
      have wide := Utf8.wide_of_leading? begins.unfinished begun read
      by_cases control : character.toNat ≤ 0x9F
      · simp only [added, read, if_pos control] at plain
        rcases plain.shown_of_prefix (List.prefix_append _ rest) with layout | high
        · simp only [List.mem_cons, List.not_mem_nil, or_false] at layout
          omega
        · exact absurd ⟨wide, control⟩ high.2
      · simp only [added, read, if_neg control]

theorem plainText_eq_run_iff (sound : Sound state) (chunk : Bytes) :
    plainText state chunk = run state chunk ↔ Harmless state chunk := by
  rcases state.isWhole_or_cut with whole | ⟨kept, rfl, begun⟩
  · exact iff_of_true (plainText_of_whole whole chunk)
      fun kept same begun => absurd (whole kept same) begun
  · rw [plainText_of_begun sound begun]
    constructor
    · intro same other equal _
      cases equal
      have shown := congrArg Prod.snd same
      have nothing := added_eq_nil_of_plain sound begun (shown ▸ isPlain_run _ _)
      refine ⟨nothing, ?_⟩
      rwa [nothing, List.nil_append] at same
    · intro harmless
      rcases harmless kept rfl begun with ⟨nothing, unmissed⟩
      rw [nothing, List.nil_append, unmissed]

def rejoined (read : State × List Bytes) : State × Bytes :=
  (read.1, read.2.flatten)

theorem rejoined_plainTexts_concat (state : State) (chunks : List Bytes) (last : Bytes) :
    rejoined (plainTexts state (chunks ++ [last])) =
      let read := rejoined (plainTexts state chunks)
      ((plainText read.1 last).1, read.2 ++ (plainText read.1 last).2) := by
  induction chunks generalizing state with
  | nil => simp [rejoined, plainTexts]
  | cons chunk rest induction =>
      have others := induction (plainText state chunk).1
      simp only [rejoined, Prod.mk.injEq] at others
      simp [rejoined, plainTexts, others]

/-- Chunk by chunk a stream reads to the plain text and the state to which it reads uncut, exactly
when every cut is harmless. -/
theorem plainTexts_uncut_iff (chunks : List Bytes) :
    (∀ earlier, earlier <+: chunks →
      rejoined (plainTexts .start earlier) = plainText .start earlier.flatten) ↔
      ∀ before chunk, before ++ [chunk] <+: chunks →
        Harmless (plainText .start before.flatten).1 chunk := by
  have uncut : ∀ stream, plainText .start stream = run .start stream := fun _ => rfl
  have grown : ∀ (before : List Bytes) (chunk : Bytes),
      (before ++ [chunk]).flatten = before.flatten ++ chunk := by simp
  simp only [uncut]
  constructor
  · intro reads before chunk begins
    have sound : Sound (run .start before.flatten).1 := sound_run sound_start _
    have earlier := reads before ((List.prefix_append before [chunk]).trans begins)
    have later := reads (before ++ [chunk]) begins
    rw [rejoined_plainTexts_concat, earlier, grown, run_append] at later
    simp only [Prod.mk.injEq, List.append_cancel_left_eq] at later
    exact (plainText_eq_run_iff sound chunk).mp (Prod.ext later.1 later.2)
  · intro harmless earlier begins
    induction earlier using List.reverseRecOn with
    | nil => rfl
    | append_singleton before chunk induction =>
        have sound : Sound (run .start before.flatten).1 := sound_run sound_start _
        have kind := (plainText_eq_run_iff sound chunk).mpr (harmless before chunk begins)
        have front := induction ((List.prefix_append before [chunk]).trans begins)
        rw [rejoined_plainTexts_concat, front, grown, run_append]
        simp only [kind]

/-- Two characters with a letter between them, cut within the first one: the letter is lost. -/
theorem plainTexts_loses_character :
    rejoined (plainTexts .start [[0xC3], [0xA9, 0x61, 0xC3, 0xA9]]) =
        (.start, Utf8.encode "éé") ∧
      plainText .start [0xC3, 0xA9, 0x61, 0xC3, 0xA9] = (.start, Utf8.encode "éaé") := by
  decide

/-! ## Text that passes unchanged -/

def IsText (bytes : Bytes) : Prop :=
  ∃ characters : List Char, (∀ character ∈ characters, character.toNat ≠ 0x1B) ∧
    bytes = characters.flatMap String.utf8EncodeChar

theorem IsText.append {first second : Bytes} (before : IsText first) (behind : IsText second) :
    IsText (first ++ second) := by
  rcases before with ⟨earlier, free, rfl⟩
  rcases behind with ⟨later, also, rfl⟩
  refine ⟨earlier ++ later, ?_, List.flatMap_append.symm⟩
  intro character member
  rcases List.mem_append.mp member with member | member
  · exact free character member
  · exact also character member

theorem IsPlain.isText {bytes : Bytes} (plain : IsPlain bytes) : IsText bytes := by
  rcases plain with ⟨characters, shown, rfl⟩
  refine ⟨characters, fun character member escape => ?_, rfl⟩
  rcases shown character member with layout | ⟨least, _⟩
  · simp [escape] at layout
  · omega

theorem isText_added (begins : Begins kept) (begun : kept ≠ []) (chunk : Bytes) :
    IsText (added kept chunk) := by
  rw [added]
  split
  · next character width read =>
      have wide := Utf8.wide_of_leading? begins.unfinished begun read
      split
      · exact ⟨[character], by simp; omega, by simp⟩
      · exact isPlain_nil.isText
  · exact isPlain_nil.isText

theorem escape_not_mem_encoded (other : character.toNat ≠ 0x1B) :
    escapeByte ∉ String.utf8EncodeChar character := by
  rw [Utf8.mem_utf8EncodeChar_iff (by decide)]
  rintro rfl
  exact other rfl

theorem IsText.escape_not_mem {bytes : Bytes} (text : IsText bytes) : escapeByte ∉ bytes := by
  rcases text with ⟨characters, free, rfl⟩
  intro member
  rcases List.mem_flatMap.mp member with ⟨character, inside, spelled⟩
  exact escape_not_mem_encoded (free character inside) spelled

theorem groundCharacter_start (other : character.toNat ≠ 0x1B) :
    (groundCharacter character).1 = .start := by
  rw [groundCharacter, if_neg other]
  split <;> rfl

/-- Behind whole characters nothing is pending. -/
theorem IsText.run_start {bytes : Bytes} (text : IsText bytes) : (run .start bytes).1 = .start := by
  rcases text with ⟨characters, free, rfl⟩
  induction characters with
  | nil => rfl
  | cons character rest induction =>
      rcases List.forall_mem_cons.mp free with ⟨first, others⟩
      rw [List.flatMap_cons, run_append, run_character, groundCharacter_start first]
      exact induction others

/-- A byte that is lost would have left nothing pending. -/
theorem run_surviving (begins : Begins kept) (begun : kept ≠ []) (free : escapeByte ∉ chunk) :
    (run (.ground kept) (surviving kept chunk)).1 = (run (.ground kept) chunk).1 := by
  unfold surviving
  split
  · next second lost next rest =>
      split
      · next loses =>
          rcases loses with ⟨read, narrow, _⟩
          have narrow : lost.toNat < 0x80 := UInt8.lt_iff_toNat_lt.mp narrow
          cases pushed : push kept second with
          | broken =>
              rw [Utf8.leading?_of_broken pushed] at read
              cases read
          | more =>
              have longer := (Utf8.unfinished_of_more begins.unfinished pushed).1
              have breaks := Utf8.push_of_begun (by simp) longer narrow
              rw [leading?, pushed] at read
              dsimp only at read
              rw [Utf8.leading?_of_broken breaks] at read
              cases read
          -- The lost byte stands behind a completed character, and is one of ASCII.
          | scalar character =>
              have wide := (Utf8.wide_of_scalar begins.unfinished begun pushed).1
              have other : (Char.ofNat lost.toNat).toNat ≠ 0x1B := by
                rw [Utf8.toNat_ofNat_of_valid (.inl (by omega))]
                intro same
                have escape : lost = escapeByte := (Utf8.eq_iff_toNat _ _).mpr same
                exact free (by simp [escape])
              have alone : (step .start lost).1 = .start := by
                rw [State.start, step_of_scalar (Utf8.push_of_narrow narrow)]
                exact groundCharacter_start other
              simp only [run, step_of_scalar pushed, groundCharacter_of_wide wide, alone]
      · rfl
  · rfl

/-- What is read of a chunk: text, and after it what is left of the chunk. -/
theorem plainText_parts (sound : Sound state) (chunk : Bytes) :
    ∃ front left, IsText front ∧
      plainText state chunk = ((run state left).1, front ++ (run state left).2) ∧
      (escapeByte ∉ chunk → (run state left).1 = (run state chunk).1) := by
  rcases state.isWhole_or_cut with whole | ⟨kept, rfl, begun⟩
  · exact ⟨[], chunk, isPlain_nil.isText, plainText_of_whole whole chunk, fun _ => rfl⟩
  · exact ⟨_, _, isText_added sound begun chunk, plainText_of_begun sound begun chunk,
      run_surviving sound begun⟩

/-- Without sequences a cut stream leaves pending what the uncut one does. -/
theorem plainTexts_parts (sound : Sound state) (chunks : List Bytes) :
    IsText (plainTexts state chunks).2.flatten ∧
      (escapeByte ∉ chunks.flatten →
        (plainTexts state chunks).1 = (run state chunks.flatten).1) := by
  induction chunks generalizing state with
  | nil => exact ⟨isPlain_nil.isText, fun _ => rfl⟩
  | cons chunk rest induction =>
      rcases plainText_parts sound chunk with ⟨front, left, text, parts, follows⟩
      rcases induction (sound_run sound left) with ⟨others, behind⟩
      rw [plainTexts, parts]
      refine ⟨(text.append (isPlain_run state left).isText).append others, fun free => ?_⟩
      rw [List.flatten_cons, List.mem_append, not_or] at free
      dsimp only
      rw [behind free.2, follows free.1, List.flatten_cons, run_append]

/-- Chunks of which the filter takes nothing away leave nothing pending. -/
theorem plainTexts_of_unchanged {chunks : List Bytes}
    (unchanged : (plainTexts .start chunks).2.flatten = chunks.flatten) :
    (plainTexts .start chunks).1 = .start := by
  rcases plainTexts_parts sound_start chunks with ⟨text, follows⟩
  rw [unchanged] at text
  rw [follows text.escape_not_mem, text.run_start]

theorem plainTexts_of_each_unchanged {chunks : List Bytes}
    (each : ∀ chunk ∈ chunks, (plainText .start chunk).2 = chunk) :
    plainTexts .start chunks = (.start, chunks) := by
  induction chunks with
  | nil => rfl
  | cons chunk rest induction =>
      rcases List.forall_mem_cons.mp each with ⟨first, others⟩
      have alone : (plainTexts .start [chunk]).2.flatten = [chunk].flatten := by
        simpa [plainTexts] using first
      have start : (plainText .start chunk).1 = .start := plainTexts_of_unchanged alone
      rw [plainTexts, start, first, induction others]

/-! ## ASCII -/

theorem State.isWhole_start : State.start.IsWhole := by
  intro kept same
  cases same
  rfl

theorem State.InSequence.isWhole {state : State} (sequence : state.InSequence) : state.IsWhole :=
  fun kept same => absurd same (sequence kept)

theorem isWhole_groundCharacter (character : Char) : (groundCharacter character).1.IsWhole := by
  have escaped : State.escape.InSequence := nofun
  rw [groundCharacter]
  split
  · exact escaped.isWhole
  · split <;> exact State.isWhole_start

theorem State.IsWhole.step (whole : state.IsWhole) (narrow : byte.toNat < 0x80) :
    (step state byte).1.IsWhole := by
  rcases state.ground_or_inSequence with ⟨kept, rfl⟩ | sequence
  · cases whole kept rfl
    simp only [Terminal.step, groundStep, groundByte, Utf8.push_of_narrow narrow]
    exact isWhole_groundCharacter _
  · rcases (step_of_sequence sequence byte).1 with ended | onward
    · rw [ended]
      exact State.isWhole_start
    · exact onward.isWhole

theorem State.IsWhole.run {bytes : Bytes} (whole : state.IsWhole)
    (narrow : ∀ byte ∈ bytes, byte.toNat < 0x80) :
    (run state bytes).1.IsWhole := by
  induction bytes generalizing state with
  | nil => exact whole
  | cons byte rest induction =>
      rcases List.forall_mem_cons.mp narrow with ⟨first, others⟩
      exact induction (whole.step first) others

end BootConsole.Terminal
