import BootConsole.Proofs.Terminal.NormalForm

/-!
# The grammar of terminal output

What a console writes for a terminal is a sequence of items: characters, controls, and escape
sequences of several kinds. Each item has its spelling, and of some there is something to see. The
filter reads the spelling of a sequence of items to what there is to see of them in order, whatever
stands next to what.
-/

namespace BootConsole.Terminal

/-! ## Items -/

structure Head where
  parameters : Bytes
  intermediates : Bytes
  final : UInt8
  areParameters : ∀ byte ∈ parameters, isBetween 0x30 0x3F byte = true
  areIntermediates : ∀ byte ∈ intermediates, isBetween 0x20 0x2F byte = true
  isFinal : isBetween 0x40 0x7E final = true

def Head.spelling (head : Head) : Bytes :=
  head.parameters ++ head.intermediates ++ [head.final]

def bell : UInt8 := 0x07

def stringEnd : Bytes := [escapeByte, 0x5C]

inductive Item where
  /-- A character of ASCII from the blank on, or one behind the upper controls. -/
  | printable (character : Char)
      (visible : 0x20 ≤ character.toNat ∧ character.toNat ≤ 0x7F ∨ 0xA0 ≤ character.toNat)
  | layout (byte : UInt8) (shapes : isLayout byte = true)
  | control (byte : UInt8) (low : byte < 0x20) (other : isLayout byte = false)
      (notEscape : byte ≠ escapeByte)
  | controlSequence (head : Head)
  /-- ESC with intermediates and a final byte. -/
  | escapeSequence (intermediates : Bytes) (final : UInt8) (some : intermediates ≠ [])
      (areIntermediates : ∀ byte ∈ intermediates, isBetween 0x20 0x2F byte = true)
      (isFinal : isBetween 0x30 0x7E final = true)
  /-- ESC and a byte that opens nothing. -/
  | briefEscape (final : UInt8) (isFinal : isBetween 0x30 0x7E final = true)
      (opensNothing : final ∉ [0x50, 0x5B, 0x5D, 0x58, 0x5E, 0x5F])
  | systemCommand (body : Bytes) (free : ∀ byte ∈ body, byte ∉ [bell, 0x18, 0x1A, escapeByte])
      (closing : Bytes) (closes : closing = [bell] ∨ closing = stringEnd)
  | deviceString (head : Head) (body : Bytes)
      (free : ∀ byte ∈ body, byte ∉ [0x18, 0x1A, escapeByte, 0x9C])

namespace Item

def spelling : Item → Bytes
  | .printable character _ => String.utf8EncodeChar character
  | .layout byte _ | .control byte .. => [byte]
  | .controlSequence head => [escapeByte, 0x5B] ++ head.spelling
  | .escapeSequence intermediates final .. => escapeByte :: intermediates ++ [final]
  | .briefEscape final .. => [escapeByte, final]
  | .systemCommand body _ closing _ => [escapeByte, 0x5D] ++ body ++ closing
  | .deviceString head body _ => [escapeByte, 0x50] ++ head.spelling ++ body ++ stringEnd

def text : Item → Bytes
  | .printable character _ => String.utf8EncodeChar character
  | .layout byte _ => [byte]
  | _ => []

end Item

/-! ## Bytes in sequences -/

variable {state : State} {bytes : Bytes} {byte : UInt8}

theorem isBetween_iff {low high : UInt8} :
    isBetween low high byte = true ↔ low.toNat ≤ byte.toNat ∧ byte.toNat ≤ high.toNat := by
  simp [isBetween, UInt8.le_iff_toNat_le]

/-- A byte is in at most one of two ranges that do not meet. -/
theorem isBetween_eq_false {low high least most : UInt8}
    (inside : isBetween low high byte = true)
    (apart : high.toNat < least.toNat ∨ most.toNat < low.toNat) :
    isBetween least most byte = false := by
  have bounds := isBetween_iff.mp inside
  rw [← Bool.not_eq_true, isBetween_iff]
  omega

theorem isPassing_of_ge (high : 0x20 ≤ byte.toNat) : isPassing byte = false := by
  simp only [isPassing, Bool.or_eq_false_iff, Bool.and_eq_false_iff, decide_eq_false_iff_not,
    beq_eq_false_iff_ne, ne_eq, UInt8.le_iff_toNat_le, Utf8.eq_iff_toNat, UInt8.reduceToNat]
  omega

/-- A byte that neither gives a sequence up nor begins another changes nothing. -/
theorem anywhere_of_free (free : byte ∉ [0x18, 0x1A, escapeByte]) :
    anywhere state byte = state := by
  simp only [List.mem_cons, List.not_mem_nil, or_false, not_or] at free
  simp [anywhere, isAbort, free]

theorem free_of_ge (high : 0x20 ≤ byte.toNat) : byte ∉ [0x18, 0x1A, escapeByte] := by
  simp only [List.mem_cons, List.not_mem_nil, or_false, not_or, Utf8.eq_iff_toNat, escapeByte,
    UInt8.reduceToNat]
  omega

/-- What every byte of a stretch keeps up silently holds behind the stretch too. -/
theorem run_of_stays {holds : State → Prop}
    (stays : ∀ state, holds state → ∀ byte ∈ bytes,
      ∃ after, step state byte = (after, []) ∧ holds after)
    (begins : holds state) : ∃ after, run state bytes = (after, []) ∧ holds after := by
  induction bytes generalizing state with
  | nil => exact ⟨state, rfl, begins⟩
  | cons byte rest induction =>
      rcases stays state begins byte List.mem_cons_self with ⟨between, first, onward⟩
      have later := fun state begins other member =>
        stays state begins other (List.mem_cons_of_mem byte member)
      rcases induction later onward with ⟨after, others, ends⟩
      refine ⟨after, ?_, ends⟩
      simp only [run, first, others, List.append_nil]

theorem run_of_loops (loops : ∀ byte ∈ bytes, step state byte = (state, [])) :
    run state bytes = (state, []) := by
  have stays : ∀ current, current = state → ∀ byte ∈ bytes,
      ∃ after, step current byte = (after, []) ∧ after = state := by
    rintro current rfl byte member
    exact ⟨_, loops byte member, rfl⟩
  rcases run_of_stays stays rfl with ⟨_, ran, rfl⟩
  exact ran

/-! ## Heads -/

theorem step_control {part : Part} (inside : isBetween 0x20 0x3F byte = true) :
    step (.control part) byte = (.control (part.next byte), []) := by
  have passes := isPassing_of_ge (isBetween_iff.mp inside).1
  simp [step, controlStep, passes, inside]

theorem step_control_final {part : Part} (final : isBetween 0x40 0x7E byte = true) :
    step (.control part) byte = (.start, []) := by
  have bounds := isBetween_iff.mp final
  simp only [UInt8.reduceToNat] at bounds
  have passes : isPassing byte = false := isPassing_of_ge (by omega)
  have outside : isBetween 0x20 0x3F byte = false := isBetween_eq_false final (by decide)
  simp [step, controlStep, passes, outside, final]

theorem step_device {part : Part} (inside : isBetween 0x20 0x3F byte = true) :
    ∃ next, step (.device part) byte = (.device next, []) := by
  have bounds := isBetween_iff.mp inside
  by_cases refused : part = .refused
  · subst refused
    refine ⟨.refused, ?_⟩
    simp only [step, deviceStep, if_true]
    rw [anywhere_of_free (free_of_ge bounds.1)]
  · exact ⟨part.next byte, by simp [step, deviceStep, refused, inside]⟩

/-- The body of a device control string, shown or not: only its end is waited for. -/
def State.IsBody (state : State) : Prop :=
  state = .deviceBody ∨ state = .device .refused

theorem step_device_final {part : Part} (final : isBetween 0x40 0x7E byte = true) :
    ∃ body, step (.device part) byte = (body, []) ∧ body.IsBody := by
  have bounds := isBetween_iff.mp final
  simp only [UInt8.reduceToNat] at bounds
  by_cases refused : part = .refused
  · subst refused
    refine ⟨.device .refused, ?_, .inr rfl⟩
    simp only [step, deviceStep, if_true]
    rw [anywhere_of_free (free_of_ge (by omega))]
  · have outside : isBetween 0x20 0x3F byte = false := isBetween_eq_false final (by decide)
    exact ⟨.deviceBody, by simp [step, deviceStep, refused, outside, final], .inl rfl⟩

theorem Head.isBetween_of_mem (head : Head)
    (member : byte ∈ head.parameters ++ head.intermediates) : isBetween 0x20 0x3F byte = true := by
  rw [isBetween_iff]
  simp only [UInt8.reduceToNat]
  rcases List.mem_append.mp member with member | member
  · have bounds := isBetween_iff.mp (head.areParameters byte member)
    simp only [UInt8.reduceToNat] at bounds
    omega
  · have bounds := isBetween_iff.mp (head.areIntermediates byte member)
    simp only [UInt8.reduceToNat] at bounds
    omega

/-- Parameters in any mix are read to the final byte. -/
theorem run_control_head (head : Head) :
    run (.control .entry) head.spelling = (.start, []) := by
  have stays : ∀ state, (∃ part, state = .control part) →
      ∀ byte ∈ head.parameters ++ head.intermediates,
        ∃ after, step state byte = (after, []) ∧ ∃ part, after = .control part := by
    rintro _ ⟨part, rfl⟩ byte member
    exact ⟨_, step_control (head.isBetween_of_mem member), _, rfl⟩
  rcases run_of_stays stays ⟨.entry, rfl⟩ with ⟨_, ran, part, rfl⟩
  simp only [Head.spelling, run_append _ (_ ++ _), ran, run, step_control_final head.isFinal,
    List.append_nil]

theorem run_device_head (head : Head) :
    ∃ body, run (.device .entry) head.spelling = (body, []) ∧ body.IsBody := by
  have stays : ∀ state, (∃ part, state = .device part) →
      ∀ byte ∈ head.parameters ++ head.intermediates,
        ∃ after, step state byte = (after, []) ∧ ∃ part, after = .device part := by
    rintro _ ⟨part, rfl⟩ byte member
    rcases step_device (head.isBetween_of_mem member) with ⟨next, stepped⟩
    exact ⟨_, stepped, next, rfl⟩
  rcases run_of_stays stays ⟨.entry, rfl⟩ with ⟨_, ran, part, rfl⟩
  rcases @step_device_final _ part head.isFinal with ⟨body, stepped, isBody⟩
  refine ⟨body, ?_, isBody⟩
  simp only [Head.spelling, run_append _ (_ ++ _), ran, run, stepped, List.append_nil]

theorem State.IsBody.run (isBody : state.IsBody)
    (free : ∀ byte ∈ bytes, byte ∉ [0x18, 0x1A, escapeByte, 0x9C]) :
    run state (bytes ++ stringEnd) = (.start, []) := by
  have loops : ∀ byte ∈ bytes, step state byte = (state, []) := by
    intro byte member
    have others := free byte member
    simp only [List.mem_cons, List.not_mem_nil, or_false, not_or] at others
    have stays : ∀ state, anywhere state byte = state := fun state =>
      anywhere_of_free (by simp [others])
    rcases isBody with rfl | rfl
    · simp [step, others, stays]
    · simp [step, deviceStep, stays]
  have ended : Terminal.run state stringEnd = (.start, []) := by
    rcases isBody with rfl | rfl <;> rfl
  rw [run_append, run_of_loops loops, ended]
  rfl

/-! ## Reading one item -/

/-- A control that is no ESC is carried out. -/
theorem run_control (low : byte.toNat < 0x20) (other : byte ≠ escapeByte) :
    run .start [byte] = (.start, execute byte) := by
  have code : (Char.ofNat byte.toNat).toNat = byte.toNat :=
    Utf8.toNat_ofNat_of_valid (.inl (by omega))
  have notEscape : byte.toNat ≠ 0x1B := fun same => other ((Utf8.eq_iff_toNat _ _).mpr same)
  rw [run, State.start, step_of_scalar (Utf8.push_of_narrow (by omega))]
  simp [groundCharacter, code, notEscape, low, run, State.start]

theorem run_escape_sequence {intermediates : Bytes} {final : UInt8} (some : intermediates ≠ [])
    (between : ∀ byte ∈ intermediates, isBetween 0x20 0x2F byte = true)
    (ends : isBetween 0x30 0x7E final = true) :
    run .escape (intermediates ++ [final]) = (.start, []) := by
  have silent : ∀ byte, isBetween 0x20 0x2F byte = true →
      step .escape byte = (.escapeIntermediate, []) ∧
        step .escapeIntermediate byte = (.escapeIntermediate, []) := by
    intro byte inside
    have bounds := isBetween_iff.mp inside
    simp only [UInt8.reduceToNat] at bounds
    have passes : isPassing byte = false := isPassing_of_ge bounds.1
    have notFinal : isBetween 0x30 0x7E byte = false := isBetween_eq_false inside (by decide)
    have stays := @anywhere_of_free .escapeIntermediate _ (free_of_ge bounds.1)
    simp [step, escapeStep, escapeIntermediateStep, passes, inside, notFinal, stays]
  have last : step .escapeIntermediate final = (.start, []) := by
    have bounds := isBetween_iff.mp ends
    simp only [UInt8.reduceToNat] at bounds
    have passes : isPassing final = false := isPassing_of_ge (by omega)
    simp [step, escapeIntermediateStep, passes, ends]
  cases intermediates with
  | nil => exact absurd rfl some
  | cons first others =>
      rcases List.forall_mem_cons.mp between with ⟨begins, goesOn⟩
      have loops : run .escapeIntermediate others = (.escapeIntermediate, []) :=
        run_of_loops fun byte member => (silent byte (goesOn byte member)).2
      simp only [List.cons_append, run, (silent first begins).1, run_append, loops, last,
        List.append_nil]

theorem step_escape_brief {final : UInt8} (ends : isBetween 0x30 0x7E final = true)
    (opensNothing : final ∉ [0x50, 0x5B, 0x5D, 0x58, 0x5E, 0x5F]) :
    step .escape final = (.start, []) := by
  have bounds := isBetween_iff.mp ends
  simp only [UInt8.reduceToNat] at bounds
  have passes : isPassing final = false := isPassing_of_ge (by omega)
  have notIntermediate : isBetween 0x20 0x2F final = false := isBetween_eq_false ends (by decide)
  simp only [List.mem_cons, List.not_mem_nil, or_false, not_or] at opensNothing
  simp [step, escapeStep, passes, notIntermediate, opensNothing, ends]

theorem run_system_command {closing : Bytes}
    (free : ∀ byte ∈ bytes, byte ∉ [bell, 0x18, 0x1A, escapeByte])
    (closes : closing = [bell] ∨ closing = stringEnd) :
    run .systemCommand (bytes ++ closing) = (.start, []) := by
  have loops : ∀ byte ∈ bytes, step .systemCommand byte = (.systemCommand, []) := by
    intro byte member
    have others := free byte member
    simp only [List.mem_cons, List.not_mem_nil, or_false, not_or, bell] at others
    have stays : anywhere .systemCommand byte = .systemCommand :=
      anywhere_of_free (by simp [others])
    simp [step, others, stays]
  have ended : run .systemCommand closing = (.start, []) := by
    rcases closes with rfl | rfl <;> rfl
  rw [run_append, run_of_loops loops, ended]
  rfl

theorem run_item (item : Item) : run .start item.spelling = (.start, item.text) := by
  have opens (next : UInt8) (rest : Bytes) :
      run .start ([escapeByte, next] ++ rest) =
        ((run (step .escape next).1 rest).1,
          (step .escape next).2 ++ (run (step .escape next).1 rest).2) := rfl
  cases item with
  | printable character visible =>
      have shown : IsShown character := .inr (by omega)
      exact run_of_shown shown
  | layout byte shapes =>
      have low : byte.toNat < 0x20 ∧ byte ≠ escapeByte := by
        simp only [isLayout, Bool.or_eq_true, beq_iff_eq] at shapes
        rcases shapes with ((rfl | rfl) | rfl) | rfl <;> decide
      rw [Item.spelling, run_control low.1 low.2, execute_of_layout shapes]
      rfl
  | control byte low other notEscape =>
      have low : byte.toNat < 0x20 := UInt8.lt_iff_toNat_lt.mp low
      rw [Item.spelling, run_control low notEscape, execute_of_other other]
      rfl
  | controlSequence head =>
      rw [Item.spelling, opens]
      exact congrArg (fun read : State × Bytes => (read.1, [] ++ read.2)) (run_control_head head)
  | escapeSequence intermediates final some between ends =>
      rw [Item.spelling, List.cons_append]
      exact congrArg (fun read : State × Bytes => (read.1, [] ++ read.2))
        (run_escape_sequence some between ends)
  | briefEscape final ends opensNothing =>
      rw [Item.spelling, ← List.append_nil [escapeByte, final], opens,
        step_escape_brief ends opensNothing]
      rfl
  | systemCommand body free closing closes =>
      rw [Item.spelling, List.append_assoc, opens]
      exact congrArg (fun read : State × Bytes => (read.1, [] ++ read.2))
        (run_system_command free closes)
  | deviceString head body free =>
      rcases run_device_head head with ⟨inside, opened, isBody⟩
      have ended : run (.device .entry) (head.spelling ++ (body ++ stringEnd)) = (.start, []) := by
        rw [run_append, opened, isBody.run free]
        rfl
      rw [Item.spelling, List.append_assoc, List.append_assoc, opens]
      exact congrArg (fun read : State × Bytes => (read.1, [] ++ read.2)) ended

/-! ## Reading a sequence -/

/-- A sequence of items is filtered to what there is to see of them, one after the other, and
nothing is left open at its end. -/
theorem plainText_spelling (items : List Item) :
    plainText .start (items.flatMap Item.spelling) = (.start, items.flatMap Item.text) := by
  change run .start _ = _
  induction items with
  | nil => rfl
  | cons item rest induction =>
      rw [List.flatMap_cons, run_append, run_item, induction]
      rfl

/-- Colours and a window title around a prompt. -/
example :
    plainText .start (Utf8.encode "\x1b[31mRed\x1b[0m\x1b]0;title\x07Boot>") =
      (.start, Utf8.encode "RedBoot>") := by
  decide +kernel

end BootConsole.Terminal
