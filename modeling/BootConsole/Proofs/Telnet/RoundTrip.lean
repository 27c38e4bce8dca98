import BootConsole.Telnet.Encoder

/-!
# Reading what was encoded

The encoder leaves a carriage return as it is, and the decoder reads one by what stands behind it.
So what was encoded is read back but for two things: a NUL behind a carriage return is taken for its
padding, and a carriage return at the very end is still held back.
-/

namespace BootConsole.Telnet

/-- The text without the NUL of every pair of a carriage return and a NUL. -/
def unpadded : Bytes → Bytes
  | [] => []
  | [byte] => [byte]
  | first :: second :: rest =>
      if first = carriageReturn ∧ second = nul then carriageReturn :: unpadded rest
      else first :: unpadded (second :: rest)

theorem unpadded_pair (rest : Bytes) :
    unpadded (carriageReturn :: nul :: rest) = carriageReturn :: unpadded rest := by
  rw [unpadded, if_pos ⟨rfl, rfl⟩]

theorem unpadded_cons {first : UInt8} (other : first ≠ carriageReturn) (rest : Bytes) :
    unpadded (first :: rest) = first :: unpadded rest := by
  cases rest with
  | nil => rfl
  | cons second rest => rw [unpadded, if_neg fun pair => other pair.1]

theorem unpadded_return {second : UInt8} (other : second ≠ nul) (rest : Bytes) :
    unpadded (carriageReturn :: second :: rest) =
      carriageReturn :: unpadded (second :: rest) := by
  rw [unpadded, if_neg fun pair => other pair.2]

theorem length_unpadded_le (data : Bytes) : (unpadded data).length ≤ data.length := by
  fun_induction unpadded data with
  | case1 | case2 => exact Nat.le_refl _
  | case3 first second rest pair induction =>
      simp only [List.length_cons]
      omega
  | case4 first second rest single induction =>
      simp only [List.length_cons] at induction ⊢
      omega

theorem unpadded_eq_self_iff (data : Bytes) :
    unpadded data = data ↔ ¬[carriageReturn, nul] <:+: data := by
  fun_induction unpadded data with
  | case1 => simp
  | case2 byte =>
      have short : ¬[carriageReturn, nul] <:+: [byte] := by
        intro inside
        have longer := inside.length_le
        simp at longer
      simp [short]
  | case3 first second rest pair induction =>
      obtain ⟨rfl, rfl⟩ := pair
      have inside : [carriageReturn, nul] <:+: carriageReturn :: nul :: rest := ⟨[], rest, rfl⟩
      have shorter := length_unpadded_le rest
      refine ⟨fun same => ?_, fun free => absurd inside free⟩
      have sizes := congrArg List.length same
      simp only [List.length_cons] at sizes
      omega
  | case4 first second rest single induction =>
      have front : ¬[carriageReturn, nul] <+: first :: second :: rest := by
        simp only [List.cons_prefix_cons, List.nil_prefix, and_true]
        exact fun pair => single ⟨pair.1.symm, pair.2.symm⟩
      have behind : [carriageReturn, nul] <:+: first :: second :: rest ↔
          [carriageReturn, nul] <:+: second :: rest :=
        List.infix_cons_iff.trans (or_iff_right front)
      rw [List.cons.injEq, induction, behind]
      simp

/-! ## Between two bytes of a text -/

namespace State

def IsOutside (state : State) : Prop :=
  state = .text ∨ state = .carriageReturn

def held : State → Bytes
  | .carriageReturn => [BootConsole.carriageReturn]
  | _ => []

def behind (byte : UInt8) : State :=
  if byte = BootConsole.carriageReturn then .carriageReturn else .text

theorem isOutside_behind (byte : UInt8) : (behind byte).IsOutside := by
  rw [behind]
  split
  · exact .inr rfl
  · exact .inl rfl

end State

theorem run_text_encodeByte (byte : UInt8) :
    run .text (encodeByte byte) =
      (.behind byte, .ofText (if byte = carriageReturn then [] else [byte])) := by
  rw [encodeByte, State.behind]
  split
  · next escapes => subst escapes; rfl
  · next ordinary =>
      split
      · next feeds => subst feeds; rfl
      · next inLine =>
          by_cases returns : byte = carriageReturn
          · subst returns
            rfl
          · simp [run, step, textStep, ordinary, returns, Output.ofText, Output.append, Output.empty]

theorem run_carriageReturn_encodeByte (byte : UInt8) :
    run .carriageReturn (encodeByte byte) =
      (.behind byte,
        .ofText (carriageReturn ::
          if byte = carriageReturn ∨ byte = nul then [] else [byte])) := by
  rw [encodeByte, State.behind]
  split
  · next escapes => subst escapes; rfl
  · next ordinary =>
      split
      · next feeds => subst feeds; rfl
      · next inLine =>
          by_cases returns : byte = carriageReturn
          · subst returns
            rfl
          by_cases pads : byte = nul
          · subst pads
            rfl
          · simp [run, step, carriageReturnStep, textStep, ordinary, inLine, returns, pads,
              Output.ofText, Output.append, Output.empty]

/-- A byte of a text is read to what it adds: what is given out and what is then held back is what
was held back before and the byte, unpadded. -/
theorem run_encodeByte {state : State} (outside : state.IsOutside) (byte : UInt8) :
    ∃ text, run state (encodeByte byte) = (.behind byte, .ofText text) ∧
      ∀ rest, text ++ unpadded ((State.behind byte).held ++ rest) =
        unpadded (state.held ++ byte :: rest) := by
  rcases outside with rfl | rfl
  · refine ⟨_, run_text_encodeByte byte, fun rest => ?_⟩
    by_cases returns : byte = carriageReturn
    · subst returns
      rfl
    · rw [State.behind, if_neg returns, if_neg returns]
      exact (unpadded_cons returns rest).symm
  · refine ⟨_, run_carriageReturn_encodeByte byte, fun rest => ?_⟩
    by_cases returns : byte = carriageReturn
    · subst returns
      exact (unpadded_return (by decide) rest).symm
    by_cases pads : byte = nul
    · subst pads
      exact (unpadded_pair rest).symm
    · rw [State.behind, if_neg returns, if_neg (not_or.mpr ⟨returns, pads⟩)]
      calc carriageReturn :: byte :: unpadded rest
        _ = carriageReturn :: unpadded (byte :: rest) := by rw [unpadded_cons returns]
        _ = unpadded (carriageReturn :: byte :: rest) := (unpadded_return pads rest).symm

/-! ## A whole text -/

/-- What was encoded is read without an answer, to the text without its padding, the last part of
which may be held back. -/
theorem run_encode {state : State} (outside : state.IsOutside) (data : Bytes) :
    ∃ text, run state (encode data) = ((data.getLast?.map State.behind).getD state, .ofText text) ∧
      text ++ ((data.getLast?.map State.behind).getD state).held = unpadded (state.held ++ data) := by
  induction data generalizing state with
  | nil =>
      refine ⟨[], rfl, ?_⟩
      rcases outside with rfl | rfl <;> rfl
  | cons byte rest induction =>
      rcases run_encodeByte outside byte with ⟨first, read, adds⟩
      rcases induction (State.isOutside_behind byte) with ⟨others, onward, whole⟩
      have last : ((byte :: rest).getLast?.map State.behind).getD state =
          (rest.getLast?.map State.behind).getD (.behind byte) := by
        rw [List.getLast?_cons]
        cases rest.getLast? <;> rfl
      refine ⟨first ++ others, ?_, ?_⟩
      · rw [encode, List.flatMap_cons, run_append, read, ← encode, onward, last]
        rfl
      · rw [last, List.append_assoc, whole, adds]

/-- The same from the start of a stream, where nothing is held back. -/
theorem run_text_encode (data : Bytes) :
    let state : State := if data.getLast? = some carriageReturn then .carriageReturn else .text
    ∃ text, run .text (encode data) = (state, .ofText text) ∧
      text ++ state.held = unpadded data := by
  have last : (data.getLast?.map State.behind).getD .text =
      if data.getLast? = some carriageReturn then .carriageReturn else .text := by
    cases data.getLast? with
    | none => rfl
    | some byte => simp [State.behind]
  have read := run_encode (.inl rfl) data
  rwa [last] at read

/-- A text without padded returns that does not end in a carriage return is read back as it is. -/
theorem run_encode_of_unpadded {data : Bytes} (free : ¬[carriageReturn, nul] <:+: data)
    (ends : data.getLast? ≠ some carriageReturn) :
    run .text (encode data) = (.text, .ofText data) := by
  rcases run_text_encode data with ⟨text, read, whole⟩
  rw [if_neg ends] at read whole
  rw [read, ← (unpadded_eq_self_iff data).mpr free, ← whole]
  exact congrArg (fun text => (State.text, Output.ofText text)) (List.append_nil text).symm

/-- Whatever was encoded is read without an answer, to the text with a carriage return for every
pair of a carriage return and a NUL; but a carriage return at its end is held back. So exactly the
texts that have neither come back as they were. -/
theorem decode_encode (data : Bytes) :
    let read := decode .text (encode data)
    read.2.replies = [] ∧
      read.2.text ++ (if data.getLast? = some carriageReturn then [carriageReturn] else []) =
        unpadded data ∧
      (read.1 = if data.getLast? = some carriageReturn then .carriageReturn else .text) ∧
      (read.2.text = data ↔
        ¬[carriageReturn, nul] <:+: data ∧ data.getLast? ≠ some carriageReturn) := by
  intro read
  have bytewise : read = run .text (encode data) := decode_eq_run .text (encode data)
  rcases run_text_encode data with ⟨text, same, whole⟩
  rw [bytewise, same]
  have shorter := length_unpadded_le data
  by_cases returns : data.getLast? = some carriageReturn
  · rw [if_pos returns] at whole
    refine ⟨rfl, by rw [if_pos returns, if_pos returns]; exact whole, rfl, ?_⟩
    -- One byte is missing at the end.
    have fewer : text.length + 1 ≤ data.length := by
      rw [← whole, List.length_append] at shorter
      exact shorter
    refine ⟨fun equal => ?_, fun both => absurd returns both.2⟩
    have sizes : text.length = data.length := congrArg List.length equal
    omega
  · rw [if_neg returns] at whole
    refine ⟨rfl, by rw [if_neg returns, if_neg returns]; exact whole, rfl, ?_⟩
    have text : text = unpadded data := (List.append_nil text).symm.trans whole
    subst text
    rw [← unpadded_eq_self_iff]
    exact ⟨fun equal => ⟨equal, returns⟩, fun both => both.1⟩

/-- Carriage returns in front of a line feed, a NUL, an IAC and the end. -/
example :
    decode .text (encode [0x0D, 0x0A, 0x0D, 0x0D, 0, 0, 0x0D, 255, 0x0D]) =
      (.carriageReturn, .ofText [0x0D, 0x0A, 0x0D, 0x0D, 0, 0x0D, 255]) := by
  rw [decode_eq_run]
  decide

end BootConsole.Telnet
