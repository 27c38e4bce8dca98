import BootConsole.Telnet.Decoder

/-!
# A stream in segments

The network cuts a stream where it likes. One decoder that reads the segments in order, each of them
in bulk, comes to the text, the answers and the state of a reader that has the whole stream and goes
byte by byte.
-/

namespace BootConsole.Telnet

namespace Output

def joined (outputs : List Output) : Output :=
  ⟨(outputs.map text).flatten, (outputs.map replies).flatten⟩

end Output

def decodeAll (state : State) : List Bytes → State × List Output
  | [] => (state, [])
  | segment :: rest =>
      let first := decode state segment
      let others := decodeAll first.1 rest
      (others.1, first.2 :: others.2)

theorem run_flatten (state : State) (segments : List Bytes) :
    run state segments.flatten =
      ((decodeAll state segments).1, Output.joined (decodeAll state segments).2) := by
  induction segments generalizing state with
  | nil => rfl
  | cons segment rest induction =>
      rw [List.flatten_cons, run_append, induction, ← decode_eq_run state segment]
      rfl

/-- From any state and however a stream is cut, the segments read as the whole stream does, and as
it does byte by byte. -/
theorem decodeAll_joined (state : State) (segments : List Bytes) :
    let pieces := decodeAll state segments
    let whole := decode state segments.flatten
    pieces.1 = whole.1 ∧
      (pieces.2.map Output.text).flatten = whole.2.text ∧
      (pieces.2.map Output.replies).flatten = whole.2.replies ∧
      whole = run state segments.flatten := by
  intro pieces whole
  have bytewise : whole = run state segments.flatten := decode_eq_run state segments.flatten
  have pieced : run state segments.flatten = (pieces.1, Output.joined pieces.2) :=
    run_flatten state segments
  rw [bytewise, pieced]
  exact ⟨rfl, rfl, rfl, rfl⟩

end BootConsole.Telnet
