import BootConsole.Telnet.Decoder

/-!
# Writing to the telnet wire

A line feed goes out as a line end and IAC is doubled, so nothing that is sent reads as a command.
-/

namespace BootConsole.Telnet

def encodeByte (byte : UInt8) : Bytes :=
  if byte = iac then [iac, iac]
  else if byte = lineFeed then [carriageReturn, lineFeed]
  else [byte]

def encode (data : Bytes) : Bytes :=
  data.flatMap encodeByte

theorem encodeByte_of_ordinary {byte : UInt8} (ordinary : byte ≠ iac ∧ byte ≠ lineFeed) :
    encodeByte byte = [byte] := by
  rw [encodeByte, if_neg ordinary.1, if_neg ordinary.2]

theorem encode_cons (byte : UInt8) (data : Bytes) :
    encode (byte :: data) = encodeByte byte ++ encode data := rfl

@[simp] theorem encode_append (first second : Bytes) :
    encode (first ++ second) = encode first ++ encode second := by
  simp [encode]

theorem encode_ne_nil {data : Bytes} (some : data ≠ []) : encode data ≠ [] := by
  cases data with
  | nil => contradiction
  | cons byte rest =>
      have first : encodeByte byte ≠ [] := by
        rw [encodeByte]
        split
        · simp
        · split <;> simp
      simp [encode, first]

end BootConsole.Telnet
