import BootConsole.Telnet.Decoder

/-!
# The grammar of the telnet wire

What a peer puts on the wire is a sequence of elements: bytes that stand for themselves, line ends
and carriage returns, the doubled IAC, commands. Each element has its spelling and its meaning, text
or an answer. The decoder reads the spelling of a sequence to the meanings of its elements in order,
whatever stands next to what.
-/

namespace BootConsole.Telnet

def Verb.byte : Verb → UInt8
  | .will => Telnet.will
  | .wont => Telnet.wont
  | .doIt => Telnet.doIt
  | .dont => Telnet.dont

/-- The commands of two bytes: those that neither a third byte nor a sub-negotiation follows. -/
structure IsBrief (command : UInt8) : Prop where
  escapes : command ≠ iac
  opens : command ≠ sb
  negotiates : ∀ verb : Verb, command ≠ verb.byte

theorem IsBrief.ofByte?_eq_none {command : UInt8} (brief : IsBrief command) :
    Verb.ofByte? command = none := by
  have will : command ≠ Telnet.will := brief.negotiates .will
  have wont : command ≠ Telnet.wont := brief.negotiates .wont
  have doIt : command ≠ Telnet.doIt := brief.negotiates .doIt
  have dont : command ≠ Telnet.dont := brief.negotiates .dont
  rw [Verb.ofByte?, if_neg will, if_neg wont, if_neg doIt, if_neg dont]

inductive Element where
  | plain (byte : UInt8) (stands : byte ≠ iac ∧ byte ≠ BootConsole.carriageReturn)
  | lineEnd
  /-- A carriage return with the NUL that a peer puts behind it. -/
  | paddedReturn
  /-- A carriage return as it is. -/
  | bareReturn
  | doubledIac
  | negotiation (verb : Verb) (option : UInt8)
  | subnegotiation (payload : Bytes)
  | command (byte : UInt8) (brief : IsBrief byte)

def doubled (payload : Bytes) : Bytes :=
  payload.flatMap fun byte => if byte = iac then [iac, iac] else [byte]

namespace Element

def spelling : Element → Bytes
  | .plain byte _ => [byte]
  | .lineEnd => [BootConsole.carriageReturn, lineFeed]
  | .paddedReturn => [BootConsole.carriageReturn, nul]
  | .bareReturn => [BootConsole.carriageReturn]
  | .doubledIac => [iac, iac]
  | .negotiation verb option => [iac, verb.byte, option]
  | .subnegotiation payload => [iac, sb] ++ doubled payload ++ [iac, se]
  | .command byte _ => [iac, byte]

def text : Element → Bytes
  | .plain byte _ => [byte]
  | .lineEnd => [lineFeed]
  | .paddedReturn | .bareReturn => [BootConsole.carriageReturn]
  | .doubledIac => [255]
  | .negotiation .. | .subnegotiation .. | .command .. => []

def answer : Element → Bytes
  | .negotiation .doIt option => [iac, wont, option]
  | .negotiation .will option => [iac, dont, option]
  | _ => []

end Element

def spelling (elements : List Element) : Bytes :=
  elements.flatMap Element.spelling

/-- Such bytes leave a carriage return in front of them bare. -/
def LeavesBare (bytes : Bytes) : Prop :=
  ∃ next, bytes.head? = some next ∧ next ≠ lineFeed ∧ next ≠ nul

/-- Every carriage return that is spelled bare is one: it is not the last byte, and what follows it
makes it neither a line end nor a padded return. -/
def WellSpelled : List Element → Prop
  | [] => True
  | .bareReturn :: rest => LeavesBare (spelling rest) ∧ WellSpelled rest
  | _ :: rest => WellSpelled rest

theorem WellSpelled.tail {first : Element} {rest : List Element}
    (spelled : WellSpelled (first :: rest)) : WellSpelled rest := by
  cases first with
  | bareReturn => exact spelled.2
  | _ => exact spelled

/-! ## Reading one element -/

/-- Nothing of a sub-negotiation is taken for its end, or for anything else. -/
theorem run_doubled (payload : Bytes) :
    run .subnegotiation (doubled payload) = (.subnegotiation, .empty) := by
  induction payload with
  | nil => rfl
  | cons byte rest induction =>
      have first : run .subnegotiation (if byte = iac then [iac, iac] else [byte]) =
          (.subnegotiation, .empty) := by
        split
        · rfl
        · next ordinary => simp [run, step, ordinary]
      rw [doubled, List.flatMap_cons, run_append, first]
      exact congrArg (fun read => (read.1, Output.empty.append read.2)) induction

/-- In front of such bytes a carriage return is text, and they are read as if it were not there. -/
theorem run_carriageReturn {bytes : Bytes} (leaves : LeavesBare bytes) :
    run .carriageReturn bytes =
      ((run .text bytes).1,
        (Output.ofText [BootConsole.carriageReturn]).append (run .text bytes).2) := by
  rcases leaves with ⟨next, first, notFeed, notNul⟩
  cases bytes with
  | nil => cases first
  | cons byte rest =>
      cases first
      have stays : step .carriageReturn next =
          ((step .text next).1,
            (Output.ofText [BootConsole.carriageReturn]).append (step .text next).2) := by
        simp [step, carriageReturnStep, notFeed, notNul]
      simp only [run, stays, Output.append_assoc]

/-- Every element but the bare carriage return is read by itself. -/
theorem run_spelling (element : Element) (closed : element ≠ .bareReturn) :
    run .text element.spelling = (.text, ⟨element.text, element.answer⟩) := by
  cases element with
  | plain byte stands =>
      simp [run, step, textStep, stands, Element.spelling, Element.text, Element.answer,
        Output.ofText]
  | lineEnd => rfl
  | paddedReturn => rfl
  | bareReturn => exact absurd rfl closed
  | doubledIac => rfl
  | negotiation verb option => cases verb <;> rfl
  | subnegotiation payload =>
      have opened : run .text [iac, sb] = (.subnegotiation, .empty) := rfl
      have ended : run .subnegotiation [iac, se] = (.text, .empty) := rfl
      rw [Element.spelling, run_append, run_append, opened, run_doubled, ended]
      rfl
  | command byte brief =>
      have ignored : commandStep byte = (.text, .empty) := by
        simp [commandStep, brief.escapes, brief.opens, brief.ofByte?_eq_none]
      simp only [Element.spelling, run]
      rw [show step .text iac = (.command, .empty) from rfl]
      simp only [step, ignored]
      rfl

/-! ## Reading a sequence -/

theorem run_spelling_cons {first : Element} {rest : List Element}
    (spelled : WellSpelled (first :: rest)) :
    run .text (spelling (first :: rest)) =
      ((run .text (spelling rest)).1,
        (⟨first.text, first.answer⟩ : Output).append (run .text (spelling rest)).2) := by
  have split : spelling (first :: rest) = first.spelling ++ spelling rest := rfl
  by_cases bare : first = .bareReturn
  · subst bare
    have waits : run .text Element.bareReturn.spelling = (.carriageReturn, .empty) := rfl
    rw [split, run_append, waits, run_carriageReturn spelled.1]
    rfl
  · rw [split, run_append, run_spelling first bare]

/-- A sequence of elements is read to the text and to the answers of its elements, one after the
other, and nothing is left open at its end. -/
theorem decode_spelling (elements : List Element) (spelled : WellSpelled elements) :
    decode .text (spelling elements) =
      (.text, ⟨elements.flatMap Element.text, elements.flatMap Element.answer⟩) := by
  rw [decode_eq_run]
  induction elements with
  | nil => rfl
  | cons first rest induction =>
      rw [run_spelling_cons spelled, induction spelled.tail]
      rfl

theorem isBrief_se : IsBrief se where
  escapes := by decide
  opens := by decide
  negotiates verb := by cases verb <;> decide

/-- Bare carriage returns in front of a command and of a line end, IAC as an option, and a payload
that spells an end, an IAC and a request. -/
def crowded : List Element :=
  [.bareReturn, .negotiation .doIt iac, .subnegotiation [se, iac, doIt, 1], .plain nul (by decide),
    .bareReturn, .lineEnd, .negotiation .will 3, .doubledIac, .command se isBrief_se, .paddedReturn]

theorem decode_spelling_crowded :
    WellSpelled crowded ∧
      decode .text (spelling crowded) =
        (.text, ⟨[0x0D, 0, 0x0D, 0x0A, 255, 0x0D], [iac, wont, iac, iac, dont, 3]⟩) := by
  have spelled : WellSpelled crowded :=
    ⟨⟨iac, rfl, by decide, by decide⟩, ⟨BootConsole.carriageReturn, rfl, by decide, by decide⟩,
      trivial⟩
  exact ⟨spelled, decode_spelling crowded spelled⟩

end BootConsole.Telnet
