import BootConsole.Proofs.Telnet.Grammar

/-!
# Answers to the peer

Whatever arrives, and whatever was left open before, all that the decoder answers are refusals, each
of them spelled as a whole. Who reads them finds no text and nothing to answer, whatever the options
are.
-/

namespace BootConsole.Telnet

/-- An option is refused, to which the other side has nothing to say. -/
def Element.IsRefusal (element : Element) : Prop :=
  ∃ option, element = .negotiation .wont option ∨ element = .negotiation .dont option

theorem Element.run_of_isRefusal {element : Element} (refuses : element.IsRefusal) :
    run .text element.spelling = (.text, .empty) := by
  rcases refuses with ⟨option, rfl | rfl⟩
  · exact run_spelling (.negotiation .wont option) nofun
  · exact run_spelling (.negotiation .dont option) nofun

def AreRefusals (replies : Bytes) : Prop :=
  ∃ refusals : List Element,
    (∀ element ∈ refusals, element.IsRefusal) ∧ replies = spelling refusals

namespace AreRefusals

theorem nil : AreRefusals [] :=
  ⟨[], nofun, rfl⟩

theorem append {first second : Bytes} (before : AreRefusals first) (after : AreRefusals second) :
    AreRefusals (first ++ second) := by
  rcases before with ⟨earlier, refuse, rfl⟩
  rcases after with ⟨later, refuse', rfl⟩
  refine ⟨earlier ++ later, fun element member => ?_, ?_⟩
  · rcases List.mem_append.mp member with member | member
    · exact refuse element member
    · exact refuse' element member
  · exact List.flatMap_append.symm

/-- Refusals are read to nothing, and nothing is left open behind them. -/
theorem run_eq {replies : Bytes} (refusals : AreRefusals replies) :
    run .text replies = (.text, .empty) := by
  rcases refusals with ⟨elements, refuse, rfl⟩
  induction elements with
  | nil => rfl
  | cons element rest induction =>
      rcases List.forall_mem_cons.mp refuse with ⟨first, others⟩
      rw [spelling, List.flatMap_cons, run_append, element.run_of_isRefusal first, ← spelling,
        induction others]
      rfl

end AreRefusals

theorem Verb.areRefusals_refusal (verb : Verb) (option : UInt8) :
    AreRefusals (verb.refusal option) := by
  cases verb with
  | will => exact ⟨[.negotiation .dont option], by simp [Element.IsRefusal], rfl⟩
  | doIt => exact ⟨[.negotiation .wont option], by simp [Element.IsRefusal], rfl⟩
  | wont | dont => exact .nil

theorem replies_textStep (byte : UInt8) : (textStep byte).2.replies = [] := by
  rw [textStep]
  repeat' split
  all_goals rfl

/-- Only the option of a request or an offer is answered. -/
theorem replies_step (state : State) (byte : UInt8) :
    (step state byte).2.replies = [] ∨
      ∃ verb : Verb, (step state byte).2.replies = verb.refusal byte := by
  have plain : (textStep byte).2.replies = [] := replies_textStep byte
  cases state with
  | text => exact .inl plain
  | carriageReturn =>
      refine .inl ?_
      rw [step, carriageReturnStep]
      split
      · rfl
      · split
        · rfl
        · exact plain
  | command =>
      refine .inl ?_
      rw [step, commandStep]
      repeat' split
      all_goals rfl
  | option verb => exact .inr ⟨verb, rfl⟩
  | subnegotiation | subnegotiationCommand => exact .inl rfl

theorem areRefusals_step (state : State) (byte : UInt8) :
    AreRefusals (step state byte).2.replies := by
  rcases replies_step state byte with silent | ⟨verb, refused⟩
  · rw [silent]
    exact .nil
  · rw [refused]
    exact verb.areRefusals_refusal byte

theorem areRefusals_run (state : State) (bytes : Bytes) :
    AreRefusals (run state bytes).2.replies := by
  induction bytes generalizing state with
  | nil => exact .nil
  | cons byte rest induction => exact (areRefusals_step state byte).append (induction _)

end BootConsole.Telnet
