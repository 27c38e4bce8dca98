import BootConsole.Proofs.Telnet.Refusals

/-!
# Negotiations end

A refusal is not answered, whatever the option is and wherever it is read. Only a request that was
left unfinished can take the first byte of one for its option; it is refused, once, and what follows
is no request. So two peers that answer each other come to rest.
-/

namespace BootConsole.Telnet

/-! ## Refusals in any state -/

/-- What is answered when an IAC comes as the option of a request that was left unfinished. -/
def State.pending : State → Bytes
  | .option verb => verb.refusal iac
  | _ => []

theorem pending_textStep (byte : UInt8) : (textStep byte).1.pending = [] := by
  rw [textStep]
  repeat' split
  all_goals rfl

/-- If the IAC of a command is taken for something else, the rest of the command is text. -/
theorem run_misread (state : State) {first : Output} (misread : step state iac = (.text, first))
    (verb : Verb) (option : UInt8) :
    (run state [iac, verb.byte, option]).2.replies = first.replies ∧
      (run state [iac, verb.byte, option]).1.pending = [] := by
  have plain : step .text verb.byte = (.text, .ofText [verb.byte]) := by cases verb <;> rfl
  have last : step .text option = textStep option := rfl
  simp [run, misread, plain, last, replies_textStep, pending_textStep, Output.append, Output.ofText,
    Output.empty]

/-- No command ends a sub-negotiation but the one that is meant to. -/
theorem run_unended {state : State}
    (within : state = .subnegotiation ∨ state = .subnegotiationCommand) (verb : Verb)
    (option : UInt8) :
    (run state [iac, verb.byte, option]).2.replies = [] ∧
      (run state [iac, verb.byte, option]).1.pending = [] := by
  have goesOn : run state [iac, verb.byte] = (.subnegotiation, .empty) := by
    rcases within with rfl | rfl <;> cases verb <;> rfl
  have whole : run state ([iac, verb.byte] ++ [option]) =
      (if option = iac then .subnegotiationCommand else .subnegotiation, .empty) := by
    rw [run_append, goesOn]
    rfl
  rw [show [iac, verb.byte, option] = [iac, verb.byte] ++ [option] from rfl, whole]
  refine ⟨rfl, ?_⟩
  split <;> rfl

/-- A refusal does no more than to end a request that was left unfinished, and begins none. -/
theorem run_of_isRefusal (state : State) {element : Element} (refuses : element.IsRefusal) :
    (run state element.spelling).2.replies = state.pending ∧
      (run state element.spelling).1.pending = [] := by
  have aligned := Element.run_of_isRefusal refuses
  obtain ⟨verb, option, rfl⟩ : ∃ verb option, element = .negotiation verb option := by
    rcases refuses with ⟨option, rfl | rfl⟩
    · exact ⟨.wont, option, rfl⟩
    · exact ⟨.dont, option, rfl⟩
  cases state with
  | text =>
      rw [aligned]
      exact ⟨rfl, rfl⟩
  | carriageReturn =>
      rw [run_carriageReturn ⟨iac, rfl, by decide, by decide⟩, aligned]
      exact ⟨rfl, rfl⟩
  | command => exact run_misread .command rfl verb option
  | option unfinished => exact run_misread (.option unfinished) rfl verb option
  | subnegotiation => exact run_unended (.inl rfl) verb option
  | subnegotiationCommand => exact run_unended (.inr rfl) verb option

/-- Refusals that come one after the other are answered at most once, at their first byte. -/
theorem replies_run_of_areRefusals (state : State) {answers : Bytes}
    (refusals : AreRefusals answers) :
    (run state answers).2.replies = if answers = [] then [] else state.pending := by
  rcases refusals with ⟨elements, refuse, rfl⟩
  induction elements generalizing state with
  | nil => rfl
  | cons element rest induction =>
      rcases List.forall_mem_cons.mp refuse with ⟨first, others⟩
      rcases run_of_isRefusal state first with ⟨answered, closed⟩
      have some : spelling (element :: rest) ≠ [] := by
        rcases first with ⟨option, rfl | rfl⟩ <;> simp [spelling, Element.spelling]
      have silent : (run (run state element.spelling).1 (spelling rest)).2.replies = [] := by
        rw [induction _ others, closed, ite_self]
      rw [if_neg some, spelling, List.flatMap_cons, run_append, ← spelling, ← answered]
      exact (congrArg _ silent).trans (List.append_nil _)

/-! ## Two peers -/

structure Peer where
  decoder : State
  /-- What is under way to it. -/
  coming : Bytes
  /-- All that it has answered. -/
  answered : Bytes

namespace Peer

def start (decoder : State) (coming : Bytes) : Peer := ⟨decoder, coming, []⟩

def read (peer : Peer) (front behind : Bytes) : Peer where
  decoder := (decode peer.decoder front).1
  coming := behind
  answered := peer.answered ++ (decode peer.decoder front).2.replies

def get (peer : Peer) (bytes : Bytes) : Peer :=
  { peer with coming := peer.coming ++ bytes }

/-- What it owes for what is under way to it, if the other answers `answers`: their first byte ends
a request that was left unfinished. -/
def owes (peer : Peer) (answers : Bytes) : Bytes :=
  (decode peer.decoder peer.coming).2.replies ++
    if answers = [] then [] else (decode peer.decoder peer.coming).1.pending

/-- It has answered no more than it owes, and all of that when nothing is under way to it. -/
def Settles (start : Peer) (answers : Bytes) (peer : Peer) : Prop :=
  peer.answered <+: start.owes answers ∧
    (peer.coming = [] → peer.answered = start.owes answers)

end Peer

structure Exchange where
  near : Peer
  far : Peer

namespace Exchange

/-- One of the two reads some of what is under way to it, and what it answers is then under way to
the other. -/
inductive Turn : Exchange → Exchange → Prop
  | near {near far : Peer} {front behind : Bytes} :
      near.coming = front ++ behind → front ≠ [] →
      Turn ⟨near, far⟩
        ⟨near.read front behind, far.get (decode near.decoder front).2.replies⟩
  | far {near far : Peer} {front behind : Bytes} :
      far.coming = front ++ behind → front ≠ [] →
      Turn ⟨near, far⟩
        ⟨near.get (decode far.decoder front).2.replies, far.read front behind⟩

inductive Turns (start : Exchange) : Nat → Exchange → Prop
  | none : Turns start 0 start
  | next {count : Nat} {between later : Exchange} :
      Turns start count between → Turn between later → Turns start (count + 1) later

end Exchange

/-- How a peer that started with `coming` under way to it stands when it has read `past` and the
other has answered `answers`. -/
structure Peer.After (decoder : State) (coming answers past : Bytes) (peer : Peer) : Prop where
  stream : coming ++ answers = past ++ peer.coming
  state : (run decoder past).1 = peer.decoder
  answered : (run decoder past).2.replies = peer.answered

namespace Peer.After

variable {decoder : State} {coming answers past front behind : Bytes} {peer : Peer}

theorem start (decoder : State) (coming : Bytes) :
    After decoder coming [] [] (.start decoder coming) :=
  ⟨List.append_nil coming, rfl, rfl⟩

theorem read (stands : After decoder coming answers past peer)
    (joined : peer.coming = front ++ behind) :
    After decoder coming answers (past ++ front) (peer.read front behind) where
  stream := by rw [stands.stream, joined, List.append_assoc]; rfl
  state := by rw [run_append, stands.state, ← decode_eq_run]; rfl
  answered := by
    rw [run_append, stands.state, ← decode_eq_run peer.decoder]
    exact congrArg (· ++ _) stands.answered

theorem get (stands : After decoder coming answers past peer) (bytes : Bytes) :
    After decoder coming (answers ++ bytes) past (peer.get bytes) where
  stream := by rw [← List.append_assoc, stands.stream, List.append_assoc]; rfl
  state := stands.state
  answered := stands.answered

theorem areRefusals (stands : After decoder coming answers past peer) :
    AreRefusals peer.answered :=
  stands.answered ▸ areRefusals_run decoder past

/-- What was answered is the front of what is owed; the rest is owed for what is still to come. -/
theorem owes_eq (stands : After decoder coming answers past peer)
    (refusals : AreRefusals answers) :
    (Peer.start decoder coming).owes answers =
      peer.answered ++ (run peer.decoder peer.coming).2.replies := by
  have owed : (run decoder (coming ++ answers)).2.replies =
      (Peer.start decoder coming).owes answers := by
    rw [run_append, owes, decode_eq_run]
    exact congrArg (_ ++ ·) (replies_run_of_areRefusals _ refusals)
  rw [← owed, stands.stream, run_append, stands.state, ← stands.answered]
  rfl

theorem settles (stands : After decoder coming answers past peer)
    (refusals : AreRefusals answers) : (Peer.start decoder coming).Settles answers peer := by
  have owed := stands.owes_eq refusals
  refine ⟨⟨_, owed.symm⟩, fun none => ?_⟩
  rw [owed, none]
  exact (List.append_nil _).symm

end Peer.After

namespace Exchange

variable {near far : State} {toNear toFar : Bytes} {count : Nat} {later : Exchange}

/-- Every turn takes something off the wire, and nothing comes onto it but what was answered. -/
theorem Turns.after (turns : Turns ⟨.start near toNear, .start far toFar⟩ count later) :
    ∃ pastNear pastFar,
      Peer.After near toNear later.far.answered pastNear later.near ∧
      Peer.After far toFar later.near.answered pastFar later.far ∧
      count ≤ pastNear.length + pastFar.length := by
  induction turns with
  | none => exact ⟨[], [], .start near toNear, .start far toFar, Nat.zero_le _⟩
  | next before turn induction =>
      rcases induction with ⟨pastNear, pastFar, nearAfter, farAfter, bound⟩
      cases turn with
      | @near _ _ front behind joined some =>
          have longer := List.length_pos_iff.mpr some
          refine ⟨pastNear ++ front, pastFar, nearAfter.read joined, farAfter.get _, ?_⟩
          rw [List.length_append]
          omega
      | @far _ _ front behind joined some =>
          have longer := List.length_pos_iff.mpr some
          refine ⟨pastNear, pastFar ++ front, nearAfter.get _, farAfter.read joined, ?_⟩
          rw [List.length_append]
          omega

end Exchange

theorem length_pending_le (state : State) : state.pending.length ≤ 3 := by
  cases state with
  | option verb => cases verb <;> simp [State.pending, Verb.refusal]
  | _ => exact Nat.zero_le 3

theorem length_owes_le (peer : Peer) (answers : Bytes) :
    (peer.owes answers).length ≤ (decode peer.decoder peer.coming).2.replies.length + 3 := by
  have few := length_pending_le (decode peer.decoder peer.coming).1
  rw [Peer.owes, List.length_append]
  split
  · exact Nat.add_le_add_left (Nat.zero_le 3) _
  · exact Nat.add_le_add_left few _

/-- All that is ever answered is whole refusals, and a reader of text finds nothing in them and has
nothing to answer. So two peers come to rest whatever is under way between them at the start: each
answers that, and once more at most, where it left a request unfinished. -/
theorem negotiation_ends :
    (∀ state input,
      AreRefusals (decode state input).2.replies ∧
        decode .text (decode state input).2.replies = (.text, .empty)) ∧
      ∀ near far toNear toFar count later,
        Exchange.Turns ⟨.start near toNear, .start far toFar⟩ count later →
          (Peer.start near toNear).Settles later.far.answered later.near ∧
          (Peer.start far toFar).Settles later.near.answered later.far ∧
          count ≤ toNear.length + (decode near toNear).2.replies.length +
            (toFar.length + (decode far toFar).2.replies.length) + 6 := by
  constructor
  · intro state input
    have refusals : AreRefusals (decode state input).2.replies := by
      rw [decode_eq_run]
      exact areRefusals_run state input
    exact ⟨refusals, (decode_eq_run _ _).trans refusals.run_eq⟩
  · intro near far toNear toFar count later turns
    rcases turns.after with ⟨pastNear, pastFar, nearAfter, farAfter, bound⟩
    have nearSettles := nearAfter.settles farAfter.areRefusals
    have farSettles := farAfter.settles nearAfter.areRefusals
    refine ⟨nearSettles, farSettles, ?_⟩
    have nearRead := congrArg List.length nearAfter.stream
    have farRead := congrArg List.length farAfter.stream
    have nearAnswers := Nat.le_trans nearSettles.1.length_le (length_owes_le _ _)
    have farAnswers := Nat.le_trans farSettles.1.length_le (length_owes_le _ _)
    simp only [List.length_append] at nearRead farRead
    simp only [Peer.start] at nearAnswers farAnswers
    omega

/-- Requests under way both ways: one for an option that reads as IAC, one for an option that reads
as a carriage return, and one that breaks off and takes the first byte of the answer for its
option. -/
def crossing : Exchange :=
  ⟨.start .text [iac, doIt, 255, iac, will, 13], .start .text [iac, doIt]⟩

theorem negotiation_ends_crossing :
    ∃ later, crossing.Turns 3 later ∧
      later.near.coming = [] ∧ later.near.answered = [iac, wont, 255, iac, dont, 13] ∧
      later.far.coming = [] ∧ later.far.answered = [iac, wont, iac] := by
  have ended : ∃ later,
      crossing.Turns 3 later ∧ later.near.coming = [] ∧ later.far.coming = [] := by
    refine ⟨_, .next (.next (.next .none (.near (List.append_nil _).symm ?_))
      (.far (List.append_nil _).symm ?_)) (.near (List.append_nil _).symm ?_), rfl, ?_⟩
    all_goals
      simp only [Peer.read, Peer.get, Peer.start, decode_eq_run]
      decide
  rcases ended with ⟨later, turns, nearDone, farDone⟩
  rcases negotiation_ends.2 _ _ _ _ _ _ turns with ⟨near, far, _⟩
  have nearAnswered : later.near.answered = [iac, wont, 255, iac, dont, 13] := by
    rw [near.2 nearDone, Peer.owes, decode_eq_run]
    split <;> rfl
  have farAnswered : later.far.answered = [iac, wont, iac] := by
    rw [far.2 farDone, nearAnswered, Peer.owes, decode_eq_run]
    rfl
  exact ⟨later, turns, nearDone, nearAnswered, farDone, farAnswered⟩

/-- Peers may go on when each has answered what was under way to it: there the far one takes the
first byte of an answer for an option, and refuses it. -/
theorem crossing_goes_past_first_answers :
    ¬∀ near far toNear toFar count later,
      Exchange.Turns ⟨.start near toNear, .start far toFar⟩ count later →
        later.near.answered <+: (decode near toNear).2.replies ∧
          later.far.answered <+: (decode far toFar).2.replies := by
  intro always
  have crossed : ∃ later, crossing.Turns 2 later ∧ later.far.answered = [iac, wont, iac] := by
    refine ⟨_, .next (.next .none (.near (List.append_nil _).symm ?_))
      (.far (List.append_nil _).symm ?_), ?_⟩
    all_goals
      simp only [Peer.read, Peer.get, Peer.start, decode_eq_run]
      decide
  rcases crossed with ⟨later, turns, answered⟩
  have only := (always _ _ _ _ _ _ turns).2
  rw [answered, decode_eq_run] at only
  revert only
  decide

end BootConsole.Telnet
