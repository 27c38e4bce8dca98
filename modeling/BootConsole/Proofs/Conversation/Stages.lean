import BootConsole.Proofs.Conversation.Flow

/-!
# The stages of a conversation

What a session says and waits for are exchanges. `Conversing` is what a run looks like from where it
stands: either it is free to say the next line, or it waits for a pattern, or it waits for quiet.
-/

namespace BootConsole

structure Exchange where
  line : String
  awaited : Pattern
  /-- Quiet has to come as well, after the pattern. -/
  settles : Bool

namespace Step

def exchanges (step : Step) : List Exchange :=
  match step.reply with
  | none => [⟨step.command, step.expect, false⟩]
  | some reply => [⟨step.command, reply.question, false⟩, ⟨reply.answer, step.expect, false⟩]

theorem lines_exchanges (step : Step) : step.exchanges.map Exchange.line = step.lines := by
  unfold exchanges lines
  cases step.reply <;> rfl

theorem settles_of_mem_exchanges {step : Step} {exchange : Exchange}
    (member : exchange ∈ step.exchanges) : exchange.settles = false := by
  unfold exchanges at member
  cases reply : step.reply with
  | none =>
      rw [reply] at member
      rw [List.mem_singleton.mp member]
  | some reply' =>
      rw [reply] at member
      rcases List.mem_pair.mp member with rfl | rfl <;> rfl

end Step

namespace Session

/-- What a plan says, and what it waits for. Only the interrupt waits for quiet. -/
def exchanges (session : Session) (plan : Plan) : List Exchange :=
  (if plan.interrupts then [⟨Bootloader.interruptLine, session.prompt, true⟩] else []) ++
    plan.steps.flatMap Step.exchanges

theorem lines_exchanges (session : Session) (plan : Plan) :
    (session.exchanges plan).map Exchange.line = plan.script := by
  rw [exchanges, Plan.script, List.map_append, List.map_flatMap]
  congr 1
  · split <;> rfl
  · exact congrArg (List.flatMap · plan.steps) (funext Step.lines_exchanges)

theorem interrupts_of_settles {session : Session} {plan : Plan} {earlier further : List Exchange}
    {exchange : Exchange} (split : session.exchanges plan = earlier ++ exchange :: further)
    (settles : exchange.settles = true) : plan.interrupts = true ∧ earlier = [] := by
  have unsettled : exchange ∉ plan.steps.flatMap Step.exchanges := by
    intro member
    rcases List.mem_flatMap.mp member with ⟨step, _, member⟩
    rw [Step.settles_of_mem_exchanges member] at settles
    cases settles
  unfold exchanges at split
  split at split
  · next interrupts =>
      rcases List.cons_eq_append_iff.mp split with ⟨rfl, _⟩ | ⟨rest, rfl, others⟩
      · exact ⟨interrupts, rfl⟩
      · have onward : plan.steps.flatMap Step.exchanges = rest ++ exchange :: further := others
        rw [onward] at unsettled
        exact absurd (List.mem_append_right rest List.mem_cons_self) unsettled
  · rw [List.nil_append] at split
    rw [split] at unsettled
    exact absurd (List.mem_append_right earlier List.mem_cons_self) unsettled

end Session

/-- In what was heard since the last line, as far back as the search reaches, the pattern was
found. Until then no read came to nothing and nothing failed. -/
structure Answered (depth : Nat) (pattern : Pattern) (wait : List Happening) : Prop where
  flows : ∀ event ∈ wait, event.flows = true
  heard : heardIn wait ≠ []
  found : (pattern.find? ((heardIn wait).flatten.rtake depth)).isSome = true

theorem Awaiting.answered {pattern : Pattern} {watch seen : Watch} {bytes : Bytes}
    {wait : List Happening} (fresh : watch.Fresh)
    (awaits : Awaiting pattern watch wait (.ok (.matched bytes, seen))) :
    Answered watch.window.depth pattern wait := by
  rcases awaits.found with ⟨flows, heard, found⟩
  rw [awaits.relayed.1, Watch.match?, fresh.searched] at found
  refine ⟨flows, heard, ?_⟩
  rw [← Option.isSome_map, found]
  rfl

inductive Stage
  | free
  | waiting (exchange : Exchange)
  | settling (exchange : Exchange)

def Stage.begun : Stage → List Exchange
  | .free => []
  | .waiting exchange | .settling exchange => [exchange]

def Exchange.onward (exchange : Exchange) : Stage :=
  if exchange.settles then .settling exchange else .free

/-- What may happen from a stage on, while these exchanges are still to begin. -/
inductive Conversing (depth : Nat) : Stage → List Exchange → List Happening → Prop
  | silent {stage : Stage} {owed : List Exchange} {events : List Happening} :
      (∀ event ∈ events, event.speaks = false) → Conversing depth stage owed events
  | noted {owed : List Exchange} {note : Happening} {events : List Happening} :
      note.isNote = true → Conversing depth .free owed events →
      Conversing depth .free owed (note :: events)
  /-- The line was taken by the stream, but did not go out. -/
  | stuck {exchange : Exchange} {owed : List Exchange} {written : Bytes}
      {events : List Happening} : (∀ event ∈ events, event.speaks = false) →
      Conversing depth .free (exchange :: owed) (.wrote written :: events)
  /-- A part of the line was taken. -/
  | broken {exchange : Exchange} {owed : List Exchange} {part : Bytes}
      {events : List Happening} : (∀ event ∈ events, event.speaks = false) →
      Conversing depth .free (exchange :: owed) (.wrotePart part :: events)
  | said {exchange : Exchange} {owed : List Exchange} {written : Bytes}
      {events : List Happening} : Conversing depth (.waiting exchange) owed events →
      Conversing depth .free (exchange :: owed)
        (.wrote written :: .sent (lineBytes exchange.line) :: events)
  | answered {exchange : Exchange} {owed : List Exchange} {wait events : List Happening} :
      Answered depth exchange.awaited wait → Conversing depth exchange.onward owed events →
      Conversing depth (.waiting exchange) owed (wait ++ events)
  | settled {exchange : Exchange} {owed : List Exchange} {noise events : List Happening} :
      exchange.settles = true → (∀ event ∈ noise, event.flows = true) →
      Conversing depth .free owed events →
      Conversing depth (.settling exchange) owed (noise ++ .silence :: events)

/-! ## What a conversation has kept to -/

theorem not_mem_of_silent {events : List Happening} {event : Happening}
    (silent : ∀ other ∈ events, other.speaks = false) (speaks : event.speaks = true) :
    event ∉ events := by
  intro member
  rw [silent event member] at speaks
  cases speaks

theorem speaks_of_flowing {wait : List Happening} (flows : ∀ event ∈ wait, event.flows = true) :
    ∀ event ∈ wait, event.speaks = false :=
  fun event member =>
    Happening.speaks_of_isOfWait (Happening.isOfWait_of_flows (flows event member))

/-- What does not flow comes after what flows. -/
theorem split_of_flowing {wait events earlier later : List Happening} {event : Happening}
    (flows : ∀ other ∈ wait, other.flows = true) (stays : event.flows = false)
    (joined : wait ++ events = earlier ++ event :: later) :
    ∃ rest, earlier = wait ++ rest ∧ events = rest ++ event :: later := by
  have absent : event ∉ wait := by
    intro member
    rw [flows event member] at stays
    cases stays
  rcases List.append_eq_append_iff.mp joined with ⟨rest, front, back⟩ | ⟨rest, front, back⟩
  · exact ⟨rest, front, back⟩
  · rcases List.cons_eq_append_iff.mp back with ⟨rfl, back⟩ | ⟨rest, rfl, back⟩
    · exact ⟨[], by simpa using front.symm, back.symm⟩
    · exact absurd (by simp [front]) absent

theorem flows_of_speaks {event : Happening} (speaks : event.speaks = true) :
    event.flows = false := by
  cases flows : event.flows with
  | false => rfl
  | true =>
      rw [Happening.speaks_of_isOfWait (Happening.isOfWait_of_flows flows)] at speaks
      cases speaks

namespace Conversing

variable {depth : Nat} {stage : Stage} {owed : List Exchange}
  {events earlier later : List Happening} {event : Happening}

theorem silent_append (before : ∀ event ∈ events, event.speaks = false)
    (after : ∀ event ∈ later, event.speaks = false) :
    Conversing depth stage owed (events ++ later) := by
  apply Conversing.silent
  intro event member
  rcases List.mem_append.mp member with member | member
  · exact before event member
  · exact after event member

theorem notes_append (conversing : Conversing depth .free owed later)
    (notes : ∀ event ∈ events, event.isNote = true) :
    Conversing depth .free owed (events ++ later) := by
  induction events with
  | nil => exact conversing
  | cons event rest induction =>
      rcases List.forall_mem_cons.mp notes with ⟨note, others⟩
      exact .noted note (induction others)

/-- What goes out are the first lines of those that are owed. -/
theorem sentIn_prefix (conversing : Conversing depth stage owed events) :
    sentIn events <+: owed.map fun exchange => lineBytes exchange.line := by
  induction conversing with
  | silent silent =>
      rw [sentIn_eq_nil silent]
      exact List.nil_prefix
  | noted note _ induction => rwa [sentIn_cons_of_isNote note]
  | stuck silent | broken silent =>
      rw [← List.singleton_append, sentIn_append, sentIn_eq_nil silent]
      exact List.nil_prefix
  | said _ induction => exact List.cons_prefix_cons.mpr ⟨rfl, induction⟩
  | answered answered _ induction =>
      rwa [sentIn_append, sentIn_eq_nil (speaks_of_flowing answered.flows)]
  | settled _ flows _ induction =>
      rwa [sentIn_append, sentIn_eq_nil (speaks_of_flowing flows)]

/-- Nothing is said once something has failed or ended. -/
theorem undisturbed (conversing : Conversing depth stage owed events)
    (joined : events = earlier ++ event :: later) (speaks : event.speaks = true) :
    ∀ other ∈ earlier, other.stops = false := by
  induction conversing generalizing earlier with
  | silent silent => exact absurd (by simp [joined]) (not_mem_of_silent silent speaks)
  | noted note _ induction =>
      rcases List.cons_eq_append_iff.mp joined with ⟨rfl, _⟩ | ⟨rest, rfl, onward⟩
      · simp
      · exact List.forall_mem_cons.mpr ⟨Happening.stops_of_isNote note, induction onward⟩
  | stuck silent | broken silent =>
      rcases List.cons_eq_append_iff.mp joined with ⟨rfl, _⟩ | ⟨rest, rfl, onward⟩
      · simp
      · exact absurd (by simp [onward]) (not_mem_of_silent silent speaks)
  | said _ induction =>
      rcases List.cons_eq_append_iff.mp joined with ⟨rfl, _⟩ | ⟨rest, rfl, onward⟩
      · simp
      rcases List.cons_eq_append_iff.mp onward with ⟨rfl, _⟩ | ⟨rest, rfl, further⟩
      · simp [Happening.stops]
      exact List.forall_mem_cons.mpr ⟨rfl, List.forall_mem_cons.mpr ⟨rfl, induction further⟩⟩
  | answered answered _ induction =>
      rcases split_of_flowing answered.flows (flows_of_speaks speaks) joined with
        ⟨rest, rfl, onward⟩
      intro other member
      rcases List.mem_append.mp member with member | member
      · exact Happening.stops_of_flows (answered.flows other member)
      · exact induction onward other member
  | settled _ flows _ induction =>
      rcases split_of_flowing flows (flows_of_speaks speaks) joined with ⟨rest, rfl, onward⟩
      intro other member
      rcases List.mem_append.mp member with member | member
      · exact Happening.stops_of_flows (flows other member)
      rcases List.cons_eq_append_iff.mp onward with ⟨rfl, _⟩ | ⟨rest, rfl, further⟩
      · simp at member
      have steady : ∀ other ∈ Happening.silence :: rest, other.stops = false :=
        List.forall_mem_cons.mpr ⟨rfl, induction further⟩
      exact steady other member

/-- If anything is said after a silence, the silence is what the last exchange had to wait for. -/
theorem settles_of_silence (conversing : Conversing depth stage owed events)
    (joined : events = earlier ++ .silence :: later) (member : event ∈ later)
    (speaks : event.speaks = true) :
    ∃ front exchange further, stage.begun ++ owed = front ++ exchange :: further ∧
      exchange.settles = true ∧
        front.length + 1 = stage.begun.length + (sentIn earlier).length := by
  induction conversing generalizing earlier with
  | silent silent => exact absurd (by simp [joined, member]) (not_mem_of_silent silent speaks)
  | noted note _ induction =>
      rcases List.cons_eq_append_iff.mp joined with ⟨rfl, same⟩ | ⟨rest, rfl, onward⟩
      · cases same
        cases note
      · rw [sentIn_cons_of_isNote note]
        exact induction onward
  | stuck silent | broken silent =>
      rcases List.cons_eq_append_iff.mp joined with ⟨rfl, same⟩ | ⟨rest, rfl, onward⟩
      · cases same
      · exact absurd (by simp [onward, member]) (not_mem_of_silent silent speaks)
  | said _ induction =>
      rcases List.cons_eq_append_iff.mp joined with ⟨rfl, same⟩ | ⟨rest, rfl, onward⟩
      · cases same
      rcases List.cons_eq_append_iff.mp onward with ⟨rfl, same⟩ | ⟨rest, rfl, further⟩
      · cases same
      rcases induction further with ⟨front, exchange, rest', split, settles, length⟩
      refine ⟨front, exchange, rest', split, settles, ?_⟩
      change front.length + 1 = 1 + (sentIn rest).length at length
      change front.length + 1 = 0 + ((sentIn rest).length + 1)
      omega
  | @answered exchange owed _ _ answered _ induction =>
      rcases split_of_flowing answered.flows rfl joined with ⟨rest, rfl, onward⟩
      rw [sentIn_append, sentIn_eq_nil (speaks_of_flowing answered.flows), List.nil_append]
      -- An exchange without quiet is over here, and counts among those in front.
      rcases induction onward with ⟨front, other, rest', split, settles, length⟩
      unfold Exchange.onward at split length
      cases quiet : exchange.settles with
      | true =>
          simp only [quiet] at split length
          exact ⟨front, other, rest', split, settles, length⟩
      | false =>
          simp only [quiet] at split length
          refine ⟨exchange :: front, other, rest', congrArg (exchange :: ·) split, settles, ?_⟩
          change front.length + 1 = 0 + (sentIn rest).length at length
          change front.length + 1 + 1 = 1 + (sentIn rest).length
          omega
  | @settled exchange owed _ _ settles flows _ induction =>
      rcases split_of_flowing flows rfl joined with ⟨rest, rfl, onward⟩
      rw [sentIn_append, sentIn_eq_nil (speaks_of_flowing flows), List.nil_append]
      rcases List.cons_eq_append_iff.mp onward with ⟨rfl, _⟩ | ⟨rest, rfl, further⟩
      · exact ⟨[], exchange, owed, rfl, settles, rfl⟩
      · rcases induction further with ⟨front, other, rest', split, settles, length⟩
        refine ⟨exchange :: front, other, rest', congrArg (exchange :: ·) split, settles, ?_⟩
        change front.length + 1 = 0 + (sentIn rest).length at length
        change front.length + 1 + 1 = 1 + (sentIn rest).length
        omega

theorem answered_of_speaks {exchange : Exchange}
    (conversing : Conversing depth (.waiting exchange) owed (earlier ++ event :: later))
    (speaks : event.speaks = true) :
    ∃ wait, wait <+: earlier ∧ Answered depth exchange.awaited wait := by
  generalize joined : earlier ++ event :: later = events at conversing
  cases conversing with
  | silent silent => exact absurd (by simp [← joined]) (not_mem_of_silent silent speaks)
  | answered answered _ =>
      rcases split_of_flowing answered.flows (flows_of_speaks speaks) joined.symm with
        ⟨rest, rfl, _⟩
      exact ⟨_, List.prefix_append _ rest, answered⟩

/-- Before anything is said after a line, that line was answered. -/
theorem answered_between {line : Bytes} {between : List Happening}
    (conversing : Conversing depth stage owed events)
    (joined : events = earlier ++ .sent line :: (between ++ event :: later))
    (speaks : event.speaks = true) :
    ∃ exchange wait, owed[(sentIn earlier).length]? = some exchange ∧
      line = lineBytes exchange.line ∧ wait <+: between ∧
      Answered depth exchange.awaited wait := by
  induction conversing generalizing earlier with
  | silent silent => exact absurd (by simp [joined]) (not_mem_of_silent silent speaks)
  | noted note _ induction =>
      rcases List.cons_eq_append_iff.mp joined with ⟨rfl, same⟩ | ⟨rest, rfl, onward⟩
      · cases same
        cases note
      · rw [sentIn_cons_of_isNote note]
        exact induction onward
  | stuck silent | broken silent =>
      rcases List.cons_eq_append_iff.mp joined with ⟨rfl, same⟩ | ⟨rest, rfl, onward⟩
      · cases same
      · exact absurd (by simp [onward]) (not_mem_of_silent silent speaks)
  | @said exchange _ _ _ goesOn induction =>
      rcases List.cons_eq_append_iff.mp joined with ⟨rfl, same⟩ | ⟨rest, rfl, onward⟩
      · cases same
      rcases List.cons_eq_append_iff.mp onward with ⟨rfl, same⟩ | ⟨rest, rfl, further⟩
      · cases same
        rcases goesOn.answered_of_speaks speaks with ⟨wait, front, answered⟩
        exact ⟨exchange, wait, rfl, rfl, front, answered⟩
      · exact induction further
  | answered answered _ induction =>
      rcases split_of_flowing answered.flows rfl joined with ⟨rest, rfl, onward⟩
      rw [sentIn_append, sentIn_eq_nil (speaks_of_flowing answered.flows)]
      exact induction onward
  | settled _ flows _ induction =>
      rcases split_of_flowing flows rfl joined with ⟨rest, rfl, onward⟩
      rw [sentIn_append, sentIn_eq_nil (speaks_of_flowing flows)]
      rcases List.cons_eq_append_iff.mp onward with ⟨_, same⟩ | ⟨rest, rfl, further⟩
      · cases same
      · have found := induction further
        exact found

end Conversing

end BootConsole
