import BootConsole.Proofs.Conversation.Flow
import BootConsole.Proofs.Output.Supply

/-!
# One deadline for all waits

The clock of a run only goes forward, and no further than to the deadline. A wait that is given up
is given up there, when nothing that is due is left in the queue.
-/

namespace BootConsole

/-! ## Time -/

theorem Event.le_next (wire : Wire) (limit now : Nat) (queue : List Event) :
    now ≤ (next wire limit now queue).2.1 ∧
      (next wire limit now queue).2.1 ≤ max now limit := by
  fun_induction next wire limit now queue with
  | case1 | case6 | case8 => exact ⟨Nat.le_max_left _ _, Nat.le_refl _⟩
  | case2 | case4 | case9 | case10 => exact ⟨Nat.le_refl _, Nat.le_max_left _ _⟩
  | case3 now bytes rest telnet empty induction =>
      subst telnet
      exact induction
  | case5 | case7 => omega

namespace Connection

/-- The clock goes forward, not beyond the deadline, and the journal goes with it. -/
structure Timely (deadline : Nat) (before after : Connection) : Prop where
  forward : before.clock ≤ after.clock
  bounded : after.clock ≤ max before.clock deadline
  journal : ∃ entries, after.journal = entries ++ before.journal ∧
    (∀ entry ∈ entries, before.clock ≤ entry.time ∧ entry.time ≤ after.clock) ∧
    entries.Pairwise fun later earlier => earlier.time ≤ later.time

theorem sturdy_timely (deadline : Nat) : Sturdy deadline (Timely deadline) where
  still clock journal _ := by
    refine ⟨Nat.le_of_eq clock.symm, ?_, [], journal, nofun, .nil⟩
    rw [clock]
    exact Nat.le_max_left _ _
  trans first second := by
    rcases first.journal with ⟨earlier, before, timesBefore, orderBefore⟩
    rcases second.journal with ⟨later, behind, timesBehind, orderBehind⟩
    have forward := first.forward
    have onward := second.forward
    refine ⟨forward.trans onward, ?_, later ++ earlier, ?_, ?_, ?_⟩
    · have least := first.bounded
      have most := second.bounded
      omega
    · rw [behind, before, List.append_assoc]
    · intro entry member
      rcases List.mem_append.mp member with member | member
      · exact ⟨forward.trans (timesBehind entry member).1, (timesBehind entry member).2⟩
      · exact ⟨(timesBefore entry member).1, (timesBefore entry member).2.trans onward⟩
    · refine List.pairwise_append.mpr ⟨orderBehind, orderBefore, ?_⟩
      intro late lateMember early earlyMember
      exact (timesBefore early earlyMember).2.trans (timesBehind late lateMember).1
  record event connection := by
    refine ⟨Nat.le_refl _, Nat.le_max_left _ _, [⟨connection.clock, event⟩], rfl, ?_, ?_⟩
    · exact List.forall_mem_singleton.mpr ⟨Nat.le_refl _, Nat.le_refl _⟩
    · exact List.pairwise_singleton _ _
  arrival limit connection early := by
    have times := Event.le_next connection.wire limit connection.clock connection.console.queue
    have most : max connection.clock limit ≤ max connection.clock deadline := by omega
    exact ⟨times.1, times.2.trans most, [], rfl, nofun, .nil⟩
  passing _ _ stalls _ := absurd stalls Pace.not_stalls_prompt

theorem timely_conduct (session : Session) (plan : Plan) :
    Throughout (Timely session.deadline) (session.conduct plan) := by
  have sturdy := sturdy_timely session.deadline
  refine sturdy.lasting.conduct ?_ sturdy.close plan
  intro connection
  exact ⟨Nat.le_refl _, Nat.le_max_left _ _, [], rfl, nofun, .nil⟩

end Connection

/-! ## Giving up -/

def Event.NothingDue (now : Nat) : List Event → Prop
  | [] => True
  | .pauseUntil time :: _ => now < time
  | _ => False

theorem Event.nothingDue_of_silence (wire : Wire) (limit now : Nat) (queue : List Event)
    (silence : (next wire limit now queue).1 = .silence) :
    limit ≤ (next wire limit now queue).2.1 ∧
      NothingDue (next wire limit now queue).2.1 (next wire limit now queue).2.2 := by
  fun_induction next wire limit now queue with
  | case1 now => exact ⟨Nat.le_max_right _ _, trivial⟩
  | case3 now bytes rest telnet empty induction =>
      subst telnet
      exact induction silence
  | case5 now milliseconds rest time early induction => exact induction silence
  | case7 now time rest early induction => exact induction silence
  | case6 now milliseconds rest time late => exact ⟨Nat.le_max_right _ _, Nat.lt_of_not_le late⟩
  | case8 now time rest late => exact ⟨Nat.le_max_right _ _, Nat.lt_of_not_le late⟩
  | case2 | case4 | case9 | case10 => cases silence

theorem Event.next_of_nothingDue (wire : Wire) {limit now : Nat} {queue : List Event}
    (past : limit ≤ now) (nothing : NothingDue now queue) :
    next wire limit now queue = (.silence, now, queue) := by
  have given : max now limit = now := Nat.max_eq_left past
  match queue with
  | [] => rw [next, given]
  | .pauseUntil time :: rest =>
      have late : ¬time ≤ max now limit := by
        rw [given]
        exact Nat.not_le.mpr nothing
      rw [next, if_neg late, given]
  | .data _ :: _ | .pause _ :: _ | .hangUp :: _ | .fail _ :: _ => cases nothing

def Failure.isTimeout : Failure → Bool
  | .promptTimeout _ _ | .stepTimeout _ _ _ => true
  | _ => false

variable {α β : Type} {events : List Happening}

theorem Reading.not_timeout {failure : Failure} (reads : Reading .heard events (.error failure)) :
    failure.isTimeout = false := by
  generalize equal : (Except.error failure : Except Failure (Option Bytes)) = outcome at reads
  induction reads with
  | goingBy _ _ induction => exact induction equal
  | hungUp | failed | unanswered => cases equal; rfl
  | text | silence => cases equal

theorem Relaying.not_timeout {failure : Failure} (relays : Relaying events (.error failure)) :
    failure.isTimeout = false := by
  cases relays with
  | unread reads => exact reads.not_timeout
  | unshown _ shows => cases shows <;> rfl

theorem Awaiting.not_timeout {pattern : Pattern} {watch : Watch} {failure : Failure}
    (awaits : Awaiting pattern watch events (.error failure)) : failure.isTimeout = false := by
  generalize equal : (Except.error failure : Except Failure (WaitEnd × Watch)) = outcome at awaits
  induction awaits with
  | goesOn _ _ _ induction => exact induction equal
  | failed relays =>
      cases equal
      exact relays.not_timeout
  | matched | late | hungUp => cases equal

theorem Settling.not_timeout {failure : Failure} (settles : Settling events (.error failure)) :
    failure.isTimeout = false := by
  generalize equal : (Except.error failure : Except Failure Unit) = outcome at settles
  induction settles with
  | goesOn _ _ induction => exact induction equal
  | failed relays =>
      cases equal
      exact relays.not_timeout
  | quiet => cases equal

namespace Connection

structure Exhausted (deadline : Nat) (connection : Connection) : Prop where
  late : deadline ≤ connection.clock
  nothing : Event.NothingDue connection.clock connection.console.queue

variable {limit : Nat} {connection after : Connection}

theorem exhausted_of_arrival (next : connection.arrival limit = (.silence, after)) :
    Exhausted limit after := by
  obtain ⟨silence, rfl⟩ := Prod.mk.inj next
  have given := Event.nothingDue_of_silence _ _ _ _ silence
  exact ⟨given.1, given.2⟩

theorem exhausted_of_receive (received : receive limit connection = .ok none after) :
    Exhausted limit after := by
  fun_induction receive limit connection with
  | case1 connection between next =>
      have given := exhausted_of_arrival next
      cases received
      exact ⟨given.late, given.nothing⟩
  | case5 _ _ _ _ _ decoded => exact absurd decoded (decode_ne_none _ _ _ _)
  | case6 _ _ _ _ _ _ _ _ induction => exact induction received
  | case2 | case3 | case4 | case7 => cases received

theorem exhausted_of_hear (heard : hear limit connection = .ok none after) :
    Exhausted limit after := by
  fun_induction hear limit connection with
  | case2 connection between received =>
      cases heard
      exact exhausted_of_receive received
  | case3 _ _ _ _ _ _ _ induction => exact induction heard
  | case1 | case4 => cases heard

/-- A read that is given up at this moment finds nothing. -/
theorem Exhausted.hear_eq {deadline : Nat} (exhausted : Exhausted deadline connection)
    (past : limit ≤ connection.clock) :
    hear limit connection = .ok none (connection.record .silence) := by
  have next : connection.arrival limit = (.silence, connection) := by
    rw [arrival, Event.next_of_nothingDue connection.wire past exhausted.nothing]
  have received : receive limit connection = .ok none (connection.record .silence) := by
    rw [receive_eq, next]
  rw [Connection.hear_eq, received]

end Connection

namespace Session

open Connection

/-- The operation fails for want of time only when there is none left. -/
def OnlyLate (deadline : Nat) (action : Action Connection α) : Prop :=
  ∀ connection failure after, action connection = .error failure after →
    failure.isTimeout = true → Exhausted deadline after

namespace OnlyLate

variable {deadline : Nat} {session : Session}

theorem bind {action : Action Connection α} {next : α → Action Connection β}
    (begins : OnlyLate deadline action) (goesOn : ∀ value, OnlyLate deadline (next value)) :
    OnlyLate deadline (action >>= next) := by
  intro connection failure after failed
  cases done : action connection with
  | error cause between =>
      rw [bind_of_error done] at failed
      cases failed
      exact begins connection failure after done
  | ok value between =>
      rw [bind_of_ok done] at failed
      exact goesOn value between failure after failed

/-- Other failures are of no concern. -/
theorem of_not_timeout {action : Action Connection α}
    (other : ∀ connection failure after, action connection = .error failure after →
      failure.isTimeout = false) : OnlyLate deadline action := by
  intro connection failure after failed timeout
  rw [other connection failure after failed] at timeout
  cases timeout

theorem pure (value : α) : OnlyLate deadline (Pure.pure value : Action Connection α) := by
  intro connection failure after failed
  cases failed

theorem throw {failure : Failure} (other : failure.isTimeout = false) :
    OnlyLate deadline (MonadExcept.throw failure : Action Connection α) := by
  apply of_not_timeout
  intro connection cause after failed
  cases failed
  exact other

theorem note (level : Level) (text : String) : OnlyLate deadline (note level text) := by
  intro connection failure after failed
  cases failed

theorem noticeHangUp : OnlyLate deadline noticeHangUp := by
  intro connection failure after failed
  cases failed

theorem requireOpen : OnlyLate deadline requireOpen := by
  apply of_not_timeout
  intro connection failure after failed
  rw [requireOpen_eq] at failed
  split at failed
  · cases failed
  · cases failed
    rfl

theorem requireConsole : OnlyLate deadline requireConsole := by
  apply of_not_timeout
  intro connection failure after failed
  rw [requireConsole_eq] at failed
  split at failed
  · cases failed
    rfl
  · cases failed

theorem say (line : String) : OnlyLate deadline (say line) := by
  apply of_not_timeout
  intro connection failure after failed
  rcases follows_say line connection with ⟨events, _, sends⟩
  rw [failed] at sends
  cases sends <;> rfl

/-! ## Waits -/

theorem exhausted_of_late {pattern : Pattern} {watch seen : Watch} {connection after : Connection}
    (late : session.await pattern watch connection = .ok (.late, seen) after) :
    Exhausted session.deadline after := by
  fun_induction session.await pattern watch connection with
  | case3 _ _ _ _ _ _ _ _ _ _ induction => exact induction late
  | case4 watch connection between heard =>
      cases late
      exact exhausted_of_hear heard
  | case1 | case2 | case5 | case6 => cases late

/-- A wait whose lateness is a failure. -/
theorem of_await {pattern : Pattern} {watch : Watch}
    {next : WaitEnd × Watch → Action Connection β}
    (onward : ∀ ended, ended.1 ≠ .late → OnlyLate session.deadline (next ended))
    (late : ∀ seen connection, stateAfter (next (.late, seen) connection) = connection) :
    OnlyLate session.deadline (session.await pattern watch >>= next) := by
  intro connection failure after failed timeout
  -- A wait that fails by itself does so for another reason; one that is late leaves it to `next`.
  cases done : session.await pattern watch connection with
  | error cause between =>
      rcases session.follows_await pattern watch connection with ⟨events, _, awaits⟩
      rw [done] at awaits
      rw [bind_of_error done] at failed
      cases failed
      rw [awaits.not_timeout] at timeout
      cases timeout
  | ok ended between =>
      rw [bind_of_ok done] at failed
      by_cases given : ended.1 = .late
      · rcases ended with ⟨_, seen⟩
        cases given
        have same := late seen between
        rw [failed] at same
        cases same
        exact exhausted_of_late done
      · exact onward ended given between failure after failed timeout

theorem awaitQuiet : OnlyLate deadline session.awaitQuiet := by
  apply of_not_timeout
  intro connection failure after failed
  rcases session.follows_awaitQuiet connection with ⟨events, _, settles⟩
  rw [failed] at settles
  exact settles.not_timeout

theorem awaitStep (command : String) (pattern : Pattern) (watch : Watch) :
    OnlyLate session.deadline (session.awaitStep command pattern watch) := by
  refine of_await ?_ fun _ _ => rfl
  intro ended given
  match ended with
  | (.matched _, _) => exact pure _
  | (.hungUp, _) => exact pure _
  | (.late, _) => exact absurd rfl given

theorem interrupt : OnlyLate session.deadline session.interrupt := by
  refine bind requireOpen fun _ => bind (say _) fun _ => of_await ?_ fun _ _ => rfl
  intro ended given
  match ended with
  | (.matched _, _) => exact awaitQuiet
  | (.hungUp, _) => exact bind noticeHangUp fun _ => throw rfl
  | (.late, _) => exact absurd rfl given

theorem perform (session : Session) (plan : Plan) :
    OnlyLate session.deadline (session.perform plan) :=
  have inherited : session.Inherited fun _ action => OnlyLate session.deadline action := {
    pure, bind, say, awaitStep, requireConsole, requireOpen, note
    notice := noticeHangUp
    interrupt }
  inherited.perform plan

end OnlyLate

theorem exhausted_close {deadline : Nat} {connection : Connection}
    (exhausted : Exhausted deadline connection) :
    Exhausted deadline (stateAfter (close connection)) := by
  cases isOpen : connection.isOpen with
  | false =>
      rw [close_of_closed isOpen]
      exact exhausted
  | true =>
      rw [close_of_open isOpen]
      dsimp only
      split <;> exact ⟨exhausted.late, exhausted.nothing⟩

theorem not_timeout_of_close {connection after : Connection} {failure : Failure}
    (failed : close connection = .error failure after) : failure.isTimeout = false := by
  cases isOpen : connection.isOpen with
  | false =>
      rw [close_of_closed isOpen] at failed
      cases failed
  | true =>
      rw [close_of_open isOpen] at failed
      cases refused : connection.closeFailure? with
      | none =>
          rw [refused] at failed
          cases failed
      | some cause =>
          rw [refused] at failed
          cases failed
          unfold Connection.closeFailure? at refused
          split at refused
          · cases refused
          · split at refused
            · cases refused
            · cases refused
              rfl

theorem onlyLate_conduct (session : Session) (plan : Plan) :
    OnlyLate session.deadline (session.conduct plan) := by
  intro connection failure after failed timeout
  unfold conduct conductFor at failed
  rw [performFor_failureMarkers] at failed
  -- The failure of the plan comes before that of the close, and closing is never late.
  cases driven : session.perform plan connection with
  | ok responses between =>
      rw [driven] at failed
      dsimp only at failed
      cases closing : close between with
      | ok _ last =>
          rw [closing] at failed
          cases failed
      | error cause last =>
          rw [closing] at failed
          cases failed
          rw [not_timeout_of_close closing] at timeout
          cases timeout
  | error cause between =>
      rw [driven] at failed
      dsimp only at failed
      have ended (same : cause = failure) :=
        exhausted_close (OnlyLate.perform session plan connection cause between driven
          (same ▸ timeout))
      cases closing : close between with
      | ok _ last =>
          rw [closing] at failed ended
          cases failed
          exact ended rfl
      | error second last =>
          rw [closing] at failed ended
          cases failed
          exact ⟨(ended rfl).late, (ended rfl).nothing⟩

/-- However a run goes, every moment of it is by the deadline, or where it began if that is later.
It reads no more than there is to read, and ends for want of time only at the deadline itself, when
nothing of what the console has given by then is left to be heard. -/
theorem conduct_keeps_deadline (session : Session) (plan : Plan) (wire : Wire) (console : Console)
    (desk : Desk) :
    let connection := Connection.ofConsole wire console desk
    let result := session.conduct plan connection
    let final := stateAfter result
    final.clock ≤ max desk.clock session.deadline ∧
      (∃ entries, final.journal = entries ++ desk.journal ∧
        (∀ entry ∈ entries, desk.clock ≤ entry.time ∧ entry.time ≤ final.clock) ∧
        entries.Pairwise fun later earlier => earlier.time ≤ later.time) ∧
      (∃ events, final.happenings = connection.happenings ++ events ∧
        (receivedIn events).length ≤ console.weight) ∧
      ∀ failure, outcome result = .error failure → failure.isTimeout = true →
        final.clock = max desk.clock session.deadline ∧
          Event.NothingDue final.clock final.console.queue ∧
          ∃ later, hear final.clock final = .ok none later := by
  intro connection result final
  have timely : Timely session.deadline connection final := timely_conduct session plan connection
  rcases session.accounts_conduct plan connection with ⟨events, raw, cues, account⟩
  have reads : (receivedIn events).length ≤ console.weight :=
    (Nat.le_add_right _ _).trans account.weight
  refine ⟨timely.bounded, timely.journal, ⟨events, account.happenings, reads⟩, ?_⟩
  intro failure failed timeout
  have exhausted : Exhausted session.deadline final := by
    cases ended : session.conduct plan connection with
    | ok responses last =>
        rw [show result = .ok responses last from ended] at failed
        cases failed
    | error cause last =>
        rw [show result = .error cause last from ended] at failed
        cases failed
        have given := onlyLate_conduct session plan connection failure last ended timeout
        rwa [show final = last from congrArg stateAfter ended]
  have clock : final.clock = max desk.clock session.deadline :=
    Nat.le_antisymm timely.bounded (Nat.max_le.mpr ⟨timely.forward, exhausted.late⟩)
  exact ⟨clock, exhausted.nothing, _, exhausted.hear_eq (Nat.le_refl _)⟩

end Session

end BootConsole
