import BootConsole.Proofs.Conversation.Deadline
import BootConsole.Proofs.Conversation.Stages
import BootConsole.Proofs.Conversation.Usage

/-!
# The quiet behind an interrupt

An interrupt is over when the console has been quiet for the quiet time, or at the deadline. The
time runs from the last plain text that came; what a read passes over, answers to options and escape
sequences, does not start it anew.
-/

namespace BootConsole

namespace Journal

def lastHeard? (journal : Journal) : Option Nat :=
  (journal.find? fun entry => entry.event.heard?.isSome).map Entry.time

theorem lastHeard?_append (later earlier : Journal) :
    lastHeard? (later ++ earlier) = (lastHeard? later).or (lastHeard? earlier) := by
  rw [lastHeard?, List.find?_append, Option.map_or]
  rfl

theorem lastHeard?_of_unheard {journal : Journal} (unheard : heardIn journal.happenings = []) :
    journal.lastHeard? = none := by
  rw [lastHeard?, Option.map_eq_none_iff, List.find?_eq_none]
  intro entry member heard
  have happened : entry.event ∈ journal.happenings :=
    List.mem_reverse.mpr (List.mem_map_of_mem member)
  have nothing := List.filterMap_eq_nil_iff.mp unheard entry.event happened
  rw [nothing] at heard
  cases heard

end Journal

namespace Connection

variable {limit : Nat} {connection between after : Connection} {chunk : Bytes}
  {entries : Journal} {events : List Happening}

/-- What the journal has gained is what happened. -/
theorem happenings_of_gained (gained : after.journal = entries ++ connection.journal)
    (happened : after.happenings = connection.happenings ++ events) :
    Journal.happenings entries = events := by
  rw [happenings, gained, Journal.happenings_append] at happened
  exact List.append_cancel_left happened

/-! ## One read -/

theorem timely_hear (limit : Nat) (connection : Connection) :
    Timely limit connection (stateAfter (hear limit connection)) :=
  (sturdy_timely limit).hear (Nat.le_refl limit) connection

/-- A read for nothing lasts until its limit. -/
theorem clock_of_silence (heard : hear limit connection = .ok none after) :
    after.clock = max connection.clock limit := by
  have timely := timely_hear limit connection
  rw [heard] at timely
  have late := (exhausted_of_hear heard).late
  exact Nat.le_antisymm timely.bounded (Nat.max_le.mpr ⟨timely.forward, late⟩)

theorem gained_of_silence (heard : hear limit connection = .ok none after) :
    ∃ entries, after.journal = entries ++ connection.journal ∧ entries.lastHeard? = none := by
  have timely := timely_hear limit connection
  rcases follows_hear limit connection with ⟨events, leads, reads⟩
  rw [heard] at timely leads reads
  rcases timely.journal with ⟨entries, gained, _⟩
  refine ⟨entries, gained, Journal.lastHeard?_of_unheard ?_⟩
  rw [happenings_of_gained gained leads.happenings]
  exact reads.heardIn_eq_nil fun _ impossible => by cases impossible

/-- Text is heard when it comes. -/
theorem recorded_of_text (heard : hear limit connection = .ok (some chunk) after) :
    ∃ between, Timely limit connection between ∧ after = between.record (.heard chunk) := by
  have sturdy := sturdy_timely limit
  have receives := sturdy.receive (Nat.le_refl limit) connection
  fun_induction hear limit connection with
  | case1 | case2 => cases heard
  | case3 connection bytes between received stripped filtered empty induction =>
      rcases induction heard (sturdy.receive (Nat.le_refl limit) filtered) with ⟨last, onward, rfl⟩
      rw [received] at receives
      have filters : Timely limit between filtered := sturdy.still rfl rfl rfl
      exact ⟨last, sturdy.trans receives (sturdy.trans filters onward), rfl⟩
  | case4 connection bytes between received stripped filtered some =>
      cases heard
      rw [received] at receives
      exact ⟨filtered, sturdy.trans receives (sturdy.still rfl rfl rfl), rfl⟩

theorem gained_of_text (heard : hear limit connection = .ok (some chunk) between)
    (echoed : echo chunk between = .ok () after) :
    ∃ entries, after.journal = entries ++ connection.journal ∧
      entries.lastHeard? = some after.clock := by
  rcases recorded_of_text heard with ⟨first, timely, rfl⟩
  rcases timely.journal with ⟨entries, gained, _⟩
  rw [echo_eq] at echoed
  split at echoed
  · cases echoed
  · split at echoed
    · cases echoed
    · cases echoed
      refine ⟨⟨first.clock, .flushed⟩ :: ⟨first.clock, .shown chunk⟩ ::
        ⟨first.clock, .heard chunk⟩ :: entries, ?_, rfl⟩
      exact congrArg (fun journal => _ :: _ :: _ :: journal) gained

end Connection

namespace Session

open Connection

variable {session : Session} {pattern : Pattern} {watch seen : Watch} {bytes : Bytes}
  {connection after : Connection}

/-! ## Waits -/

/-- A wait that ends by a match ends when the last text comes. -/
theorem gained_of_matched
    (awaited : session.await pattern watch connection = .ok (.matched bytes, seen) after) :
    ∃ entries, after.journal = entries ++ connection.journal ∧
      entries.lastHeard? = some after.clock := by
  fun_induction session.await pattern watch connection with
  | case2 watch connection chunk between heard taken _ last echoed found matches' =>
      obtain rfl : last = after := congrArg stateAfter awaited
      exact gained_of_text heard echoed
  | case3 watch connection chunk between heard taken _ last echoed missing induction =>
      rcases gained_of_text heard echoed with ⟨earlier, before, _⟩
      rcases induction awaited with ⟨later, onward, last⟩
      refine ⟨later ++ earlier, ?_, ?_⟩
      · rw [onward, before, List.append_assoc]
      · rw [Journal.lastHeard?_append, last]
        rfl
  | case1 | case4 | case5 | case6 => cases awaited

/-- The wait for quiet is counted from the last text, or from where it begins if none comes. -/
theorem settled_of_quiet (settled : session.awaitQuiet connection = .ok () after) :
    ∃ entries last, after.journal = entries ++ connection.journal ∧
      entries.lastHeard?.or (some connection.clock) = some last ∧
      after.clock = max last (min (last + Bootloader.quietTime) session.deadline) ∧
      Exhausted after.clock after := by
  fun_induction session.awaitQuiet connection with
  | case2 connection chunk between heard _ first echoed induction =>
      rcases gained_of_text heard echoed with ⟨earlier, before, came⟩
      rcases induction settled with ⟨later, last, onward, recent, ends⟩
      refine ⟨later ++ earlier, last, ?_, ?_, ends⟩
      · rw [onward, before, List.append_assoc]
      · rw [Journal.lastHeard?_append, came, recent]
        rfl
  | case3 connection calm heard =>
      cases settled
      rcases gained_of_silence heard with ⟨entries, gained, unheard⟩
      refine ⟨entries, connection.clock, gained, ?_, clock_of_silence heard, Nat.le_refl _,
        (exhausted_of_hear heard).nothing⟩
      rw [unheard]
      rfl
  | case1 | case4 => cases settled

/-! ## The interrupt -/

theorem stages_of_interrupt (interrupted : session.interrupt connection = .ok () after) :
    ∃ begun reached bytes seen, say Bootloader.interruptLine connection = .ok () begun ∧
      session.await session.prompt (.start session.depth []) begun =
        .ok (.matched bytes, seen) reached ∧
      session.awaitQuiet reached = .ok () after := by
  cases isOpen : connection.isOpen with
  | false =>
      rw [interrupt_of_closed isOpen] at interrupted
      cases interrupted
  | true =>
      rw [interrupt, requireOpen_bind _ isOpen] at interrupted
      cases said : say Bootloader.interruptLine connection with
      | error failure begun =>
          rw [bind_of_error said] at interrupted
          cases interrupted
      | ok _ begun =>
          rw [bind_of_ok said] at interrupted
          cases awaited : session.await session.prompt (.start session.depth []) begun with
          | error failure reached =>
              rw [bind_of_error awaited] at interrupted
              cases interrupted
          | ok ended reached =>
              rw [bind_of_ok awaited] at interrupted
              match ended with
              | (.matched bytes, seen) =>
                  exact ⟨begun, reached, bytes, seen, rfl, awaited, interrupted⟩
              | (.hungUp, _) | (.late, _) => cases interrupted

/-- An interrupt that comes to its end has sent its line and found the prompt in what came behind
the line. It ends the quiet time after the last plain text, or at the deadline if that is earlier,
but not before that text has come. Nothing that has come by then is left for the first step. -/
theorem interrupt_ends_in_quiet (session : Session) {connection after : Connection}
    (interrupted : session.interrupt connection = .ok () after) :
    ∃ entries wait noise written last,
      after.journal = entries ++ connection.journal ∧
      Journal.happenings entries =
        .wrote written :: .sent (lineBytes Bootloader.interruptLine) ::
          (wait ++ (noise ++ [.silence])) ∧
      written = connection.wire.encode (lineBytes Bootloader.interruptLine) ∧
      Answered session.depth session.prompt wait ∧ (∀ event ∈ noise, event.flows = true) ∧
      shownIn (Journal.happenings entries) = (heardIn (Journal.happenings entries)).flatten ∧
      entries.lastHeard? = some last ∧
      after.clock = max last (min (last + Bootloader.quietTime) session.deadline) ∧
      Event.NothingDue after.clock after.console.queue ∧
      ∀ limit ≤ after.clock, hear limit after = .ok none (after.record .silence) := by
  rcases stages_of_interrupt interrupted with ⟨begun, reached, bytes, seen, said, awaited, settled⟩
  have timely : Timely session.deadline connection (stateAfter (say _ connection)) :=
    (sturdy_timely session.deadline).say Bootloader.interruptLine connection
  rcases follows_say_encoded Bootloader.interruptLine connection with ⟨sending, spoke, sends, wire⟩
  rcases session.follows_await session.prompt (.start session.depth []) begun with
    ⟨wait, waited, awaits⟩
  rcases session.follows_awaitQuiet reached with ⟨rest, rested, settles⟩
  rw [said] at timely spoke sends
  rw [awaited] at waited awaits
  rw [settled] at rested settles
  rcases timely.journal with ⟨opening, opens, _⟩
  rcases gained_of_matched awaited with ⟨found, finds, came⟩
  rcases settled_of_quiet settled with ⟨quiet, last, calms, recent, clock, exhausted⟩
  rcases settles.quiet_of_ok with ⟨noise, rfl, flows⟩
  cases sends with
  | sent written =>
      have gained : after.journal = (quiet ++ (found ++ opening)) ++ connection.journal := by
        rw [calms, finds, show begun.journal = _ from opens]
        simp only [List.append_assoc]
      have happened := happenings_of_gained gained (spoke.trans (waited.trans rested)).happenings
      have lastHeard : Journal.lastHeard? (quiet ++ (found ++ opening)) = some last := by
        rw [Journal.lastHeard?_append, Journal.lastHeard?_append, came, ← recent]
        rfl
      refine ⟨_, wait, noise, written, last, gained, happened, wire.whole written (by simp),
        awaits.answered (Watch.fresh_start _ _), flows, ?_, lastHeard, clock, exhausted.nothing,
        fun limit past => exhausted.hear_eq past⟩
      rw [happened]
      change shownIn (wait ++ (noise ++ [.silence])) =
        (heardIn (wait ++ (noise ++ [.silence]))).flatten
      rw [shownIn_append, heardIn_append, awaits.relayed.2, settles.shown_of_ok,
        List.flatten_append]

/-- A second prompt starts the quiet time anew; an option and an escape sequence do not, and the
text behind them is too late. -/
theorem interrupt_ends_in_quiet_twice_prompted :
    let console : Console :=
      { Console.silent with
        answers := [[.data (Utf8.encode "^C\nRedBoot> "), .pause 250,
          .data (Utf8.encode "\nRedBoot> "), .pause 200, .data [Telnet.iac, Telnet.will, 1],
          .pause 90, .data (Utf8.encode "\x1b[K"), .pause 100, .data (Utf8.encode "late")]] }
    let connection := Connection.ofConsole .telnet console (.start .none .none)
    ∃ after entries, (usual Window.defaultDepth).interrupt connection = .ok () after ∧
      after.journal = entries ++ connection.journal ∧ entries.lastHeard? = some 250 ∧
      after.clock = 550 := by
  intro console connection
  have interrupted : (usual Window.defaultDepth).interrupt connection = .ok () _ :=
    eq_ok_of_outcome (by decide +kernel)
  rcases interrupt_ends_in_quiet _ interrupted with
    ⟨entries, _, _, _, last, gained, _, _, _, _, _, lastHeard, clock, _⟩
  have recent : Journal.lastHeard?
      (stateAfter ((usual Window.defaultDepth).interrupt connection)).journal = some 250 := by
    decide +kernel
  rw [gained, show connection.journal = [] from rfl, List.append_nil, lastHeard] at recent
  cases recent
  exact ⟨_, entries, interrupted, gained, lastHeard, clock⟩

end Session

end BootConsole
