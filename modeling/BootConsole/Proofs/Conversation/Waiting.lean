import BootConsole.Proofs.Conversation.Exchange
import BootConsole.Session.Basic

/-!
# Waiting

The courses of a session's waits. Each of them relays what it hears to the operator, chunk by chunk,
and looks at every chunk after it was shown.
-/

namespace BootConsole

inductive Relaying : Course (Option Bytes)
  | shown {events : List Happening} {chunk : Bytes} :
      Reading .heard events (.ok (some chunk)) →
      Relaying (events ++ [.shown chunk, .flushed]) (.ok (some chunk))
  | silence {events : List Happening} :
      Reading .heard events (.ok none) → Relaying events (.ok none)
  | unread {events : List Happening} {failure : Failure} :
      Reading .heard events (.error failure) → Relaying events (.error failure)
  | unshown {earlier later : List Happening} {chunk : Bytes} {failure : Failure} :
      Reading .heard earlier (.ok (some chunk)) → Showing chunk later (.error failure) →
      Relaying (earlier ++ later) (.error failure)

/-- A wait for a pattern, by what was watched before it. -/
inductive Awaiting (pattern : Pattern) : Watch → Course (WaitEnd × Watch)
  | matched {watch : Watch} {events : List Happening} {chunk bytes : Bytes} :
      Relaying events (.ok (some chunk)) → (watch.take chunk).match? pattern = some bytes →
      Awaiting pattern watch events (.ok (.matched bytes, watch.take chunk))
  | goesOn {watch : Watch} {earlier later : List Happening} {chunk : Bytes}
      {outcome : Except Failure (WaitEnd × Watch)} :
      Relaying earlier (.ok (some chunk)) → (watch.take chunk).match? pattern = none →
      Awaiting pattern (watch.take chunk) later outcome →
      Awaiting pattern watch (earlier ++ later) outcome
  | late {watch : Watch} {events : List Happening} :
      Relaying events (.ok none) → Awaiting pattern watch events (.ok (.late, watch))
  | hungUp {watch : Watch} {events : List Happening} :
      Relaying events (.error .disconnected) → watch.begun = true →
      Awaiting pattern watch events (.ok (.hungUp, watch))
  | failed {watch : Watch} {events : List Happening} {failure : Failure} :
      Relaying events (.error failure) → ¬(failure = .disconnected ∧ watch.begun = true) →
      Awaiting pattern watch events (.error failure)

inductive Settling : Course Unit
  | quiet {events : List Happening} : Relaying events (.ok none) → Settling events (.ok ())
  | goesOn {earlier later : List Happening} {chunk : Bytes} {outcome : Except Failure Unit} :
      Relaying earlier (.ok (some chunk)) → Settling later outcome →
      Settling (earlier ++ later) outcome
  | failed {events : List Happening} {failure : Failure} :
      Relaying events (.error failure) → Settling events (.error failure)

namespace Session

open Connection

/-! ## Relaying -/

variable [Pace] {limit : Nat} {connection between after : Connection} {chunk : Bytes}

theorem relays_shown (heard : hear limit connection = .ok (some chunk) between)
    (echoed : echo chunk between = .ok () after) :
    ∃ events, connection.Leads events after ∧ Relaying events (.ok (some chunk)) := by
  rcases follows_hear limit connection with ⟨earlier, leads, reads⟩
  rcases follows_echo chunk between with ⟨later, onward, shows⟩
  rw [heard] at leads reads
  rw [echoed] at onward shows
  cases shows with
  | shown => exact ⟨_, leads.trans onward, .shown reads⟩

theorem relays_unshown {failure : Failure}
    (heard : hear limit connection = .ok (some chunk) between)
    (echoed : echo chunk between = .error failure after) :
    ∃ events, connection.Leads events after ∧ Relaying events (.error failure) ∧
      failure ≠ .disconnected := by
  rcases follows_hear limit connection with ⟨earlier, leads, reads⟩
  rcases follows_echo chunk between with ⟨later, onward, shows⟩
  rw [heard] at leads reads
  rw [echoed] at onward shows
  refine ⟨_, leads.trans onward, .unshown reads shows, ?_⟩
  cases shows <;> simp

theorem relays_silence (heard : hear limit connection = .ok none after) :
    ∃ events, connection.Leads events after ∧ Relaying events (.ok none) := by
  rcases follows_hear limit connection with ⟨events, leads, reads⟩
  rw [heard] at leads reads
  exact ⟨events, leads, .silence reads⟩

theorem relays_unread {failure : Failure} (heard : hear limit connection = .error failure after) :
    ∃ events, connection.Leads events after ∧ Relaying events (.error failure) := by
  rcases follows_hear limit connection with ⟨events, leads, reads⟩
  rw [heard] at leads reads
  exact ⟨events, leads, .unread reads⟩

/-! ## Waits -/

theorem follows_await (session : Session) (pattern : Pattern) (watch : Watch)
    (connection : Connection) :
    connection.Follows (Awaiting pattern watch) (session.await pattern watch connection) := by
  fun_induction session.await pattern watch connection with
  | case1 watch connection chunk between heard failure after echoed =>
      rcases relays_unshown heard echoed with ⟨events, leads, relays, shown⟩
      exact ⟨events, leads, .failed relays fun gone => shown gone.1⟩
  | case2 watch connection chunk between heard seen _ after echoed bytes found =>
      rcases relays_shown heard echoed with ⟨events, leads, relays⟩
      exact ⟨events, leads, .matched relays found⟩
  | case3 watch connection chunk between heard seen _ after echoed missing induction =>
      rcases relays_shown heard echoed with ⟨earlier, leads, relays⟩
      rcases induction with ⟨later, onward, awaits⟩
      exact ⟨earlier ++ later, leads.trans onward, .goesOn relays missing awaits⟩
  | case4 watch connection after heard =>
      rcases relays_silence heard with ⟨events, leads, relays⟩
      exact ⟨events, leads, .late relays⟩
  | case5 watch connection failure after heard gone =>
      rcases relays_unread heard with ⟨events, leads, relays⟩
      exact ⟨events, leads, .hungUp (gone.1 ▸ relays) gone.2⟩
  | case6 watch connection failure after heard other =>
      rcases relays_unread heard with ⟨events, leads, relays⟩
      exact ⟨events, leads, .failed relays other⟩

theorem follows_awaitQuiet (session : Session) (connection : Connection) :
    connection.Follows Settling (session.awaitQuiet connection) := by
  fun_induction session.awaitQuiet connection with
  | case1 connection chunk between heard failure after echoed =>
      rcases relays_unshown heard echoed with ⟨events, leads, relays, _⟩
      exact ⟨events, leads, .failed relays⟩
  | case2 connection chunk between heard _ after echoed induction =>
      rcases relays_shown heard echoed with ⟨earlier, leads, relays⟩
      rcases induction with ⟨later, onward, settles⟩
      exact ⟨earlier ++ later, leads.trans onward, .goesOn relays settles⟩
  | case3 connection after heard =>
      rcases relays_silence heard with ⟨events, leads, relays⟩
      exact ⟨events, leads, .quiet relays⟩
  | case4 connection failure after heard =>
      rcases relays_unread heard with ⟨events, leads, relays⟩
      exact ⟨events, leads, .failed relays⟩

end Session

end BootConsole
