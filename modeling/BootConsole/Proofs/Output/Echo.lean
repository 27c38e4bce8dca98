import BootConsole.Proofs.Conversation.Flow
import BootConsole.Proofs.Output.Supply

/-!
# What the operator sees of a run

Everything that is received is stripped to its plain text and shown, chunk by chunk, before anything
else passes between the session and the console.
-/

namespace BootConsole

variable {events earlier later : List Happening}

/-! ## Plain text and pages, piece by piece -/

theorem Terminal.plainTexts_append (state : State) (first second : List Bytes) :
    plainTexts state (first ++ second) =
      ((plainTexts (plainTexts state first).1 second).1,
        (plainTexts state first).2 ++ (plainTexts (plainTexts state first).1 second).2) := by
  induction first generalizing state with
  | nil => rfl
  | cons chunk rest induction => simp [plainTexts, induction]

def Terminal.visibleTexts (state : State) (chunks : List Bytes) : List Bytes :=
  (plainTexts state chunks).2.filter fun text => !text.isEmpty

theorem Terminal.visibleTexts_append (state : State) (first second : List Bytes) :
    visibleTexts state (first ++ second) =
      visibleTexts state first ++ visibleTexts (plainTexts state first).1 second := by
  rw [visibleTexts, plainTexts_append, List.filter_append]
  rfl

theorem Journal.pagesFrom_append (waiting : Option Bytes) :
    (pagesFrom waiting (earlier ++ later)).2 =
      (pagesFrom (pagesFrom waiting earlier).2 later).2 := by
  induction earlier generalizing waiting with
  | nil => rfl
  | cons event rest induction =>
      cases event with
      | shown data => exact induction _
      | flushed => exact induction none
      | _ => exact induction waiting

/-! ## Being up to date -/

def Happening.isTraffic : Happening → Bool
  | .wrote _ | .wrotePart _ | .replied _ | .repliedPart _ | .sent _ | .writeFailed _ => true
  | .received _ | .silence | .hungUp | .readFailed _ => true
  | _ => false

/-- All plain text of what was received has been shown, and nothing shown still waits for a flush.
-/
structure CaughtUp (filter : Terminal.State) (events : List Happening) : Prop where
  shown : shownIn events = (Terminal.plainTexts filter (receivedIn events)).2.flatten
  flushed : (Journal.pagesFrom none events).2 = none

def Refused (events : List Happening) : Prop :=
  ∃ chunk cause, [.heard chunk, .showFailed cause] <:+: events

def Undisturbed (events : List Happening) : Prop :=
  ∀ cause, .showFailed cause ∉ events

theorem Undisturbed.parts (undisturbed : Undisturbed (earlier ++ later)) :
    Undisturbed earlier ∧ Undisturbed later :=
  ⟨fun cause member => undisturbed cause (List.mem_append_left _ member),
    fun cause member => undisturbed cause (List.mem_append_right _ member)⟩

theorem Undisturbed.not_refused (undisturbed : Undisturbed events) : ¬Refused events := by
  intro refused
  rcases refused with ⟨chunk, cause, inside⟩
  exact undisturbed cause (inside.subset (by simp))

theorem CaughtUp.nil (filter : Terminal.State) : CaughtUp filter [] :=
  ⟨rfl, rfl⟩

theorem CaughtUp.append {filter : Terminal.State} (before : CaughtUp filter earlier)
    (behind : CaughtUp (Terminal.plainTexts filter (receivedIn earlier)).1 later) :
    CaughtUp filter (earlier ++ later) where
  shown := by
    rw [shownIn_append, receivedIn_append, Terminal.plainTexts_append, List.flatten_append,
      before.shown, behind.shown]
  flushed := by rw [Journal.pagesFrom_append, before.flushed, behind.flushed]

namespace Connection

structure Echoed (before : Connection) (events : List Happening) (after : Connection) : Prop where
  happenings : after.happenings = before.happenings ++ events
  filter : after.filter = (Terminal.plainTexts before.filter (receivedIn events)).1
  heard : heardIn events = Terminal.visibleTexts before.filter (receivedIn events)
  shown : Refused events ∨ shownIn events = (heardIn events).flatten
  flushed : Undisturbed events → (Journal.pagesFrom none events).2 = none
  live : ∀ earlier event later, events = earlier ++ event :: later → event.isTraffic = true →
    Undisturbed earlier → CaughtUp before.filter earlier

def Echoes (before after : Connection) : Prop :=
  ∃ events, Echoed before events after

variable {before between after : Connection}

namespace Echoed

theorem caughtUp (echoed : Echoed before events after) (undisturbed : Undisturbed events) :
    CaughtUp before.filter events where
  shown := by
    rw [echoed.shown.resolve_left undisturbed.not_refused, echoed.heard, Terminal.visibleTexts,
      List.flatten_filter_not_isEmpty]
  flushed := echoed.flushed undisturbed

theorem trans (begins : Echoed before earlier between) (goesOn : Echoed between later after) :
    Echoed before (earlier ++ later) after where
  happenings := by rw [goesOn.happenings, begins.happenings, List.append_assoc]
  filter := by rw [goesOn.filter, begins.filter, receivedIn_append, Terminal.plainTexts_append]
  heard := by
    rw [heardIn_append, receivedIn_append, Terminal.visibleTexts_append, begins.heard,
      goesOn.heard, begins.filter]
  shown := by
    rcases begins.shown with ⟨chunk, cause, inside⟩ | first
    · exact .inl ⟨chunk, cause, inside.trans (List.prefix_append _ _).isInfix⟩
    · rcases goesOn.shown with ⟨chunk, cause, inside⟩ | second
      · exact .inl ⟨chunk, cause, inside.trans (List.suffix_append _ _).isInfix⟩
      · rw [shownIn_append, heardIn_append, List.flatten_append, first, second]
        exact .inr rfl
  flushed undisturbed := by
    rw [Journal.pagesFrom_append, begins.flushed undisturbed.parts.1,
      goesOn.flushed undisturbed.parts.2]
  live front event back split traffic undisturbed := by
    rcases List.append_eq_append_iff.mp split with ⟨rest, rfl, onward⟩ | ⟨rest, rfl, onward⟩
    -- The happening is in the second piece.
    · have first := begins.caughtUp undisturbed.parts.1
      have second := goesOn.live rest event back onward traffic undisturbed.parts.2
      rw [begins.filter] at second
      exact first.append second
    · rcases List.cons_eq_append_iff.mp onward with ⟨rfl, _⟩ | ⟨others, rfl, _⟩
      · rw [List.append_nil] at begins
        exact begins.caughtUp undisturbed
      · exact begins.live front event others rfl traffic undisturbed

/-- One thing happens that has nothing to do with what is read and shown. -/
theorem aside {event : Happening} (happenings : after.happenings = before.happenings ++ [event])
    (filter : after.filter = before.filter) (received : event.received? = none)
    (heard : event.heard? = none) (shown : event.shown? = none) :
    Echoed before [event] after where
  happenings := happenings
  filter := by rw [filter, receivedIn, List.filterMap_cons_none received]; rfl
  heard := by
    rw [heardIn, List.filterMap_cons_none heard, receivedIn, List.filterMap_cons_none received]
    rfl
  shown := by
    rw [shownIn, List.filterMap_cons_none shown, heardIn, List.filterMap_cons_none heard]
    exact .inr rfl
  flushed _ := by
    cases event with
    | shown => cases shown
    | _ => rfl
  live front other back split _ _ := by
    rcases List.cons_eq_append_iff.mp split with ⟨rfl, _⟩ | ⟨_, rfl, nothing⟩
    · exact .nil _
    · simp at nothing

end Echoed

namespace Echoes

theorem still (happenings : after.happenings = before.happenings)
    (filter : after.filter = before.filter) : Echoes before after :=
  ⟨[], happenings.trans (List.append_nil _).symm, filter, rfl, .inr rfl, fun _ => rfl, by simp⟩

theorem refl (connection : Connection) : Echoes connection connection :=
  .still rfl rfl

theorem trans (begins : Echoes before between) (goesOn : Echoes between after) :
    Echoes before after := by
  rcases begins with ⟨earlier, begins⟩
  rcases goesOn with ⟨later, goesOn⟩
  exact ⟨_, begins.trans goesOn⟩

theorem write [Pace] {whole part : Bytes → Happening}
    (wholly : ∀ taken connection, Echoes connection (connection.record (whole taken)))
    (partly : ∀ taken connection, Echoes connection (connection.record (part taken)))
    (limit : Option Nat) (data : Bytes) : Throughout Echoes (write limit whole part data) :=
  throughout_write @trans (fun _ _ _ _ => .still rfl rfl) wholly partly
    (fun _ _ => ⟨_, .aside (happenings_record _ _) rfl rfl rfl rfl⟩) limit data

theorem put [Pace] (data : Bytes) : Throughout Echoes (put data) :=
  Throughout.bind @trans
    (write (fun taken _ => ⟨_, .aside (happenings_record (.wrote taken) _) rfl rfl rfl rfl⟩)
      (fun taken _ => ⟨_, .aside (happenings_record (.wrotePart taken) _) rfl rfl rfl rfl⟩) _ data)
    fun _ => refl

theorem flush : Throughout Echoes flush := by
  intro connection
  unfold Connection.flush
  cases connection.console.flushes.next? with
  | none => exact .still rfl rfl
  | some cause => exact ⟨_, .aside (happenings_record _ _) rfl rfl rfl rfl⟩

theorem delivered (data : Bytes) : Throughout Echoes (delivered data) :=
  fun _ => ⟨_, .aside (happenings_record (.sent data) _) rfl rfl rfl rfl⟩

theorem say [Pace] (line : String) : Throughout Echoes (say line) :=
  throughout_say @trans put flush delivered line

theorem reply [Pace] (limit : Nat) (replies : Bytes) :
    Throughout Echoes (reply limit replies) := by
  unfold Connection.reply
  split
  · exact refl
  · exact write (fun taken _ => ⟨_, .aside (happenings_record (.replied taken) _) rfl rfl rfl rfl⟩)
      (fun taken _ => ⟨_, .aside (happenings_record (.repliedPart taken) _) rfl rfl rfl rfl⟩) _ _

theorem decode [Pace] (limit : Nat) (bytes : Bytes) : Throughout Echoes (decode limit bytes) :=
  throughout_decode refl trans (fun _ _ => .still rfl rfl) (fun _ _ => reply limit _) bytes

end Echoes

/-! ## Reading and showing -/

variable {bytes chunk : Bytes} {limit : Nat} {arrived : Arrival}

theorem echoes_arrival (next : before.arrival limit = (arrived, after)) : Echoes before after := by
  obtain ⟨_, rfl⟩ := Prod.mk.inj next
  exact .still rfl rfl

/-- A read shows nothing, and that it comes to text is the last that happens in it. -/
def Brings (found : Connection → Bytes → Connection → Prop) (before : Connection) :
    EStateM.Result Failure Connection (Option Bytes) → Prop
  | .ok (some text) after => ∃ between, Echoes before between ∧ found between text after
  | .ok none after | .error _ after => Echoes before after

theorem Brings.behind {found : Connection → Bytes → Connection → Prop}
    {result : EStateM.Result Failure Connection (Option Bytes)} (echoes : Echoes before between)
    (brings : Brings found between result) : Brings found before result := by
  match result with
  | .ok (some text) last =>
      rcases brings with ⟨later, goesOn, ends⟩
      exact ⟨later, echoes.trans goesOn, ends⟩
  | .ok none last | .error _ last => exact echoes.trans brings

theorem brings_receive [Pace] (limit : Nat) (connection : Connection) :
    Brings (fun between bytes after => after = between.record (.received bytes)) connection
      (receive limit connection) := by
  fun_induction receive limit connection with
  | case1 connection after next | case2 connection after next | case3 connection _ after next =>
      exact (echoes_arrival next).trans ⟨_, .aside (happenings_record _ after) rfl rfl rfl rfl⟩
  | case4 connection bytes between next failure after read =>
      have decoded := Echoes.decode limit bytes between
      rw [read] at decoded
      exact (echoes_arrival next).trans decoded
  | case5 connection bytes between next after read =>
      have decoded := Echoes.decode limit bytes between
      rw [read] at decoded
      exact ((echoes_arrival next).trans decoded).trans
        ⟨_, .aside (happenings_record .silence after) rfl rfl rfl rfl⟩
  | case6 connection bytes between next text after read silent induction =>
      have decoded := Echoes.decode limit bytes between
      rw [read] at decoded
      exact Brings.behind ((echoes_arrival next).trans decoded) induction
  | case7 connection bytes between next text after read some =>
      have decoded := Echoes.decode limit bytes between
      rw [read] at decoded
      exact ⟨after, (echoes_arrival next).trans decoded, rfl⟩

structure Heard (before : Connection) (bytes chunk : Bytes) (after : Connection) : Prop where
  happenings : after.happenings = before.happenings ++ [.received bytes, .heard chunk]
  plain : Terminal.plainText before.filter bytes = (after.filter, chunk)
  visible : chunk ≠ []

/-- When a chunk is received, everything before it has been shown; what follows is no traffic. -/
theorem live_of_received {filter : Terminal.State} {bytes : Bytes} {shows : List Happening}
    (others : ∀ event ∈ shows, event.isTraffic = false) (front : List Happening)
    (event : Happening) (back : List Happening)
    (split : .received bytes :: shows = front ++ event :: back) (traffic : event.isTraffic = true) :
    CaughtUp filter front := by
  rcases List.cons_eq_append_iff.mp split with ⟨rfl, _⟩ | ⟨rest, rfl, equal⟩
  · exact .nil filter
  · have other := others event (by simp [equal])
    rw [traffic] at other
    cases other

theorem echoed_of_nothing (happenings : after.happenings = before.happenings ++ [.received bytes])
    (plain : Terminal.plainText before.filter bytes = (after.filter, [])) :
    Echoed before [.received bytes] after where
  happenings := happenings
  filter := by simp [receivedIn, Happening.received?, Terminal.plainTexts, plain]
  heard := by
    simp [heardIn, Happening.heard?, receivedIn, Happening.received?, Terminal.visibleTexts,
      Terminal.plainTexts, plain]
  shown := .inr rfl
  flushed _ := rfl
  live front event back split traffic _ := live_of_received (by simp) front event back split traffic

theorem brings_hear [Pace] (limit : Nat) (connection : Connection) :
    Brings (fun between chunk after => ∃ bytes, Heard between bytes chunk after) connection
      (hear limit connection) := by
  fun_induction hear limit connection with
  | case1 connection failure after read | case2 connection after read =>
      have received := brings_receive limit connection
      rwa [read] at received
  | case3 connection bytes between read stripped filtered empty induction =>
      have received := brings_receive limit connection
      rw [read] at received
      rcases received with ⟨first, echoes, rfl⟩
      refine Brings.behind (echoes.trans ⟨[.received bytes], echoed_of_nothing ?_ ?_⟩) induction
      · exact happenings_record _ first
      · exact Prod.ext rfl (List.isEmpty_iff.mp empty)
  | case4 connection bytes between read stripped filtered some =>
      have received := brings_receive limit connection
      rw [read] at received
      rcases received with ⟨first, echoes, rfl⟩
      refine ⟨first, echoes, bytes, ?_, rfl, fun nothing => some (List.isEmpty_iff.mpr nothing)⟩
      calc (filtered.record (.heard stripped.2)).happenings
        _ = (first.record (.received bytes)).happenings ++ [.heard stripped.2] :=
          happenings_record _ filtered
        _ = first.happenings ++ [.received bytes, .heard stripped.2] := by
          rw [happenings_record, List.append_assoc]
          rfl

theorem echo_filter (text : Bytes) (connection : Connection) :
    (stateAfter (echo text connection)).filter = connection.filter := by
  unfold echo atDesk
  cases Desk.display text connection.toDesk with
  | ok _ desk => rfl
  | error failure desk => rfl

/-- A chunk that was heard is shown at once, or the terminal fails. -/
theorem echoed_of_heard (heard : Heard before bytes chunk between) :
    Echoes before (stateAfter (echo chunk between)) := by
  rcases follows_echo chunk between with ⟨shows, leads, course⟩
  generalize outcome (echo chunk between) = outcome at course
  have brought : receivedIn shows = [] ∧ heardIn shows = [] ∧
      ∀ event ∈ shows, event.isTraffic = false := by
    cases course <;> exact ⟨rfl, rfl, by simp [Happening.isTraffic]⟩
  have received : receivedIn (.received bytes :: .heard chunk :: shows) = [bytes] := by
    have front : receivedIn [.received bytes, .heard chunk] = [bytes] := rfl
    rw [← List.append_nil [bytes], ← front, ← brought.1, ← receivedIn_append]
    rfl
  have chunks : heardIn (.received bytes :: .heard chunk :: shows) = [chunk] := by
    have front : heardIn [.received bytes, .heard chunk] = [chunk] := rfl
    rw [← List.append_nil [chunk], ← front, ← brought.2.1, ← heardIn_append]
    rfl
  refine ⟨.received bytes :: .heard chunk :: shows, ?_, ?_, ?_, ?_, ?_, ?_⟩
  · rw [leads.happenings, heard.happenings, List.append_assoc]
    rfl
  · rw [echo_filter, received]
    simp [Terminal.plainTexts, heard.plain]
  · rw [received, chunks]
    simp [Terminal.visibleTexts, Terminal.plainTexts, heard.plain, heard.visible]
  · rw [chunks]
    cases course with
    | shown => exact .inr rfl
    | refused cause => exact .inl ⟨chunk, cause, [.received bytes], [], rfl⟩
    | stuck cause => exact .inr rfl
  · intro undisturbed
    cases course with
    | shown => rfl
    | refused cause | stuck cause => exact absurd (by simp) (undisturbed cause)
  · intro front event back split traffic _
    refine live_of_received ?_ front event back split traffic
    exact List.forall_mem_cons.mpr ⟨rfl, brought.2.2⟩

theorem lasting_echoes [Pace] (deadline : Nat) : Lasting deadline Echoes where
  refl := .refl
  trans := .trans
  say := .say
  note _ _ connection := ⟨_, .aside (happenings_record _ connection) rfl rfl rfl rfl⟩
  relay limit _ := by
    intro connection
    have heard := brings_hear limit connection
    cases read : hear limit connection with
    | error failure after =>
        rw [relay_of_error read]
        rwa [read] at heard
    | ok found after =>
        rw [read] at heard
        cases found with
        | none => rwa [relay_of_silence read]
        | some chunk =>
            rcases heard with ⟨between, echoes, bytes, heard⟩
            rw [relay_of_text read]
            exact echoes.trans (echoed_of_heard heard)

end Connection

namespace Session

open Connection

theorem echoes_close : Throughout Echoes close :=
  throughout_close Echoes.refl fun connection =>
    ⟨_, .aside (happenings_last connection) rfl rfl rfl rfl⟩

theorem echoes_run [Pace] (session : Session) (step : Step) :
    Throughout Echoes (session.run step) :=
  ((lasting_echoes session.deadline).inherited fun _ => .still rfl rfl).run step

theorem echoes_conduct [Pace] (session : Session) (plan : Plan) :
    Throughout Echoes (session.conduct plan) :=
  (lasting_echoes session.deadline).conduct (fun _ => .still rfl rfl) echoes_close plan

/-- A terminal that fails is the end of the conversation. -/
theorem conduct_undisturbed [Pace] {session : Session} {plan : Plan} {connection : Connection}
    {event : Happening} (isOpen : connection.isOpen = true)
    (happened : (stateAfter (session.conduct plan connection)).happenings =
      connection.happenings ++ (earlier ++ event :: later))
    (traffic : event.isTraffic = true) : Undisturbed earlier := by
  rcases follows_perform session plan isOpen with ⟨driven, leads, course⟩
  have ends := session.performing_breaksOff plan _ _ course
  rcases conduct_grows (leads.isOpen.trans isOpen) with ⟨notes, grown, only⟩
  have split : earlier ++ event :: later = driven ++ .closed :: notes := by
    rw [leads.happenings, happened, List.append_assoc] at grown
    exact List.append_cancel_left grown
  have silent : ∀ other ∈ .closed :: notes, other.isTraffic = false := by
    refine List.forall_mem_cons.mpr ⟨rfl, fun note member => ?_⟩
    have isNote := only note member
    cases note <;> simp_all [Happening.isNote, Happening.isTraffic]
  have inside : ∃ rest, driven = earlier ++ event :: rest := by
    rcases List.append_eq_append_iff.mp split with ⟨rest, whole, onward⟩ | ⟨rest, _, onward⟩
    · rcases List.cons_eq_append_iff.mp onward with ⟨_, ended⟩ | ⟨others, rfl, _⟩
      · have other := silent event (by simp [ended])
        rw [traffic] at other
        cases other
      · exact ⟨others, whole⟩
    · have other := silent event (by simp [onward])
      rw [traffic] at other
      cases other
  intro cause member
  rcases inside with ⟨rest, rfl⟩
  rcases List.append_of_mem member with ⟨front, back, rfl⟩
  rw [List.append_assoc, List.cons_append] at ends
  simpa using (ends.last_of_failure rfl).1

/-- Whatever comes of a run, the text of all that it takes off the console, in order, is received
unless an answer to the console's options is not taken, and its plain text is shown if the terminal
takes it; and whenever something passes between session and console, everything so far has reached
the operator. -/
theorem conduct_shows_everything (session : Session) (plan : Plan) (wire : Wire)
    (console : Console) (desk : Desk) :
    let connection := Connection.ofConsole wire console desk
    let final := stateAfter (session.conduct plan connection)
    ∃ events raw cues,
      final.happenings = connection.happenings ++ events ∧
      final.console.answers = console.answers.drop cues ∧
      Event.carried (console.queue ++ (console.answers.take cues).flatten) =
        raw ++ Event.carried final.console.queue ∧
      (¬WriteFailed events ∨ (repliedIn events).flatten = (wire.read .text raw).2.replies →
        (receivedIn events).flatten = (wire.read .text raw).2.text) ∧
      heardIn events = Terminal.visibleTexts .start (receivedIn events) ∧
      (¬Refused events → shownIn events = (heardIn events).flatten) ∧
      ∀ earlier event later, events = earlier ++ event :: later → event.isTraffic = true →
        CaughtUp .start earlier := by
  intro connection final
  have isOpen : connection.isOpen = true := rfl
  rcases session.accounts_conduct plan connection with ⟨events, raw, cues, account⟩
  rcases session.echoes_conduct plan connection with ⟨others, echoed⟩
  have same : others = events :=
    List.append_cancel_left (echoed.happenings.symm.trans account.happenings)
  subst same
  refine ⟨_, raw, cues, account.happenings, account.answers, account.supply,
    account.balance.text_of_replies, echoed.heard, echoed.shown.resolve_left, ?_⟩
  intro earlier event later split traffic
  have happened := echoed.happenings
  rw [split] at happened
  exact echoed.live earlier event later split traffic
    (conduct_undisturbed isOpen happened traffic)

end Session

end BootConsole
