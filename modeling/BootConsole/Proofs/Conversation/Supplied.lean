import BootConsole.Proofs.Conversation.Closing
import BootConsole.Proofs.Conversation.Flow
import BootConsole.Proofs.Output.Supply
import BootConsole.Proofs.Terminal.Cuts

/-!
# A console that has something to say

When the queue holds, in time, what a wait is for, the wait takes it up to the last chunk and no
further, unless a write fails on the way.
-/

namespace BootConsole

/-! ## Queues of text and pauses -/

namespace Event

def isPause : Event → Bool
  | .pause _ => true
  | _ => false

def isSpeech : Event → Bool
  | .data _ | .pause _ => true
  | _ => false

def reading (filter : Terminal.State) (queue : List Event) : Terminal.State × List Bytes :=
  Terminal.plainTexts filter (chunks queue)

def delay : List Event → Nat
  | [] => 0
  | .pause milliseconds :: rest => milliseconds + delay rest
  | _ :: rest => delay rest

theorem delay_data (bytes : Bytes) (rest : List Event) : delay (.data bytes :: rest) = delay rest :=
  rfl

theorem delay_append (first second : List Event) :
    delay (first ++ second) = delay first + delay second := by
  induction first with
  | nil => simp [delay]
  | cons event rest induction => cases event <;> simp [delay, induction, Nat.add_assoc]

theorem chunks_append (first second : List Event) :
    chunks (first ++ second) = chunks first ++ chunks second :=
  List.filterMap_append

theorem chunks_eq_nil_iff {queue : List Event} (speech : ∀ event ∈ queue, event.isSpeech = true) :
    chunks queue = [] ↔ ∀ event ∈ queue, event.isPause = true := by
  rw [chunks, List.filterMap_eq_nil_iff]
  refine forall₂_congr fun event member => ?_
  have kind := speech event member
  cases event with
  | data | pause => simp [chunk?, isPause]
  | pauseUntil | hangUp | fail => cases kind

theorem reading_of_chunks {filter : Terminal.State} {queue : List Event} {chunk : Bytes}
    {others : List Bytes} (split : chunks queue = chunk :: others) :
    reading filter queue =
      ((Terminal.plainTexts (Terminal.plainText filter chunk).1 others).1,
        (Terminal.plainText filter chunk).2 ::
          (Terminal.plainTexts (Terminal.plainText filter chunk).1 others).2) := by
  rw [reading, split, Terminal.plainTexts]

/-- The first text of the queue in which there is anything to see, and what follows it. -/
def Opens (filter : Terminal.State) (queue : List Event) (text : Bytes) (behind : Terminal.State)
    (rest : List Event) : Prop :=
  ∃ silent : List Bytes, silent.flatten = [] ∧
    reading filter queue = ((reading behind rest).1, silent ++ text :: (reading behind rest).2)

variable {filter behind : Terminal.State} {queue rest : List Event} {text : Bytes}

theorem Opens.state (opens : Opens filter queue text behind rest) :
    (reading filter queue).1 = (reading behind rest).1 := by
  rcases opens with ⟨silent, unseen, opens⟩
  rw [opens]

theorem Opens.flatten (opens : Opens filter queue text behind rest) :
    (reading filter queue).2.flatten = text ++ (reading behind rest).2.flatten := by
  rcases opens with ⟨silent, unseen, opens⟩
  rw [opens, List.flatten_append, unseen, List.nil_append, List.flatten_cons]

/-- Behind texts that were seen before there is then this one more. -/
theorem Opens.grown (opens : Opens filter queue text behind rest) (seen : List Bytes) :
    ∃ grown : List Bytes, grown ≠ [] ∧ grown.flatten = seen.flatten ++ text ∧
      seen ++ (reading filter queue).2 = grown ++ (reading behind rest).2 := by
  rcases opens with ⟨silent, unseen, opens⟩
  refine ⟨seen ++ silent ++ [text], by simp, ?_, by rw [opens]; simp⟩
  simp only [List.flatten_append, unseen, List.append_nil, List.flatten_singleton]

/-- Where there is no text to read there is no chunk. -/
theorem chunks_of_reading (nothing : (reading filter queue).2 = []) : chunks queue = [] := by
  cases split : chunks queue with
  | nil => rfl
  | cons chunk others =>
      rw [reading_of_chunks split] at nothing
      cases nothing

/-- The first chunk of a queue stands behind some pauses. -/
theorem front_of_chunks {queue : List Event} {chunk : Bytes} {others : List Bytes}
    (speech : ∀ event ∈ queue, event.isSpeech = true) (split : chunks queue = chunk :: others) :
    ∃ pauses rest, queue = pauses ++ .data chunk :: rest ∧
      (∀ event ∈ pauses, event.isPause = true) ∧ chunks rest = others := by
  rcases List.filterMap_eq_cons_iff.mp split with ⟨pauses, first, rest, rfl, none, same, others⟩
  have data : first = .data chunk := by
    cases first <;> cases same
    rfl
  subst data
  refine ⟨pauses, rest, rfl, (chunks_eq_nil_iff ?_).mp ?_, others⟩
  · exact fun event member => speech event (List.mem_append_left _ member)
  · exact List.filterMap_eq_nil_iff.mpr none

/-- A read waits out the pauses if there is time for them. -/
theorem next_of_pauses {pauses : List Event} (only : ∀ event ∈ pauses, event.isPause = true)
    {limit now : Nat} (early : now + delay pauses ≤ max now limit) (bytes : Bytes)
    (rest : List Event) :
    next .text limit now (pauses ++ .data bytes :: rest) =
      (.data bytes, now + delay pauses, rest) := by
  induction pauses generalizing now with
  | nil => rfl
  | cons event behind induction =>
      rcases List.forall_mem_cons.mp only with ⟨first, others⟩
      cases event with
      | pause milliseconds =>
          rw [delay] at early ⊢
          have soon : now + milliseconds ≤ max now limit := by omega
          have onward : now + milliseconds + delay behind ≤ max (now + milliseconds) limit := by
            omega
          have later := induction others onward
          rw [List.cons_append, next, if_pos soon, later, Nat.add_assoc]
      | data | pauseUntil | hangUp | fail => cases first

end Event

/-! ## Going well -/

def Happening.hinders : Happening → Bool
  | .writeFailed _ | .showFailed _ => true
  | _ => false

structure Yields (events : List Happening) (lines : List Bytes) (text : Bytes) : Prop where
  sent : sentIn events = lines
  shown : shownIn events = text

theorem Yields.nil : Yields [] [] [] := ⟨rfl, rfl⟩

theorem Yields.append {earlier later : List Happening} {first second : List Bytes}
    {front back : Bytes} (before : Yields earlier first front) (behind : Yields later second back) :
    Yields (earlier ++ later) (first ++ second) (front ++ back) :=
  ⟨by rw [sentIn_append, before.sent, behind.sent],
    by rw [shownIn_append, before.shown, behind.shown]⟩

variable {α β : Type}

namespace Connection

def GoesWell (before : Connection) (comes : α → List Happening → Connection → Prop)
    (result : EStateM.Result Failure Connection α) : Prop :=
  ∃ events, before.Leads events (stateAfter result) ∧
    match result with
    | .ok value after => comes value events after
    | .error _ _ => ∃ event ∈ events, event.hinders = true

namespace GoesWell

variable {before : Connection} {comes : α → List Happening → Connection → Prop}

theorem mono {wider : α → List Happening → Connection → Prop}
    {result : EStateM.Result Failure Connection α} (goes : before.GoesWell comes result)
    (included : ∀ value events after, comes value events after → wider value events after) :
    before.GoesWell wider result := by
  rcases goes with ⟨events, leads, came⟩
  cases result with
  | ok value after => exact ⟨events, leads, included value events after came⟩
  | error failure after => exact ⟨events, leads, came⟩

theorem after {between : Connection} {earlier : List Happening}
    {result : EStateM.Result Failure Connection α} (leads : before.Leads earlier between)
    (goes : between.GoesWell (fun value later after => comes value (earlier ++ later) after)
      result) : before.GoesWell comes result := by
  rcases goes with ⟨later, onward, came⟩
  refine ⟨earlier ++ later, leads.trans onward, ?_⟩
  cases result with
  | ok value after => exact came
  | error failure after =>
      rcases came with ⟨event, member, hinders⟩
      exact ⟨event, List.mem_append_right _ member, hinders⟩

theorem bind {action : Action Connection α} {next : α → Action Connection β}
    {brings : β → List Happening → Connection → Prop}
    (begun : before.GoesWell comes (action before))
    (goesOn : ∀ value earlier between, comes value earlier between →
      between.GoesWell (fun result later after => brings result (earlier ++ later) after)
        (next value between)) :
    before.GoesWell brings ((action >>= next) before) := by
  rcases begun with ⟨earlier, leads, came⟩
  cases done : action before with
  | error failure between =>
      rw [done] at leads came
      rw [bind_of_error done]
      exact ⟨earlier, leads, came⟩
  | ok value between =>
      rw [done] at leads came
      rw [bind_of_ok done]
      exact .after leads (goesOn value earlier between came)

theorem pure {value : α} (came : comes value [] before) :
    before.GoesWell comes ((Pure.pure value : Action Connection α) before) :=
  ⟨[], .refl before, came⟩

end GoesWell

/-! ## Reads that come to something -/

variable {connection between after : Connection} {limit : Nat} {bytes chunk : Bytes}

theorem receive_of_text (wired : after.wire = .text)
    (next : connection.arrival limit = (.data bytes, after)) :
    receive limit connection = .ok (some bytes) (after.record (.received bytes)) := by
  have decoded : decode limit bytes after = .ok (some bytes) after := by rw [decode, wired]
  rw [receive_eq, next]
  simp [decoded, wired]

theorem hear_of_nothing {filter : Terminal.State}
    (received : receive limit connection = .ok (some bytes) between)
    (plain : Terminal.plainText between.filter bytes = (filter, [])) :
    hear limit connection = hear limit { between with filter := filter } := by
  rw [hear_eq, received]
  simp only [plain, List.isEmpty_nil, if_true]

theorem hear_of_visible {filter : Terminal.State}
    (received : receive limit connection = .ok (some bytes) between)
    (plain : Terminal.plainText between.filter bytes = (filter, chunk)) (visible : chunk ≠ []) :
    hear limit connection =
      .ok (some chunk) (record (.heard chunk) { between with filter := filter }) := by
  rw [hear_eq, received]
  simp [plain, visible]

/-! ## A console that stands by -/

/-- The console has said nothing yet of what is `coming`, and will say what it owes when it is
written to. There is time for all of it. -/
structure Stands (cue : Cue) (deadline : Nat) (filter : Terminal.State) (coming : List Event)
    (owed : List (List Event)) (connection : Connection) : Prop where
  wire : connection.wire = .text
  filter : connection.filter = filter
  isOpen : connection.isOpen = true
  present : connection.hungUp = false
  cue : connection.console.cue = cue
  queue : connection.console.queue = coming
  answers : owed <+: connection.console.answers
  speech : ∀ event ∈ coming ++ owed.flatten, event.isSpeech = true
  early : connection.clock + Event.delay (coming ++ owed.flatten) ≤ max connection.clock deadline

variable {cue : Cue} {deadline : Nat} {filter : Terminal.State} {coming rest : List Event}
  {owed : List (List Event)}

namespace Stands

theorem record (stands : Stands cue deadline filter coming owed connection) (event : Happening) :
    Stands cue deadline filter coming owed (connection.record event) :=
  { stands with wire := stands.wire }

theorem filtered (stands : Stands cue deadline filter coming owed connection)
    (other : Terminal.State) :
    Stands cue deadline other coming owed { connection with filter := other } :=
  { stands with filter := rfl }

theorem speech_coming (stands : Stands cue deadline filter coming owed connection) :
    ∀ event ∈ coming, event.isSpeech = true :=
  fun event member => stands.speech event (List.mem_append_left _ member)

/-- The connection after its first chunk was taken off, behind some pauses. -/
theorem taken {pauses : List Event} (only : ∀ event ∈ pauses, event.isPause = true)
    (stands : Stands cue deadline filter (pauses ++ .data bytes :: rest) owed connection) :
    ∃ between, receive deadline connection = .ok (some bytes) between ∧
      Stands cue deadline filter rest owed between ∧
      connection.Leads [.received bytes] between := by
  have early := stands.early
  rw [List.append_assoc, List.cons_append, Event.delay_append, Event.delay_data] at early
  let after := { connection with
    clock := connection.clock + Event.delay pauses
    console.queue := rest }
  have soon : connection.clock + Event.delay pauses ≤ max connection.clock deadline := by omega
  have next : connection.arrival deadline = (.data bytes, after) := by
    have arrived := Event.next_of_pauses only soon bytes rest
    rw [← stands.wire, ← stands.queue] at arrived
    rw [arrival, arrived]
  have received := receive_of_text (show after.wire = .text from stands.wire) next
  refine ⟨_, received, .record ?_ _, ?_⟩
  · refine { stands with queue := rfl, speech := ?_, early := ?_ }
    · intro event member
      apply stands.speech
      rw [List.append_assoc, List.cons_append]
      exact List.mem_append_right _ (List.mem_cons_of_mem _ member)
    · change connection.clock + Event.delay pauses + _ ≤ max (connection.clock + _) deadline
      omega
  · exact (Leads.refl connection).trans ⟨happenings_record _ after, rfl, rfl, rfl, id⟩

/-- As long as there is something to see in what is coming, a read comes to it. -/
theorem heard (stands : Stands cue deadline filter coming owed connection)
    (some : (Event.reading filter coming).2.flatten ≠ []) :
    ∃ text behind rest events after, Event.Opens filter coming text behind rest ∧
      hear deadline connection = .ok (Option.some text) after ∧
      Stands cue deadline behind rest owed after ∧ connection.Leads events after ∧
      Yields events [] [] := by
  generalize split : Event.chunks coming = chunks
  induction chunks generalizing filter coming connection with
  | nil =>
      rw [Event.reading, split] at some
      exact absurd rfl some
  | cons first others induction =>
      rcases Event.front_of_chunks stands.speech_coming split with ⟨pauses, rest, rfl, only, rfl⟩
      rcases stands.taken only with ⟨between, received, onward, leads⟩
      have parts := @Event.reading_of_chunks filter _ _ _ split
      have read : Terminal.plainText between.filter first = Terminal.plainText filter first := by
        rw [onward.filter]
      rcases plain : Terminal.plainText filter first with ⟨behind, text⟩
      rw [plain] at parts read
      have onward := onward.filtered behind
      -- A chunk without anything to see is read over.
      by_cases nothing : text = []
      · subst nothing
        rw [parts] at some
        rcases induction onward some rfl with
          ⟨text, last, left, events, after, ⟨silent, unseen, opens⟩, heard, stays, onwards, yields⟩
        refine ⟨text, last, left, .received first :: events, after, ⟨[] :: silent, unseen, ?_⟩, ?_,
          stays, ?_, yields.sent, yields.shown⟩
        · rw [parts, ← Event.reading, opens]
          rfl
        · rw [hear_of_nothing received read, heard]
        · exact leads.trans
            ⟨onwards.happenings, onwards.wire, onwards.closing, onwards.isOpen, onwards.hungUp⟩
      · refine ⟨text, behind, rest, [.received first, .heard text], _, ⟨[], rfl, parts⟩,
          hear_of_visible received read nothing, onward.record _, ?_, rfl, rfl⟩
        exact leads.trans ⟨happenings_record _ _, rfl, rfl, rfl, id⟩

theorem echo (stands : Stands cue deadline filter coming owed connection) (text : Bytes) :
    Stands cue deadline filter coming owed (stateAfter (echo text connection)) := by
  have kept (desk : Desk) (clock : desk.clock = connection.clock) :
      Stands cue deadline filter coming owed { connection with toDesk := desk } :=
    { stands with early := by rw [clock]; exact stands.early }
  rw [echo_eq]
  split
  · exact kept _ rfl
  · split <;> exact kept _ rfl

end Stands

theorem goesWell_echo (stands : Stands cue deadline filter coming owed connection) (text : Bytes) :
    connection.GoesWell
      (fun _ events after => Stands cue deadline filter coming owed after ∧ Yields events [] text)
      (echo text connection) := by
  rcases follows_echo text connection with ⟨events, leads, shows⟩
  have kept := stands.echo text
  refine ⟨events, leads, ?_⟩
  cases done : echo text connection with
  | ok _ after =>
      rw [done] at shows kept
      cases shows with
      | shown => exact ⟨kept, rfl, by simp [shownIn, Happening.shown?]⟩
  | error failure after =>
      rw [done] at shows
      cases shows with
      | refused cause | stuck cause => exact ⟨.showFailed cause, by simp, rfl⟩

/-- As long as there is something to see in what is coming, the first of it is heard and shown. -/
theorem Stands.relayed (stands : Stands cue deadline filter coming owed connection)
    (some : (Event.reading filter coming).2.flatten ≠ []) :
    ∃ text behind rest between, Event.Opens filter coming text behind rest ∧
      hear deadline connection = .ok (Option.some text) between ∧
      connection.GoesWell
        (fun _ events after => Stands cue deadline behind rest owed after ∧ Yields events [] text)
        (Connection.echo text between) := by
  rcases stands.heard some with
    ⟨text, behind, rest, earlier, between, opens, heard, stays, leads, yields⟩
  refine ⟨text, behind, rest, between, opens, heard, ?_⟩
  exact .after leads ((goesWell_echo stays text).mono fun _ _ _ came =>
    ⟨came.1, yields.append came.2⟩)

end Connection

/-! ## A wait that is answered -/

/-- The chunks end a wait for the pattern: it is found behind the last of them, as deep as the
search goes, and behind none before. -/
structure EndsWait (depth : Nat) (pattern : Pattern) (chunks : List Bytes) : Prop where
  found : pattern.find? (chunks.flatten.rtake depth) ≠ none
  notBefore : ∀ count < chunks.length, 0 < count →
    pattern.find? ((chunks.take count).flatten.rtake depth) = none

namespace EndsWait

variable {depth : Nat} {pattern : Pattern} {earlier later : List Bytes}

theorem last (ends : EndsWait depth pattern (earlier ++ later)) (some : earlier ≠ [])
    (found : pattern.find? (earlier.flatten.rtake depth) ≠ none) : later = [] := by
  by_contra more
  have longer : earlier.length < (earlier ++ later).length := by
    rw [List.length_append]
    exact Nat.lt_add_of_pos_right (List.length_pos_iff.mpr more)
  have missing := ends.notBefore earlier.length longer (List.length_pos_iff.mpr some)
  rw [List.take_left] at missing
  exact found missing

theorem more (ends : EndsWait depth pattern (earlier ++ later))
    (missing : pattern.find? (earlier.flatten.rtake depth) = none) : later.flatten ≠ [] := by
  intro nothing
  have found := ends.found
  rw [List.flatten_append, nothing, List.append_nil] at found
  exact found missing

end EndsWait

theorem Watch.match?_take {watch : Watch} {history recent : Bytes}
    (keeps : watch.window.Keeps history recent) (pattern : Pattern) (chunk : Bytes) :
    (watch.take chunk).match? pattern = none ↔
      pattern.find? ((recent ++ chunk).rtake watch.window.depth) = none := by
  have searched := (keeps_take keeps chunk).searched
  rw [match?, Option.map_eq_none_iff, searched]
  rfl

namespace Session

open Connection

variable {session : Session} {cue : Cue} {filter : Terminal.State} {coming : List Event}
  {owed : List (List Event)}

/-- A wait whose answer is coming ends by a match behind the last chunk of it. -/
theorem goesWell_await (session : Session) (pattern : Pattern) (watch : Watch)
    (connection : Connection) (seen : List Bytes) (history : Bytes)
    (stands : Stands cue session.deadline filter coming owed connection)
    (keeps : watch.window.Keeps history seen.flatten) (depth : watch.window.depth = session.depth)
    (ends : EndsWait session.depth pattern (seen ++ (Event.reading filter coming).2))
    (some : (Event.reading filter coming).2.flatten ≠ []) :
    connection.GoesWell
      (fun ended events after => ∃ bytes left, ended.1 = .matched bytes ∧
        Stands cue session.deadline (Event.reading filter coming).1 left owed after ∧
        (∀ event ∈ left, event.isPause = true) ∧
        (∃ recent, ended.2.window.Keeps
          (history ++ (Event.reading filter coming).2.flatten) recent) ∧
        ended.2.window.depth = session.depth ∧
        Yields events [] (Event.reading filter coming).2.flatten)
      (session.await pattern watch connection) := by
  have relays {filter : Terminal.State} {coming : List Event} {connection : Connection}
      (stands : Stands cue session.deadline filter coming owed connection)
      (some : (Event.reading filter coming).2.flatten ≠ []) := stands.relayed some
  -- The induction is on the reads: at each of them, what was heard before (`seen`) and what is still
  -- coming make up the whole answer.
  fun_induction session.await pattern watch connection generalizing filter coming seen history with
  | case1 watch connection chunk between heard failure after echoed =>
      rcases relays stands some with ⟨text, behind, rest, last, opens, read, goes⟩
      cases heard.symm.trans read
      rw [echoed] at goes
      exact goes
  | case2 watch connection chunk between heard _ _ after echoed bytes =>
      rename_i found
      rcases relays stands some with ⟨text, behind, rest, last, opens, read, goes⟩
      cases heard.symm.trans read
      rw [echoed] at goes
      rcases goes with ⟨events, leads, stays, yields⟩
      rcases opens.grown seen with ⟨grown, some, text, parts⟩
      rw [parts] at ends
      have matched : pattern.find? (grown.flatten.rtake session.depth) ≠ none := by
        rw [text, ← depth]
        intro missing
        rw [(Watch.match?_take keeps pattern chunk).mpr missing] at found
        cases found
      have done := ends.last some matched
      have none := Event.chunks_of_reading done
      have ending : (Event.reading filter coming).1 = behind := by
        rw [opens.state, Event.reading, none]
        rfl
      have text : (Event.reading filter coming).2.flatten = chunk := by
        rw [opens.flatten, done, List.flatten_nil, List.append_nil]
      rw [ending, text]
      exact ⟨events, leads, bytes, rest, rfl, stays,
        (Event.chunks_eq_nil_iff stays.speech_coming).mp none,
        ⟨_, Watch.keeps_take keeps chunk⟩, depth, yields⟩
  | case3 watch connection chunk between heard _ _ after echoed missing =>
      rename_i induction
      rcases relays stands some with ⟨text, behind, rest, last, opens, read, goes⟩
      cases heard.symm.trans read
      rw [echoed] at goes
      rcases goes with ⟨events, leads, stays, yields⟩
      rcases opens.grown seen with ⟨grown, some, text, parts⟩
      rw [parts] at ends
      have unmatched : pattern.find? (grown.flatten.rtake session.depth) = none := by
        rw [text, ← depth]
        exact (Watch.match?_take keeps pattern chunk).mp missing
      have onward := induction grown (history ++ chunk) stays (text ▸ Watch.keeps_take keeps chunk)
        depth ends (ends.more unmatched)
      rw [opens.state, opens.flatten]
      refine .after leads (onward.mono fun ended later last came => ?_)
      rcases came with ⟨bytes, left, matched, stands, only, ⟨recent, keeps⟩, deep, goesOn⟩
      rw [List.append_assoc] at keeps
      exact ⟨bytes, left, matched, stands, only, ⟨recent, keeps⟩, deep, yields.append goesOn⟩
  | case4 watch connection after heard | case5 watch connection failure after heard
  | case6 watch connection failure after heard =>
      rcases relays stands some with ⟨_, _, _, _, _, read, _⟩
      cases heard.symm.trans read

end Session

end BootConsole
