import BootConsole.Proofs.Conversation.HangUps
import BootConsole.Proofs.Conversation.Usage
import BootConsole.Proofs.Output.Markers

/-!
# Steps by their chunks

What a step comes to is settled by the chunks that come from the console behind each of its lines.
Said in terms of these chunks, a wait has no window and no mark: it looks at the end of what has
come since it began, behind every chunk anew, and ends at the first chunk behind which its pattern
is found.
-/

namespace BootConsole

namespace Connection

inductive Relays [Pace] (limit : Nat) : Connection → List Bytes → Connection → Prop
  | nil (connection : Connection) : Relays limit connection [] connection
  | cons {connection between after : Connection} {chunk : Bytes} {chunks : List Bytes} :
      relay limit connection = .ok (some chunk) between → Relays limit between chunks after →
      Relays limit connection (chunk :: chunks) after

namespace Relays

variable [Pace] {limit : Nat} {connection between after : Connection} {chunk : Bytes}
  {chunks : List Bytes}

theorem cons_of_outcome (relayed : outcome (relay limit connection) = .ok (some chunk))
    (relays : Relays limit (stateAfter (relay limit connection)) chunks after) :
    Relays limit connection (chunk :: chunks) after :=
  .cons (eq_ok_of_outcome relayed) relays

theorem concat (relays : Relays limit connection chunks between)
    (relayed : relay limit between = .ok (some chunk) after) :
    Relays limit connection (chunks ++ [chunk]) after := by
  induction relays with
  | nil => exact .cons relayed (.nil after)
  | cons first _ induction => exact .cons first (induction relayed)

/-- The later chunks were read behind the earlier ones. -/
theorem of_append {earlier later : List Bytes}
    (relays : Relays limit connection (earlier ++ later) after) :
    ∃ between, Relays limit connection earlier between ∧ Relays limit between later after := by
  induction earlier generalizing connection with
  | nil => exact ⟨connection, .nil connection, relays⟩
  | cons first others induction =>
      cases relays with
      | cons relayed rest =>
          rcases induction rest with ⟨between, front, last⟩
          exact ⟨between, .cons relayed front, last⟩

theorem of_concat (relays : Relays limit connection (chunks ++ [chunk]) after) :
    ∃ between, Relays limit connection chunks between ∧
      relay limit between = .ok (some chunk) after := by
  rcases relays.of_append with ⟨between, front, last⟩
  cases last with
  | cons relayed rest =>
      cases rest
      exact ⟨between, front, relayed⟩

/-- What happens meanwhile is that these chunks are heard and shown. -/
theorem happened (relays : Relays limit connection chunks after) :
    ∃ events, after.happenings = connection.happenings ++ events ∧ heardIn events = chunks ∧
      shownIn events = chunks.flatten ∧ sentIn events = [] := by
  induction relays with
  | nil => exact ⟨[], (List.append_nil _).symm, rfl, rfl, rfl⟩
  | @cons connection between after chunk chunks relayed _ induction =>
      rcases induction with ⟨later, grown, heard, shown, sent⟩
      rcases parts_of_relay relayed with ⟨read, reading, echoed⟩
      rcases Session.relays_shown reading echoed with ⟨earlier, leads, relaying⟩
      refine ⟨earlier ++ later, ?_, ?_, ?_, ?_⟩
      · rw [grown, leads.happenings, List.append_assoc]
      · rw [heardIn_append, relaying.flows_of_chunk.2, heard]
        rfl
      · rw [shownIn_append, relaying.shownIn_of_chunk, shown]
        rfl
      · have silent : ∀ event ∈ earlier, event.speaks = false := fun event member =>
          Happening.speaks_of_isOfWait (relaying.isOfWait event member)
        rw [sentIn_append, sentIn_eq_nil silent, sent]
        rfl

end Relays

/-- Reading goes on to a chunk that stops it, or until a read comes to no chunk. -/
theorem exists_relays [Pace] (limit : Nat) (stops : List Bytes → Prop) (seen : List Bytes)
    (connection : Connection) :
    ∃ chunks between, Relays limit connection chunks between ∧
      (∀ count, 0 < count → count ≤ chunks.length → ¬stops (seen ++ chunks.take count)) ∧
      ((∃ last after, relay limit between = .ok (some last) after ∧
          stops (seen ++ (chunks ++ [last]))) ∨
        ∀ last after, relay limit between ≠ .ok (some last) after) := by
  induction size : connection.weight using Nat.strongRecOn generalizing seen connection with
  | _ size induction =>
    have none (count : Nat) (positive : 0 < count) (inside : count ≤ ([] : List Bytes).length) :
        ¬stops (seen ++ ([] : List Bytes).take count) :=
      absurd (Nat.le_zero.mp inside) (Nat.ne_of_gt positive)
    by_cases more : ∃ first after, relay limit connection = .ok (some first) after
    · rcases more with ⟨first, after, relayed⟩
      by_cases stop : stops (seen ++ [first])
      · exact ⟨[], connection, .nil connection, none, .inl ⟨first, after, relayed, stop⟩⟩
      · rcases induction _ (size ▸ weight_relay_lt relayed) (seen ++ [first]) after rfl with
          ⟨chunks, between, relays, before, ends⟩
        refine ⟨first :: chunks, between, .cons relayed relays, fun count positive inside => ?_, ?_⟩
        · match count with
          | 1 => exact stop
          | count + 2 => simpa using before (count + 1) (by omega) (by simpa using inside)
        · simpa using ends
    · exact ⟨[], connection, .nil connection, none,
        .inr fun last after relayed => more ⟨last, after, relayed⟩⟩

end Connection

def found? (depth : Nat) (pattern : Pattern) (chunks : List Bytes) : Option Bytes :=
  (pattern.find? (chunks.flatten.rtake depth)).map fun span =>
    span.slice (chunks.flatten.rtake depth)

def Misses (depth : Nat) (pattern : Pattern) (chunks : List Bytes) : Prop :=
  ∀ count, 0 < count → count ≤ chunks.length → found? depth pattern (chunks.take count) = none

namespace Watch

variable {watch : Watch}

theorem Fresh.match?_takeAll (fresh : watch.Fresh) (pattern : Pattern) (chunks : List Bytes) :
    (watch.takeAll chunks).match? pattern = found? watch.window.depth pattern chunks := by
  rw [match?, fresh.searched, found?]

theorem begun_takeAll_iff (chunks : List Bytes) :
    (watch.takeAll chunks).begun = true ↔ watch.begun = true ∨ chunks ≠ [] := by
  rcases List.eq_nil_or_concat chunks with rfl | ⟨front, last, rfl⟩
  · simp
  · exact iff_of_true (begun_takeAll (by simp)) (.inr (by simp))

end Watch

namespace Session

open Connection

variable {session : Session} {step : Step} {command : String} {pattern : Pattern}
  {watch : Watch} {connection between after : Connection} {before chunks : List Bytes}

/-! ## Waits -/

/-- How a wait of a step has to end, by the chunks that come from the connection. The chunks
`before` came in the step before the wait. -/
inductive WaitSettled [Pace] (session : Session) (command : String) (pattern : Pattern)
    (before : List Bytes) (connection : Connection) :
    EStateM.Result Failure Connection (Option Bytes × List Bytes) → Prop
  /-- The first chunk behind which the pattern is found is the last one that is read. -/
  | matched {chunks : List Bytes} {last bytes : Bytes} {after : Connection} :
      Relays session.deadline connection (chunks ++ [last]) after →
      Misses session.depth pattern chunks →
      found? session.depth pattern (chunks ++ [last]) = some bytes →
      WaitSettled session command pattern before connection
        (.ok (some bytes, chunks ++ [last]) after)
  /-- The console hangs up, when there was output of the step. -/
  | hungUp {chunks : List Bytes} {between after : Connection} :
      Relays session.deadline connection chunks between →
      Misses session.depth pattern chunks →
      relay session.deadline between = .error .disconnected after → before ++ chunks ≠ [] →
      WaitSettled session command pattern before connection (.ok (none, chunks) after)
  /-- No further chunk comes by the deadline. -/
  | late {chunks : List Bytes} {between after : Connection} :
      Relays session.deadline connection chunks between →
      Misses session.depth pattern chunks →
      relay session.deadline between = .ok none after →
      WaitSettled session command pattern before connection
        (.error (.stepTimeout command pattern.text session.timeout) after)
  /-- A read fails, or a chunk cannot be shown. A console that hangs up without any output of the
  step is such a failure. -/
  | failed {chunks : List Bytes} {between after : Connection} {failure : Failure} :
      Relays session.deadline connection chunks between →
      Misses session.depth pattern chunks →
      relay session.deadline between = .error failure after →
      ¬(failure = .disconnected ∧ before ++ chunks ≠ []) →
      WaitSettled session command pattern before connection (.error failure after)

/-- However a console behaves, its chunks settle a wait. -/
theorem exists_waitSettled [Pace] (session : Session) (command : String) (pattern : Pattern)
    (before : List Bytes) (connection : Connection) :
    ∃ waited, session.WaitSettled command pattern before connection waited := by
  rcases exists_relays session.deadline (fun chunks => found? session.depth pattern chunks ≠ none)
    [] connection with ⟨chunks, between, relays, unmatched, ends⟩
  have misses : Misses session.depth pattern chunks := fun count positive inside =>
    not_not.mp (unmatched count positive inside)
  rcases ends with ⟨last, after, relayed, found⟩ | nothing
  · rcases Option.ne_none_iff_exists'.mp found with ⟨bytes, found⟩
    exact ⟨_, .matched (relays.concat relayed) misses found⟩
  · cases relayed : relay session.deadline between with
    | ok found after =>
        cases found with
        | none => exact ⟨_, .late relays misses relayed⟩
        | some last => exact absurd relayed (nothing last after)
    | error failure after =>
        by_cases gone : failure = .disconnected ∧ before ++ chunks ≠ []
        · exact ⟨_, .hungUp relays misses (gone.1 ▸ relayed) gone.2⟩
        · exact ⟨_, .failed relays misses relayed gone⟩

/-- Chunks behind which the pattern is not found are passed over. -/
theorem await_of_relays [Pace] (relays : Relays session.deadline connection chunks after)
    (fresh : watch.Fresh) (misses : Misses watch.window.depth pattern chunks) :
    session.await pattern watch connection =
      session.await pattern (watch.takeAll chunks) after := by
  have missed : ∀ count, 0 < count → count ≤ chunks.length →
      (watch.takeAll (chunks.take count)).match? pattern = none := by
    intro count positive inside
    rw [fresh.match?_takeAll]
    exact misses count positive inside
  clear misses fresh
  induction relays generalizing watch with
  | nil => rfl
  | cons relayed _ induction =>
      have first : (watch.take _).match? pattern = none := missed 1 Nat.one_pos (by simp)
      rw [await_eq, relayed]
      simp only [first]
      refine induction fun count positive inside => ?_
      exact missed (count + 1) (Nat.succ_pos count) (Nat.succ_le_succ inside)

/-- The first chunk behind which the pattern is found ends the wait. -/
theorem await_of_found [Pace] {last bytes : Bytes}
    (relays : Relays session.deadline connection (chunks ++ [last]) after) (fresh : watch.Fresh)
    (misses : Misses watch.window.depth pattern chunks)
    (found : found? watch.window.depth pattern (chunks ++ [last]) = some bytes) :
    session.await pattern watch connection =
      .ok (.matched bytes, watch.takeAll (chunks ++ [last])) after := by
  rcases relays.of_concat with ⟨between, front, relayed⟩
  have matches' : ((watch.takeAll chunks).take last).match? pattern = some bytes := by
    rw [← fresh.match?_takeAll, Watch.takeAll_append] at found
    exact found
  rw [await_of_relays front fresh misses, await_eq, relayed, Watch.takeAll_append]
  simp only [matches']
  rfl

/-- A wait is over by any chunk behind which its pattern is found. -/
theorem exists_await_of_found [Pace] {count : Nat}
    (relays : Relays session.deadline connection chunks after) (fresh : watch.Fresh)
    (positive : 0 < count) (inside : count ≤ chunks.length)
    (found : found? watch.window.depth pattern (chunks.take count) ≠ none) :
    ∃ least ≤ count, ∃ bytes matched,
      Relays session.deadline connection (chunks.take least) matched ∧
      found? watch.window.depth pattern (chunks.take least) = some bytes ∧
      session.await pattern watch connection =
        .ok (.matched bytes, watch.takeAll (chunks.take least)) matched := by
  induction count using Nat.strongRecOn with
  | _ count induction =>
    by_cases earlier : ∃ less < count, 0 < less ∧
        found? watch.window.depth pattern (chunks.take less) ≠ none
    · rcases earlier with ⟨less, before, some, foundEarlier⟩
      rcases induction less before some (by omega) foundEarlier with ⟨least, bound, others⟩
      exact ⟨least, bound.trans (Nat.le_of_lt before), others⟩
    · rcases Option.ne_none_iff_exists'.mp found with ⟨bytes, foundHere⟩
      rcases Nat.exists_eq_add_one.mpr positive with ⟨front, rfl⟩
      have misses : Misses watch.window.depth pattern (chunks.take front) := by
        intro less some before
        rw [List.length_take] at before
        rw [List.take_take, Nat.min_eq_left (by omega)]
        exact not_not.mp fun foundEarlier => earlier ⟨less, by omega, some, foundEarlier⟩
      rcases (List.take_append_drop (front + 1) chunks ▸ relays).of_append with ⟨matched, first, _⟩
      refine ⟨front + 1, Nat.le_refl _, bytes, matched, first, foundHere, ?_⟩
      rw [List.take_succ_eq_append_getElem inside] at first foundHere ⊢
      exact await_of_found first fresh misses foundHere

def watched (watch : Watch) :
    EStateM.Result Failure Connection (Option Bytes × List Bytes) →
      EStateM.Result Failure Connection (Option Bytes × Watch)
  | .ok (ending, chunks) after => .ok (ending, watch.takeAll chunks) after
  | .error failure after => .error failure after

theorem awaitStep_of_settled [Pace]
    {waited : EStateM.Result Failure Connection (Option Bytes × List Bytes)}
    (fresh : watch.Fresh) (depth : watch.window.depth = session.depth)
    (begun : watch.begun = true ↔ before ≠ [])
    (settled : session.WaitSettled command pattern before connection waited) :
    session.awaitStep command pattern watch connection = watched watch waited := by
  have begunBy (chunks : List Bytes) :
      (watch.takeAll chunks).begun = true ↔ before ++ chunks ≠ [] := by
    rw [Watch.begun_takeAll_iff, begun]
    simp [or_iff_not_imp_left]
  cases settled with
  | @matched chunks last bytes after relays misses found =>
      have awaited := await_of_found relays fresh (depth ▸ misses) (depth ▸ found)
      rw [awaitStep, bind_of_ok awaited]
      rfl
  | @hungUp chunks between after relays misses relayed some =>
      have awaited : session.await pattern watch connection =
          .ok (.hungUp, watch.takeAll chunks) after := by
        rw [await_of_relays relays fresh (depth ▸ misses), await_eq, relayed]
        exact if_pos ⟨rfl, (begunBy chunks).mpr some⟩
      rw [awaitStep, bind_of_ok awaited]
      rfl
  | @late chunks between after relays misses relayed =>
      have awaited : session.await pattern watch connection =
          .ok (.late, watch.takeAll chunks) after := by
        rw [await_of_relays relays fresh (depth ▸ misses), await_eq, relayed]
      rw [awaitStep, bind_of_ok awaited]
      rfl
  | @failed chunks between after failure relays misses relayed other =>
      have awaited : session.await pattern watch connection = .error failure after := by
        rw [await_of_relays relays fresh (depth ▸ misses), await_eq, relayed]
        exact if_neg fun gone => other ⟨gone.1, (begunBy chunks).mp gone.2⟩
      rw [awaitStep, bind_of_error awaited]
      rfl

/-! ## Steps -/

def report (session : Session) (step : Step) (ending : Option Bytes) (chunks : List Bytes) :
    Response where
  command := step.command
  output := Utf8.lossy (chunks.flatten.rtake session.depth)
  prompt := (ending.map promptText).getD ""
  failure := ((Watch.start session.depth Bootloader.failureMarkers).takeAll chunks).failure
  closed := ending.isNone

def reported (session : Session) (step : Step) (before : List Bytes) :
    EStateM.Result Failure Connection (Option Bytes × List Bytes) →
      EStateM.Result Failure Connection Response
  | .ok (ending, chunks) after =>
      (do
        let response := session.report step ending (before ++ chunks)
        conclude response
        return response : Action Connection Response) after
  | .error failure after => .error failure after

/-- What a step has to come to, by the chunks that come from the connection behind its command. -/
inductive StepSettled [Pace] (session : Session) (step : Step) (connection : Connection) :
    EStateM.Result Failure Connection Response → Prop
  /-- A step without a question is one wait. -/
  | plain {waited : EStateM.Result Failure Connection (Option Bytes × List Bytes)} :
      step.reply = none →
      session.WaitSettled step.command step.expect [] connection waited →
      StepSettled session step connection (session.reported step [] waited)
  /-- The console hangs up before it asks, and nothing is answered. -/
  | unasked {reply : Reply} {chunks : List Bytes} {after : Connection} :
      step.reply = some reply →
      session.WaitSettled step.command reply.question [] connection (.ok (none, chunks) after) →
      StepSettled session step connection (session.reported step [] (.ok (none, chunks) after))
  | failed {reply : Reply} {failure : Failure} {after : Connection} :
      step.reply = some reply →
      session.WaitSettled step.command reply.question [] connection (.error failure after) →
      StepSettled session step connection (.error failure after)
  /-- The answer cannot be sent. -/
  | unsaid {reply : Reply} {asked : List Bytes} {bytes : Bytes} {failure : Failure}
      {between after : Connection} :
      step.reply = some reply →
      session.WaitSettled step.command reply.question [] connection
        (.ok (some bytes, asked) between) →
      say reply.answer between = .error failure after →
      StepSettled session step connection (.error failure after)
  /-- The answer is sent behind the chunk that brought the question, and only what comes behind the
  answer can end the step. -/
  | answered {reply : Reply} {asked : List Bytes} {bytes : Bytes} {between told : Connection}
      {waited : EStateM.Result Failure Connection (Option Bytes × List Bytes)} :
      step.reply = some reply →
      session.WaitSettled step.command reply.question [] connection
        (.ok (some bytes, asked) between) →
      say reply.answer between = .ok () told →
      session.WaitSettled step.command step.expect asked told waited →
      StepSettled session step connection (session.reported step asked waited)

theorem exists_stepSettled [Pace] (session : Session) (step : Step) (connection : Connection) :
    ∃ result, session.StepSettled step connection result := by
  cases replied : step.reply with
  | none =>
      rcases session.exists_waitSettled step.command step.expect [] connection with ⟨_, settled⟩
      exact ⟨_, .plain replied settled⟩
  | some reply =>
      rcases session.exists_waitSettled step.command reply.question [] connection with
        ⟨waited, settled⟩
      match waited with
      | .error failure after => exact ⟨_, .failed replied settled⟩
      | .ok (none, chunks) after => exact ⟨_, .unasked replied settled⟩
      | .ok (some bytes, asked) between =>
          cases said : say reply.answer between with
          | error failure after => exact ⟨_, .unsaid replied settled said⟩
          | ok _ told =>
              rcases session.exists_waitSettled step.command step.expect asked told with
                ⟨_, further⟩
              exact ⟨_, .answered replied settled said further⟩

/-- The watch tells of its wait and of the chunks before it, whatever a mark hides from the
search. -/
def Recalls (session : Session) (step : Step) (watch : Watch) (before : List Bytes) : Prop :=
  ∀ ending chunks,
    response step ending (watch.takeAll chunks) = session.report step ending (before ++ chunks)

theorem recalls_start (session : Session) (step : Step) :
    session.Recalls step (.start session.depth Bootloader.failureMarkers) [] := by
  intro ending chunks
  have keeps := Watch.keeps_takeAll
    (Watch.keeps_start session.depth Bootloader.failureMarkers) chunks
  rw [response, report, keeps.bytes, Watch.depth_takeAll]
  rfl

theorem recalls_turn (session : Session) (step : Step) (asked : List Bytes) :
    session.Recalls step ((Watch.start session.depth Bootloader.failureMarkers).takeAll asked).turn
      asked := by
  intro ending chunks
  rcases Watch.takeAll_floor ((Watch.start session.depth Bootloader.failureMarkers).takeAll asked) _
    chunks with ⟨left, marked⟩
  have whole := session.recalls_start step ending (asked ++ chunks)
  rw [Watch.takeAll_append] at whole
  rw [Watch.turn, Window.hide, marked]
  exact whole

theorem run_of_awaitAll [Pace] {begun : Connection}
    {waited : EStateM.Result Failure Connection (Option Bytes × List Bytes)}
    (isOpen : connection.isOpen = true) (present : connection.hungUp = false)
    (said : say step.command connection = .ok () begun)
    (awaited : session.awaitAll step begun = watched watch waited)
    (recalls : session.Recalls step watch before) :
    session.run step connection = session.reported step before waited := by
  have reached : session.reachEnd step connection = watched watch waited := by
    rw [reachEnd, bind_of_ok said, awaited]
  rw [run_eq isOpen present]
  cases waited with
  | ok ended after =>
      rcases ended with ⟨ending, chunks⟩
      rw [bind_of_ok reached, recalls ending chunks]
      rfl
  | error failure after => exact bind_of_error reached _

theorem run_of_settled [Pace] {begun : Connection}
    {result : EStateM.Result Failure Connection Response}
    (isOpen : connection.isOpen = true) (present : connection.hungUp = false)
    (said : say step.command connection = .ok () begun)
    (settled : session.StepSettled step begun result) : session.run step connection = result := by
  have fresh := Watch.fresh_start session.depth Bootloader.failureMarkers
  have first {pattern : Pattern}
      {waited : EStateM.Result Failure Connection (Option Bytes × List Bytes)}
      (settled : session.WaitSettled step.command pattern [] begun waited) :
      session.awaitStep step.command pattern (.start session.depth Bootloader.failureMarkers)
        begun = watched (.start session.depth Bootloader.failureMarkers) waited :=
    awaitStep_of_settled fresh rfl (by simp [Watch.start]) settled
  cases settled with
  | plain replied settled =>
      refine run_of_awaitAll isOpen present said ?_ (session.recalls_start step)
      rw [awaitAll, awaitAllFor, replied]
      exact first settled
  | unasked replied settled =>
      refine run_of_awaitAll isOpen present said ?_ (session.recalls_start step)
      rw [awaitAll, awaitAllFor, replied]
      exact bind_of_ok (first settled) _
  | @failed reply failure after replied settled =>
      have awaited : session.awaitAll step begun =
          watched (.start session.depth Bootloader.failureMarkers) (.error failure after) := by
        rw [awaitAll, awaitAllFor, replied]
        exact bind_of_error (first settled) _
      exact run_of_awaitAll isOpen present said awaited (session.recalls_start step)
  | @unsaid reply asked bytes failure between after replied settled unsaid =>
      have awaited : session.awaitAll step begun =
          watched (.start session.depth Bootloader.failureMarkers) (.error failure after) := by
        rw [awaitAll, awaitAllFor, replied]
        exact (bind_of_ok (first settled) _).trans (bind_of_error unsaid _)
      exact run_of_awaitAll isOpen present said awaited (session.recalls_start step)
  | @answered reply asked bytes between told waited replied settled answered further =>
      let start := Watch.start session.depth Bootloader.failureMarkers
      have some : (start.takeAll asked).turn.begun = true ↔ asked ≠ [] :=
        (Watch.begun_takeAll_iff asked).trans (by simp [start, Watch.start])
      have second := awaitStep_of_settled (fresh.turn asked) (Watch.depth_takeAll _ asked) some
        further
      refine run_of_awaitAll isOpen present said ?_ (session.recalls_turn step asked)
      rw [awaitAll, awaitAllFor, replied, ← second]
      exact (bind_of_ok (first settled) _).trans (bind_of_ok answered _)

/-- A step comes to what the chunks behind its lines settle, and to nothing else. As they are read,
so they are heard and shown, and nothing is sent meanwhile. -/
theorem run_eq_iff_stepSettled [Pace] (session : Session) (step : Step)
    {connection begun : Connection}
    (isOpen : connection.isOpen = true) (present : connection.hungUp = false)
    (said : say step.command connection = .ok () begun) :
    (∀ result, session.run step connection = result ↔ session.StepSettled step begun result) ∧
      ∀ limit earlier chunks later, Relays limit earlier chunks later →
        ∃ events, later.happenings = earlier.happenings ++ events ∧ heardIn events = chunks ∧
          shownIn events = chunks.flatten ∧ sentIn events = [] := by
  refine ⟨fun result => ⟨fun ran => ?_, run_of_settled isOpen present said⟩,
    fun limit earlier chunks later relays => relays.happened⟩
  rcases session.exists_stepSettled step begun with ⟨settledResult, settled⟩
  have same := run_of_settled isOpen present said settled
  rwa [← ran, same]

/-- The question is spread over two chunks. The prompt in front of it could not end the step, and
the window forgets it. -/
theorem run_eq_iff_stepSettled_asked :
    let console : Console :=
      { Console.silent with
        answers := [[.data (Utf8.encode "RedBoot> Initialize - cont"),
            .data (Utf8.encode "inue (y/n)? ")],
          [.data (Utf8.encode "y\nRedBoot> ")]] }
    let connection := Connection.ofConsole .text console (.start .none .none)
    let step : Step :=
      ⟨Bootloader.eraseDirectory, Bootloader.prompt,
        some ⟨Bootloader.question, Bootloader.consent⟩⟩
    ∃ begun response after, connection.isOpen = true ∧ connection.hungUp = false ∧
      say step.command connection = .ok () begun ∧
      (usual 24).StepSettled step begun (.ok response after) ∧
      response.output = "tinue (y/n)? y\nRedBoot> " ∧ response.prompt = "RedBoot>" := by
  intro console connection step
  have isOpen : connection.isOpen = true := rfl
  have present : connection.hungUp = false := rfl
  have said : say step.command connection = .ok () _ := eq_ok_of_outcome (by decide +kernel)
  have ran : (usual 24).run step connection =
      .ok ⟨"fis init -f", "tinue (y/n)? y\nRedBoot> ", "RedBoot>", none, false⟩ _ :=
    eq_ok_of_outcome (by decide +kernel)
  exact ⟨_, _, _, isOpen, present, said,
    ((run_eq_iff_stepSettled (usual 24) step isOpen present said).1 _).mp ran, rfl, rfl⟩

/-- A console that hangs up before any output of the step has not ended it: the step fails. -/
theorem run_disconnected_without_output :
    let connection := Connection.ofConsole .text
      { Console.silent with answers := [[.hangUp]] } (.start .none .none)
    let result := (usual Window.defaultDepth).run (.atPrompt Bootloader.startLoaded) connection
    (stateAfter result).happenings =
        [.wrote (Utf8.encode "exec\n"), .sent (Utf8.encode "exec\n"), .hungUp] ∧
      outcome result = .error .disconnected := by
  decide +kernel

end Session

end BootConsole
