import BootConsole.Proofs.Conversation.Steps

/-!
# What holds throughout a session

All that a session does with its connection is sending lines, relaying chunks to the operator,
writing notes, noticing that the console has hung up, and closing. A relation between an earlier and
a later connection that survives each of these survives the session.
-/

namespace BootConsole

variable {σ α β : Type}

def Throughout (relation : σ → σ → Prop) (action : Action σ α) : Prop :=
  ∀ state, relation state (stateAfter (action state))

theorem Throughout.bind {relation : σ → σ → Prop} {action : Action σ α} {next : α → Action σ β}
    (transitive : ∀ {first second third : σ},
      relation first second → relation second third → relation first third)
    (begins : Throughout relation action) (goesOn : ∀ value, Throughout relation (next value)) :
    Throughout relation (action >>= next) := by
  intro state
  have before := begins state
  cases done : action state with
  | error failure after =>
      rw [bind_of_error done]
      rwa [done] at before
  | ok value after =>
      rw [bind_of_ok done]
      rw [done] at before
      exact transitive before (goesOn value after)

def Happening.isWrite : Happening → Bool
  | .wrote _ | .wrotePart _ | .replied _ | .repliedPart _ | .sent _ | .writeFailed _ => true
  | _ => false

variable [Pace]

namespace Session

open Connection

/-! ## From parts to plans -/

/-- A property of operations that goes from the waits of a step to all that it waits for. -/
structure Composed (session : Session) (holds : (α : Type) → Action Connection α → Prop) :
    Prop where
  pure {α : Type} (value : α) : holds α (Pure.pure value)
  bind {α β : Type} {action : Action Connection α} {next : α → Action Connection β} :
    holds α action → (∀ value, holds β (next value)) → holds β (action >>= next)
  say (line : String) : holds Unit (say line)
  awaitStep (command : String) (pattern : Pattern) (watch : Watch) :
    holds (Option Bytes × Watch) (session.awaitStep command pattern watch)

/-- A property of operations that goes on from there to plans. -/
structure Inherited (session : Session) (holds : (α : Type) → Action Connection α → Prop) : Prop
    extends Composed session holds where
  requireConsole : holds Unit requireConsole
  requireOpen : holds Unit requireOpen
  note (level : Level) (text : String) : holds Unit (note level text)
  notice : holds Unit noticeHangUp
  interrupt : holds Unit session.interrupt

variable {session : Session} {holds : (α : Type) → Action Connection α → Prop}

theorem Composed.awaitAll (composed : session.Composed holds) (step : Step) :
    holds (Option Bytes × Watch) (session.awaitAll step) := by
  unfold Session.awaitAll Session.awaitAllFor
  cases step.reply with
  | none => exact composed.awaitStep _ _ _
  | some reply =>
      refine composed.bind (composed.awaitStep _ _ _) fun asked => ?_
      match asked with
      | (none, _) => exact composed.pure _
      | (some _, _) => exact composed.bind (composed.say _) fun _ => composed.awaitStep _ _ _

namespace Inherited

theorem conclude (inherited : session.Inherited holds) (response : Response) :
    holds Unit (conclude response) := by
  have last : holds Unit (if response.closed then noticeHangUp else Pure.pure ()) := by
    split
    · exact inherited.notice
    · exact inherited.pure ()
  unfold Session.conclude
  cases response.failure with
  | none => exact last
  | some marker => exact inherited.bind (inherited.note _ _) fun _ => last

theorem run (inherited : session.Inherited holds) (step : Step) :
    holds Response (session.run step) :=
  inherited.bind inherited.requireConsole fun _ => inherited.bind inherited.requireOpen fun _ =>
    inherited.bind (inherited.say _) fun _ => inherited.bind (inherited.awaitAll step) fun _ =>
      inherited.bind (inherited.conclude _) fun _ => inherited.pure _

theorem runSteps (inherited : session.Inherited holds) (total : Nat) (steps : List Step) :
    holds (List Response) (session.runSteps total steps) := by
  induction steps with
  | nil => exact inherited.pure []
  | cons step rest induction =>
      refine inherited.bind (inherited.note _ _) fun _ =>
        inherited.bind (inherited.run step) fun response => ?_
      split
      · split
        · exact inherited.pure _
        · exact inherited.bind (inherited.note _ _) fun _ => inherited.pure _
      · exact inherited.bind induction fun _ => inherited.pure _

theorem perform (inherited : session.Inherited holds) (plan : Plan) :
    holds (List Response) (session.perform plan) := by
  have steps : holds (List Response)
      (if plan.interrupts then do
          session.interrupt
          session.runSteps plan.steps.length plan.steps
        else session.runSteps plan.steps.length plan.steps) := by
    split
    · exact inherited.bind inherited.interrupt fun _ => inherited.runSteps _ _
    · exact inherited.runSteps _ _
  unfold Session.perform Session.performFor
  cases plan.mode with
  | unrecognized token => exact inherited.bind (inherited.note _ _) fun _ => steps
  | flash | exec => exact steps

end Inherited

end Session

namespace Connection

def relay (limit : Nat) : Action Connection (Option Bytes) := do
  match ← hear limit with
  | none => return none
  | some chunk =>
      echo chunk
      return some chunk

variable {limit : Nat} {connection between after : Connection} {chunk : Bytes} {failure : Failure}

theorem relay_eq (limit : Nat) (connection : Connection) :
    relay limit connection =
      match hear limit connection with
      | .ok (some chunk) after =>
          match echo chunk after with
          | .ok _ after => .ok (some chunk) after
          | .error failure after => .error failure after
      | .ok none after => .ok none after
      | .error failure after => .error failure after := by
  unfold relay
  cases heard : hear limit connection with
  | error failure after => rw [bind_of_error heard]
  | ok found after =>
      rw [bind_of_ok heard]
      cases found with
      | none => rfl
      | some chunk =>
          change (echo chunk >>= fun _ => pure (some chunk)) after = _
          dsimp only
          cases echoed : echo chunk after with
          | ok _ after => rw [bind_of_ok echoed]; rfl
          | error failure after => rw [bind_of_error echoed]

/-- A chunk that was relayed was heard, and then shown. -/
theorem parts_of_relay (relayed : relay limit connection = .ok (some chunk) after) :
    ∃ between, hear limit connection = .ok (some chunk) between ∧
      echo chunk between = .ok () after := by
  rw [relay_eq] at relayed
  split at relayed
  · next heard =>
      split at relayed
      · next echoed =>
          cases relayed
          exact ⟨_, heard, echoed⟩
      · cases relayed
  · cases relayed
  · cases relayed

theorem weight_relay_lt (relayed : relay limit connection = .ok (some chunk) after) :
    after.weight < connection.weight := by
  rcases parts_of_relay relayed with ⟨between, heard, echoed⟩
  rw [weight_echo _ _ _ echoed]
  exact weight_hear_lt _ _ _ _ heard

theorem relay_of_text (heard : hear limit connection = .ok (some chunk) between) :
    stateAfter (relay limit connection) = stateAfter (echo chunk between) := by
  rw [relay_eq, heard]
  dsimp only
  cases echo chunk between with
  | ok _ after => rfl
  | error failure after => rfl

theorem relay_of_silence (heard : hear limit connection = .ok none after) :
    stateAfter (relay limit connection) = after := by
  rw [relay_eq, heard]
  rfl

theorem relay_of_error (heard : hear limit connection = .error failure after) :
    stateAfter (relay limit connection) = after := by
  rw [relay_eq, heard]
  rfl

/-- A write waits, and then there are at most two entries: what was taken, and that the rest failed.
-/
theorem throughout_write {relation : Connection → Connection → Prop}
    {whole part : Bytes → Happening}
    (transitive : ∀ {first second third : Connection},
      relation first second → relation second third → relation first third)
    (waits : ∀ (connection : Connection) (time : Nat), connection.clock ≤ time →
      time = connection.clock ∨ Pace.Stalls →
      relation connection { connection with
        clock := time
        console.writes := connection.console.writes.advance })
    (wholly : ∀ taken connection, relation connection (connection.record (whole taken)))
    (partly : ∀ taken connection, relation connection (connection.record (part taken)))
    (fails : ∀ cause connection, relation connection (connection.record (.writeFailed cause)))
    (limit : Option Nat) (data : Bytes) :
    Throughout relation (write limit whole part data) := by
  intro connection
  let stalls := Pace.stalls connection.console.writes.calls
  have later := Stall.le_time_pass limit data.length 0 connection.clock stalls
  have waited := waits connection _ later (by
    by_cases prompt : stalls = []
    · exact .inl (by rw [prompt, Stall.pass_nil])
    · exact .inr ⟨_, prompt⟩)
  unfold write
  dsimp only
  split
  · exact transitive waited (partly _ _)
  · split
    · split
      · exact transitive waited (fails _ _)
      · exact transitive waited (transitive (partly _ _) (fails _ _))
    · exact transitive waited (wholly _ _)

theorem throughout_say {relation : Connection → Connection → Prop}
    (transitive : ∀ {first second third : Connection},
      relation first second → relation second third → relation first third)
    (puts : ∀ data, Throughout relation (put data))
    (flushes : Throughout relation flush)
    (delivers : ∀ data, Throughout relation (delivered data)) (line : String) :
    Throughout relation (say line) := by
  intro connection
  have some : lineBytes line ≠ [] := by simp [lineBytes]
  change relation connection (stateAfter (send (lineBytes line) connection))
  cases wired : connection.wire with
  | text =>
      rw [send_text _ connection wired]
      exact Throughout.bind @transitive (puts _) (fun _ => delivers _) connection
  | telnet =>
      rw [send_telnet _ some connection wired]
      exact Throughout.bind @transitive (puts _)
        (fun _ => Throughout.bind @transitive flushes fun _ => delivers _) connection

theorem throughout_decode {relation : Connection → Connection → Prop}
    (reflexive : ∀ connection, relation connection connection)
    (transitive : ∀ {first second third : Connection},
      relation first second → relation second third → relation first third)
    (reads : ∀ decoder connection, relation connection { connection with decoder := decoder })
    (replies : ∀ decoder bytes,
      Throughout relation (reply limit (Telnet.decode decoder bytes).2.replies))
    (bytes : Bytes) : Throughout relation (decode limit bytes) := by
  intro connection
  unfold decode
  split
  · exact reflexive connection
  · have after := transitive (reads (Telnet.decode connection.decoder bytes).1 connection)
      (replies connection.decoder bytes _)
    dsimp only
    split
    · next answered => rwa [answered] at after
    · next answered => rwa [answered] at after

theorem throughout_receive {relation : Connection → Connection → Prop}
    (transitive : ∀ {first second third : Connection},
      relation first second → relation second third → relation first third)
    (arrives : ∀ connection, relation connection (connection.arrival limit).2)
    (decodes : ∀ bytes, Throughout relation (decode limit bytes))
    (records : ∀ event, event.isWrite = false →
      ∀ connection, relation connection (connection.record event)) :
    Throughout relation (receive limit) := by
  intro connection
  have arrived := arrives connection
  fun_induction receive limit connection with
  | case1 connection after next | case2 connection after next | case3 connection _ after next =>
      rw [next] at arrived
      exact transitive arrived (records _ rfl after)
  | case4 connection bytes between next failure after decoded =>
      have read := decodes bytes between
      rw [next] at arrived
      rw [decoded] at read
      exact transitive arrived read
  | case5 connection bytes between next after decoded =>
      have read := decodes bytes between
      rw [next] at arrived
      rw [decoded] at read
      exact transitive (transitive arrived read) (records _ rfl after)
  | case6 connection bytes between next text after decoded silent induction =>
      have read := decodes bytes between
      rw [next] at arrived
      rw [decoded] at read
      exact transitive (transitive arrived read) (induction (arrives after))
  | case7 connection bytes between next text after decoded some =>
      have read := decodes bytes between
      rw [next] at arrived
      rw [decoded] at read
      exact transitive (transitive arrived read) (records _ rfl after)

theorem throughout_hear {relation : Connection → Connection → Prop}
    (transitive : ∀ {first second third : Connection},
      relation first second → relation second third → relation first third)
    (receives : Throughout relation (receive limit))
    (filters : ∀ filter connection, relation connection { connection with filter := filter })
    (records : ∀ event, event.isWrite = false →
      ∀ connection, relation connection (connection.record event)) :
    Throughout relation (hear limit) := by
  intro connection
  have read := receives connection
  fun_induction hear limit connection with
  | case1 connection failure after received | case2 connection after received =>
      rwa [received] at read
  | case3 connection bytes between received stripped filtered empty induction =>
      rw [received] at read
      exact transitive (transitive read (filters _ between)) (induction (receives filtered))
  | case4 connection bytes between received stripped filtered some =>
      rw [received] at read
      exact transitive (transitive read (filters _ between)) (records _ rfl filtered)

theorem throughout_relay {relation : Connection → Connection → Prop}
    (reflexive : ∀ connection, relation connection connection)
    (transitive : ∀ {first second third : Connection},
      relation first second → relation second third → relation first third)
    (hears : Throughout relation (hear limit))
    (echoes : ∀ chunk, Throughout relation (echo chunk)) : Throughout relation (relay limit) := by
  refine Throughout.bind transitive hears fun found => ?_
  match found with
  | none => exact reflexive
  | some chunk => exact Throughout.bind transitive (echoes chunk) fun _ => reflexive

end Connection

/-! ## Waits, chunk by chunk -/

namespace Session

open Connection

theorem await_eq (session : Session) (pattern : Pattern) (watch : Watch) (connection : Connection) :
    session.await pattern watch connection =
      match relay session.deadline connection with
      | .ok (some chunk) after =>
          match (watch.take chunk).match? pattern with
          | some bytes => .ok (.matched bytes, watch.take chunk) after
          | none => session.await pattern (watch.take chunk) after
      | .ok none after => .ok (.late, watch) after
      | .error failure after =>
          if failure = .disconnected ∧ watch.begun = true then .ok (.hungUp, watch) after
          else .error failure after := by
  rw [await, relay_eq]
  split
  · next chunk between heard =>
      rw [heard]
      dsimp only
      split
      · next failure after echoed =>
          rw [echoed]
          have other : failure ≠ .disconnected := by
            rcases follows_echo chunk between with ⟨_, _, shows⟩
            rw [echoed] at shows
            cases shows <;> simp
          exact (if_neg fun both => other both.1).symm
      · next echoed => exact echoed ▸ rfl
  · next heard => rw [heard]
  · next heard => rw [heard]

theorem awaitQuiet_eq (session : Session) (connection : Connection) :
    session.awaitQuiet connection =
      match relay (min (connection.clock + Bootloader.quietTime) session.deadline) connection with
      | .ok (some _) after => session.awaitQuiet after
      | .ok none after => .ok () after
      | .error failure after => .error failure after := by
  rw [awaitQuiet, relay_eq]
  split
  · next heard =>
      rw [heard]
      dsimp only
      split
      · next echoed => rw [echoed]
      · next echoed => rw [echoed]
  · next heard => rw [heard]
  · next heard => rw [heard]

end Session

namespace Connection

structure Lasting (deadline : Nat) (relation : Connection → Connection → Prop) : Prop where
  refl (connection : Connection) : relation connection connection
  trans {first second third : Connection} :
    relation first second → relation second third → relation first third
  say (line : String) : Throughout relation (say line)
  relay (limit : Nat) : limit ≤ deadline → Throughout relation (relay limit)
  note (level : Level) (text : String) : Throughout relation (note level text)

namespace Lasting

open Session

variable {deadline : Nat} {relation : Connection → Connection → Prop} {session : Session}

theorem pure (lasting : Lasting deadline relation) (value : α) :
    Throughout relation (Pure.pure value : Action Connection α) :=
  lasting.refl

theorem throw (lasting : Lasting deadline relation) (failure : Failure) :
    Throughout relation (MonadExcept.throw failure : Action Connection α) :=
  lasting.refl

theorem bind (lasting : Lasting deadline relation) {action : Action Connection α}
    {next : α → Action Connection β} (begins : Throughout relation action)
    (goesOn : ∀ value, Throughout relation (next value)) : Throughout relation (action >>= next) :=
  Throughout.bind lasting.trans begins goesOn

theorem requireOpen (lasting : Lasting deadline relation) :
    Throughout relation Session.requireOpen := by
  intro connection
  rw [requireOpen_eq]
  split <;> exact lasting.refl connection

theorem requireConsole (lasting : Lasting deadline relation) :
    Throughout relation Session.requireConsole := by
  intro connection
  rw [requireConsole_eq]
  split <;> exact lasting.refl connection

/-! ## Waits -/

theorem await (lasting : Lasting session.deadline relation) (pattern : Pattern) (watch : Watch) :
    Throughout relation (session.await pattern watch) := by
  intro connection
  induction size : connection.weight using Nat.strongRecOn generalizing watch connection with
  | _ size induction =>
    have relays := lasting.relay session.deadline (Nat.le_refl _) connection
    rw [await_eq]
    cases relayed : Connection.relay session.deadline connection with
    | error failure after =>
        rw [relayed] at relays
        dsimp only
        split <;> exact relays
    | ok found after =>
        rw [relayed] at relays
        cases found with
        | none => exact relays
        | some chunk =>
            dsimp only
            cases (watch.take chunk).match? pattern with
            | some bytes => exact relays
            | none =>
                have lighter := size ▸ weight_relay_lt relayed
                exact lasting.trans relays (induction _ lighter (watch.take chunk) after rfl)

theorem awaitQuiet (lasting : Lasting session.deadline relation) :
    Throughout relation session.awaitQuiet := by
  intro connection
  induction size : connection.weight using Nat.strongRecOn generalizing connection with
  | _ size induction =>
    have relays := lasting.relay
      (min (connection.clock + Bootloader.quietTime) session.deadline) (Nat.min_le_right _ _)
      connection
    rw [awaitQuiet_eq]
    cases relayed : Connection.relay (min (connection.clock + Bootloader.quietTime) session.deadline)
        connection with
    | error failure after =>
        rw [relayed] at relays
        exact relays
    | ok found after =>
        rw [relayed] at relays
        cases found with
        | none => exact relays
        | some chunk =>
            exact lasting.trans relays
              (induction _ (size ▸ weight_relay_lt relayed) after rfl)

theorem awaitStep (lasting : Lasting session.deadline relation) (command : String)
    (pattern : Pattern) (watch : Watch) :
    Throughout relation (session.awaitStep command pattern watch) := by
  refine lasting.bind (lasting.await pattern watch) fun ended => ?_
  match ended with
  | (.matched _, _) => exact lasting.pure _
  | (.hungUp, _) => exact lasting.pure _
  | (.late, _) => exact lasting.throw _

theorem composed (lasting : Lasting session.deadline relation) :
    session.Composed fun _ action => Throughout relation action where
  pure := lasting.pure
  bind := lasting.bind
  say := lasting.say
  awaitStep := lasting.awaitStep

/-! ## Steps and plans -/

variable (lasting : Lasting session.deadline relation)
  (notices : Throughout relation noticeHangUp)

include lasting notices

theorem interrupt : Throughout relation session.interrupt := by
  refine lasting.bind lasting.requireOpen fun _ => lasting.bind (lasting.say _) fun _ =>
    lasting.bind (lasting.await _ _) fun ended => ?_
  match ended with
  | (.matched _, _) => exact lasting.awaitQuiet
  | (.hungUp, _) => exact lasting.bind notices fun _ => lasting.throw _
  | (.late, _) => exact lasting.throw _

theorem inherited : session.Inherited fun _ action => Throughout relation action where
  toComposed := lasting.composed
  requireConsole := lasting.requireConsole
  requireOpen := lasting.requireOpen
  note := lasting.note
  notice := notices
  interrupt := lasting.interrupt notices

theorem conduct (closes : Throughout relation Session.close) (plan : Plan) :
    Throughout relation (session.conduct plan) := by
  intro connection
  have performed := (lasting.inherited notices).perform plan connection
  unfold Session.conduct Session.conductFor
  rw [performFor_failureMarkers]
  cases driven : session.perform plan connection with
  | ok responses after =>
      rw [driven] at performed
      have ended := lasting.trans performed (closes after)
      dsimp only
      cases closing : Session.close after with
      | ok _ last => rwa [closing] at ended
      | error failure last => rwa [closing] at ended
  | error failure after =>
      rw [driven] at performed
      have ended := lasting.trans performed (closes after)
      dsimp only
      cases closing : Session.close after with
      | ok _ last => rwa [closing] at ended
      | error second last =>
          rw [closing] at ended
          exact lasting.trans ended (lasting.note _ _ last)

end Lasting

end Connection

end BootConsole
