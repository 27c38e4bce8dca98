import BootConsole.Proofs.Conversation.Throughout
import BootConsole.Proofs.Conversation.Closing

/-!
# The single steps of a session

What a session does with its connection is made of a few steps: an entry in the journal, a look at
what arrives, and changes to what only the next step looks at. A relation that survives these
survives sending and relaying, and with them the session. Where a stream takes at once what it takes
at all, writes pass no time, and no read is given up over an answer.
-/

namespace BootConsole.Connection

def wroteOut (text : Bytes) (connection : Connection) : Connection :=
  record (.shown text) { connection with writes := connection.writes.advance }

theorem echo_eq (text : Bytes) (connection : Connection) :
    echo text connection =
      match connection.writes.next? with
      | some cause =>
          .error (.output cause)
            (record (.showFailed cause) { connection with writes := connection.writes.advance })
      | none =>
          let shown := connection.wroteOut text
          let flushing := { shown with flushes := shown.flushes.advance }
          match connection.flushes.next? with
          | some cause => .error (.output cause) (flushing.record (.showFailed cause))
          | none => .ok () (flushing.record .flushed) := by
  unfold echo atDesk Desk.display
  simp only [bind, EStateM.bind, Desk.write, Desk.flush]
  cases connection.writes.next? with
  | some cause => rfl
  | none =>
      simp only [Desk.record]
      cases connection.flushes.next? with
      | some cause => rfl
      | none => rfl

/-! ## Writing at once -/

/-- A stream without stalls takes all of the data or nothing. -/
theorem write_prompt (limit : Option Nat) (whole part : Bytes → Happening) (data : Bytes)
    (connection : Connection) :
    write limit whole part data connection =
      let after :=
        { connection with
          console.writes := connection.console.writes.advance }
      match connection.console.writes.next? with
      | some cause => .error (.transport cause) (after.record (.writeFailed cause))
      | none => .ok true (after.record (whole data)) := rfl

theorem put_prompt (data : Bytes) (connection : Connection) :
    put data connection =
      let after :=
        { connection with
          console.writes := connection.console.writes.advance }
      match connection.console.writes.next? with
      | some cause => .error (.transport cause) (after.record (.writeFailed cause))
      | none => .ok () (after.record (.wrote data)) := by
  unfold put
  simp only [bind, EStateM.bind, write_prompt]
  cases connection.console.writes.next? with
  | some cause => rfl
  | none => rfl

theorem reply_ne_false (limit : Nat) (replies : Bytes) (connection after : Connection) :
    reply limit replies connection ≠ .ok false after := by
  unfold reply
  split
  · nofun
  · rw [write_prompt]
    dsimp only
    split <;> nofun

/-- No read is given up over an answer. -/
theorem decode_ne_none (limit : Nat) (bytes : Bytes) (connection after : Connection) :
    decode limit bytes connection ≠ .ok none after := by
  intro decoded
  unfold decode at decoded
  split at decoded
  · cases decoded
  · dsimp only at decoded
    split at decoded
    · next answered _ replied =>
        cases answered with
        | true => cases decoded
        | false => exact reply_ne_false _ _ _ _ replied
    · cases decoded

/-! ## Relations that survive the steps -/

theorem throughout_close {relation : Connection → Connection → Prop}
    (stays : ∀ connection, relation connection connection)
    (closes : ∀ connection : Connection,
      relation connection (record .closed { connection with isOpen := false })) :
    Throughout relation Session.close := by
  intro connection
  cases isOpen : connection.isOpen with
  | false =>
      rw [Session.close, get_bind, if_neg (by simp [isOpen])]
      exact stays connection
  | true =>
      rw [Session.close_of_open isOpen]
      dsimp only
      split <;> exact closes connection

/-- A relation that does not mind what becomes of anything but the clock, the journal and what is
known of the console, and survives an entry in the journal, a look at what arrives, and the time
that writes take. -/
structure Sturdy [Pace] (deadline : Nat) (relation : Connection → Connection → Prop) : Prop where
  still {before after : Connection} : after.clock = before.clock →
    after.journal = before.journal → after.hungUp = before.hungUp → relation before after
  trans {first second third : Connection} :
    relation first second → relation second third → relation first third
  record (event : Happening) (connection : Connection) :
    relation connection (connection.record event)
  arrival (limit : Nat) (connection : Connection) :
    limit ≤ deadline → relation connection (connection.arrival limit).2
  passing (connection : Connection) (time : Nat) : Pace.Stalls → connection.clock ≤ time →
    relation connection { connection with clock := time }

namespace Sturdy

variable [Pace] {deadline : Nat} {relation : Connection → Connection → Prop}

theorem recorded (sturdy : Sturdy deadline relation) {before after : Connection}
    (event : Happening) (clock : after.clock = before.clock)
    (journal : after.journal = before.journal) (hungUp : after.hungUp = before.hungUp) :
    relation before (after.record event) :=
  sturdy.trans (sturdy.still clock journal hungUp) (sturdy.record event after)

theorem write (sturdy : Sturdy deadline relation) (limit : Option Nat)
    (whole part : Bytes → Happening) (data : Bytes) :
    Throughout relation (write limit whole part data) := by
  refine throughout_write @sturdy.trans (fun connection time later stalls => ?_)
    (fun _ => sturdy.record _) (fun _ => sturdy.record _) (fun _ => sturdy.record _) limit data
  rcases stalls with same | stalls
  · exact sturdy.still same rfl rfl
  · exact sturdy.trans (sturdy.passing connection time stalls later) (sturdy.still rfl rfl rfl)

theorem put (sturdy : Sturdy deadline relation) (data : Bytes) : Throughout relation (put data) :=
  Throughout.bind @sturdy.trans (sturdy.write _ _ _ data) fun _ _ => sturdy.still rfl rfl rfl

theorem flush (sturdy : Sturdy deadline relation) : Throughout relation flush := by
  intro connection
  unfold Connection.flush
  cases connection.console.flushes.next? with
  | none => exact sturdy.still rfl rfl rfl
  | some cause => exact sturdy.recorded _ rfl rfl rfl

theorem delivered (sturdy : Sturdy deadline relation) (data : Bytes) :
    Throughout relation (delivered data) :=
  fun _ => sturdy.recorded _ rfl rfl rfl

theorem say (sturdy : Sturdy deadline relation) (line : String) :
    Throughout relation (say line) :=
  throughout_say @sturdy.trans sturdy.put sturdy.flush sturdy.delivered line

theorem decode (sturdy : Sturdy deadline relation) (limit : Nat) (bytes : Bytes) :
    Throughout relation (decode limit bytes) := by
  refine throughout_decode (fun _ => sturdy.still rfl rfl rfl) @sturdy.trans
    (fun _ _ => sturdy.still rfl rfl rfl) (fun decoder bytes => ?_) bytes
  unfold reply
  split
  · exact fun _ => sturdy.still rfl rfl rfl
  · exact sturdy.write _ _ _ _

theorem receive (sturdy : Sturdy deadline relation) {limit : Nat} (early : limit ≤ deadline) :
    Throughout relation (receive limit) :=
  throughout_receive @sturdy.trans (fun connection => sturdy.arrival limit connection early)
    (sturdy.decode limit) fun event _ => sturdy.record event

theorem hear (sturdy : Sturdy deadline relation) {limit : Nat} (early : limit ≤ deadline) :
    Throughout relation (hear limit) :=
  throughout_hear @sturdy.trans (sturdy.receive early) (fun _ _ => sturdy.still rfl rfl rfl)
    fun event _ => sturdy.record event

theorem echo (sturdy : Sturdy deadline relation) (text : Bytes) :
    Throughout relation (echo text) := by
  intro connection
  rw [echo_eq]
  split
  · exact sturdy.recorded _ rfl rfl rfl
  · have shown : relation connection (connection.wroteOut text) := sturdy.recorded _ rfl rfl rfl
    split
    · exact sturdy.trans shown (sturdy.recorded _ rfl rfl rfl)
    · exact sturdy.trans shown (sturdy.recorded _ rfl rfl rfl)

theorem lasting (sturdy : Sturdy deadline relation) : Lasting deadline relation where
  refl _ := sturdy.still rfl rfl rfl
  trans := sturdy.trans
  say := sturdy.say
  note level text := sturdy.record (.noted level text)
  relay _ early := throughout_relay (fun _ => sturdy.still rfl rfl rfl) @sturdy.trans
    (sturdy.hear early) sturdy.echo

theorem close (sturdy : Sturdy deadline relation) : Throughout relation Session.close :=
  throughout_close (fun _ => sturdy.still rfl rfl rfl) fun _ => sturdy.recorded .closed rfl rfl rfl

end Sturdy

end BootConsole.Connection
