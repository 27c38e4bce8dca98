import BootConsole.Proofs.Conversation.Course

/-!
# Reading, showing and sending

The courses of what a session does with its connection between two decisions: a read that goes on
until it comes to something, showing a text to the operator, sending a line.
-/

namespace BootConsole

/-- What goes by while a read waits: answers to options, and text that is looked at further up. -/
def Happening.goesBy : Happening → Bool
  | .replied _ | .repliedPart _ | .received _ => true
  | _ => false

/-- A read that comes to text by the happening `arrives`, or to nothing. -/
inductive Reading (arrives : Bytes → Happening) : Course (Option Bytes)
  | goingBy {event : Happening} {events : List Happening}
      {outcome : Except Failure (Option Bytes)} :
      event.goesBy = true → Reading arrives events outcome →
      Reading arrives (event :: events) outcome
  | text (bytes : Bytes) : Reading arrives [arrives bytes] (.ok (some bytes))
  | silence : Reading arrives [.silence] (.ok none)
  | hungUp : Reading arrives [.hungUp] (.error .disconnected)
  | failed (cause : Fault) : Reading arrives [.readFailed cause] (.error (.transport cause))
  /-- An answer to an option could not be written. -/
  | unanswered (cause : Fault) :
      Reading arrives [.writeFailed cause] (.error (.transport cause))

namespace Reading

variable {arrives : Bytes → Happening} {events : List Happening}

theorem after {earlier later : List Happening} {outcome : Except Failure (Option Bytes)}
    (passed : ∀ event ∈ earlier, event.goesBy = true) (reads : Reading arrives later outcome) :
    Reading arrives (earlier ++ later) outcome := by
  induction earlier with
  | nil => exact reads
  | cons event rest induction =>
      exact .goingBy (passed event List.mem_cons_self)
        (induction fun other member => passed other (List.mem_cons_of_mem event member))

/-- A read that comes to no text does so for whatever kind of text it was made. -/
theorem without_text {other : Bytes → Happening} {outcome : Except Failure (Option Bytes)}
    (none : ∀ bytes, outcome ≠ .ok (some bytes)) (reads : Reading arrives events outcome) :
    Reading other events outcome := by
  induction reads with
  | goingBy passes _ induction => exact .goingBy passes (induction none)
  | text bytes => exact (none bytes rfl).elim
  | silence => exact .silence
  | hungUp => exact .hungUp
  | failed cause => exact .failed cause
  | unanswered cause => exact .unanswered cause

/-- Received text goes by in a read for plain text. -/
theorem goesBy_of_received {bytes : Bytes}
    (reads : Reading .received events (.ok (some bytes))) :
    ∀ event ∈ events, event.goesBy = true := by
  generalize equal : (Except.ok (some bytes) : Except Failure (Option Bytes)) = outcome at reads
  induction reads with
  | goingBy passes _ induction =>
      intro event member
      rcases List.mem_cons.mp member with rfl | member
      · exact passes
      · exact induction equal event member
  | text => simp [Happening.goesBy]
  | silence | hungUp | failed | unanswered => cases equal

/-- The text that a read comes to is the last that happens in it. -/
theorem ends_with_text {text : Bytes} (reads : Reading arrives events (.ok (some text))) :
    ∃ earlier, events = earlier ++ [arrives text] := by
  generalize equal : (Except.ok (some text) : Except Failure (Option Bytes)) = outcome at reads
  induction reads with
  | @goingBy event _ _ _ _ induction =>
      rcases induction equal with ⟨earlier, rfl⟩
      exact ⟨event :: earlier, rfl⟩
  | text =>
      cases equal
      exact ⟨[], rfl⟩
  | silence | hungUp | failed | unanswered => cases equal

end Reading

inductive Showing (text : Bytes) : Course Unit
  | shown : Showing text [.shown text, .flushed] (.ok ())
  | refused (cause : Fault) : Showing text [.showFailed cause] (.error (.output cause))
  | stuck (cause : Fault) :
      Showing text [.shown text, .showFailed cause] (.error (.output cause))

/-- Writing to the stream. Only one that stalls takes a part, and without a limit no write is given
up. -/
inductive Writing [Pace] (limit : Option Nat) (whole part : Bytes → Happening) (data : Bytes) :
    Course Bool
  | taken : Writing limit whole part data [whole data] (.ok true)
  | givenUp {begun : Bytes} :
      limit.isSome → Pace.Stalls → begun <+: data →
      Writing limit whole part data [part begun] (.ok false)
  | refused (cause : Fault) :
      Writing limit whole part data [.writeFailed cause] (.error (.transport cause))
  | broken {begun : Bytes} (cause : Fault) :
      Pace.Stalls → begun <+: data →
      Writing limit whole part data [part begun, .writeFailed cause] (.error (.transport cause))

inductive Putting [Pace] (data : Bytes) : Course Unit
  | taken : Putting data [.wrote data] (.ok ())
  | refused (cause : Fault) : Putting data [.writeFailed cause] (.error (.transport cause))
  | broken {part : Bytes} (cause : Fault) :
      Pace.Stalls → part <+: data →
      Putting data [.wrotePart part, .writeFailed cause] (.error (.transport cause))

inductive Flushing : Course Unit
  | flushed : Flushing [] (.ok ())
  | refused (cause : Fault) : Flushing [.writeFailed cause] (.error (.transport cause))

inductive Sending (data : Bytes) : Course Unit
  | sent (written : Bytes) : Sending data [.wrote written, .sent data] (.ok ())
  | refused (cause : Fault) : Sending data [.writeFailed cause] (.error (.transport cause))
  | broken (part : Bytes) (cause : Fault) :
      Sending data [.wrotePart part, .writeFailed cause] (.error (.transport cause))
  | stuck (written : Bytes) (cause : Fault) :
      Sending data [.wrote written, .writeFailed cause] (.error (.transport cause))

inductive Decoding : Course (Option Bytes)
  | silent (text : Bytes) : Decoding [] (.ok (some text))
  | replied (answer text : Bytes) : Decoding [.replied answer] (.ok (some text))
  | givenUp (part : Bytes) : Decoding [.repliedPart part] (.ok none)
  | unanswered (cause : Fault) : Decoding [.writeFailed cause] (.error (.transport cause))
  | broken (part : Bytes) (cause : Fault) :
      Decoding [.repliedPart part, .writeFailed cause] (.error (.transport cause))

def lineBytes (line : String) : Bytes :=
  Utf8.encode line ++ [lineFeed]

def Wire.encode (wire : Wire) (data : Bytes) : Bytes :=
  match wire with
  | .text => data
  | .telnet => Telnet.encode data

namespace Connection

variable {connection : Connection}

/-! ## Writing -/

theorem follows_write [Pace] (limit : Option Nat) (whole part : Bytes → Happening) (data : Bytes)
    (connection : Connection) :
    connection.Follows (Writing limit whole part data)
      (write limit whole part data connection) := by
  have advanced (time : Nat) : connection.Leads []
      { connection with
        clock := time
        console.writes := connection.console.writes.advance } :=
    ⟨(List.append_nil _).symm, rfl, rfl, rfl, id⟩
  have stalls : Pace.stalls connection.console.writes.calls ≠ [] → Pace.Stalls :=
    fun some => ⟨_, some⟩
  simp only [write]
  split
  · next givenUp =>
      refine ⟨_, (advanced _).record (part _), .givenUp ?_ (stalls ?_) (List.take_prefix _ _)⟩
      · cases limit with
        | none => simp at givenUp
        | some time => rfl
      · intro none
        simp [none] at givenUp
  · split
    · next cause failed =>
        split
        · exact ⟨_, (advanced _).record (.writeFailed cause), .refused cause⟩
        · next some =>
            refine ⟨_, ((advanced _).record (part _)).record (.writeFailed cause),
              .broken cause (stalls ?_) (List.take_prefix _ _)⟩
            intro none
            simp [none] at some
    · exact ⟨_, (advanced _).record (whole data), .taken⟩

theorem follows_put [Pace] (data : Bytes) (connection : Connection) :
    connection.Follows (Putting data) (put data connection) := by
  apply ((follows_write none .wrote .wrotePart data connection).bind
    fun _ after _ => .pure ()).mono
  intro events outcome course
  rcases course with ⟨failure, written, rfl⟩ | ⟨_, _, _, written, ⟨rfl, rfl⟩, rfl⟩
  · cases written with
    | refused cause => exact .refused cause
    | broken cause stalls begins => exact .broken cause stalls begins
  · cases written with
    | taken => exact .taken
    | givenUp limited => simp at limited

theorem follows_flush (connection : Connection) :
    connection.Follows Flushing (flush connection) := by
  have advanced : connection.Leads []
      { connection with console.flushes := connection.console.flushes.advance } :=
    ⟨(List.append_nil _).symm, rfl, rfl, rfl, id⟩
  unfold flush
  cases connection.console.flushes.next? with
  | none => exact ⟨_, advanced, .flushed⟩
  | some cause => exact ⟨_, advanced.record (.writeFailed cause), .refused cause⟩

theorem follows_delivered (data : Bytes) (connection : Connection) :
    connection.Follows (.done [.sent data] ()) (delivered data connection) := by
  have answered : connection.Leads []
      { connection with console := connection.console.answer data } :=
    ⟨(List.append_nil _).symm, rfl, rfl, rfl, id⟩
  exact ⟨_, answered.record (.sent data), rfl, rfl⟩

theorem send_text [Pace] (data : Bytes) (connection : Connection)
    (wired : connection.wire = .text) :
    send data connection = (put data >>= fun _ => delivered data) connection := by
  rw [send, get_bind, wired]

theorem send_telnet [Pace] (data : Bytes) (nonempty : data ≠ []) (connection : Connection)
    (wired : connection.wire = .telnet) :
    send data connection =
      (put (Telnet.encode data) >>= fun _ => flush >>= fun _ => delivered data) connection := by
  have some := Telnet.encode_ne_nil nonempty
  rw [send, get_bind, wired]
  simp [some]

structure Puts [Pace] (form : Bytes) (events : List Happening) : Prop where
  whole : ∀ written, .wrote written ∈ events → written = form
  part : ∀ part, .wrotePart part ∈ events → Pace.Stalls ∧ part <+: form

/-- Whatever is sent is first taken by the stream, as the wire has it, and counts as sent when it
has gone out. -/
theorem follows_send_encoded [Pace] (data : Bytes) (nonempty : data ≠ [])
    (connection : Connection) :
    connection.Follows
      (fun events outcome =>
        Sending data events outcome ∧ Puts (connection.wire.encode data) events)
      (send data connection) := by
  cases wired : connection.wire with
  | text =>
      rw [send_text data connection wired]
      apply ((follows_put _ connection).bind fun _ after _ => follows_delivered data after).mono
      intro events outcome course
      rcases course with ⟨failure, written, rfl⟩ | ⟨_, _, _, written, ⟨rfl, rfl⟩, rfl⟩
      · cases written with
        | refused cause => exact ⟨.refused cause, by simp, by simp⟩
        | broken cause stalls begins =>
            exact ⟨.broken _ cause, by simp, by simpa [Wire.encode] using ⟨stalls, begins⟩⟩
      · cases written with
        | taken => exact ⟨.sent data, by simp [Wire.encode], by simp⟩
  | telnet =>
      rw [send_telnet data nonempty connection wired]
      apply ((follows_put _ connection).bind fun _ written _ =>
        (follows_flush written).bind fun _ after _ => follows_delivered data after).mono
      intro events outcome course
      rcases course with ⟨failure, written, rfl⟩ | ⟨_, _, _, written, flushed, rfl⟩
      · cases written with
        | refused cause => exact ⟨.refused cause, by simp, by simp⟩
        | broken cause stalls begins =>
            exact ⟨.broken _ cause, by simp, by simpa [Wire.encode] using ⟨stalls, begins⟩⟩
      · cases written with
        | taken =>
            rcases flushed with ⟨failure, failed, rfl⟩ | ⟨_, _, _, done, ⟨rfl, rfl⟩, rfl⟩
            · cases failed with
              | refused cause => exact ⟨.stuck _ cause, by simp [Wire.encode], by simp⟩
            · cases done with
              | flushed => exact ⟨.sent _, by simp [Wire.encode], by simp⟩

theorem follows_say_encoded [Pace] (line : String) (connection : Connection) :
    connection.Follows
      (fun events outcome =>
        Sending (lineBytes line) events outcome ∧
          Puts (connection.wire.encode (lineBytes line)) events)
      (say line connection) :=
  follows_send_encoded _ (by simp [lineBytes]) connection

theorem follows_say [Pace] (line : String) (connection : Connection) :
    connection.Follows (Sending (lineBytes line)) (say line connection) :=
  (follows_say_encoded line connection).mono fun _ _ course => course.1

/-! ## Showing -/

theorem leads_atDesk {desk : Desk} {events : List Happening}
    (grown : desk.journal.happenings = connection.happenings ++ events) :
    connection.Leads events { connection with toDesk := desk } :=
  ⟨grown, rfl, rfl, rfl, id⟩

theorem follows_echo (text : Bytes) (connection : Connection) :
    connection.Follows (Showing text) (echo text connection) := by
  unfold echo atDesk Desk.display
  simp only [bind, EStateM.bind, Desk.write, Desk.flush]
  cases writes : connection.toDesk.writes.next? with
  | some cause => exact ⟨_, leads_atDesk (Journal.happenings_cons _ _), .refused cause⟩
  | none =>
      simp only [Desk.record]
      cases flushes : connection.toDesk.flushes.next? with
      | some cause =>
          refine ⟨[.shown text, .showFailed cause], leads_atDesk ?_, .stuck cause⟩
          simp [Journal.happenings_cons, happenings]
      | none =>
          refine ⟨[.shown text, .flushed], leads_atDesk ?_, .shown⟩
          simp [Journal.happenings_cons, happenings]

theorem follows_note (level : Level) (text : String) (connection : Connection) :
    connection.Follows (.noted ()) (note level text connection) :=
  ⟨_, (Leads.refl connection).record (.noted level text), by simp [Happening.isNote], rfl⟩

/-! ## Reading -/

theorem receive_eq [Pace] (limit : Nat) (connection : Connection) :
    receive limit connection =
      match connection.arrival limit with
      | (.silence, after) => .ok none (after.record .silence)
      | (.hangUp, after) => .error .disconnected (after.record .hungUp)
      | (.fail cause, after) => .error (.transport cause) (after.record (.readFailed cause))
      | (.data bytes, after) =>
          match decode limit bytes after with
          | .error failure after => .error failure after
          | .ok none after => .ok none (after.record .silence)
          | .ok (some text) after =>
              if text.isEmpty && after.wire = .telnet then receive limit after
              else .ok (some text) (after.record (.received text)) := by
  rw [receive]
  split
  · next arrived => rw [arrived]
  · next arrived => rw [arrived]
  · next arrived => rw [arrived]
  · next arrived =>
      rw [arrived]
      dsimp only
      split
      · next decoded => rw [decoded]
      · next decoded => rw [decoded]
      · next decoded => rw [decoded]

theorem hear_eq [Pace] (limit : Nat) (connection : Connection) :
    hear limit connection =
      match receive limit connection with
      | .error failure after => .error failure after
      | .ok none after => .ok none after
      | .ok (some bytes) after =>
          let stripped := Terminal.plainText after.filter bytes
          let filtered := { after with filter := stripped.1 }
          if stripped.2.isEmpty then hear limit filtered
          else .ok (some stripped.2) (filtered.record (.heard stripped.2)) := by
  rw [hear]
  split
  · next received => rw [received]
  · next received => rw [received]
  · next received => rw [received]

theorem follows_reply [Pace] (limit : Nat) (replies : Bytes) (connection : Connection) :
    connection.Follows
      (fun events outcome => events = [] ∧ outcome = .ok true ∨
        Writing (some limit) .replied .repliedPart replies events outcome)
      (reply limit replies connection) := by
  unfold reply
  split
  · exact ⟨[], .refl connection, .inl ⟨rfl, rfl⟩⟩
  · exact (follows_write _ _ _ _ connection).mono fun _ _ => .inr

theorem decode_telnet [Pace] (limit : Nat) (bytes : Bytes) (wired : connection.wire = .telnet) :
    decode limit bytes connection =
      (reply limit (Telnet.decode connection.decoder bytes).2.replies >>= fun answered =>
        pure (if answered then some (Telnet.decode connection.decoder bytes).2.text else none))
        { connection with decoder := (Telnet.decode connection.decoder bytes).1 } := by
  simp only [decode, wired]
  split
  · next answered => rw [bind_of_ok answered]; rfl
  · next answered => rw [bind_of_error answered]

theorem follows_decode [Pace] (limit : Nat) (bytes : Bytes) (connection : Connection) :
    connection.Follows Decoding (decode limit bytes connection) := by
  unfold decode
  split
  · exact ⟨[], .refl connection, .silent bytes⟩
  · have decoded : connection.Leads []
        { connection with decoder := (Telnet.decode connection.decoder bytes).1 } :=
      ⟨(List.append_nil _).symm, rfl, rfl, rfl, id⟩
    dsimp only
    rcases follows_reply limit (Telnet.decode connection.decoder bytes).2.replies
        { connection with decoder := (Telnet.decode connection.decoder bytes).1 } with
      ⟨events, leads, course⟩
    refine ⟨events, ?_⟩
    split
    · next answered =>
        rw [answered] at leads course
        refine ⟨decoded.trans leads, ?_⟩
        rcases course with ⟨rfl, same⟩ | writes
        · cases same
          exact .silent _
        · cases writes with
          | taken => exact .replied _ _
          | givenUp => exact .givenUp _
    · next answered =>
        rw [answered] at leads course
        refine ⟨decoded.trans leads, ?_⟩
        rcases course with ⟨rfl, same⟩ | writes
        · cases same
        · cases writes with
          | refused cause => exact .unanswered cause
          | broken cause => exact .broken _ cause

theorem leads_arrival (limit : Nat) (connection : Connection) :
    connection.Leads [] (connection.arrival limit).2 :=
  ⟨(List.append_nil _).symm, rfl, rfl, rfl, id⟩

theorem follows_receive [Pace] (limit : Nat) (connection : Connection) :
    connection.Follows (Reading .received) (receive limit connection) := by
  fun_induction receive limit connection with
  | case1 connection after next =>
      have arrived := leads_arrival limit connection
      rw [next] at arrived
      exact ⟨_, arrived.record .silence, .silence⟩
  | case2 connection after next =>
      have arrived := leads_arrival limit connection
      rw [next] at arrived
      exact ⟨_, arrived.record .hungUp, .hungUp⟩
  | case3 connection cause after next =>
      have arrived := leads_arrival limit connection
      rw [next] at arrived
      exact ⟨_, arrived.record (.readFailed cause), .failed cause⟩
  | case4 connection bytes between next failure after decoded =>
      have arrived := leads_arrival limit connection
      rw [next] at arrived
      rcases follows_decode limit bytes between with ⟨events, leads, course⟩
      rw [decoded] at leads course
      refine ⟨events, arrived.trans leads, ?_⟩
      cases course with
      | unanswered cause => exact .unanswered cause
      | broken part cause => exact .goingBy rfl (.unanswered cause)
  | case5 connection bytes between next after decoded =>
      have arrived := leads_arrival limit connection
      rw [next] at arrived
      rcases follows_decode limit bytes between with ⟨events, leads, course⟩
      rw [decoded] at leads course
      refine ⟨_, (arrived.trans leads).record .silence, .after ?_ .silence⟩
      cases course with
      | givenUp part => simp [Happening.goesBy]
  | case6 connection bytes between next text after decoded silent induction =>
      have arrived := leads_arrival limit connection
      rw [next] at arrived
      rcases follows_decode limit bytes between with ⟨events, leads, course⟩
      rw [decoded] at leads course
      rcases induction with ⟨others, onward, reads⟩
      refine ⟨events ++ others, (arrived.trans leads).trans onward, .after ?_ reads⟩
      cases course <;> simp [Happening.goesBy]
  | case7 connection bytes between next text after decoded some =>
      have arrived := leads_arrival limit connection
      rw [next] at arrived
      rcases follows_decode limit bytes between with ⟨events, leads, course⟩
      rw [decoded] at leads course
      refine ⟨_, (arrived.trans leads).record (.received text), .after ?_ (.text text)⟩
      cases course <;> simp [Happening.goesBy]

theorem leads_filter (filter : Terminal.State) (connection : Connection) :
    connection.Leads [] { connection with filter := filter } :=
  ⟨(List.append_nil _).symm, rfl, rfl, rfl, id⟩

theorem follows_hear [Pace] (limit : Nat) (connection : Connection) :
    connection.Follows (Reading .heard) (hear limit connection) := by
  fun_induction hear limit connection with
  | case1 connection failure after received =>
      rcases follows_receive limit connection with ⟨events, leads, reads⟩
      rw [received] at leads reads
      exact ⟨events, leads, Reading.without_text (by simp) reads⟩
  | case2 connection after received =>
      rcases follows_receive limit connection with ⟨events, leads, reads⟩
      rw [received] at leads reads
      exact ⟨events, leads, Reading.without_text (by simp) reads⟩
  | case3 connection bytes between received stripped filtered empty induction =>
      rcases follows_receive limit connection with ⟨events, leads, reads⟩
      rw [received] at leads reads
      rcases induction with ⟨others, onward, goesOn⟩
      exact ⟨events ++ others, leads.trans ((leads_filter stripped.1 between).trans onward),
        goesOn.after reads.goesBy_of_received⟩
  | case4 connection bytes between received stripped filtered some =>
      rcases follows_receive limit connection with ⟨events, leads, reads⟩
      rw [received] at leads reads
      exact ⟨_, leads.trans ((leads_filter stripped.1 between).record (.heard stripped.2)),
        (Reading.text stripped.2).after reads.goesBy_of_received⟩

end Connection

end BootConsole
