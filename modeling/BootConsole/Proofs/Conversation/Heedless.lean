import BootConsole.Proofs.Conversation.SingleSteps

/-!
# The journal is not read

What a session does writes to the journal and never looks into it. So on two connections that differ
by some log lines only, in what was written so far, it does the same.
-/

namespace BootConsole

variable {α β α' β' : Type}

/-! ## Journals without some lines -/

def reportOf (command marker : String) : Happening :=
  .noted .warning ("step '" ++ command ++ "' reported '" ++ marker ++ "'")

/-- The second journal has all entries of the first, but perhaps not all the reports. -/
inductive LessReports : Journal → Journal → Prop
  | nil : LessReports [] []
  | same (entry : Entry) {full fewer : Journal} :
      LessReports full fewer → LessReports (entry :: full) (entry :: fewer)
  | report (time : Nat) (command marker : String) {full fewer : Journal} :
      LessReports full fewer → LessReports (⟨time, reportOf command marker⟩ :: full) fewer

theorem LessReports.refl (journal : Journal) : LessReports journal journal := by
  induction journal with
  | nil => exact .nil
  | cons entry rest induction => exact .same entry induction

/-! ## Operations side by side -/

namespace Connection

def onto (journal : Journal) (connection : Connection) : Connection :=
  { connection with journal := journal }

/-- Two operations came to related values or to the same failure, and to the same connection but for
the reports in its journal. -/
inductive Alike (related : α → β → Prop) :
    EStateM.Result Failure Connection α → EStateM.Result Failure Connection β → Prop
  | ok {value : α} {other : β} {after : Connection} {journal : Journal} :
      related value other → LessReports after.journal journal →
      Alike related (.ok value after) (.ok other (after.onto journal))
  | error {failure : Failure} {after : Connection} {journal : Journal} :
      LessReports after.journal journal →
      Alike related (.error failure after) (.error failure (after.onto journal))

theorem Alike.of_ok {related : α → β → Prop} {value : α} {after : Connection}
    {result : EStateM.Result Failure Connection β} (alike : Alike related (.ok value after) result) :
    ∃ other journal, result = .ok other (after.onto journal) ∧ related value other ∧
      LessReports after.journal journal := by
  cases alike with
  | ok same less => exact ⟨_, _, rfl, same, less⟩

theorem Alike.of_error {related : α → β → Prop} {failure : Failure} {after : Connection}
    {result : EStateM.Result Failure Connection β}
    (alike : Alike related (.error failure after) result) :
    ∃ journal, result = .error failure (after.onto journal) ∧
      LessReports after.journal journal := by
  cases alike with
  | error less => exact ⟨_, rfl, less⟩

/-- On connections that are the same but for reports, the operations come to the same but for
reports. -/
def Parallel (related : α → β → Prop) (action : Action Connection α)
    (other : Action Connection β) : Prop :=
  ∀ connection journal, LessReports connection.journal journal →
    Alike related (action connection) (other (connection.onto journal))

abbrev Heedless (action : Action Connection α) : Prop :=
  Parallel Eq action action

namespace Parallel

variable {related : α → β → Prop} {next : α' → β' → Prop}

theorem pure {value : α} {other : β} (same : related value other) :
    Parallel related (Pure.pure value) (Pure.pure other) :=
  fun _ _ less => .ok same less

theorem throw (failure : Failure) :
    Parallel related (MonadExcept.throw failure : Action Connection α)
      (MonadExcept.throw failure : Action Connection β) :=
  fun _ _ less => .error less

theorem bind {action : Action Connection α} {other : Action Connection β}
    {onward : α → Action Connection α'} {further : β → Action Connection β'}
    (begins : Parallel related action other)
    (goesOn : ∀ value value', related value value' → Parallel next (onward value) (further value')) :
    Parallel next (action >>= onward) (other >>= further) := by
  intro connection journal less
  have before := begins connection journal less
  cases done : action connection with
  | ok value after =>
      rw [done] at before
      rcases before.of_ok with ⟨value', between, done', same, less⟩
      rw [bind_of_ok done, bind_of_ok done']
      exact goesOn value value' same after between less
  | error failure after =>
      rw [done] at before
      rcases before.of_error with ⟨between, done', less⟩
      rw [bind_of_error done, bind_of_error done']
      exact .error less

end Parallel

theorem Heedless.bind {next : α' → β' → Prop} {action : Action Connection α}
    {onward : α → Action Connection α'} {further : α → Action Connection β'}
    (begins : Heedless action) (goesOn : ∀ value, Parallel next (onward value) (further value)) :
    Parallel next (action >>= onward) (action >>= further) :=
  Parallel.bind begins fun value _ same => same ▸ goesOn value

theorem heedless_write [Pace] (limit : Option Nat) (whole part : Bytes → Happening) (data : Bytes) :
    Heedless (write limit whole part data) := by
  intro connection journal less
  have writes : (connection.onto journal).console.writes = connection.console.writes := rfl
  have clock : (connection.onto journal).clock = connection.clock := rfl
  simp only [write, writes, clock]
  split
  · exact .ok rfl (less.same ⟨_, part _⟩)
  · split
    · next cause failed =>
        split
        · exact .error (less.same ⟨_, .writeFailed cause⟩)
        · exact .error ((less.same ⟨_, part _⟩).same ⟨_, .writeFailed cause⟩)
    · exact .ok rfl (less.same ⟨_, whole data⟩)

theorem heedless_put [Pace] (data : Bytes) : Heedless (put data) :=
  (heedless_write none .wrote .wrotePart data).bind fun _ => .pure rfl

theorem heedless_flush : Heedless flush := by
  intro connection journal less
  have flushes : (connection.onto journal).console.flushes = connection.console.flushes := rfl
  unfold flush
  rw [flushes]
  cases connection.console.flushes.next? with
  | some cause => exact .error (less.same ⟨connection.clock, .writeFailed cause⟩)
  | none => exact .ok rfl less

theorem heedless_delivered (data : Bytes) : Heedless (delivered data) :=
  fun connection _ less => .ok rfl (less.same ⟨connection.clock, .sent data⟩)

theorem heedless_note (level : Level) (text : String) : Heedless (note level text) :=
  fun connection _ less => .ok rfl (less.same ⟨connection.clock, .noted level text⟩)

theorem heedless_say [Pace] (line : String) : Heedless (say line) := by
  intro connection journal less
  have some : lineBytes line ≠ [] := by simp [lineBytes]
  change Alike Eq (send (lineBytes line) connection) (send (lineBytes line) (connection.onto journal))
  cases wired : connection.wire with
  | text =>
      have wired' : (connection.onto journal).wire = .text := wired
      rw [send_text _ _ wired, send_text _ _ wired']
      exact (heedless_put _).bind (fun _ => heedless_delivered _) connection journal less
  | telnet =>
      have wired' : (connection.onto journal).wire = .telnet := wired
      rw [send_telnet _ some _ wired, send_telnet _ some _ wired']
      exact (heedless_put _).bind
        (fun _ => heedless_flush.bind fun _ => heedless_delivered _) connection journal less

/-! ## Reading and showing -/

variable {connection : Connection} {limit : Nat}

theorem heedless_decode [Pace] (limit : Nat) (bytes : Bytes) : Heedless (decode limit bytes) := by
  have replies (answer : Bytes) : Heedless (reply limit answer) := by
    unfold reply
    split
    · exact .pure rfl
    · exact heedless_write _ _ _ _
  intro connection journal less
  cases wired : connection.wire with
  | text =>
      have wired' : (connection.onto journal).wire = .text := wired
      simp only [decode, wired, wired']
      exact .ok rfl less
  | telnet =>
      have wired' : (connection.onto journal).wire = .telnet := wired
      rw [decode_telnet limit bytes wired, decode_telnet limit bytes wired']
      exact (replies _).bind (fun _ => .pure rfl) { connection with decoder := _ } journal less

theorem arrival_onto (limit : Nat) (connection : Connection) (journal : Journal) :
    (connection.onto journal).arrival limit =
      ((connection.arrival limit).1, (connection.arrival limit).2.onto journal) := rfl

theorem journal_of_arrival {after : Connection} {arrived : Arrival}
    (next : connection.arrival limit = (arrived, after)) : after.journal = connection.journal := by
  obtain ⟨_, rfl⟩ := Prod.mk.inj next
  rfl

theorem heedless_receive [Pace] (limit : Nat) : Heedless (receive limit) := by
  intro connection journal less
  rw [receive_eq limit (connection.onto journal), arrival_onto]
  fun_induction receive limit connection generalizing journal with
  | case1 connection after next =>
      rw [← journal_of_arrival next] at less
      rw [next]
      exact .ok rfl (less.same ⟨after.clock, .silence⟩)
  | case2 connection after next | case3 connection _ after next =>
      rw [← journal_of_arrival next] at less
      rw [next]
      exact .error (less.same ⟨after.clock, _⟩)
  | case4 connection bytes between next failure after decoded =>
      rw [← journal_of_arrival next] at less
      have read := heedless_decode limit bytes between journal less
      rw [decoded] at read
      rcases read.of_error with ⟨others, decoded', less⟩
      rw [next]
      simp only [decoded']
      exact .error less
  | case5 connection bytes between next after decoded =>
      rw [← journal_of_arrival next] at less
      have read := heedless_decode limit bytes between journal less
      rw [decoded] at read
      rcases read.of_ok with ⟨_, others, decoded', rfl, less⟩
      rw [next]
      simp only [decoded']
      exact .ok rfl (less.same ⟨after.clock, .silence⟩)
  | case6 connection bytes between next text after decoded silent induction =>
      rw [← journal_of_arrival next] at less
      have read := heedless_decode limit bytes between journal less
      rw [decoded] at read
      rcases read.of_ok with ⟨_, others, decoded', rfl, less⟩
      rw [next]
      simp only [decoded', receive_eq limit (after.onto others), arrival_onto]
      have silent' : (text.isEmpty && decide ((after.onto others).wire = .telnet)) = true := silent
      rw [if_pos silent']
      exact induction others less
  | case7 connection bytes between next text after decoded audible =>
      rw [← journal_of_arrival next] at less
      have read := heedless_decode limit bytes between journal less
      rw [decoded] at read
      rcases read.of_ok with ⟨_, others, decoded', rfl, less⟩
      rw [next]
      simp only [decoded']
      have audible' : ¬(text.isEmpty && decide ((after.onto others).wire = .telnet)) = true :=
        audible
      rw [if_neg audible']
      exact .ok rfl (less.same ⟨after.clock, .received text⟩)

theorem heedless_hear [Pace] (limit : Nat) : Heedless (hear limit) := by
  intro connection journal less
  fun_induction hear limit connection generalizing journal with
  | case1 connection failure after received =>
      have read := heedless_receive limit connection journal less
      rw [received] at read
      rcases read.of_error with ⟨between, received', less⟩
      rw [hear_eq, received']
      exact .error less
  | case2 connection after received =>
      have read := heedless_receive limit connection journal less
      rw [received] at read
      rcases read.of_ok with ⟨_, between, received', rfl, less⟩
      rw [hear_eq, received']
      exact .ok rfl less
  | case3 connection bytes between received stripped filtered empty induction =>
      have read := heedless_receive limit connection journal less
      rw [received] at read
      rcases read.of_ok with ⟨_, others, received', rfl, less⟩
      have silent : hear limit (connection.onto journal) = hear limit (filtered.onto others) := by
        rw [hear_eq, received']
        exact if_pos empty
      rw [silent]
      exact induction others less
  | case4 connection bytes between received stripped filtered visible =>
      have read := heedless_receive limit connection journal less
      rw [received] at read
      rcases read.of_ok with ⟨_, others, received', rfl, less⟩
      have heard : hear limit (connection.onto journal) =
          .ok (some stripped.2) ((filtered.onto others).record (.heard stripped.2)) := by
        rw [hear_eq, received']
        exact if_neg visible
      rw [heard]
      exact .ok rfl (less.same ⟨_, .heard stripped.2⟩)

theorem heedless_echo (text : Bytes) : Heedless (echo text) := by
  intro connection journal less
  have writes : (connection.onto journal).writes = connection.writes := rfl
  have flushes : (connection.onto journal).flushes = connection.flushes := rfl
  rw [echo_eq, echo_eq, writes, flushes]
  cases connection.writes.next? with
  | some cause => exact .error (less.same ⟨_, .showFailed cause⟩)
  | none =>
      have shown := less.same ⟨connection.clock, .shown text⟩
      cases connection.flushes.next? with
      | some cause => exact .error (shown.same ⟨_, .showFailed cause⟩)
      | none => exact .ok rfl (shown.same ⟨_, .flushed⟩)

theorem heedless_relay [Pace] (limit : Nat) : Heedless (relay limit) := by
  refine (heedless_hear limit).bind fun found => ?_
  match found with
  | none => exact .pure rfl
  | some chunk => exact (heedless_echo chunk).bind fun _ => .pure rfl

end Connection

end BootConsole
