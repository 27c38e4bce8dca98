import BootConsole.Proofs.Conversation.Deadline
import BootConsole.Provision.Run

/-!
# A run from its first probe

The device is probed at a steady pace, and a dot stands for each pace that goes by in vain. What the
operator sees, what the clock says and how far the journal goes is settled by the number of these
paces and by what ends the run: the terminal, the last probe, the connection or the session. The
clock counts whole milliseconds, and a pace is over with the first of them that it does not exceed.
-/

namespace BootConsole

/-! ## Showing something at the desk -/

def FaultSchedule.after (schedule : FaultSchedule) (count : Nat) : FaultSchedule :=
  { schedule with calls := schedule.calls + count }

namespace Desk

def further (desk : Desk) (displays milliseconds : Nat) (entries : Journal) : Desk where
  clock := desk.clock + milliseconds
  writes := desk.writes.after displays
  flushes := desk.flushes.after displays
  journal := entries ++ desk.journal

def showing (desk : Desk) (data : Bytes) : Desk :=
  desk.further 1 0 [⟨desk.clock, .flushed⟩, ⟨desk.clock, .shown data⟩]

/-- Why the terminal does not take `data` after `earlier` displays that it took, and what happens
then. -/
def refusal? (desk : Desk) (earlier : Nat) (data : Bytes) : Option (Fault × List Happening) :=
  match (desk.writes.after earlier).next? with
  | some cause => some (cause, [.showFailed cause])
  | none =>
      match (desk.flushes.after earlier).next? with
      | some cause => some (cause, [.shown data, .showFailed cause])
      | none => none

structure Adds (before : Desk) (events : List Happening) (after : Desk) : Prop where
  clock : after.clock = before.clock
  journal : after.journal = (events.map (Entry.mk before.clock)).reverse ++ before.journal

variable {desk : Desk} {data : Bytes} {cause : Fault} {lost : List Happening}

theorem refusal?_of_after {after : Desk} {displays : Nat}
    (writes : after.writes = desk.writes.after displays)
    (flushes : after.flushes = desk.flushes.after displays) :
    after.refusal? 0 data = desk.refusal? displays data := by
  rw [refusal?, writes, flushes]
  rfl

theorem display_of_taken (taken : desk.refusal? 0 data = none) :
    display data desk = .ok () (desk.showing data) := by
  unfold refusal? at taken
  cases writes : desk.writes.next? with
  | some cause => simp [FaultSchedule.after, writes] at taken
  | none =>
      cases flushes : desk.flushes.next? with
      | some cause => simp [FaultSchedule.after, writes, flushes] at taken
      | none =>
          simp only [display, bind, EStateM.bind, write, flush, writes, record, flushes]
          rfl

theorem display_of_refused (refused : desk.refusal? 0 data = some (cause, lost)) :
    ∃ after, display data desk = .error (.output cause) after ∧ desk.Adds lost after := by
  unfold refusal? at refused
  cases writes : desk.writes.next? with
  | some fault =>
      simp only [FaultSchedule.after, Nat.add_zero, writes] at refused
      cases refused
      simp only [display, bind, EStateM.bind, write, writes]
      exact ⟨_, rfl, rfl, rfl⟩
  | none =>
      cases flushes : desk.flushes.next? with
      | some fault =>
          simp only [FaultSchedule.after, Nat.add_zero, writes, flushes] at refused
          cases refused
          simp only [display, bind, EStateM.bind, write, flush, writes, record, flushes]
          exact ⟨_, rfl, rfl, rfl⟩
      | none => simp [FaultSchedule.after, writes, flushes] at refused

end Desk

/-! ## Waiting for an answer -/

def Journal.ofMisses (host : String) (pace start : Nat) : Nat → Journal
  | 0 => []
  | count + 1 =>
      let ends := start + (count + 1) * pace
      ⟨ends, .flushed⟩ :: ⟨ends, .shown Probe.dot⟩ :: ⟨start + count * pace, .probed host⟩ ::
        ofMisses host pace start count

namespace Desk

def afterMisses (host : String) (pace misses : Nat) (desk : Desk) : Desk :=
  desk.further misses (misses * pace) (.ofMisses host pace desk.clock misses)

def TakesDots (desk : Desk) (count : Nat) : Prop :=
  ∀ dot < count, desk.refusal? dot Probe.dot = none

variable {host : String} {pace misses : Nat} {desk : Desk}

theorem afterMisses_zero : desk.afterMisses host pace 0 = desk := by
  simp [afterMisses, further, FaultSchedule.after, Journal.ofMisses]

theorem afterMisses_succ :
    (((desk.afterMisses host pace misses).record (.probed host)).pass pace).showing Probe.dot =
      desk.afterMisses host pace (misses + 1) := by
  simp [afterMisses, further, showing, record, pass, FaultSchedule.after, Journal.ofMisses,
    Nat.succ_mul, Nat.add_assoc]

/-- The dots before have used up as many calls of the terminal. -/
theorem refusal?_afterMisses (host : String) (pace misses : Nat) (desk : Desk) (data : Bytes) :
    (((desk.afterMisses host pace misses).record (.probed host)).pass pace).refusal? 0 data =
      desk.refusal? misses data :=
  refusal?_of_after rfl rfl

end Desk

namespace Probe

variable {host : String} {interval : Duration} {count misses : Nat} {desk : Desk}
  {rest : List Probe}

theorem awaitAnswer_miss (host : String) (interval : Duration) (count : Nat) (rest : List Probe)
    (desk : Desk) :
    awaitAnswer host interval count (⟨0, .down⟩ :: rest) desk =
      (Desk.display dot >>= fun _ => awaitAnswer host interval (count + 1) rest)
        ((desk.record (.probed host)).pass interval.milliseconds) := by
  rw [awaitAnswer, modify_bind]
  dsimp only
  rw [modify_bind]
  rfl

theorem awaitAnswer_answered :
    awaitAnswer host interval count (⟨0, .up⟩ :: rest) desk =
      .ok (count + 1) (desk.record (.probed host)) := by
  rw [awaitAnswer, modify_bind]
  rfl

theorem awaitAnswer_broken {program : String} {cause : Fault} :
    awaitAnswer host interval count (⟨0, .broken program cause⟩ :: rest) desk =
      .error (.probeNotStarted program cause) (desk.record (.probed host)) := by
  rw [awaitAnswer, modify_bind]
  rfl

theorem awaitAnswer_misses (taken : desk.TakesDots misses) :
    awaitAnswer host interval count (List.replicate misses ⟨0, .down⟩ ++ rest) desk =
      awaitAnswer host interval (count + misses) rest
        (desk.afterMisses host interval.milliseconds misses) := by
  induction misses generalizing rest with
  | zero => rw [Desk.afterMisses_zero]; rfl
  | succ misses induction =>
      have before : awaitAnswer host interval count
          (List.replicate misses ⟨0, .down⟩ ++ ⟨0, .down⟩ :: rest) desk = _ :=
        induction fun dot earlier => taken dot (Nat.lt_succ_of_lt earlier)
      have last := (desk.refusal?_afterMisses host interval.milliseconds misses dot).trans
        (taken misses (Nat.lt_succ_self misses))
      rw [List.replicate_succ', List.append_assoc, List.singleton_append, before,
        awaitAnswer_miss, bind_of_ok (Desk.display_of_taken last), Desk.afterMisses_succ]
      rfl

/-- The first dot that the terminal does not take is the end of the wait. -/
theorem awaitAnswer_refused {earlier : Nat} {cause : Fault} {lost : List Happening}
    (before : earlier < misses) (taken : desk.TakesDots earlier)
    (refused : desk.refusal? earlier dot = some (cause, lost)) :
    ∃ after, awaitAnswer host interval count (List.replicate misses ⟨0, .down⟩ ++ rest) desk =
        .error (.output cause) after ∧
      (((desk.afterMisses host interval.milliseconds earlier).record (.probed host)).pass
        interval.milliseconds).Adds lost after := by
  rcases Nat.exists_eq_add_of_lt before with ⟨later, rfl⟩
  have last := (desk.refusal?_afterMisses host interval.milliseconds earlier dot).trans refused
  rcases Desk.display_of_refused last with ⟨after, shown, adds⟩
  refine ⟨after, ?_, adds⟩
  rw [Nat.add_assoc, List.replicate_add, List.append_assoc, awaitAnswer_misses taken,
    List.replicate_succ, List.cons_append, awaitAnswer_miss, bind_of_error shown]

end Probe

namespace Desk

/-- Either the terminal takes so many dots, or there is a first that it does not take. -/
theorem takesDots_or_refuses (desk : Desk) (count : Nat) :
    desk.TakesDots count ∨ ∃ dot cause lost, dot < count ∧ desk.TakesDots dot ∧
      desk.refusal? dot Probe.dot = some (cause, lost) := by
  induction count with
  | zero => exact .inl nofun
  | succ count induction =>
      rcases induction with taken | ⟨dot, cause, lost, before, taken, refused⟩
      · cases next : desk.refusal? count Probe.dot with
        | none =>
            refine .inl fun dot earlier => ?_
            rcases Nat.lt_succ_iff_lt_or_eq.mp earlier with earlier | rfl
            · exact taken dot earlier
            · exact next
        | some refused => exact .inr ⟨count, _, _, Nat.lt_succ_self count, taken, next⟩
      · exact .inr ⟨dot, cause, lost, Nat.lt_succ_of_lt before, taken, refused⟩

end Desk

/-! ## What is in the journal -/

namespace Journal

theorem collect_append {α : Type} (select : Happening → Option α) (later earlier : Journal) :
    collect select (later ++ earlier) = collect select earlier ++ collect select later := by
  rw [collect, happenings_append, List.filterMap_append]
  rfl

theorem shown_append (later earlier : Journal) :
    (later ++ earlier).shown = earlier.shown ++ later.shown := by
  rw [shown, collect_append, List.flatten_append]
  rfl

theorem probes_append (later earlier : Journal) :
    (later ++ earlier).probes = earlier.probes ++ later.probes :=
  collect_append _ later earlier

theorem shown_note (level : Level) (text : String) (desk : Desk) :
    (desk.note level text).journal.shown = desk.journal.shown :=
  (shown_append [_] desk.journal).trans (List.append_nil _)

theorem probes_note (level : Level) (text : String) (desk : Desk) :
    (desk.note level text).journal.probes = desk.journal.probes :=
  (probes_append [_] desk.journal).trans (List.append_nil _)

variable {host : String} {pace start : Nat}

theorem shown_ofMisses (misses : Nat) :
    (ofMisses host pace start misses).shown = (List.replicate misses Probe.dot).flatten := by
  induction misses with
  | zero => rfl
  | succ misses induction =>
      rw [List.replicate_succ', List.flatten_concat, ← induction]
      exact shown_append [_, _, _] (ofMisses host pace start misses)

theorem probes_ofMisses (misses : Nat) :
    (ofMisses host pace start misses).probes = List.replicate misses host := by
  induction misses with
  | zero => rfl
  | succ misses induction =>
      rw [List.replicate_succ', ← induction]
      exact probes_append [_, _, _] (ofMisses host pace start misses)

end Journal

/-! ## The ends of a run -/

namespace Settings

def asked (settings : Settings) (misses : Nat) (begun : Desk) : Desk :=
  (begun.afterMisses settings.request.target settings.interval.milliseconds misses).record
    (.probed settings.request.target)

def greeted (settings : Settings) (misses : Nat) (begun : Desk) : Desk :=
  (settings.asked misses begun).showing (Utf8.encode settings.banner)

def deadline (settings : Settings) (misses : Nat) (begun : Desk) : Nat :=
  (settings.greeted misses begun).clock + settings.timeout.milliseconds

def reported (settings : Settings) (misses : Nat) :
    EStateM.Result Failure Connection (List Response) → EStateM.Result Failure Desk Report
  | .ok responses after => .ok ⟨settings.request.mode, misses + 1, responses⟩ after.toDesk
  | .error failure after => .error failure after.toDesk

structure Greets (settings : Settings) (misses : Nat) (verdict : Verdict) (begun : Desk) :
    Prop where
  answered : verdict = .up
  dots : begun.TakesDots misses
  banner : begun.refusal? misses (Utf8.encode settings.banner) = none

variable (settings : Settings) (misses : Nat) (verdict : Verdict) (peer : Peer) (begun : Desk)

/-- How a run ends that began at this desk, by the number of probes in vain and the verdict of the
one behind them. -/
inductive Ending : EStateM.Result Failure Desk Report → Prop
  /-- The terminal does not take one of the dots. Nothing happens behind that. -/
  | dotRefused {dot : Nat} {cause : Fault} {lost : List Happening} {after : Desk} :
      dot < misses → begun.TakesDots dot → begun.refusal? dot Probe.dot = some (cause, lost) →
      ((settings.asked dot begun).pass settings.interval.milliseconds).Adds lost after →
      Ending (.error (.output cause) after)
  /-- The last probe cannot be started, and nothing happens behind it. -/
  | notProbed {program : String} {cause : Fault} :
      verdict = .broken program cause → begun.TakesDots misses →
      Ending (.error (.probeNotStarted program cause) (settings.asked misses begun))
  /-- The terminal does not take the banner. Nothing happens behind that. -/
  | bannerRefused {cause : Fault} {lost : List Happening} {after : Desk} :
      verdict = .up → begun.TakesDots misses →
      begun.refusal? misses (Utf8.encode settings.banner) = some (cause, lost) →
      (settings.asked misses begun).Adds lost after → Ending (.error (.output cause) after)
  /-- There is no connection, and nothing happens behind the banner. -/
  | notConnected {failure : Failure} {after : Desk} :
      settings.Greets misses verdict begun → (∀ console, peer ≠ .listening console) →
      settings.connect peer (settings.deadline misses begun) (settings.greeted misses begun) =
        .error failure after →
      after.journal = (settings.greeted misses begun).journal → Ending (.error failure after)
  /-- The session is held, and the run comes to what the session comes to. -/
  | conversed {console : Console} :
      settings.Greets misses verdict begun → peer = .listening console →
      Ending (settings.reported misses
        ((settings.sessionUntil (settings.deadline misses begun)).conduct settings.plan
          (.ofConsole .telnet console (settings.greeted misses begun))))

variable {settings misses verdict peer begun}

theorem clock_greeted :
    (settings.greeted misses begun).clock =
      begun.clock + misses * settings.interval.milliseconds :=
  Nat.add_zero _

theorem journal_greeted :
    (settings.greeted misses begun).journal =
      [⟨(settings.asked misses begun).clock, .flushed⟩,
        ⟨(settings.asked misses begun).clock, .shown (Utf8.encode settings.banner)⟩,
        ⟨(settings.asked misses begun).clock, .probed settings.request.target⟩] ++
      (.ofMisses settings.request.target settings.interval.milliseconds begun.clock misses ++
        begun.journal) :=
  rfl

theorem shown_greeted :
    (settings.greeted misses begun).journal.shown =
      begun.journal.shown ++ (List.replicate misses Probe.dot).flatten ++
        Utf8.encode settings.banner := by
  rw [journal_greeted, Journal.shown_append, Journal.shown_append, Journal.shown_ofMisses]
  simp [Journal.shown, Journal.collect, Journal.happenings]

theorem probes_greeted :
    (settings.greeted misses begun).journal.probes =
      begun.journal.probes ++ List.replicate (misses + 1) settings.request.target := by
  rw [journal_greeted, Journal.probes_append, Journal.probes_append, Journal.probes_ofMisses,
    List.replicate_succ', List.append_assoc]
  simp [Journal.probes, Journal.collect, Journal.happenings]

theorem run_eq (settings : Settings) (probes : List Probe) (peer : Peer) (desk : Desk) :
    settings.run probes peer desk =
      (Probe.awaitAnswer settings.request.target settings.interval 0 probes >>= fun count =>
        Desk.display (Utf8.encode settings.banner) >>= fun _ =>
          settings.converse peer >>= fun responses =>
            pure ⟨settings.request.mode, count, responses⟩) (desk.note .info settings.opening) :=
  rfl

variable {connection : Connection} {desk after : Desk}

theorem connect_listening (console : Console) :
    settings.connect (.listening console) (desk.clock + settings.timeout.milliseconds) desk =
      .ok (.ofConsole .telnet console desk) desk := by
  unfold connect
  dsimp only
  rw [if_neg (Nat.not_lt.mpr (Nat.le_add_right _ _))]

theorem connect_refused (refuses : ∀ console, peer ≠ .listening console) (deadline : Nat)
    (desk : Desk) :
    ∃ failure after, settings.connect peer deadline desk = .error failure after ∧
      after.journal = desk.journal := by
  cases peer with
  | refusing | silent | unusable => exact ⟨_, _, rfl, rfl⟩
  | listening console => exact absurd rfl (refuses console)

theorem converse_of_refused {failure : Failure}
    (refused : settings.connect peer (desk.clock + settings.timeout.milliseconds) desk =
      .error failure after) : settings.converse peer desk = .error failure after := by
  simp only [converse, refused]

theorem converse_of_connected
    (connected : settings.connect peer (desk.clock + settings.timeout.milliseconds) desk =
      .ok connection after) :
    (settings.converse peer >>= fun responses =>
        pure ⟨settings.request.mode, misses + 1, responses⟩) desk =
      settings.reported misses
        ((settings.sessionUntil (desk.clock + settings.timeout.milliseconds)).conduct
          settings.plan connection) := by
  cases conducted : (settings.sessionUntil (desk.clock + settings.timeout.milliseconds)).conduct
      settings.plan connection with
  | ok responses last =>
      have conversed : settings.converse peer desk = .ok responses last.toDesk := by
        simp only [converse, connected, conducted]
      rw [bind_of_ok conversed]
      rfl
  | error failure last =>
      have conversed : settings.converse peer desk = .error failure last.toDesk := by
        simp only [converse, connected, conducted]
      rw [bind_of_error conversed]
      rfl

/-- From the banner on, a run ends with the connection or with the session. -/
theorem ending_of_greets (peer : Peer) (greets : settings.Greets misses verdict begun) :
    settings.Ending misses verdict peer begun
      ((settings.converse peer >>= fun responses =>
        pure ⟨settings.request.mode, misses + 1, responses⟩) (settings.greeted misses begun)) := by
  by_cases refuses : ∀ console, peer ≠ .listening console
  · rcases connect_refused refuses (settings.deadline misses begun)
      (settings.greeted misses begun) with ⟨failure, after, refused, same⟩
    rw [bind_of_error (converse_of_refused refused)]
    exact .notConnected greets refuses refused same
  · rcases not_forall_not.mp refuses with ⟨console, rfl⟩
    rw [converse_of_connected (connect_listening console)]
    exact .conversed greets rfl

end Settings

/-! ## What the session adds -/

structure Answering (events : List Happening) : Prop where
  unprobed : ∀ host, .probed host ∉ events
  answers : ∀ earlier later, events = earlier ++ later → heardIn earlier = [] →
    shownIn earlier = []

namespace Answering

variable {events earlier later : List Happening}

theorem append (begins : Answering earlier) (goesOn : Answering later) :
    Answering (earlier ++ later) where
  unprobed host member :=
    (List.mem_append.mp member).elim (begins.unprobed host) (goesOn.unprobed host)
  answers front back split unheard := by
    rcases List.append_eq_append_iff.mp split with ⟨rest, rfl, onward⟩ | ⟨rest, inside, _⟩
    · rw [heardIn_append, List.append_eq_nil_iff] at unheard
      rw [shownIn_append, begins.answers earlier [] (List.append_nil _).symm unheard.1,
        goesOn.answers rest back onward unheard.2, List.append_nil]
    · exact begins.answers front rest inside unheard

/-- Where nothing is shown and nothing is probed there is nothing to keep to. -/
theorem of_unseen (unprobed : ∀ host, .probed host ∉ events) (unshown : shownIn events = []) :
    Answering events where
  unprobed := unprobed
  answers front back split _ := by
    rw [split, shownIn_append] at unshown
    exact (List.append_eq_nil_iff.mp unshown).1

theorem of_isOfWait (ofWait : ∀ event ∈ events, event.isOfWait = true)
    (unshown : shownIn events = []) : Answering events :=
  .of_unseen (fun host member => absurd (ofWait (.probed host) member) Bool.false_ne_true) unshown

/-- What is shown behind something that was heard may be shown. -/
theorem of_heard (first : Answering earlier) (heard : heardIn earlier ≠ [])
    (unprobed : ∀ host, .probed host ∉ later) : Answering (earlier ++ later) where
  unprobed host member :=
    (List.mem_append.mp member).elim (first.unprobed host) (unprobed host)
  answers front back split unheard := by
    rcases List.append_eq_append_iff.mp split with ⟨rest, rfl, _⟩ | ⟨rest, inside, _⟩
    · rw [heardIn_append, List.append_eq_nil_iff] at unheard
      exact absurd unheard.1 heard
    · exact first.answers front rest inside unheard

theorem of_notes (notes : ∀ event ∈ events, event.isNote = true) : Answering events :=
  .of_unseen (fun host member => absurd (notes (.probed host) member) Bool.false_ne_true)
    (nothing_of_notes notes).2

theorem of_sending {data : Bytes} {outcome : Except Failure Unit}
    (sends : Sending data events outcome) : Answering events := by
  refine .of_unseen (fun host member => ?_) sends.nothing.2
  cases sends <;> simp at member

theorem of_reading {outcome : Except Failure (Option Bytes)}
    (reads : Reading .heard events outcome) : Answering events :=
  .of_isOfWait reads.isOfWait reads.shownIn_eq_nil

theorem of_showing {chunk : Bytes} {outcome : Except Failure Unit}
    (reads : Reading .heard earlier (.ok (some chunk))) (shows : Showing chunk later outcome) :
    Answering (earlier ++ later) := by
  refine (of_reading reads).of_heard (by simp [reads.flows_of_text.2]) fun host member => ?_
  exact absurd (shows.isOfWait (.probed host) member) Bool.false_ne_true

end Answering

namespace Connection

def Answers (before after : Connection) : Prop :=
  ∃ events, after.happenings = before.happenings ++ events ∧ Answering events

variable {α : Type}

theorem throughout_answers {course : Course α} {action : Action Connection α}
    (follows : ∀ connection, Follows connection course (action connection))
    (keeps : ∀ events outcome, course events outcome → Answering events) :
    Throughout Answers action := by
  intro connection
  rcases follows connection with ⟨events, leads, taken⟩
  exact ⟨events, leads.happenings, keeps events _ taken⟩

theorem answers_refl (connection : Connection) : Answers connection connection :=
  ⟨[], (List.append_nil _).symm, .of_notes nofun⟩

theorem answers_trans {first second third : Connection} (before : Answers first second)
    (after : Answers second third) : Answers first third := by
  rcases before with ⟨earlier, happened, begins⟩
  rcases after with ⟨later, onward, goesOn⟩
  exact ⟨earlier ++ later, by rw [onward, happened, List.append_assoc], begins.append goesOn⟩

theorem lasting_answers (deadline : Nat) : Lasting deadline Answers where
  refl := answers_refl
  trans := answers_trans
  say line := throughout_answers (follows_say line) fun _ _ => .of_sending
  note level text := throughout_answers (follows_note level text) fun _ _ course =>
    .of_notes course.1
  relay limit _ := by
    intro connection
    rcases follows_hear limit connection with ⟨earlier, leads, reads⟩
    cases heard : hear limit connection with
    | error failure after =>
        rw [heard] at leads reads
        rw [relay_of_error heard]
        exact ⟨earlier, leads.happenings, .of_reading reads⟩
    | ok found after =>
        rw [heard] at leads reads
        cases found with
        | none =>
            rw [relay_of_silence heard]
            exact ⟨earlier, leads.happenings, .of_reading reads⟩
        | some chunk =>
            rcases follows_echo chunk after with ⟨later, onward, shows⟩
            rw [relay_of_text heard]
            exact ⟨earlier ++ later, (leads.trans onward).happenings, .of_showing reads shows⟩

theorem answers_close : Throughout Answers Session.close :=
  throughout_close answers_refl fun connection =>
    ⟨[.closed], Session.happenings_last connection, .of_unseen (fun host => by simp) rfl⟩

theorem answers_conduct (session : Session) (plan : Plan) :
    Throughout Answers (session.conduct plan) :=
  (lasting_answers session.deadline).conduct
    (throughout_answers Session.follows_noticeHangUp fun _ _ course => course.1 ▸ .of_notes nofun)
    answers_close plan

end Connection

namespace Settings

/-- A run goes through its stages in order and ends with the first that goes wrong. -/
theorem ending_of_run (settings : Settings) (misses : Nat) (verdict : Verdict) (rest : List Probe)
    (peer : Peer) (desk : Desk) (settled : verdict ≠ .down) :
    settings.Ending misses verdict peer (desk.note .info settings.opening)
      (settings.run (List.replicate misses ⟨0, .down⟩ ++ ⟨0, verdict⟩ :: rest) peer desk) := by
  rw [run_eq]
  generalize desk.note .info settings.opening = begun
  rcases begun.takesDots_or_refuses misses with taken | ⟨dot, cause, lost, before, taken, refused⟩
  · cases verdict with
    | down => contradiction
    | broken program cause =>
        have awaited : Probe.awaitAnswer settings.request.target settings.interval 0
            (List.replicate misses ⟨0, .down⟩ ++ ⟨0, .broken program cause⟩ :: rest) begun =
              .error (.probeNotStarted program cause) (settings.asked misses begun) := by
          rw [Probe.awaitAnswer_misses taken, Probe.awaitAnswer_broken, asked]
        rw [bind_of_error awaited]
        exact .notProbed rfl taken
    | up =>
        have awaited : Probe.awaitAnswer settings.request.target settings.interval 0
            (List.replicate misses ⟨0, .down⟩ ++ ⟨0, .up⟩ :: rest) begun =
              .ok (misses + 1) (settings.asked misses begun) := by
          rw [Probe.awaitAnswer_misses taken, Probe.awaitAnswer_answered, Nat.zero_add, asked]
        rw [bind_of_ok awaited]
        cases banner : begun.refusal? misses (Utf8.encode settings.banner) with
        | none =>
            have shows : (settings.asked misses begun).refusal? 0
                (Utf8.encode settings.banner) = none :=
              (Desk.refusal?_of_after rfl rfl).trans banner
            rw [bind_of_ok (Desk.display_of_taken shows)]
            exact ending_of_greets peer ⟨rfl, taken, banner⟩
        | some refused =>
            rcases refused with ⟨cause, lost⟩
            have shows : (settings.asked misses begun).refusal? 0
                (Utf8.encode settings.banner) = some (cause, lost) :=
              (Desk.refusal?_of_after rfl rfl).trans banner
            rcases Desk.display_of_refused shows with ⟨after, failed, adds⟩
            rw [bind_of_error failed]
            exact .bannerRefused rfl taken banner adds
  · rcases Probe.awaitAnswer_refused before taken refused with ⟨after, failed, adds⟩
    rw [bind_of_error failed]
    exact .dotRefused before taken refused adds

/-- However often the device does not answer before it does, or before it cannot be probed any more,
a run goes through its stages in order and ends with the first that goes wrong. When the banner has
been shown, just the paces of the wait have gone by on the clock, and the operator has seen just the
dots and the banner; the session has its whole time from then on, and adds nothing to what the
operator sees before it has heard something. -/
theorem run_in_order (settings : Settings) (misses : Nat) (verdict : Verdict) (rest : List Probe)
    (peer : Peer) (desk : Desk) (settled : verdict ≠ .down) :
    let probes := List.replicate misses ⟨0, .down⟩ ++ ⟨0, verdict⟩ :: rest
    let begun := desk.note .info settings.opening
    let greeted := settings.greeted misses begun
    settings.Ending misses verdict peer begun (settings.run probes peer desk) ∧
      greeted.clock = desk.clock + misses * settings.interval.milliseconds ∧
      greeted.journal.shown =
        desk.journal.shown ++ (List.replicate misses Probe.dot).flatten ++
          Utf8.encode settings.banner ∧
      greeted.journal.probes =
        desk.journal.probes ++ List.replicate (misses + 1) settings.request.target ∧
      ∀ deadline console,
        let session := settings.sessionUntil deadline
        let connection := Connection.ofConsole .telnet console greeted
        ∃ entries,
          (stateAfter (session.conduct settings.plan connection)).journal =
            entries ++ greeted.journal ∧ Answering entries.happenings := by
  intro probes begun greeted
  refine ⟨settings.ending_of_run misses verdict rest peer desk settled, clock_greeted, ?_, ?_, ?_⟩
  · rw [shown_greeted, Journal.shown_note]
  · rw [probes_greeted, Journal.probes_note]
  · intro deadline console session connection
    have timely := Connection.timely_conduct session settings.plan connection
    rcases timely.journal with ⟨entries, grown, _⟩
    rcases Connection.answers_conduct session settings.plan connection with
      ⟨events, happened, answering⟩
    have same : events = entries.happenings := by
      have both := congrArg Journal.happenings grown
      rw [Journal.happenings_append] at both
      exact List.append_cancel_left (happened.symm.trans both)
    exact ⟨entries, grown, same ▸ answering⟩

theorem run_in_order_after_two_dots :
    let settings := Settings.ofRequest ⟨.exec .manual, "192.168.1.1", "x"⟩
    let desk := Desk.start .none .none
    let peer := Peer.listening (Session.startingKernel 1)
    let result := settings.run [⟨0, .down⟩, ⟨0, .down⟩, ⟨0, .up⟩] peer desk
    Verdict.up ≠ .down ∧
      settings.Ending 2 .up peer (desk.note .info settings.opening) result ∧
      outcome result =
        .ok ⟨.exec .manual, 3,
          [⟨"load x_kernel", "RedBoot> ", "RedBoot>", none, false⟩,
            ⟨"exec", "Starting kernel", "", none, true⟩]⟩ ∧
      (stateAfter result).journal.shown =
        Utf8.encode
          "..\nstart console session 192.168.1.1:9000\nRedBoot> Starting kernel" := by
  intro settings desk peer result
  refine ⟨by decide, ?_, by decide +kernel, by decide +kernel⟩
  exact (run_in_order settings 2 .up [] peer desk (by decide)).1

end Settings

end BootConsole
