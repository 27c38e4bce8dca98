import BootConsole.Proofs.Conversation.Utterance
import BootConsole.Proofs.Telnet.RoundTrip
import BootConsole.Proofs.Telnet.Refusals

/-!
# What the peer reads

A session puts two kinds of bytes on a stream: its lines, when the plan comes to them, and answers
to options, whenever the peer asks. Neither is ever put into the other. So a peer that reads the
stream reads the lines in the order of the script, and nothing else, however slow the stream is and
wherever it fails.

An answer that was begun and given up is not taken back, though. Where another line follows it, that
line is read as the rest of the answer.
-/

namespace BootConsole

variable {α : Type}

namespace Happening

def breaksAnswer : Happening → Bool
  | .repliedPart part => !part.isEmpty
  | _ => false

def breaksOff (event : Happening) : Bool :=
  event.breaksLine || event.breaksAnswer

def isAnswer : Happening → Bool
  | .replied _ | .repliedPart _ => true
  | _ => false

theorem isAnswer_of_isWrite {event : Happening} (other : event.isWrite = false) :
    event.isAnswer = false := by
  cases event with
  | replied | repliedPart => cases other
  | _ => rfl

end Happening

/-! ## Answers to options -/

/-- All that the peer was answered refuses its options. Only a stream that stalls takes a part of an
answer. -/
structure Refusing [Pace] (events : List Happening) : Prop where
  whole : ∀ answer, .replied answer ∈ events → Telnet.AreRefusals answer
  part : ∀ part, .repliedPart part ∈ events →
    Pace.Stalls ∧ ∃ answer, Telnet.AreRefusals answer ∧ part <+: answer

namespace Refusing

variable [Pace] {earlier later events : List Happening}

theorem of_unanswered (unanswered : ∀ event ∈ events, event.isAnswer = false) :
    Refusing events where
  whole _ member := absurd (unanswered _ member) (by simp [Happening.isAnswer])
  part _ member := absurd (unanswered _ member) (by simp [Happening.isAnswer])

theorem append (before : Refusing earlier) (after : Refusing later) :
    Refusing (earlier ++ later) where
  whole answer member :=
    (List.mem_append.mp member).elim (before.whole answer) (after.whole answer)
  part part member := (List.mem_append.mp member).elim (before.part part) (after.part part)

end Refusing

namespace Connection

variable [Pace]

def Refuses (before after : Connection) : Prop :=
  ∃ events, after.happenings = before.happenings ++ events ∧ Refusing events

namespace Refuses

theorem refl (connection : Connection) : Refuses connection connection :=
  ⟨[], (List.append_nil _).symm, .of_unanswered nofun⟩

theorem trans {first second third : Connection} (before : Refuses first second)
    (after : Refuses second third) : Refuses first third := by
  rcases before with ⟨earlier, happened, refused⟩
  rcases after with ⟨later, happened', refused'⟩
  exact ⟨earlier ++ later, by rw [happened', happened, List.append_assoc], refused.append refused'⟩

/-- Nothing is answered on such a course. -/
theorem of_follows {course : Course α} {action : Action Connection α}
    (follows : ∀ connection, Follows connection course (action connection))
    (unanswered : ∀ events outcome, course events outcome →
      ∀ event ∈ events, event.isAnswer = false) :
    Throughout Refuses action := by
  intro connection
  rcases follows connection with ⟨events, leads, taken⟩
  exact ⟨events, leads.happenings, .of_unanswered (unanswered events _ taken)⟩

theorem record (event : Happening) (other : event.isAnswer = false) (connection : Connection) :
    Refuses connection (connection.record event) :=
  ⟨[event], happenings_record event connection, .of_unanswered (by simp [other])⟩

theorem say (line : String) : Throughout Refuses (say line) := by
  apply of_follows (follows_say line)
  intro events outcome sends event member
  cases sends <;> simp at member <;> rcases member with rfl | rfl <;> rfl

theorem echo (text : Bytes) : Throughout Refuses (echo text) := by
  apply of_follows (follows_echo text)
  intro events outcome shows event member
  cases shows <;> simp at member <;> rcases member with rfl | rfl <;> rfl

theorem reply {limit : Nat} {replies : Bytes} (refused : Telnet.AreRefusals replies) :
    Throughout Refuses (reply limit replies) := by
  intro connection
  rcases follows_reply limit replies connection with ⟨events, leads, course⟩
  refine ⟨events, leads.happenings, ?_⟩
  generalize outcome (Connection.reply limit replies connection) = ended at course
  rcases course with ⟨rfl, _⟩ | writes
  · exact .of_unanswered nofun
  · cases writes with
    | taken => exact ⟨by simp [refused], by simp⟩
    | givenUp _ stalls begins => exact ⟨by simp, by simpa [stalls] using ⟨replies, refused, begins⟩⟩
    | refused cause => exact .of_unanswered (by simp [Happening.isAnswer])
    | broken cause stalls begins =>
        exact ⟨by simp, by simpa [stalls] using ⟨replies, refused, begins⟩⟩

theorem decode (limit : Nat) (bytes : Bytes) : Throughout Refuses (decode limit bytes) := by
  refine throughout_decode refl trans
    (fun _ _ => ⟨[], (List.append_nil _).symm, .of_unanswered nofun⟩)
    (fun decoder bytes => reply ?_) bytes
  rw [Telnet.decode_eq_run]
  exact Telnet.areRefusals_run decoder bytes

theorem hear (limit : Nat) : Throughout Refuses (hear limit) := by
  have unrecorded {before after : Connection} (leads : before.Leads [] after) :
      Refuses before after := ⟨[], leads.happenings, .of_unanswered nofun⟩
  have receives : Throughout Refuses (receive limit) :=
    throughout_receive trans (fun connection => unrecorded (leads_arrival limit connection))
      (decode limit) fun event other => record event (Happening.isAnswer_of_isWrite other)
  exact throughout_hear trans receives
    (fun filter connection => unrecorded (leads_filter filter connection))
    fun event other => record event (Happening.isAnswer_of_isWrite other)

theorem lasting (deadline : Nat) : Lasting deadline Refuses where
  refl := refl
  trans := trans
  say := say
  relay limit _ := throughout_relay refl trans (hear limit) echo
  note level text := record (.noted level text) rfl

theorem perform (session : Session) (plan : Plan) : Throughout Refuses (session.perform plan) := by
  refine ((lasting session.deadline).inherited ?_).perform plan
  exact of_follows Session.follows_noticeHangUp fun _ _ course => course.1 ▸ nofun

end Refuses

end Connection

/-! ## What a fresh decoder makes of the stream -/

/-- What the stream took is these texts, each as a whole, then perhaps a part of one more, and
refusals of options in between. Nothing follows what breaks off. -/
structure Framed (texts : List Bytes) (unsent : Bytes) (events : List Happening) : Prop where
  wrote : wroteIn events = texts.map Telnet.encode
  wrotePart : ∀ part, .wrotePart part ∈ events → part <+: Telnet.encode unsent
  replied : ∀ answer, .replied answer ∈ events → Telnet.AreRefusals answer
  repliedPart : ∀ part, .repliedPart part ∈ events →
    ∃ answer, Telnet.AreRefusals answer ∧ part <+: answer
  final : events.Pairwise fun earlier later => earlier.breaksOff → later.written? = none

def IsReadBack (text : Bytes) : Prop :=
  Telnet.run .text (Telnet.encode text) = (.text, .ofText text)

theorem isReadBack_lineBytes {line : String}
    (free : ¬[carriageReturn, Telnet.nul] <:+: Utf8.encode line) : IsReadBack (lineBytes line) := by
  apply Telnet.run_encode_of_unpadded
  · intro inside
    rcases List.infix_concat_iff.mp inside with ends | inside
    · have last := ends.getLast (by simp)
      simp only [List.getLast_concat] at last
      cases last
    · exact free inside
  · rw [lineBytes, List.getLast?_concat]
    decide

namespace Framed

variable {texts others : List Bytes} {unsent : Bytes} {event : Happening}
  {events : List Happening}

theorem behind (framed : Framed texts unsent (event :: events))
    (wrote : wroteIn events = others.map Telnet.encode) : Framed others unsent events where
  wrote := wrote
  wrotePart part member := framed.wrotePart part (List.mem_cons_of_mem event member)
  replied answer member := framed.replied answer (List.mem_cons_of_mem event member)
  repliedPart part member := framed.repliedPart part (List.mem_cons_of_mem event member)
  final := (List.pairwise_cons.mp framed.final).2

/-- What breaks off is all that is read. -/
theorem ends (framed : Framed texts unsent (event :: events)) (breaks : event.breaksOff = true)
    (unsaid : event.wrote? = none) : texts = [] ∧ writtenIn events = [] := by
  have silent : ∀ later ∈ events, later.written? = none := fun later member =>
    (List.pairwise_cons.mp framed.final).1 later member breaks
  have unwritten : wroteIn events = [] := by
    refine List.filterMap_eq_nil_iff.mpr fun later member => ?_
    have none := silent later member
    cases later <;> simp_all [Happening.written?, Happening.wrote?]
  have wrote := framed.wrote
  rw [wroteIn, List.filterMap_cons_none unsaid, ← wroteIn, unwritten] at wrote
  exact ⟨List.map_eq_nil_iff.mp wrote.symm, List.filterMap_eq_nil_iff.mpr silent⟩

/-- Answers to options, wherever they stand between texts, are not seen in what is read, and the
beginning of one at the end is not either. -/
theorem run_eq (framed : Framed texts unsent events) (whole : ∀ text ∈ texts, IsReadBack text)
    (other : IsReadBack unsent) :
    ∃ state front, Telnet.run .text (writtenIn events).flatten =
      (state, .ofText (texts.flatten ++ front)) ∧ front <+: unsent := by
  induction events generalizing texts with
  | nil =>
      cases List.map_eq_nil_iff.mp framed.wrote.symm
      exact ⟨.text, [], rfl, List.nil_prefix⟩
  | cons event rest induction =>
      cases event with
      | wrote data =>
          have first : wroteIn (.wrote data :: rest) = data :: wroteIn rest := rfl
          have wrote := framed.wrote
          rw [first] at wrote
          rcases List.map_eq_cons_iff.mp wrote.symm with ⟨text, texts, rfl, rfl, same⟩
          rcases List.forall_mem_cons.mp whole with ⟨read, whole⟩
          rcases induction (framed.behind same.symm) whole with ⟨state, front, onward, begins⟩
          refine ⟨state, front, ?_, begins⟩
          change Telnet.run .text (Telnet.encode text ++ (writtenIn rest).flatten) = _
          rw [Telnet.run_append, read, onward, List.flatten_cons, List.append_assoc]
          rfl
      | wrotePart part =>
          obtain ⟨rfl, nothing⟩ := framed.ends rfl rfl
          rcases Telnet.run_of_prefix (framed.wrotePart part List.mem_cons_self) other with
            ⟨state, front, read, begins⟩
          refine ⟨state, front, ?_, begins⟩
          change Telnet.run .text (part ++ (writtenIn rest).flatten) = _
          rw [nothing, List.flatten_nil, List.append_nil, read]
          rfl
      | replied answer =>
          rcases induction (framed.behind framed.wrote) whole with ⟨state, front, onward, begins⟩
          refine ⟨state, front, ?_, begins⟩
          change Telnet.run .text (answer ++ (writtenIn rest).flatten) = _
          rw [Telnet.run_append, (framed.replied answer List.mem_cons_self).run_eq, onward]
          rfl
      | repliedPart part =>
          cases part with
          | nil => exact induction (framed.behind framed.wrote) whole
          | cons byte bytes =>
              obtain ⟨rfl, nothing⟩ := framed.ends rfl rfl
              rcases framed.repliedPart _ List.mem_cons_self with ⟨answer, refused, begins⟩
              rcases Telnet.run_of_prefix begins refused.run_eq with ⟨state, front, read, none⟩
              refine ⟨state, [], ?_, List.nil_prefix⟩
              change Telnet.run .text (byte :: bytes ++ (writtenIn rest).flatten) = _
              rw [nothing, List.flatten_nil, List.append_nil, read, List.prefix_nil.mp none]
              rfl
      | _ => exact induction (framed.behind framed.wrote) whole

end Framed

namespace Session

/-- What a run puts on a telnet stream are lines of the script, and refusals of options. -/
theorem conduct_says [Pace] (session : Session) (plan : Plan) (console : Console) (desk : Desk) :
    ∃ events, ∃ said : Utterance,
      (stateAfter (session.conduct plan (.ofConsole .telnet console desk))).happenings =
        desk.journal.happenings ++ events ∧
      said.Shows .telnet events ∧ said.lines <+: plan.script ∧ Refusing events := by
  rcases Connection.Says.perform session plan (.ofConsole .telnet console desk) with
    ⟨events, said, leads, shows, begun, _⟩
  rcases Connection.Refuses.perform session plan (.ofConsole .telnet console desk) with
    ⟨same, happened, refused⟩
  obtain rfl : events = same := List.append_cancel_left (leads.happenings.symm.trans happened)
  rcases conduct_grows leads.isOpen with ⟨notes, grown, noted⟩
  have ending : ∀ event ∈ Happening.closed :: notes,
      event.speaks = false ∧ event.written? = none ∧ event.isAnswer = false := by
    intro event member
    rcases List.mem_cons.mp member with rfl | member
    · exact ⟨rfl, rfl, rfl⟩
    · have note := noted event member
      cases event with
      | noted => exact ⟨rfl, rfl, rfl⟩
      | _ => cases note
  refine ⟨events ++ .closed :: notes, said, ?_, ?_, begun,
    refused.append (.of_unanswered fun event member => (ending event member).2.2)⟩
  · rw [grown, leads.happenings, List.append_assoc]
    rfl
  · exact shows.append_silent (fun event member => (ending event member).1)
      (.inr fun event member => (ending event member).2.1)

end Session

/-- What a peer gets of a run that has these lines to send. -/
structure WellFramed [Pace] (script : List String) (events : List Happening) : Prop where
  sent : sentIn events <+: script.map lineBytes
  /-- A peer that reads the stream finds the lines that went out and nothing to answer. If the
  stream failed, there may be a part of the next line behind them. -/
  read : ∃ rest,
    (Telnet.decode .text (writtenIn events).flatten).2 = .ofText ((sentIn events).flatten ++ rest) ∧
      (rest = [] ∨
        (∃ cause, .writeFailed cause ∈ events) ∧
          ∃ line, sentIn events ++ [lineBytes line] <+: script.map lineBytes ∧
            rest <+: lineBytes line)
  /-- The stream took each line in one write of its own, in which no answer can stand. -/
  wrote : wroteIn events <+: script.map fun line => Telnet.encode (lineBytes line)
  final : events.Pairwise fun earlier later => earlier.breaksLine → later.written? = none
  refusing : Refusing events

namespace Utterance

theorem whole_prefix_lines (utterance : Utterance) : utterance.whole <+: utterance.lines := by
  refine List.prefix_append_right_inj _ |>.mpr ?_
  cases utterance.left with
  | none => exact List.prefix_rfl
  | some left =>
      cases left with
      | stuck line => exact List.prefix_rfl
      | broken line => exact List.nil_prefix

variable [Pace] {utterance : Utterance} {script : List String} {events : List Happening}

theorem Shows.wroteIn_eq (shows : utterance.Shows .telnet events) :
    wroteIn events = (utterance.whole.map lineBytes).map Telnet.encode := by
  rw [shows.wrote, List.map_map]
  rfl

def unsent (utterance : Utterance) : Bytes :=
  match utterance.left with
  | some (.broken line) => lineBytes line
  | _ => []

theorem Shows.framed (shows : utterance.Shows .telnet events) (refusing : Refusing events)
    (unbroken : events.Pairwise fun earlier later =>
      earlier.breaksAnswer → later.written? = none) :
    Framed (utterance.whole.map lineBytes) utterance.unsent events where
  wrote := shows.wroteIn_eq
  wrotePart part member := by
    rcases shows.part part member with ⟨_, line, broken, begins⟩
    rw [unsent, broken]
    exact begins
  replied := refusing.whole
  repliedPart part member := (refusing.part part member).2
  final := (shows.final.and unbroken).imp fun ends breaks => by
    rcases Bool.or_eq_true_iff.mp breaks with line | answer
    · exact ends.1 line
    · exact ends.2 answer

theorem Shows.wellFramed (shows : utterance.Shows .telnet events)
    (begun : utterance.lines <+: script) (refusing : Refusing events)
    (free : ∀ line ∈ script, ¬[carriageReturn, Telnet.nul] <:+: Utf8.encode line)
    (unbroken : events.Pairwise fun earlier later =>
      earlier.breaksAnswer → later.written? = none) :
    WellFramed script events where
  sent := by
    rw [shows.sent]
    exact ((List.prefix_append _ _).trans begun).map lineBytes
  read := by
    have readBack (line : String) (said : line ∈ utterance.lines) : IsReadBack (lineBytes line) :=
      isReadBack_lineBytes (free line (begun.subset said))
    have whole : ∀ text ∈ utterance.whole.map lineBytes, IsReadBack text := by
      intro text member
      rcases List.mem_map.mp member with ⟨line, said, rfl⟩
      exact readBack line (utterance.whole_prefix_lines.subset said)
    have other : IsReadBack utterance.unsent := by
      unfold unsent
      split
      · next line broken => exact readBack line (by simp [lines, broken, Leftover.line])
      · rfl
    rcases (shows.framed refusing unbroken).run_eq whole other with ⟨state, front, read, begins⟩
    let remains := (utterance.left.map Leftover.whole).getD []
    refine ⟨(remains.map lineBytes).flatten ++ front, ?_, ?_⟩
    · rw [Telnet.decode_eq_run, read, shows.sent]
      simp [Utterance.whole, remains]
    · unfold unsent at begins
      cases left : utterance.left with
      | none =>
          rw [left] at begins
          exact .inl (by simp [remains, left, List.prefix_nil.mp begins])
      | some last =>
          refine .inr ⟨shows.failed (by simp [left]), last.line, ?_, ?_⟩
          · have all : utterance.lines = utterance.gone ++ [last.line] := by simp [lines, left]
            rw [shows.sent, ← List.map_singleton, ← List.map_append, ← all]
            exact begun.map lineBytes
          · rw [left] at begins
            cases last with
            | stuck line =>
                simp [remains, left, Leftover.whole, Leftover.line, List.prefix_nil.mp begins]
            | broken line => simpa [remains, left, Leftover.whole, Leftover.line] using begins
  wrote := by
    rw [shows.wroteIn_eq, List.map_map]
    exact (utterance.whole_prefix_lines.trans begun).map (Telnet.encode ∘ lineBytes)
  final := shows.final
  refusing := refusing

end Utterance

namespace Session

/-- If no line of the script has a NUL behind a carriage return, the stream is well framed, however
it takes what is written and wherever it fails, as long as nothing follows an answer that was broken
off. -/
theorem conduct_well_framed [Pace] (session : Session) (plan : Plan) (console : Console)
    (desk : Desk) {events : List Happening}
    (free : ∀ line ∈ plan.script, ¬[carriageReturn, Telnet.nul] <:+: Utf8.encode line)
    (happened :
      (stateAfter (session.conduct plan (.ofConsole .telnet console desk))).happenings =
        desk.journal.happenings ++ events)
    (unbroken : events.Pairwise fun earlier later =>
      earlier.breaksAnswer → later.written? = none) :
    WellFramed plan.script events := by
  rcases session.conduct_says plan console desk with ⟨same, said, grown, shows, begun, refusing⟩
  obtain rfl : events = same := List.append_cancel_left (happened.symm.trans grown)
  exact shows.wellFramed begun refusing free unbroken

def chat [Pace] (plan : Plan) (console : Console) : List Happening :=
  (stateAfter ((usual Window.defaultDepth).conduct plan
    (.ofConsole .telnet console (.start .none .none)))).happenings

/-- A console that asks for options between the lines, with cuts within its requests and with IAC
for an option, and whose stream breaks when it takes the second line. -/
def negotiating : Console :=
  { Console.silent with
    queue := [.data [Telnet.iac, Telnet.doIt], .data [1, Telnet.iac, Telnet.will, Telnet.iac]]
    answers :=
      [[.data (Utf8.encode "RedBoot> "), .data [Telnet.iac, Telnet.will], .pause 10, .data [3]]]
    writes := ⟨[(3, ⟨.other, "broken pipe"⟩)], 0⟩ }

/-- A stream that takes the first answer in three parts and stalls within the second line. -/
abbrev halting : Pace where
  stalls
    | 1 => [⟨2, 5⟩, ⟨3, 5⟩]
    | 3 => [⟨4, 20⟩]
    | _ => []

theorem conduct_well_framed_negotiating :
    letI : Pace := halting
    let happened := chat breaking negotiating
    (∀ line ∈ breaking.script, ¬[carriageReturn, Telnet.nul] <:+: Utf8.encode line) ∧
      (happened.Pairwise fun earlier later => earlier.breaksAnswer → later.written? = none) ∧
      writtenIn happened =
        [[3, 0x0D, 0x0A], [255, 252, 1, 255, 254, 255], [255, 254, 3], Utf8.encode "fis "] ∧
      WellFramed breaking.script happened := by
  let pace : Pace := halting
  intro happened
  have free : ∀ line ∈ breaking.script,
      ¬[carriageReturn, Telnet.nul] <:+: Utf8.encode line := by decide +kernel
  have unbroken : happened.Pairwise fun earlier later =>
      earlier.breaksAnswer → later.written? = none := by decide +kernel
  exact ⟨free, unbroken, by decide +kernel,
    conduct_well_framed (usual Window.defaultDepth) breaking negotiating (.start .none .none)
      free (List.nil_append happened).symm unbroken⟩

/-- A peer that reads the stream finds just the lines that went out, and nothing to answer. -/
def IsReadAsSent (events : List Happening) : Prop :=
  (Telnet.decode .text (writtenIn events).flatten).2 = .ofText (sentIn events).flatten

def listing : Plan :=
  ⟨.flash .manual, false, Bootloader.prompt, [.atPrompt Bootloader.listDirectory]⟩

/-- A stream that takes a line and fails to pass it on. -/
def unflushed : Console :=
  { Console.silent with flushes := ⟨[(0, ⟨.other, "broken pipe"⟩)], 0⟩ }

/-- The peer may read a line, or a part of one, that counts as not sent. -/
theorem chat_not_read_as_sent :
    (∀ line ∈ listing.script ++ breaking.script,
      ¬[carriageReturn, Telnet.nul] <:+: Utf8.encode line) ∧
      ¬IsReadAsSent (chat listing unflushed) ∧
      ¬IsReadAsSent (@chat halting breaking negotiating) := by
  refine ⟨by decide +kernel, ?_⟩
  simp only [IsReadAsSent, Telnet.decode_eq_run]
  decide +kernel

/-- The settle period ends within an answer, and the next line is taken for the rest of it. -/
example :
    let happened := @chat ⟨fun number => if number = 1 then [⟨2, 1000⟩] else []⟩ breaking
      { Console.silent with
        answers := [[.data (Utf8.encode "RedBoot> "), .data [Telnet.iac, Telnet.doIt, 1]]] }
    sentIn happened = [[3, 0x0A], Utf8.encode "fis list\n"] ∧
      Telnet.run .text (writtenIn happened).flatten =
        (.text, .ofText (Utf8.encode "\x03\nis list\n")) := by
  decide +kernel

end Session

end BootConsole
