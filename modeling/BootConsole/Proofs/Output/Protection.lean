import BootConsole.Proofs.Output.Echo
import BootConsole.Proofs.Output.FirstSeen
import BootConsole.Proofs.Terminal.Controls
import Mathlib.Data.List.Forall2

/-!
# The operator's terminal is protected

Nothing is shown that was not heard, and nothing else is looked through or reported; and whatever a
console sends, what is heard of it is tame. So no escape sequence reaches the operator's terminal,
the windows that are searched, or a response.
-/

namespace BootConsole

open Terminal (IsTame FreeOfControls)

/-! ## What is shown -/

variable {events earlier later : List Happening}

def ShowsHeard (events : List Happening) : Prop :=
  ∀ data, .shown data ∈ events → data ∈ heardIn events

theorem ShowsHeard.append (before : ShowsHeard earlier) (behind : ShowsHeard later) :
    ShowsHeard (earlier ++ later) := by
  intro data member
  rw [heardIn_append, List.mem_append]
  exact (List.mem_append.mp member).imp (before data) (behind data)

theorem showsHeard_of_unshown (unshown : ∀ data, .shown data ∉ events) : ShowsHeard events :=
  fun data member => absurd member (unshown data)

theorem Reading.unshown {outcome : Except Failure (Option Bytes)}
    (reads : Reading .heard events outcome) (data : Bytes) : .shown data ∉ events := by
  induction reads with
  | @goingBy event rest _ goesBy _ induction =>
      intro member
      rcases List.mem_cons.mp member with same | member
      · subst same
        cases goesBy
      · exact induction member
  | text | silence | hungUp | failed | unanswered => simp

theorem Showing.eq_of_shown {text data : Bytes} {outcome : Except Failure Unit}
    (shows : Showing text events outcome) (member : .shown data ∈ events) : data = text := by
  cases shows with
  | refused => simp at member
  | shown | stuck => simpa using member

theorem showsHeard_of_showing {chunk : Bytes} {outcome : Except Failure Unit}
    (reads : Reading .heard earlier (.ok (some chunk))) (shows : Showing chunk later outcome) :
    ShowsHeard (earlier ++ later) := by
  intro data member
  rcases List.mem_append.mp member with member | member
  · exact absurd member (reads.unshown data)
  · rw [heardIn_append, reads.flows_of_text.2, shows.eq_of_shown member]
    exact List.mem_append_left _ List.mem_cons_self

theorem Relaying.showsHeard {outcome : Except Failure (Option Bytes)}
    (relays : Relaying events outcome) : ShowsHeard events := by
  cases relays with
  | shown reads => exact showsHeard_of_showing reads .shown
  | silence reads | unread reads => exact showsHeard_of_unshown reads.unshown
  | unshown reads shows => exact showsHeard_of_showing reads shows

namespace Connection

variable {before between after connection : Connection}

def Mirrors (before after : Connection) : Prop :=
  ∃ events, after.happenings = before.happenings ++ events ∧ ShowsHeard events

namespace Mirrors

theorem refl (connection : Connection) : Mirrors connection connection :=
  ⟨[], (List.append_nil _).symm, nofun⟩

theorem trans (begins : Mirrors before between) (goesOn : Mirrors between after) :
    Mirrors before after := by
  rcases begins with ⟨earlier, happened, first⟩
  rcases goesOn with ⟨later, further, second⟩
  exact ⟨earlier ++ later, by rw [further, happened, List.append_assoc], first.append second⟩

theorem of_follows {α : Type} {course : Course α}
    {result : EStateM.Result Failure Connection α} (follows : connection.Follows course result)
    (shows : ∀ events outcome, course events outcome → ShowsHeard events) :
    Mirrors connection (stateAfter result) := by
  rcases follows with ⟨events, leads, taken⟩
  exact ⟨events, leads.happenings, shows events _ taken⟩

end Mirrors

theorem lasting_mirrors [Pace] (deadline : Nat) : Lasting deadline Mirrors where
  refl := .refl
  trans := .trans
  say line connection := .of_follows (follows_say line connection) fun _ _ sends =>
    showsHeard_of_unshown fun data => by cases sends <;> simp
  note level text connection := .of_follows (follows_note level text connection)
    fun _ _ noted => showsHeard_of_unshown fun data member => by cases noted.1 _ member
  relay limit _ connection := by
    cases heard : hear limit connection with
    | error failure after =>
        rw [relay_of_error heard]
        rcases Session.relays_unread heard with ⟨events, leads, relays⟩
        exact ⟨events, leads.happenings, relays.showsHeard⟩
    | ok found after =>
        cases found with
        | none =>
            rw [relay_of_silence heard]
            rcases Session.relays_silence heard with ⟨events, leads, relays⟩
            exact ⟨events, leads.happenings, relays.showsHeard⟩
        | some chunk =>
            rw [relay_of_text heard]
            cases echoed : echo chunk after with
            | ok _ last =>
                rcases Session.relays_shown heard echoed with ⟨events, leads, relays⟩
                exact ⟨events, leads.happenings, relays.showsHeard⟩
            | error failure last =>
                rcases Session.relays_unshown heard echoed with ⟨events, leads, relays, _⟩
                exact ⟨events, leads.happenings, relays.showsHeard⟩

end Connection

/-! ## What is looked through and reported -/

structure Protected (events : List Happening) : Prop where
  heard : ∀ chunk ∈ heardIn events, IsTame chunk
  shown : ∀ data, .shown data ∈ events → IsTame data
  windows : ∀ depth markers chunks, (∀ chunk ∈ chunks, chunk ∈ heardIn events) →
    FreeOfControls ((Watch.start depth markers).takeAll chunks).window.bytes

structure Response.IsTame (response : Response) : Prop where
  output : FreeOfControls (Utf8.encode response.output)
  prompt : FreeOfControls (Utf8.encode response.prompt)
  failure : ∀ marker, response.failure = some marker → FreeOfControls (Utf8.encode marker)

theorem freeOfControls_window (depth : Nat) (markers : List String) {chunks : List Bytes}
    (tame : ∀ chunk ∈ chunks, IsTame chunk) :
    FreeOfControls ((Watch.start depth markers).takeAll chunks).window.bytes := by
  have keeps := Watch.keeps_takeAll (Watch.keeps_start depth markers) chunks
  rw [keeps.bytes, List.nil_append]
  have free := Terminal.freeOfControls_flatten fun chunk member => (tame chunk member).free
  exact free.subset (List.drop_subset _ _)

theorem protected_of_echoes {before after : Connection} (sound : Terminal.Sound before.filter)
    (echoes : before.Echoes after) (mirrors : before.Mirrors after) :
    ∃ events, after.happenings = before.happenings ++ events ∧ Protected events := by
  rcases echoes with ⟨events, echoed⟩
  rcases mirrors with ⟨others, happened, shows⟩
  have same : others = events :=
    List.append_cancel_left (happened.symm.trans echoed.happenings)
  subst same
  have heard : ∀ chunk ∈ heardIn others, IsTame chunk := by
    intro chunk member
    rw [echoed.heard] at member
    exact Terminal.isTame_plainTexts sound _ chunk (List.mem_of_mem_filter member)
  refine ⟨others, happened, heard, fun data member => heard data (shows data member), ?_⟩
  exact fun depth markers chunks among =>
    freeOfControls_window depth markers fun chunk member => heard chunk (among chunk member)

theorem sound_of_echoes {before after : Connection} (sound : Terminal.Sound before.filter)
    (echoes : before.Echoes after) : Terminal.Sound after.filter := by
  rcases echoes with ⟨events, echoed⟩
  rw [echoed.filter]
  exact Terminal.sound_plainTexts sound _

/-- As text, bytes have the controls that they have as bytes. -/
theorem freeOfControls_of_characters {bytes : Bytes} {text : String} (free : FreeOfControls bytes)
    (among : ∀ character ∈ text.toList, character ∈ Utf8.characters bytes) :
    FreeOfControls (Utf8.encode text) := by
  intro byte member low
  have narrow : byte.toNat < 0x20 := UInt8.lt_iff_toNat_lt.mp low
  rw [Utf8.mem_encode_iff (by omega)] at member
  exact free byte ((Utf8.mem_characters_iff (by omega) bytes).mp (among _ member)) low

theorem mem_of_mem_trim {character : Char} {characters : List Char}
    (member : character ∈ Text.trim characters) : character ∈ characters := by
  rw [Text.trim, List.mem_reverse] at member
  have inner := (List.dropWhile_suffix _).subset member
  rw [List.mem_reverse] at inner
  exact (List.dropWhile_suffix _).subset inner

theorem freeOfControls_marker {marker : String} (member : marker ∈ Bootloader.failureMarkers) :
    FreeOfControls (Utf8.encode marker) := by
  unfold FreeOfControls
  revert marker
  decide +kernel

namespace Session

open Connection

variable {session : Session} {step : Step} {response : Response} {connection : Connection}

theorem prompt_of_stepping (steps : session.stepping step events (.ok response))
    (tame : ∀ chunk ∈ heardIn events, IsTame chunk) :
    FreeOfControls (Utf8.encode response.prompt) := by
  have reports := reports_of_stepping steps
  cases closed : response.closed with
  | true =>
      rw [(reports.hungUp closed).1]
      exact Terminal.freeOfControls_nil
  | false =>
      rcases reports.ended closed with ⟨front, line, wait, notes, rfl, _, ends, _⟩
      rcases ends.found with ⟨span, _, prompt⟩
      have part : heardIn (.sent (lineBytes line) :: (wait ++ notes)) =
          heardIn wait ++ heardIn notes := heardIn_append wait notes
      rw [heardIn_append, part] at tame
      have free := Terminal.freeOfControls_flatten fun chunk member =>
        (tame chunk (List.mem_append_right _ (List.mem_append_left _ member))).free
      have sliced : FreeOfControls (span.slice ((heardIn wait).flatten.rtake session.depth)) :=
        free.subset fun _ member =>
          List.mem_of_mem_drop (List.mem_of_mem_drop (List.mem_of_mem_take member))
      rw [prompt, promptText]
      refine freeOfControls_of_characters sliced fun character member => ?_
      rw [String.toList_ofList] at member
      exact mem_of_mem_trim member

theorem isTame_of_stepping (steps : session.stepping step events (.ok response))
    (tame : ∀ chunk ∈ heardIn events, IsTame chunk) : response.IsTame := by
  have prompt := prompt_of_stepping steps tame
  rcases watched_of_stepping steps with ⟨_, ending, rfl⟩
  refine ⟨?_, prompt, fun marker reported => ?_⟩
  · have held := freeOfControls_window session.depth Bootloader.failureMarkers tame
    refine freeOfControls_of_characters held fun character member => ?_
    rwa [Session.response, Utf8.lossy, String.toList_ofList] at member
  · have seen := Watch.firstSeen_takeAll session.depth (heardIn events)
    have noticed : ((Watch.start session.depth Bootloader.failureMarkers).takeAll
        (heardIn events)).failure = some marker := reported
    rw [noticed] at seen
    exact freeOfControls_marker seen.stands.1

theorem isTame_of_tells {responses : List Response} {parts : List (List Happening)}
    (tell : List.Forall₂ session.Tells responses parts)
    (tame : ∀ chunk ∈ heardIn parts.flatten, IsTame chunk) :
    ∀ response ∈ responses, response.IsTame := by
  induction tell with
  | nil => nofun
  | @cons response part others rest tells _ induction =>
      rw [List.flatten_cons, heardIn_append, List.forall_mem_append] at tame
      refine List.forall_mem_cons.mpr ⟨?_, induction tame.2⟩
      rcases tells with ⟨step, front, own, back, rfl, _, _, steps⟩
      rw [heardIn_append, heardIn_append, List.forall_mem_append, List.forall_mem_append] at tame
      exact isTame_of_stepping steps tame.1.1.2

theorem mirrors_notice : Throughout Mirrors noticeHangUp :=
  fun connection => Mirrors.of_follows (follows_noticeHangUp connection) fun _ _ done => done.1 ▸ nofun

theorem mirrors_close : Throughout Mirrors close :=
  throughout_close Mirrors.refl fun connection =>
    ⟨[.closed], happenings_last connection, by simp [ShowsHeard]⟩

theorem isTame_of_run [Pace] {after : Connection} (sound : Terminal.Sound connection.filter)
    (ran : session.run step connection = .ok response after) : response.IsTame := by
  rcases follows_run session step (isOpen_of_run ran) with ⟨events, leads, steps⟩
  have echoes := session.echoes_run step connection
  have mirrors := ((lasting_mirrors session.deadline).inherited mirrors_notice).run step connection
  rcases protected_of_echoes sound echoes mirrors with ⟨others, happened, protects⟩
  have same : others = events :=
    List.append_cancel_left (happened.symm.trans leads.happenings)
  subst same
  rw [ran] at steps
  exact isTame_of_stepping steps protects.heard

/-- Whatever the console sends, in whatever chunks: each of them comes out of the filter tame, and
however a session is used and whatever plan is carried out, so is all that is shown, looked through
and reported. -/
theorem protects_terminal [Pace] (session : Session) (wire : Wire) (console : Console)
    (desk : Desk) :
    let start := Connection.ofConsole wire console desk
    (∀ chunks, ∀ text ∈ (Terminal.plainTexts .start chunks).2, IsTame text) ∧
    (∀ operations,
      let reached := session.resumeAll operations start
      (∃ events, reached.happenings = start.happenings ++ events ∧ Protected events) ∧
      ∀ step response, outcome (session.run step reached) = .ok response → response.IsTame) ∧
    ∀ plan,
      let result := session.conduct plan start
      (∃ events, (stateAfter result).happenings = start.happenings ++ events ∧
        Protected events) ∧
      ∀ responses, outcome result = .ok responses → ∀ response ∈ responses, response.IsTame := by
  intro start
  have sound : Terminal.Sound start.filter := Terminal.sound_start
  refine ⟨fun chunks => Terminal.isTame_plainTexts sound chunks, fun operations => ?_,
    fun plan => ?_⟩
  · have echoes : start.Echoes (session.resumeAll operations start) :=
      lasting_resumeAll (lasting_echoes _) (fun _ => .still rfl rfl) echoes_close operations
    have mirrors : start.Mirrors (session.resumeAll operations start) :=
      lasting_resumeAll (lasting_mirrors _) mirrors_notice mirrors_close operations
    refine ⟨protected_of_echoes sound echoes mirrors, fun step response completed => ?_⟩
    exact isTame_of_run (sound_of_echoes sound echoes) (eq_ok_of_outcome completed)
  · have echoes := session.echoes_conduct plan start
    have mirrors := (lasting_mirrors session.deadline).conduct mirrors_notice mirrors_close plan start
    rcases protected_of_echoes sound echoes mirrors with ⟨events, happened, protects⟩
    refine ⟨⟨events, happened, protects⟩, fun responses succeeded => ?_⟩
    rcases carries_of_conduct (show start.isOpen = true from rfl) succeeded with
      ⟨opening, stepping, whole, carries⟩
    have same : opening ++ stepping ++ [.closed] = events :=
      List.append_cancel_left (whole.symm.trans happened)
    subst same
    rcases parts_of_carrying carries with ⟨parts, rfl, tell⟩
    refine isTame_of_tells tell fun chunk member => protects.heard chunk ?_
    rw [heardIn_append, heardIn_append]
    exact List.mem_append_left _ (List.mem_append_right _ member)

/-- A console that colours its prompt, and answers the next line with a character that is cut off by
a window title, which is cut as well. -/
def colourful : Console :=
  { Console.silent with
    answers :=
      [[.data (Utf8.encode "\x1b[31mRedBoot> \x1b[0m")],
        [.data [0xE2, 0x82], .data (Utf8.encode "\x1b]0;"),
          .data (Utf8.encode "title\x07\x01list\nRedBoot> ")]] }

theorem protects_terminal_from_colours :
    let session := usual Window.defaultDepth
    let start := Connection.ofConsole .text colourful (.start .none .none)
    let result := session.conduct breaking start
    ∃ responses events,
      outcome result = .ok responses ∧
      responses.map Response.output = ["\uFFFDlist\nRedBoot> "] ∧
      (stateAfter result).happenings = start.happenings ++ events ∧
      (∃ chunk ∈ receivedIn events, Terminal.escapeByte ∈ chunk) ∧
      Protected events ∧ ∀ response ∈ responses, response.IsTame := by
  intro session start result
  have came : outcome result =
        .ok [⟨"fis list", "\uFFFDlist\nRedBoot> ", "RedBoot>", none, false⟩] ∧
      ∃ chunk ∈ receivedIn (stateAfter result).happenings, Terminal.escapeByte ∈ chunk := by
    decide +kernel
  rcases protects_terminal session .text colourful (.start .none .none) with ⟨_, _, conducted⟩
  rcases conducted breaking with ⟨⟨events, happened, protects⟩, tame⟩
  have escapes := came.2
  rw [show (stateAfter result).happenings = events from happened] at escapes
  exact ⟨_, events, came.1, rfl, happened, escapes, protects, tame _ came.1⟩

end Session

end BootConsole
