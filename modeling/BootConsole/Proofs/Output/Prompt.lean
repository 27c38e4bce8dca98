import BootConsole.Proofs.Conversation.Flow
import BootConsole.Proofs.Pattern.LineWord

/-!
# What is taken for the prompt

A wait searches the end of what has come since it began. The prompt that it finds stands at the
start of a line, but for one case: to the search a line starts where the searched part does, and
that may be anywhere in a line.
-/

namespace BootConsole

open Pattern.Program

def promptWord : Bytes :=
  Utf8.encode "RedBoot>"

theorem prompt_program : Bootloader.prompt.program = lineWord promptWord := by
  decide +kernel

theorem promptWord_ne_nil : promptWord ≠ [] := by
  decide +kernel

theorem lineFeed_not_mem_promptWord : lineFeed ∉ promptWord := by
  decide +kernel

/-- The first place from `edge` on where the word starts a line, if one counts as started at the
edge. -/
structure FoundFrom (word text : Bytes) (edge place : Nat) : Prop where
  behind : edge ≤ place
  stands : StandsAt word text place
  starts : place = edge ∨ AtLineStart text place
  first : ∀ earlier, edge ≤ earlier → earlier < place → StandsAt word text earlier →
    ¬(earlier = edge ∨ AtLineStart text earlier)

variable {word text : Bytes} {edge place : Nat}

theorem atLineStart_drop_iff :
    AtLineStart (text.drop edge) place ↔ edge + place = edge ∨ AtLineStart text (edge + place) := by
  rcases Nat.eq_zero_or_pos place with rfl | inside
  · exact iff_of_true (.inl rfl) (.inl rfl)
  · rw [atLineStart_drop inside, or_iff_right (by omega)]

theorem foundFrom_of_leftmost {span : Pattern.Span}
    (leftmost : Leftmost word (text.drop edge) (some span)) :
    FoundFrom word text edge (edge + span.start) := by
  rcases leftmost with ⟨_, ⟨stands, starts⟩, first⟩
  refine ⟨by omega, standsAt_drop.mp stands, atLineStart_drop_iff.mp starts, ?_⟩
  intro earlier behind before standsEarlier startsEarlier
  have shifted : edge + (earlier - edge) = earlier := by omega
  refine first (earlier - edge) (by omega) ⟨standsAt_drop.mpr ?_, atLineStart_drop_iff.mpr ?_⟩
  · rwa [shifted]
  · rwa [shifted]

/-- What is found starts a line of the text unless it stands at the edge, within a line. -/
theorem FoundFrom.atLineStart_iff (found : FoundFrom word text edge place) :
    AtLineStart text place ↔ (StandsAt word text edge → AtLineStart text edge) := by
  constructor
  · intro starts standsAtEdge
    rcases Nat.lt_or_eq_of_le found.behind with before | rfl
    -- The search would have stopped at the edge.
    · exact absurd (.inl rfl) (found.first edge (Nat.le_refl edge) before standsAtEdge)
    · exact starts
  · intro edgeStarts
    rcases found.starts with rfl | starts
    · exact edgeStarts found.stands
    · exact starts

theorem slice_of_leftmost {span : Pattern.Span} (leftmost : Leftmost word text (some span)) :
    span.slice text = word := by
  rcases leftmost with ⟨stop, ⟨stands, _⟩, _⟩
  rw [Pattern.Span.slice, stop, Nat.add_sub_cancel_left]
  exact (List.prefix_iff_eq_take.mp stands).symm

/-- A match for the prompt, by the part of the text in which it was found. -/
theorem foundFrom_of_match {watch : Watch} {bytes : Bytes}
    (searched : watch.window.searched = text.drop edge)
    (matched : watch.match? Bootloader.prompt = some bytes) :
    bytes = promptWord ∧ ∃ place, FoundFrom promptWord text edge place := by
  have leftmost := search_lineWord promptWord_ne_nil lineFeed_not_mem_promptWord (text.drop edge)
  rw [Watch.match?, searched, Pattern.find?, prompt_program] at matched
  cases found : (lineWord promptWord).search (text.drop edge) with
  | none =>
      rw [found] at matched
      cases matched
  | some span =>
      rw [found] at matched leftmost
      cases matched
      exact ⟨slice_of_leftmost leftmost, _, foundFrom_of_leftmost leftmost⟩

namespace Session

/-- A step begins a wait with this watch, after this output of its own. -/
inductive Watching [Pace] (session : Session) : Bytes → Watch → Prop
  | first : Watching session [] (.start session.depth Bootloader.failureMarkers)
  | answered {question : Pattern} {connection after : Connection} {events : List Happening}
      {bytes : Bytes} {watch : Watch} :
      session.await question (.start session.depth Bootloader.failureMarkers) connection =
        .ok (.matched bytes, watch) after →
      after.happenings = connection.happenings ++ events →
      Watching session (shownIn events) watch.turn

variable {session : Session} {connection after : Connection} {watch seen : Watch}

theorem relayed_of_await [Pace] {pattern : Pattern} {ended : WaitEnd}
    (waited : session.await pattern watch connection = .ok (ended, seen) after) :
    ∃ events, after.happenings = connection.happenings ++ events ∧
      Awaiting pattern watch events (.ok (ended, seen)) := by
  rcases follows_await session pattern watch connection with ⟨events, leads, awaits⟩
  rw [waited] at leads awaits
  exact ⟨events, leads.happenings, awaits⟩

theorem Watching.keeps [Pace] {output : Bytes} (watching : session.Watching output watch) :
    watch.window.depth = session.depth ∧ watch.window.Keeps output [] := by
  cases watching with
  | first => exact ⟨rfl, .ofDepth session.depth⟩
  | @answered _ _ _ events _ _ waited grown =>
      rcases relayed_of_await waited with ⟨others, happened, awaits⟩
      have same : events = others := List.append_cancel_left (grown.symm.trans happened)
      subst same
      rcases awaits.relayed with ⟨rfl, shown⟩
      have kept := Watch.keeps_takeAll
        (Watch.keeps_start session.depth Bootloader.failureMarkers) (heardIn events)
      rw [shown]
      exact ⟨Watch.depth_takeAll _ _, by simpa using kept.hide⟩

/-- Wherever a wait of a step finds the prompt, with all that was shown in the step as the text: it
is the first line that starts with it in the searched end of the text, and a line of the text does
start there unless the searched end itself starts with the prompt, within a line. -/
theorem prompt_place [Pace] {output bytes : Bytes} (watching : session.Watching output watch)
    (found : session.await Bootloader.prompt watch connection = .ok (.matched bytes, seen) after) :
    ∃ events place, after.happenings = connection.happenings ++ events ∧ bytes = promptWord ∧
      let text := output ++ shownIn events
      let edge := text.length - min session.depth (shownIn events).length
      FoundFrom promptWord text edge place ∧
        (AtLineStart text place ↔ (StandsAt promptWord text edge → AtLineStart text edge)) := by
  rcases relayed_of_await found with ⟨events, happened, awaits⟩
  rcases awaits.relayed with ⟨rfl, shown⟩
  rcases watching.keeps with ⟨depth, keeps⟩
  have searched : (watch.takeAll (heardIn events)).window.searched =
      (output ++ shownIn events).drop
        ((output ++ shownIn events).length - min session.depth (shownIn events).length) := by
    rw [(Watch.keeps_takeAll keeps _).searched, Watch.depth_takeAll, depth, List.nil_append,
      ← shown]
    exact Window.rtake_eq_drop _ _ _
  rcases foundFrom_of_match searched awaits.found.2.2 with ⟨rfl, place, foundFrom⟩
  exact ⟨events, place, happened, rfl, foundFrom, foundFrom.atLineStart_iff⟩

theorem prompt_place_after_echo :
    ∃ bytes seen after events place,
      (usual Window.defaultDepth).await Bootloader.prompt
          (.start Window.defaultDepth Bootloader.failureMarkers)
          (saying [Utf8.encode "fis", Utf8.encode " list\nRedBoot>"]) =
        .ok (.matched bytes, seen) after ∧
      after.happenings = [] ++ events ∧ bytes = promptWord ∧
      let text := [] ++ shownIn events
      let edge := text.length - min Window.defaultDepth (shownIn events).length
      FoundFrom promptWord text edge place ∧
        (AtLineStart text place ↔ (StandsAt promptWord text edge → AtLineStart text edge)) := by
  have matched :
      (outcome ((usual Window.defaultDepth).await Bootloader.prompt
        (.start Window.defaultDepth Bootloader.failureMarkers)
        (saying [Utf8.encode "fis", Utf8.encode " list\nRedBoot>"]))).toOption.map Prod.fst =
      some (.matched promptWord) := by
    decide +kernel
  cases found : (usual Window.defaultDepth).await Bootloader.prompt
      (.start Window.defaultDepth Bootloader.failureMarkers)
      (saying [Utf8.encode "fis", Utf8.encode " list\nRedBoot>"]) with
  | error failure after =>
      rw [found] at matched
      cases matched
  | ok ended after =>
      rcases ended with ⟨ended, seen⟩
      rw [found] at matched
      cases matched
      have watching : (usual Window.defaultDepth).Watching []
          (.start Window.defaultDepth Bootloader.failureMarkers) := .first
      rcases prompt_place watching found with ⟨events, place, happened, equal, foundFrom⟩
      exact ⟨promptWord, seen, after, events, place, rfl, happened, equal, foundFrom⟩

/-- The words of the prompt within a line, and dots up to where a window begins with the words. -/
def midLine : Bytes :=
  Utf8.encode "echo RedBoot>" ++ List.replicate 992 0x2E

/-- The step ends, although no line of its output starts with the prompt. -/
theorem run_takes_echo_for_prompt :
    ∃ response after,
      (usual Window.defaultDepth).run (.atPrompt "fis list") (answering [midLine]) =
        .ok response after ∧
      response.closed = false ∧
      ∀ place, ¬StartsLine promptWord (shownIn after.happenings) place := by
  have completes :
      (outcome ((usual Window.defaultDepth).reachEnd (.atPrompt "fis list")
        (answering [midLine]))).toOption.map (fun ended => ended.1.isSome) = some true ∧
      shownIn (stateAfter ((usual Window.defaultDepth).reachEnd (.atPrompt "fis list")
        (answering [midLine]))).happenings = midLine := by
    decide +kernel
  have begins : ¬StandsAt promptWord midLine 0 := by
    decide +kernel
  have oneLine : lineFeed ∉ midLine := by
    decide +kernel
  cases ended : (usual Window.defaultDepth).reachEnd (.atPrompt "fis list")
      (answering [midLine]) with
  | error failure second =>
      rw [ended] at completes
      cases completes.1
  | ok found second =>
      rw [ended] at completes
      rcases completes with ⟨ends, shown⟩
      have some : found.1.isSome = true := Option.some.inj ends
      rcases run_of_reachEnd rfl rfl ended with ⟨notes, after, ran, grown, noted⟩
      refine ⟨_, after, ran, ?_, ?_⟩
      · simpa [response] using some
      · intro place starts
        rw [stateAfter_ok] at shown
        rw [grown, shownIn_append, (nothing_of_notes noted).2, List.append_nil, shown] at starts
        rcases starts with ⟨stands, rfl | fed⟩
        · exact begins stands
        · exact oneLine (List.mem_of_getElem? fed)

end Session

end BootConsole
