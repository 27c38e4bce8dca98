import BootConsole.Proofs.Conversation.Flow
import BootConsole.Proofs.Text.AsciiWords
import BootConsole.Proofs.Text.Places

/-!
# Which failures are noticed

A marker is looked for when a chunk has arrived, in what the window holds then. So it is noticed if
some chunk ends behind it and near enough; a chunk that brings more than a window after a marker
takes it along unseen.
-/

namespace BootConsole

variable {session : Session} {step : Step} {events : List Happening}

def Markers (markers : List String) : Prop :=
  ∀ marker ∈ markers, marker.toList ≠ [] ∧ Utf8.IsAscii marker.toList

theorem markers_of_bootloader : Markers Bootloader.failureMarkers := by
  unfold Markers
  decide +kernel

theorem encode_ne_nil_of_marker {marker : String} (member : marker ∈ Bootloader.failureMarkers) :
    Utf8.encode marker ≠ [] := by
  rcases markers_of_bootloader marker member with ⟨some, ascii⟩
  rw [Utf8.encode_ascii ascii]
  simpa [Utf8.asciiBytes] using some

/-- A marker stands in the text of bytes if its own bytes stand in them. -/
theorem Markers.occursIn_lossy_iff {markers : List String} (plain : Markers markers)
    {marker : String} (member : marker ∈ markers) (bytes : Bytes) :
    occursIn marker.toList (Utf8.lossy bytes).toList = true ↔ Utf8.encode marker <:+: bytes := by
  rcases plain marker member with ⟨some, ascii⟩
  rw [occursIn_iff, Utf8.lossy, String.toList_ofList, Utf8.infix_characters_iff some ascii,
    Utf8.encode_ascii ascii]

theorem earliestMarker_isSome_iff {markers : List String} (plain : Markers markers)
    (bytes : Bytes) :
    (earliestMarker (Utf8.lossy bytes) markers).isSome = true ↔
      ∃ marker ∈ markers, Utf8.encode marker <:+: bytes := by
  rw [earliestMarker, List.find?_isSome]
  exact exists_congr fun marker => and_congr_right fun member =>
    plain.occursIn_lossy_iff member bytes

namespace Watch

variable {watch : Watch} {history recent : Bytes}

@[simp] theorem depth_start (depth : Nat) (markers : List String) :
    (start depth markers).window.depth = depth := rfl

theorem depth_take (watch : Watch) (chunk : Bytes) :
    (watch.take chunk).window.depth = watch.window.depth := rfl

theorem failure_take (watch : Watch) (chunk : Bytes) :
    (watch.take chunk).failure = watch.failure.or
      (earliestMarker (Utf8.lossy (watch.window.append chunk).bytes) watch.markers) := by
  cases seen : watch.failure <;> simp [take, seen]

theorem failure_take_isSome_iff (plain : Markers watch.markers)
    (keeps : watch.window.Keeps history recent) (chunk : Bytes) :
    (watch.take chunk).failure.isSome = true ↔
      watch.failure.isSome = true ∨
        ∃ marker ∈ watch.markers,
          Utf8.encode marker <:+: (history ++ chunk).rtake watch.window.depth := by
  have held : (watch.window.append chunk).bytes = (history ++ chunk).rtake watch.window.depth :=
    (keeps.append chunk).bytes
  rw [← held, ← earliestMarker_isSome_iff plain, ← Bool.or_eq_true, ← Option.isSome_or,
    failure_take]

/-- A failure is noticed at the end of a chunk, in what the window reaches from there. -/
theorem failure_takeAll_isSome_iff (plain : Markers watch.markers)
    (keeps : watch.window.Keeps history recent) (chunks : List Bytes) :
    (watch.takeAll chunks).failure.isSome = true ↔
      watch.failure.isSome = true ∨
        ∃ marker ∈ watch.markers, ∃ count < chunks.length,
          Utf8.encode marker <:+:
            (history ++ (chunks.take (count + 1)).flatten).rtake watch.window.depth := by
  induction chunks generalizing watch history recent with
  | nil => simp
  | cons chunk rest induction =>
      have later : Markers (watch.take chunk).markers := plain
      rw [takeAll_cons, induction later (keeps_take keeps chunk),
        failure_take_isSome_iff plain keeps, or_assoc]
      refine or_congr_right ⟨?_, ?_⟩
      · intro found
        rcases found with ⟨marker, member, stands⟩ | ⟨marker, member, count, inside, stands⟩
        · exact ⟨marker, member, 0, by simp, by simpa using stands⟩
        · refine ⟨marker, member, count + 1, by simpa using inside, ?_⟩
          simpa only [List.take_succ_cons, List.flatten_cons, List.append_assoc, depth_take]
            using stands
      · intro found
        rcases found with ⟨marker, member, count, inside, stands⟩
        cases count with
        | zero => exact .inl ⟨marker, member, by simpa using stands⟩
        | succ count =>
            refine .inr ⟨marker, member, count, by simpa using inside, ?_⟩
            simpa only [List.take_succ_cons, List.flatten_cons, List.append_assoc, depth_take]
              using stands

/-- Whatever a mark hides from the search, all else is as if there were none. -/
theorem takeAll_floor (watch : Watch) (floor : Nat) (chunks : List Bytes) :
    ∃ left, { watch with window.floor := floor }.takeAll chunks =
      { watch.takeAll chunks with window.floor := left } := by
  induction chunks generalizing watch floor with
  | nil => exact ⟨floor, rfl⟩
  | cons chunk rest induction => exact induction (watch.take chunk) _

end Watch

namespace Session

/-- In both waits of a step, all that is heard is shown and looked through. -/
theorem watched_of_bringing {ending : Option Bytes} {seen : Watch}
    (brings : session.bringing step events (.ok (ending, seen))) :
    shownIn events = (heardIn events).flatten ∧
      ∃ floor, seen =
        { (Watch.start session.depth Bootloader.failureMarkers).takeAll (heardIn events) with
          window.floor := floor } := by
  unfold bringing at brings
  cases replied : step.reply with
  | none =>
      rw [replied] at brings
      rcases relayed_of_waiting brings with ⟨rfl, shown⟩
      exact ⟨shown, _, rfl⟩
  | some reply =>
      rw [replied] at brings
      rcases Course.parts_of_ok brings with ⟨⟨asked, first⟩, earlier, later, waits, onward, rfl⟩
      rcases relayed_of_waiting waits with ⟨rfl, shown⟩
      cases asked with
      | none =>
          rcases onward with ⟨rfl, equal⟩
          cases equal
          rw [List.append_nil]
          exact ⟨shown, _, rfl⟩
      | some bytes =>
          rcases Course.parts_of_ok onward with ⟨_, sending, waiting, sent, waits, rfl⟩
          rcases relayed_of_waiting waits with ⟨rfl, shownLater⟩
          rcases sent.nothing with ⟨unheard, unshown⟩
          simp only [shownIn_append, heardIn_append, unheard, unshown, shown, shownLater,
            List.nil_append, List.flatten_append, Watch.takeAll_append]
          exact ⟨trivial, Watch.takeAll_floor _ _ _⟩

theorem watched_of_stepping {response : Response}
    (steps : session.stepping step events (.ok response)) :
    shownIn events = (heardIn events).flatten ∧
      ∃ ending, response = Session.response step ending
        ((Watch.start session.depth Bootloader.failureMarkers).takeAll (heardIn events)) := by
  rcases Course.parts_of_ok steps with ⟨_, _, _, ⟨rfl, _⟩, goesOn, rfl⟩
  rcases Course.parts_of_ok goesOn with ⟨_, said, _, sent, waits, rfl⟩
  rcases Course.parts_of_ok waits with ⟨⟨ending, seen⟩, brought, notes, brings, ends, rfl⟩
  rcases ends with ⟨noted, equal⟩
  cases equal
  rcases watched_of_bringing brings with ⟨shown, floor, rfl⟩
  rcases sent.nothing with ⟨unheard, unshown⟩
  rcases nothing_of_notes noted with ⟨nothingHeard, nothingShown⟩
  simp only [List.nil_append, shownIn_append, heardIn_append, unheard, unshown, nothingHeard,
    nothingShown, List.append_nil]
  exact ⟨shown, ending, rfl⟩

end Session

def reached (chunks : List Bytes) (index : Nat) : Nat :=
  (chunks.take (index + 1)).flatten.length

/-- A failure is noticed if a chunk ends behind the marker, less than a window after its start. -/
theorem Watch.noticed_iff (depth : Nat) (chunks : List Bytes) :
    ((Watch.start depth Bootloader.failureMarkers).takeAll chunks).failure.isSome = true ↔
      ∃ marker ∈ Bootloader.failureMarkers, ∃ place,
        StandsAt (Utf8.encode marker) chunks.flatten place ∧
        ∃ index < chunks.length, place + (Utf8.encode marker).length ≤ reached chunks index ∧
          reached chunks index ≤ place + depth := by
  rw [failure_takeAll_isSome_iff markers_of_bootloader
    (keeps_start depth Bootloader.failureMarkers)]
  have unseen : (Watch.start depth Bootloader.failureMarkers).failure = none := rfl
  simp only [unseen, Option.isSome_none, Bool.false_eq_true, false_or, List.nil_append]
  refine exists_congr fun marker => and_congr_right fun member => ?_
  have some := encode_ne_nil_of_marker member
  have split (index : Nat) :
      chunks.flatten = (chunks.take (index + 1)).flatten ++ (chunks.drop (index + 1)).flatten := by
    rw [← List.flatten_append, List.take_append_drop]
  constructor
  · intro found
    rcases found with ⟨index, inside, stands⟩
    rcases infix_rtake_iff.mp stands with ⟨place, stands, near⟩
    rcases (standsAt_append_iff some _).mp stands with ⟨stands, behind⟩
    exact ⟨place, by rw [split index]; exact stands, index, inside, behind, near⟩
  · intro found
    rcases found with ⟨place, stands, index, inside, behind, near⟩
    rw [split index] at stands
    exact ⟨index, inside,
      infix_rtake_iff.mpr ⟨place, (standsAt_append_iff some _).mpr ⟨stands, behind⟩, near⟩⟩

theorem reached_succ {chunks : List Bytes} {index : Nat} (inside : index + 1 < chunks.length) :
    reached chunks (index + 1) = reached chunks index + chunks[index + 1].length := by
  rw [reached, reached, List.take_add_one, List.getElem?_eq_getElem inside, Option.toList_some,
    List.flatten_append, List.length_append, List.flatten_singleton]

/-- If no chunk brings more than a window behind a word, the first chunk to end behind the word ends
in reach of it. -/
theorem exists_reached_of_reached {chunks : List Bytes} {place length depth last : Nat}
    (some : 0 < length) (small : ∀ chunk ∈ chunks, chunk.length + length ≤ depth + 1)
    (inside : last < chunks.length)
    (behind : place + length ≤ reached chunks last) :
    ∃ index < chunks.length, place + length ≤ reached chunks index ∧
      reached chunks index ≤ place + depth := by
  induction last with
  | zero =>
      refine ⟨0, inside, behind, ?_⟩
      have short := small _ (List.getElem_mem inside)
      have first : reached chunks 0 = chunks[0].length := by
        rw [reached, List.take_add_one, List.getElem?_eq_getElem inside]
        simp
      omega
  -- Either an earlier chunk ends behind the word as well, or this one is the first to do so.
  | succ last induction =>
      by_cases earlier : place + length ≤ reached chunks last
      · exact induction (by omega) earlier
      · refine ⟨last + 1, inside, behind, ?_⟩
        have short := small _ (List.getElem_mem inside)
        rw [reached_succ inside]
        omega

theorem exists_reached {chunks : List Bytes} {place length depth : Nat} (some : 0 < length)
    (small : ∀ chunk ∈ chunks, chunk.length + length ≤ depth + 1)
    (bound : place + length ≤ chunks.flatten.length) :
    ∃ index < chunks.length, place + length ≤ reached chunks index ∧
      reached chunks index ≤ place + depth := by
  rcases List.eq_nil_or_concat chunks with rfl | ⟨front, last, rfl⟩
  · rw [List.flatten_nil, List.length_nil] at bound
    omega
  · rw [List.concat_eq_append] at small bound ⊢
    have whole : reached (front ++ [last]) front.length = (front ++ [last]).flatten.length := by
      rw [reached, List.take_of_length_le (by simp)]
    have inside : front.length < (front ++ [last]).length := by simp
    exact exists_reached_of_reached some small inside (whole ▸ bound)

namespace Session

variable {connection after : Connection} {response : Response}

theorem watched_of_run [Pace] (ran : session.run step connection = .ok response after) :
    ∃ events, after.happenings = connection.happenings ++ events ∧
      shownIn events = (heardIn events).flatten ∧
      response.failure =
        ((Watch.start session.depth Bootloader.failureMarkers).takeAll (heardIn events)).failure := by
  rcases follows_run session step (isOpen_of_run ran) with ⟨events, leads, course⟩
  rw [ran] at leads course
  rcases watched_of_stepping course with ⟨shown, _, rfl⟩
  exact ⟨events, leads.happenings, shown, rfl⟩

/-- With chunks that leave a window room for the marker, every failure that is shown is noticed. -/
theorem run_notices_of_small_chunks [Pace]
    (ran : session.run step connection = .ok response after) :
    ∃ events, after.happenings = connection.happenings ++ events ∧
      ∀ marker ∈ Bootloader.failureMarkers, Utf8.encode marker <:+: shownIn events →
        (∀ chunk ∈ heardIn events,
          chunk.length + (Utf8.encode marker).length ≤ session.depth + 1) →
        response.succeeded = false := by
  rcases watched_of_run ran with ⟨events, happened, shown, failure⟩
  refine ⟨events, happened, fun marker member stands small => ?_⟩
  rw [Response.succeeded, Option.isNone_eq_false_iff, failure, Watch.noticed_iff]
  rw [shown] at stands
  rcases infix_iff_standsAt.mp stands with ⟨place, stands⟩
  have bound := stands.bound (encode_ne_nil_of_marker member)
  have some := List.length_pos_iff.mpr (encode_ne_nil_of_marker member)
  exact ⟨marker, member, place, stands, exists_reached some small bound⟩

/-- A step that completes is marked as failed if and only if a marker was shown and some chunk ended
behind it, at most a search depth after its start. -/
theorem run_notices_iff [Pace] (ran : session.run step connection = .ok response after) :
    ∃ events, after.happenings = connection.happenings ++ events ∧
      shownIn events = (heardIn events).flatten ∧
      (response.succeeded = false ↔
        ∃ marker ∈ Bootloader.failureMarkers, ∃ place,
          StandsAt (Utf8.encode marker) (shownIn events) place ∧
          ∃ index < (heardIn events).length,
            place + (Utf8.encode marker).length ≤ reached (heardIn events) index ∧
            reached (heardIn events) index ≤ place + session.depth) := by
  rcases watched_of_run ran with ⟨events, happened, shown, failure⟩
  refine ⟨events, happened, shown, ?_⟩
  rw [shown, ← Watch.noticed_iff, ← failure, Response.succeeded, Option.isNone_eq_false_iff]

theorem run_notices_load_failure :
    ∃ response after events,
      (usual Window.defaultDepth).run (.atPrompt "load image")
          (answering [Utf8.encode "Can't", Utf8.encode " load\nRedBoot>"]) =
        .ok response after ∧
      (response.succeeded = false ↔
        ∃ marker ∈ Bootloader.failureMarkers, ∃ place,
          StandsAt (Utf8.encode marker) (shownIn events) place ∧
          ∃ index < (heardIn events).length,
            place + (Utf8.encode marker).length ≤ reached (heardIn events) index ∧
            reached (heardIn events) index ≤ place + Window.defaultDepth) := by
  have completes : (outcome ((usual Window.defaultDepth).run (.atPrompt "load image")
      (answering [Utf8.encode "Can't", Utf8.encode " load\nRedBoot>"]))).isOk = true := by
    decide +kernel
  cases ran : (usual Window.defaultDepth).run (.atPrompt "load image")
      (answering [Utf8.encode "Can't", Utf8.encode " load\nRedBoot>"]) with
  | error failure after =>
      rw [ran] at completes
      cases completes
  | ok response after =>
      rcases run_notices_iff ran with ⟨events, _, _, noticed⟩
      exact ⟨response, after, events, rfl, noticed⟩

/-- A report of a failure, a window full of dots, and the prompt. -/
def crowded : Bytes :=
  Utf8.encode "** Error" ++ List.replicate 1000 0x2E ++ Utf8.encode "\nRedBoot> "

theorem crowded_unnoticed :
    ((Watch.start Window.defaultDepth Bootloader.failureMarkers).takeAll [crowded]).failure =
      none := by
  have absent : ∀ marker ∈ Bootloader.failureMarkers,
      occursIn (Utf8.encode marker) (crowded.rtake Window.defaultDepth) = false := by
    decide +kernel
  rw [← Option.not_isSome_iff_eq_none,
    Watch.failure_takeAll_isSome_iff markers_of_bootloader
      (Watch.keeps_start Window.defaultDepth Bootloader.failureMarkers)]
  intro found
  rcases found with impossible | ⟨marker, member, count, inside, stands⟩
  · cases impossible
  · have only : count = 0 := by simpa using inside
    rw [only, ← occursIn_iff] at stands
    have missing := absent marker member
    simp [missing] at stands

/-- The operator sees the report, and the step is a success. -/
theorem run_misses_error :
    ∃ response after,
      (usual Window.defaultDepth).run (.atPrompt "fis list") (answering [crowded]) =
        .ok response after ∧
      Utf8.encode "** Error" <:+: shownIn after.happenings ∧
      response.succeeded = true := by
  have completes :
      (outcome ((usual Window.defaultDepth).reachEnd (.atPrompt "fis list")
        (answering [crowded]))).isOk = true ∧
      heardIn (stateAfter ((usual Window.defaultDepth).reachEnd (.atPrompt "fis list")
        (answering [crowded]))).happenings = [crowded] := by
    decide +kernel
  cases ended : (usual Window.defaultDepth).reachEnd (.atPrompt "fis list")
      (answering [crowded]) with
  | error failure second =>
      rw [ended] at completes
      cases completes.1
  | ok found second =>
      rw [ended] at completes
      rcases run_of_reachEnd rfl rfl ended with ⟨notes, after, ran, grown, noted⟩
      rcases watched_of_run ran with ⟨events, happened, shown, failure⟩
      change after.happenings = events at happened
      have heard : heardIn events = [crowded] := by
        rw [← happened, grown, heardIn_append, (nothing_of_notes noted).1, List.append_nil]
        exact completes.2
      refine ⟨_, after, ran, ?_, ?_⟩
      · rw [happened, shown, heard, ← occursIn_iff]
        decide +kernel
      · rw [Response.succeeded, failure, heard]
        exact congrArg Option.isNone crowded_unnoticed

end Session

end BootConsole
