import BootConsole.Proofs.Conversation.Responses
import BootConsole.Proofs.Output.Markers

/-!
# Which failure is reported

Chunk by chunk the end of a step's output is looked through for markers. The first chunk behind
which any stand decides, and of those that stand there the earliest in the list is reported,
wherever in the output it is. Nothing that comes later changes that.
-/

namespace BootConsole

variable {markers : List String} {marker : String} {depth : Nat} {chunks : List Bytes}

/-! ## The first marker that is seen -/

/-- What is looked through when the chunk with this number has come: the end of all that came. -/
def heldAt (depth : Nat) (chunks : List Bytes) (index : Nat) : Bytes :=
  (chunks.take (index + 1)).flatten.rtake depth

def Earliest (markers : List String) (bytes : Bytes) (marker : String) : Prop :=
  Utf8.encode marker <:+: bytes ∧ ∃ before behind, markers = before ++ marker :: behind ∧
    ∀ other ∈ before, ¬Utf8.encode other <:+: bytes

def Unmarked (bytes : Bytes) : Prop :=
  ∀ marker ∈ Bootloader.failureMarkers, ¬Utf8.encode marker <:+: bytes

inductive FirstSeen (depth : Nat) (chunks : List Bytes) : Option String → Prop
  | nothing : (∀ index < chunks.length, Unmarked (heldAt depth chunks index)) →
      FirstSeen depth chunks none
  | marker {index : Nat} {marker : String} : index < chunks.length →
      (∀ earlier < index, Unmarked (heldAt depth chunks earlier)) →
      Earliest Bootloader.failureMarkers (heldAt depth chunks index) marker →
      FirstSeen depth chunks (some marker)

theorem Earliest.mem {bytes : Bytes} (earliest : Earliest markers bytes marker) :
    marker ∈ markers := by
  rcases earliest with ⟨_, before, behind, rfl, _⟩
  exact List.mem_append_right before List.mem_cons_self

theorem Earliest.not_unmarked {bytes : Bytes}
    (earliest : Earliest Bootloader.failureMarkers bytes marker) : ¬Unmarked bytes :=
  fun unmarked => unmarked marker earliest.mem earliest.1

theorem earliestMarker_eq_some_iff (plain : Markers markers) (bytes : Bytes) :
    earliestMarker (Utf8.lossy bytes) markers = some marker ↔ Earliest markers bytes marker := by
  have stands {other : String} (member : other ∈ markers) := plain.occursIn_lossy_iff member bytes
  rw [earliestMarker, List.find?_eq_some_iff_append, Earliest]
  constructor
  · rintro ⟨found, before, behind, rfl, others⟩
    refine ⟨(stands (by simp)).mp found, before, behind, rfl, fun other member inside => ?_⟩
    have occurs := (stands (List.mem_append_left _ member)).mpr inside
    simpa [occurs] using others other member
  · rintro ⟨found, before, behind, rfl, others⟩
    refine ⟨(stands (by simp)).mpr found, before, behind, rfl, fun other member => ?_⟩
    have absent := others other member
    rwa [← stands (List.mem_append_left _ member), Bool.not_eq_true, ← Bool.not_eq_true'] at absent

theorem earliestMarker_eq_none_iff (bytes : Bytes) :
    earliestMarker (Utf8.lossy bytes) Bootloader.failureMarkers = none ↔ Unmarked bytes := by
  rw [← Option.not_isSome_iff_eq_none, earliestMarker_isSome_iff markers_of_bootloader, Unmarked]
  push Not
  rfl

/-- Two markers cannot both be the earliest. -/
theorem Earliest.unique {bytes : Bytes} {other : String}
    (first : Earliest Bootloader.failureMarkers bytes marker)
    (second : Earliest Bootloader.failureMarkers bytes other) : marker = other := by
  rw [← earliestMarker_eq_some_iff markers_of_bootloader] at first second
  exact Option.some.inj (first.symm.trans second)

namespace FirstSeen

variable {seen other : Option String}

theorem unique (first : FirstSeen depth chunks seen) (second : FirstSeen depth chunks other) :
    seen = other := by
  cases first with
  | nothing unmarked =>
      cases second with
      | nothing => rfl
      | marker inside _ earliest => exact absurd (unmarked _ inside) earliest.not_unmarked
  | @marker index marker inside before earliest =>
      cases second with
      | nothing unmarked => exact absurd (unmarked _ inside) earliest.not_unmarked
      | @marker place mark inside' before' earliest' =>
          rcases Nat.lt_trichotomy index place with less | same | greater
          · exact absurd (before' index less) earliest.not_unmarked
          · subst same
            exact congrArg some (earliest.unique earliest')
          · exact absurd (before place greater) earliest'.not_unmarked

end FirstSeen

theorem heldAt_append {index : Nat} (inside : index < chunks.length) (later : List Bytes) :
    heldAt depth (chunks ++ later) index = heldAt depth chunks index := by
  rw [heldAt, List.take_append_of_le_length inside, heldAt]

theorem heldAt_last (front : List Bytes) (last : Bytes) :
    heldAt depth (front ++ [last]) front.length = (front ++ [last]).flatten.rtake depth := by
  rw [heldAt, List.take_of_length_le (by simp)]

/-- What was reported once stays reported. -/
theorem FirstSeen.append (seen : FirstSeen depth chunks (some marker)) (later : List Bytes) :
    FirstSeen depth (chunks ++ later) (some marker) := by
  cases seen with
  | @marker index _ inside before earliest =>
      have within : index < (chunks ++ later).length :=
        Nat.lt_of_lt_of_le inside (List.prefix_append chunks later).length_le
      refine .marker within (fun earlier less => ?_) ?_
      · rw [heldAt_append (Nat.lt_trans less inside)]
        exact before earlier less
      · rwa [heldAt_append inside]

/-- Another chunk decides only if nothing was reported before it. -/
theorem FirstSeen.concat {seen : Option String} (before : FirstSeen depth chunks seen)
    (last : Bytes) :
    FirstSeen depth (chunks ++ [last])
      (seen.or (earliestMarker (Utf8.lossy ((chunks ++ [last]).flatten.rtake depth))
        Bootloader.failureMarkers)) := by
  cases seen with
  | some marker => exact before.append [last]
  | none =>
      rcases before with unmarked | _
      have still : ∀ earlier < chunks.length, Unmarked (heldAt depth (chunks ++ [last]) earlier) := by
        intro earlier inside
        rw [heldAt_append inside]
        exact unmarked earlier inside
      rw [Option.none_or, ← heldAt_last]
      cases found : earliestMarker (Utf8.lossy (heldAt depth (chunks ++ [last]) chunks.length))
          Bootloader.failureMarkers with
      | none =>
          refine .nothing fun index inside => ?_
          rw [List.length_append, List.length_singleton, Nat.lt_succ_iff_lt_or_eq] at inside
          rcases inside with earlier | rfl
          · exact still index earlier
          · exact (earliestMarker_eq_none_iff _).mp found
      | some marker =>
          exact .marker (by simp) still
            ((earliestMarker_eq_some_iff markers_of_bootloader _).mp found)

@[simp] theorem Watch.markers_takeAll (watch : Watch) (chunks : List Bytes) :
    (watch.takeAll chunks).markers = watch.markers := by
  induction chunks generalizing watch with
  | nil => rfl
  | cons chunk rest induction => exact induction (watch.take chunk)

/-- A watch has noticed the marker that was seen first. -/
theorem Watch.firstSeen_takeAll (depth : Nat) (chunks : List Bytes) :
    FirstSeen depth chunks
      ((start depth Bootloader.failureMarkers).takeAll chunks).failure := by
  induction chunks using List.reverseRecOn with
  | nil => exact .nothing nofun
  | append_singleton front last induction =>
      have keeps := keeps_takeAll (keeps_start depth Bootloader.failureMarkers) (front ++ [last])
      have held := keeps.bytes
      rw [depth_takeAll, depth_start, List.nil_append, takeAll_append, takeAll_cons, takeAll_nil,
        window_take] at held
      rw [takeAll_append, takeAll_cons, takeAll_nil, failure_take, held, markers_takeAll]
      exact induction.concat last

/-! ## Steps -/

/-- The response reports the marker that was seen first in the chunks of this time, which are all
that was shown then, and does so whatever comes after it. -/
structure Judged (depth : Nat) (events : List Happening) (response : Response) : Prop where
  shown : shownIn events = (heardIn events).flatten
  seen : ∀ failure, response.failure = failure ↔ FirstSeen depth (heardIn events) failure
  stands : ∀ marker, response.failure = some marker →
    marker ∈ Bootloader.failureMarkers ∧ Utf8.encode marker <:+: shownIn events
  stays : ∀ count marker, FirstSeen depth ((heardIn events).take count) (some marker) →
    response.failure = some marker

variable {events : List Happening} {response : Response} {session : Session} {step : Step}

theorem FirstSeen.stands (seen : FirstSeen depth chunks (some marker)) :
    marker ∈ Bootloader.failureMarkers ∧ Utf8.encode marker <:+: chunks.flatten := by
  cases seen with
  | @marker index _ inside before earliest =>
      refine ⟨earliest.mem, earliest.1.trans ?_⟩
      have front : heldAt depth chunks index <:+: (chunks.take (index + 1)).flatten :=
        (List.drop_suffix _ _).isInfix
      exact front.trans (List.take_prefix _ chunks).flatten.isInfix

theorem judged_of_failure (shown : shownIn events = (heardIn events).flatten)
    (failure : response.failure =
      ((Watch.start depth Bootloader.failureMarkers).takeAll (heardIn events)).failure) :
    Judged depth events response := by
  have seen := Watch.firstSeen_takeAll depth (heardIn events)
  rw [← failure] at seen
  refine ⟨shown, fun failure => ?_, fun marker reported => ?_, fun count marker earlier => ?_⟩
  · exact ⟨fun same => same ▸ seen, seen.unique⟩
  · rw [reported] at seen
    rw [shown]
    exact seen.stands
  · have later := earlier.append ((heardIn events).drop count)
    rw [List.take_append_drop] at later
    exact seen.unique later

namespace Session

theorem judged_of_run [Pace] {connection after : Connection}
    (ran : session.run step connection = .ok response after) :
    ∃ events, after.happenings = connection.happenings ++ events ∧
      Judged session.depth events response := by
  rcases watched_of_run ran with ⟨events, happened, shown, failure⟩
  exact ⟨events, happened, judged_of_failure shown failure⟩

/-- The notes around a step are neither heard nor shown. -/
theorem Tells.watched {part : List Happening} (tells : session.Tells response part) :
    shownIn part = (heardIn part).flatten ∧ ∃ step ending,
      response = Session.response step ending
        ((Watch.start session.depth Bootloader.failureMarkers).takeAll (heardIn part)) := by
  rcases tells with ⟨step, front, own, back, rfl, before, behind, steps⟩
  rcases watched_of_stepping steps with ⟨shown, ending, reported⟩
  simp only [heardIn_append, shownIn_append, nothing_of_notes before, nothing_of_notes behind,
    List.nil_append, List.append_nil]
  exact ⟨shown, step, ending, reported⟩

/-- The part of a response begins with its own command. -/
theorem Tells.sentIn_head? {part : List Happening} (tells : session.Tells response part) :
    (sentIn part).head? = some (lineBytes response.command) := by
  rcases tells with ⟨step, front, own, back, rfl, before, behind, steps⟩
  rcases Course.parts_of_ok steps with ⟨_, _, _, ⟨rfl, _⟩, spoken, rfl⟩
  rcases Course.parts_of_ok spoken with ⟨_, _, waited, sends, answered, rfl⟩
  rcases Course.parts_of_ok answered with ⟨_, _, _, _, ⟨_, same⟩, rfl⟩
  cases same
  cases sends with
  | sent written =>
      rw [sentIn_append, sentIn_append, sentIn_of_notes before]
      rfl

end Session

end BootConsole
