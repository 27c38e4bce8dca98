import BootConsole.Proofs.Output.Echo
import BootConsole.Proofs.Output.Markers
import BootConsole.Proofs.Terminal.Controls

/-!
# How long the output of a step is

The window of a step keeps so many bytes, and they are bytes of whole characters but where the
window begins. What the response tells of them is a text again, and may be longer: every byte of a
character whose beginning the window has lost is told as a replacement character.
-/

namespace BootConsole

namespace Session

open Connection

variable {session : Session} {step : Step} {connection after : Connection} {response : Response}

theorem output_of_run [Pace] (ran : session.run step connection = .ok response after) :
    ∃ events, after.happenings = connection.happenings ++ events ∧
      Utf8.IsWhole (shownIn events) ∧
      response.output = Utf8.lossy ((shownIn events).rtake session.depth) := by
  rcases follows_run session step (isOpen_of_run ran) with ⟨events, leads, course⟩
  have echoes := session.echoes_run step connection
  rw [ran] at leads course echoes
  rcases echoes with ⟨others, echoed⟩
  rcases watched_of_stepping course with ⟨shown, ending, rfl⟩
  have same : others = events :=
    List.append_cancel_left (echoed.happenings.symm.trans leads.happenings)
  subst same
  have whole : ∀ chunk ∈ heardIn others, Utf8.IsWhole chunk := by
    rw [echoed.heard]
    intro chunk member
    exact Terminal.isWhole_plainTexts _ _ chunk (List.mem_filter.mp member).1
  have keeps := Watch.keeps_takeAll
    (Watch.keeps_start session.depth Bootloader.failureMarkers) (heardIn others)
  refine ⟨others, leads.happenings, shown ▸ Utf8.isWhole_flatten whole, ?_⟩
  rw [Session.response, keeps.bytes, Watch.depth_takeAll, shown]
  rfl

/-- The output of a step that completes is the end of all that was shown in it, as far as the depth
reaches. It takes two bytes more than that for every byte at the front of this end that belongs to a
character which began before it, and there are at most three. So it is within the depth if and only
if the window does not begin within a character. -/
theorem run_output_length [Pace] (ran : session.run step connection = .ok response after) :
    ∃ events, after.happenings = connection.happenings ++ events ∧
      let tail := (shownIn events).rtake session.depth
      response.output = Utf8.lossy tail ∧
      (Utf8.encode response.output).length = tail.length + 2 * Utf8.severed tail ∧
      Utf8.severed tail ≤ 3 ∧
      ((Utf8.encode response.output).length ≤ session.depth ↔ Utf8.severed tail = 0) := by
  rcases output_of_run ran with ⟨events, happened, whole, output⟩
  rcases Utf8.length_encode_lossy_rtake whole session.depth with ⟨length, few⟩
  refine ⟨events, happened, output, output ▸ length, few, ?_⟩
  have held := Window.length_rtake (shownIn events) session.depth
  rw [output, length]
  constructor
  · intro within
    rcases Nat.le_total (shownIn events).length session.depth with short | long
    -- All that was shown is still there, from its first character on.
    · rw [List.rtake, Nat.sub_eq_zero_of_le short, List.drop_zero]
      exact whole.severed_eq_zero
    · omega
  · intro none
    rw [none, held]
    omega

/-- The window begins behind the first byte of a character of four. -/
theorem run_output_length_cut :
    ∃ response after events,
      (usual 20).run (.atPrompt "load image") (answering [Utf8.encode "🙂 loaded\nRedBoot> "]) =
        .ok response after ∧
      after.happenings = [] ++ events ∧
      (Utf8.encode response.output).length =
        ((shownIn events).rtake 20).length + 2 * Utf8.severed ((shownIn events).rtake 20) ∧
      (Utf8.encode response.output).length = 26 := by
  have ran : (usual 20).run (.atPrompt "load image")
      (answering [Utf8.encode "🙂 loaded\nRedBoot> "]) =
        .ok ⟨"load image", "\uFFFD\uFFFD\uFFFD loaded\nRedBoot> ", "RedBoot>", none, false⟩ _ :=
    eq_ok_of_outcome (by decide +kernel)
  rcases run_output_length ran with ⟨events, happened, _, length, _⟩
  exact ⟨_, _, events, ran, happened, length, by decide +kernel⟩

/-- A character of two bytes, dots, and the prompt, a byte more than a window has room for. -/
def cutCharacter : Bytes :=
  Utf8.encode "é" ++ List.replicate 989 0x2E ++ Utf8.encode "\nRedBoot> "

/-- The output of a step is longer than the depth of the search. -/
theorem run_output_exceeds_depth :
    ∃ response after,
      (usual Window.defaultDepth).run (.atPrompt "fis list") (answering [cutCharacter]) =
        .ok response after ∧
      Window.defaultDepth < (Utf8.encode response.output).length := by
  have completes :
      (outcome ((usual Window.defaultDepth).reachEnd (.atPrompt "fis list")
        (answering [cutCharacter]))).toOption.map (fun ended => ended.1.isSome) = some true ∧
      shownIn (stateAfter ((usual Window.defaultDepth).reachEnd (.atPrompt "fis list")
        (answering [cutCharacter]))).happenings = cutCharacter := by
    decide +kernel
  have cut : Utf8.severed (cutCharacter.rtake Window.defaultDepth) = 1 ∧
      (cutCharacter.rtake Window.defaultDepth).length = 1000 := by
    decide +kernel
  cases ended : (usual Window.defaultDepth).reachEnd (.atPrompt "fis list")
      (answering [cutCharacter]) with
  | error failure second =>
      rw [ended] at completes
      cases completes.1
  | ok found second =>
      rw [ended] at completes
      rcases run_of_reachEnd rfl rfl ended with ⟨notes, after, ran, grown, noted⟩
      rcases output_of_run ran with ⟨events, happened, whole, output⟩
      have shown : shownIn events = cutCharacter := by
        have same : after.happenings = events := happened
        rw [← same, grown, shownIn_append, (nothing_of_notes noted).2, List.append_nil]
        exact completes.2
      have length := (Utf8.length_encode_lossy_rtake whole Window.defaultDepth).1
      have longer :
          (Utf8.encode (response (.atPrompt "fis list") found.1 found.2).output).length =
            1000 + 2 * 1 := by
        rw [output, show (usual Window.defaultDepth).depth = Window.defaultDepth from rfl, length,
          shown, cut.1, cut.2]
      exact ⟨_, after, ran, longer ▸ by decide⟩

end Session

end BootConsole
