import BootConsole.Proofs.Conversation.Chunks
import BootConsole.Proofs.Output.Prompt

/-!
# The prompt is found in time

A line of the output that starts with the prompt is not missed, however the output comes in chunks
and whatever came before it, if the chunk that completes the prompt does not bring so much behind it
that the prompt is out of reach of the search.
-/

namespace BootConsole

open Pattern.Program

variable {depth place : Nat} {chunks : List Bytes} {bytes : Bytes}

theorem StartsLine.of_append {word text more : Bytes} (nonempty : word ≠ [])
    (starts : StartsLine word (text ++ more) place) (within : place + word.length ≤ text.length) :
    StartsLine word text place := by
  rcases starts with ⟨stands, starts⟩
  refine ⟨(standsAt_append_iff nonempty more).mpr ⟨stands, within⟩, ?_⟩
  rcases starts with start | fed
  · exact .inl start
  · have some := List.length_pos_iff.mpr nonempty
    rw [List.getElem?_append_left (by omega)] at fed
    exact .inr fed

/-- A line that starts in reach of the end starts there in what is left of the text too, be it that
only its words are left of it. -/
theorem StartsLine.rtake {word text : Bytes} (starts : StartsLine word text place)
    (near : text.length ≤ place + depth) :
    StartsLine word (text.rtake depth) (place - (text.length - depth)) := by
  have shifted : text.length - depth + (place - (text.length - depth)) = place := by omega
  rw [List.rtake]
  refine ⟨standsAt_drop.mpr (shifted.symm ▸ starts.1), atLineStart_drop_iff.mpr ?_⟩
  rw [shifted]
  exact .inr starts.2

/-- What is found for the prompt are its words. -/
theorem word_of_found (found : found? depth Bootloader.prompt chunks = some bytes) :
    bytes = promptWord := by
  have leftmost := search_lineWord promptWord_ne_nil lineFeed_not_mem_promptWord
    (chunks.flatten.rtake depth)
  rw [found?, Pattern.find?, prompt_program] at found
  rcases Option.map_eq_some_iff.mp found with ⟨span, searched, rfl⟩
  rw [searched] at leftmost
  exact slice_of_leftmost leftmost

theorem found_of_startsLine (starts : StartsLine promptWord chunks.flatten place)
    (near : chunks.flatten.length ≤ place + depth) :
    found? depth Bootloader.prompt chunks ≠ none := by
  have leftmost := search_lineWord promptWord_ne_nil lineFeed_not_mem_promptWord
    (chunks.flatten.rtake depth)
  rw [found?, Pattern.find?, prompt_program]
  intro missed
  rw [Option.map_eq_none_iff] at missed
  rw [missed] at leftmost
  exact leftmost _ (starts.rtake near)

namespace Session

open Connection

/-- Let the text that comes in a wait for the prompt have a line that starts with the prompt, and
let one of the chunks end behind the prompt, with no more behind it than the depth leaves room for
beside the prompt. The wait is ended by a match, no later than with this chunk. -/
theorem prompt_found_in_time [Pace] {session : Session} {output : Bytes} {watch : Watch}
    {connection received : Connection} {chunks : List Bytes} {place index : Nat}
    (watching : session.Watching output watch)
    (relays : Relays session.deadline connection chunks received)
    (starts : StartsLine promptWord chunks.flatten place) (inside : index < chunks.length)
    (behind : place + promptWord.length ≤ reached chunks index)
    (near : reached chunks index ≤ place + session.depth) :
    ∃ count ≤ index + 1, ∃ seen after,
      Relays session.deadline connection (chunks.take count) after ∧
      session.await Bootloader.prompt watch connection =
        .ok (.matched promptWord, seen) after := by
  rcases watching.keeps with ⟨depth, keeps⟩
  have split : chunks.flatten =
      (chunks.take (index + 1)).flatten ++ (chunks.drop (index + 1)).flatten := by
    rw [← List.flatten_append, List.take_append_drop]
  have startsBy : StartsLine promptWord (chunks.take (index + 1)).flatten place := by
    rw [split] at starts
    exact starts.of_append promptWord_ne_nil behind
  have found : found? watch.window.depth Bootloader.prompt (chunks.take (index + 1)) ≠ none :=
    found_of_startsLine startsBy (depth ▸ near)
  rcases exists_await_of_found relays ⟨output, keeps⟩ (Nat.succ_pos index) inside found with
    ⟨count, bound, bytes, after, first, matched, awaited⟩
  exact ⟨count, bound, _, after, first, word_of_found matched ▸ awaited⟩

/-- The prompt comes in three chunks behind a line that only looks like it, and fills the window
with the space that follows it. -/
theorem prompt_found_in_time_scattered :
    let chunks := ["RedBoot", "\nRed", "Boot", "> "].map Utf8.encode
    ∃ received, Relays (usual 9).deadline (saying chunks) chunks received ∧
      ∃ count ≤ 4, ∃ seen after,
        Relays (usual 9).deadline (saying chunks) (chunks.take count) after ∧
        (usual 9).await Bootloader.prompt (.start 9 Bootloader.failureMarkers) (saying chunks) =
          .ok (.matched promptWord, seen) after := by
  intro chunks
  have relays : Relays (usual 9).deadline (saying chunks) chunks _ :=
    .cons_of_outcome (by decide +kernel) (.cons_of_outcome (by decide +kernel)
      (.cons_of_outcome (by decide +kernel) (.cons_of_outcome (by decide +kernel) (.nil _))))
  have watching : (usual 9).Watching [] (.start 9 Bootloader.failureMarkers) := .first
  have starts : StartsLine promptWord chunks.flatten 8 := by
    constructor <;> decide +kernel
  exact ⟨_, relays, prompt_found_in_time watching relays starts (show 3 < 4 by decide)
    (by decide +kernel) (by decide +kernel)⟩

end Session

end BootConsole
