import BootConsole.Proofs.Output.Markers
import BootConsole.Proofs.Text.Tails
import Mathlib.Data.List.Find

/-!
# Markers in bytes and in their text

The search for markers goes through the text of a window, which may begin and end within a character
and hold bytes that are no character at all. A marker of ASCII stands in that text if and only if
its bytes stand in the window: none is lost to what surrounds it, and none comes about where
something else stood between its parts.
-/

namespace BootConsole

/-- Read as text and written again, the bytes hold the words that they held. -/
theorem Markers.infix_encode_lossy_iff {markers : List String} (plain : Markers markers)
    {marker : String} (member : marker ∈ markers) (window : Bytes) :
    Utf8.encode marker <:+: Utf8.encode (Utf8.lossy window) ↔ Utf8.encode marker <:+: window := by
  have reread : Utf8.lossy (Utf8.encode (Utf8.lossy window)) = Utf8.lossy window := by
    rw [Utf8.lossy, Utf8.encode, Utf8.characters_whole, String.ofList_toList]
  rw [← plain.occursIn_lossy_iff member, reread, plain.occursIn_lossy_iff member]

/-- In whatever bytes the window holds, what is found in its text is what stands in its bytes: the
first marker of the list that does, and each marker by itself. -/
theorem earliestMarker_of_window {markers : List String} (plain : Markers markers)
    (window : Bytes) :
    earliestMarker (Utf8.lossy window) markers =
        markers.find? (fun marker => occursIn (Utf8.encode marker) window) ∧
      ∀ marker ∈ markers,
        (earliestMarker (Utf8.lossy window) [marker] = some marker ↔
            Utf8.encode marker <:+: window) ∧
          (Utf8.encode marker <:+: Utf8.encode (Utf8.lossy window) ↔
            Utf8.encode marker <:+: window) := by
  constructor
  · refine List.find?_congr fun marker member => ?_
    rw [Bool.eq_iff_iff, plain.occursIn_lossy_iff member, occursIn_iff]
  · intro marker member
    refine ⟨?_, plain.infix_encode_lossy_iff member window⟩
    rw [← plain.occursIn_lossy_iff member, earliestMarker, List.find?_singleton]
    simp

/-- A word that is not ASCII may come about in the text. -/
example :
    occursIn "\uFFFD".toList (Utf8.lossy [0x80]).toList = true ∧
      occursIn (Utf8.encode "\uFFFD") [0x80] = false := by
  decide +kernel

/-- The end of a character, a marker with half a character in it, and another between two halves. -/
def severed : Bytes :=
  [0x82, 0xAC] ++ Utf8.encode "** " ++ [0xC3] ++ Utf8.encode "Error" ++ [0xE2, 0x82] ++
    Utf8.encode "Can't load" ++ [0xF0, 0x9F]

theorem earliestMarker_of_window_severed :
    Markers Bootloader.failureMarkers ∧
      earliestMarker (Utf8.lossy severed) Bootloader.failureMarkers = some "Can't load" := by
  refine ⟨markers_of_bootloader, ?_⟩
  rw [(earliestMarker_of_window markers_of_bootloader severed).1]
  decide +kernel

end BootConsole
