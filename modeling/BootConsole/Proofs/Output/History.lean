import BootConsole.Session.Watch
import Mathlib.Data.List.DropRight

/-!
# What a window knows of its history

However the output arrived and whenever a mark was set, the window holds the end of the whole
history, and its searched part is the end of what came since the last mark.
-/

namespace BootConsole

namespace Window

/-- The window stands for this history, of which `recent` came since the last mark. -/
structure Keeps (window : Window) (history recent : Bytes) : Prop where
  suffix : recent <:+ history
  bytes : window.bytes = history.rtake window.depth
  /-- As much is open to the search as there is of `recent` in the window. -/
  floor : window.floor + min window.depth recent.length = window.bytes.length

theorem length_rtake (bytes : Bytes) (count : Nat) :
    (bytes.rtake count).length = min count bytes.length := by
  simp only [List.rtake, List.length_drop]
  omega

/-- The end of a part is as well an end of the whole. -/
theorem rtake_eq_drop (before recent : Bytes) (depth : Nat) :
    recent.rtake depth =
      (before ++ recent).drop ((before ++ recent).length - min depth recent.length) := by
  have behind : before.length ≤ (before ++ recent).length - min depth recent.length := by
    rw [List.length_append]
    omega
  rw [List.drop_append, List.drop_eq_nil_of_le behind, List.nil_append, List.rtake,
    List.length_append]
  congr 1
  omega

namespace Keeps

variable {window : Window} {history recent : Bytes}

theorem length_bytes (keeps : window.Keeps history recent) :
    window.bytes.length = min window.depth history.length := by
  rw [keeps.bytes, length_rtake]

theorem ofDepth (depth : Nat) : (ofDepth depth).Keeps [] [] :=
  ⟨List.suffix_refl [], by simp [Window.ofDepth], by simp [Window.ofDepth]⟩

theorem append (keeps : window.Keeps history recent) (data : Bytes) :
    (window.append data).Keeps (history ++ data) (recent ++ data) := by
  have shorter := keeps.suffix.length_le
  have held := keeps.length_bytes
  have floor := keeps.floor
  have joined : window.bytes ++ data =
      (history ++ data).drop (history.length - window.depth) := by
    rw [keeps.bytes, List.rtake, List.drop_append_of_le_length (by omega)]
  have kept : (window.append data).bytes = (history ++ data).rtake window.depth := by
    simp only [Window.append, joined, List.rtake, List.drop_drop, List.length_drop,
      List.length_append]
    congr 1
    omega
  refine ⟨?_, kept, ?_⟩
  · exact (List.suffix_append_self_iff).mpr keeps.suffix
  · rw [kept, length_rtake]
    simp only [Window.append, List.length_append]
    omega

theorem hide (keeps : window.Keeps history recent) : window.hide.Keeps history [] :=
  ⟨List.nil_suffix, keeps.bytes, by simp [Window.hide]⟩

/-- The search sees the end of what came since the last mark, as far as the depth reaches. -/
theorem searched (keeps : window.Keeps history recent) :
    window.searched = recent.rtake window.depth := by
  rcases keeps.suffix with ⟨front, rfl⟩
  have held := keeps.length_bytes
  have floor := keeps.floor
  rw [List.length_append] at held
  rw [rtake_eq_drop front recent, Window.searched, keeps.bytes, List.rtake, List.drop_drop,
    List.length_append]
  congr 1
  omega

end Keeps

end Window

namespace Watch

@[simp] theorem window_take (watch : Watch) (chunk : Bytes) :
    (watch.take chunk).window = watch.window.append chunk := rfl

@[simp] theorem window_turn (watch : Watch) : watch.turn.window = watch.window.hide := rfl

def takeAll (watch : Watch) (chunks : List Bytes) : Watch :=
  chunks.foldl take watch

@[simp] theorem takeAll_nil (watch : Watch) : watch.takeAll [] = watch := rfl

@[simp] theorem takeAll_cons (watch : Watch) (chunk : Bytes) (rest : List Bytes) :
    watch.takeAll (chunk :: rest) = (watch.take chunk).takeAll rest := rfl

theorem takeAll_append (watch : Watch) (earlier later : List Bytes) :
    watch.takeAll (earlier ++ later) = (watch.takeAll earlier).takeAll later :=
  List.foldl_append

@[simp] theorem depth_takeAll (watch : Watch) (chunks : List Bytes) :
    (watch.takeAll chunks).window.depth = watch.window.depth := by
  induction chunks generalizing watch with
  | nil => rfl
  | cons chunk rest induction => exact induction (watch.take chunk)

theorem keeps_take {watch : Watch} {history recent : Bytes}
    (keeps : watch.window.Keeps history recent) (chunk : Bytes) :
    (watch.take chunk).window.Keeps (history ++ chunk) (recent ++ chunk) :=
  keeps.append chunk

theorem keeps_takeAll {watch : Watch} {history recent : Bytes}
    (keeps : watch.window.Keeps history recent) (chunks : List Bytes) :
    (watch.takeAll chunks).window.Keeps (history ++ chunks.flatten) (recent ++ chunks.flatten) := by
  induction chunks generalizing watch history recent with
  | nil => simpa using keeps
  | cons chunk rest induction =>
      have later := induction (keeps_take keeps chunk)
      simpa only [takeAll_cons, List.flatten_cons, List.append_assoc] using later

def Fresh (watch : Watch) : Prop :=
  ∃ history, watch.window.Keeps history []

theorem keeps_start (depth : Nat) (markers : List String) :
    (start depth markers).window.Keeps [] [] :=
  .ofDepth depth

theorem fresh_start (depth : Nat) (markers : List String) : (start depth markers).Fresh :=
  ⟨[], keeps_start depth markers⟩

theorem Fresh.turn {watch : Watch} (fresh : watch.Fresh) (chunks : List Bytes) :
    (watch.takeAll chunks).turn.Fresh := by
  rcases fresh with ⟨history, keeps⟩
  exact ⟨_, (keeps_takeAll keeps chunks).hide⟩

/-- After a fresh start the end of what came since is searched. -/
theorem Fresh.searched {watch : Watch} (fresh : watch.Fresh) (chunks : List Bytes) :
    (watch.takeAll chunks).window.searched = chunks.flatten.rtake watch.window.depth := by
  rcases fresh with ⟨history, keeps⟩
  rw [(keeps_takeAll keeps chunks).searched, depth_takeAll, List.nil_append]

end Watch

end BootConsole
