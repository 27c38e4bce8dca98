import BootConsole.Proofs.Conversation.Framing
import BootConsole.Proofs.Text.Encoding
import BootConsole.Provision.Run

/-!
# Commands and lines

A command goes out with a line feed behind it, and the console takes what it reads line by line. The
two agree as long as no command holds a line end of its own. The name of the build is the only part
of a plan that comes from outside, and nobody looks into it.
-/

namespace BootConsole

/-! ## Line ends -/

def HoldsLineEnd (text : String) : Prop :=
  '\n' ∈ text.toList ∨ '\r' ∈ text.toList

instance (text : String) : Decidable (HoldsLineEnd text) :=
  inferInstanceAs (Decidable (_ ∨ _))

structure IsLine (data : Bytes) : Prop where
  ends : data.getLast? = some lineFeed
  noLineFeed : lineFeed ∉ data.dropLast
  noReturn : carriageReturn ∉ data.dropLast

variable {text line : String}

theorem holdsLineEnd_append (first second : String) :
    HoldsLineEnd (first ++ second) ↔ HoldsLineEnd first ∨ HoldsLineEnd second := by
  simp only [HoldsLineEnd, String.toList_append, List.mem_append]
  tauto

theorem lineFeed_mem_encode_iff : lineFeed ∈ Utf8.encode text ↔ '\n' ∈ text.toList :=
  Utf8.mem_encode_iff (by decide) text

theorem carriageReturn_mem_encode_iff :
    carriageReturn ∈ Utf8.encode text ↔ '\r' ∈ text.toList :=
  Utf8.mem_encode_iff (by decide) text

theorem isLine_lineBytes_iff : IsLine (lineBytes line) ↔ ¬HoldsLineEnd line := by
  rw [HoldsLineEnd, not_or, ← lineFeed_mem_encode_iff, ← carriageReturn_mem_encode_iff]
  constructor
  · rintro ⟨_, noLineFeed, noReturn⟩
    rw [lineBytes, List.dropLast_concat] at noLineFeed noReturn
    exact ⟨noLineFeed, noReturn⟩
  · rintro ⟨noLineFeed, noReturn⟩
    exact ⟨List.getLast?_concat, by rwa [lineBytes, List.dropLast_concat],
      by rwa [lineBytes, List.dropLast_concat]⟩

/-- The first line of a text is read up to its line feed. -/
theorem splitLines_line {body : Bytes} (free : lineFeed ∉ body) (rest : Bytes) :
    splitLines (body ++ lineFeed :: rest) =
      (body :: (splitLines rest).1, (splitLines rest).2) := by
  induction body with
  | nil => simp [splitLines]
  | cons byte body induction =>
      have other : byte ≠ lineFeed := fun same => free (by simp [same])
      have further := induction fun member => free (List.mem_cons_of_mem byte member)
      rw [List.cons_append, splitLines, if_neg other, further]

theorem splitLines_lines {lines : List String} (free : ∀ line ∈ lines, ¬HoldsLineEnd line) :
    splitLines (lines.map lineBytes).flatten = (lines.map Utf8.encode, []) := by
  induction lines with
  | nil => rfl
  | cons line rest induction =>
      rcases List.forall_mem_cons.mp free with ⟨first, others⟩
      have noLineFeed : lineFeed ∉ Utf8.encode line :=
        fun inside => first (.inl (lineFeed_mem_encode_iff.mp inside))
      rw [List.map_cons, List.flatten_cons, lineBytes, List.append_assoc, List.singleton_append,
        splitLines_line noLineFeed, induction others]
      rfl

/-! ## The lines of a plan -/

namespace Plan

variable {build : String}

theorem holdsLineEnd_around {front back : String} (before : ¬HoldsLineEnd front)
    (behind : ¬HoldsLineEnd back) :
    HoldsLineEnd (front ++ (build ++ back)) ↔ HoldsLineEnd build := by
  rw [holdsLineEnd_append, or_iff_right before, holdsLineEnd_append, or_iff_left behind]

theorem flashSteps_free_iff :
    (∀ line ∈ (flashSteps build).flatMap Step.lines, ¬HoldsLineEnd line) ↔
      ¬HoldsLineEnd build := by
  have lines : (flashSteps build).flatMap Step.lines =
      [Bootloader.eraseDirectory, Bootloader.consent,
        Bootloader.loadAt Bootloader.stagingAddress (build ++ Bootloader.kernelImage.suffix),
        Bootloader.writePartition Bootloader.kernelImage.entry Bootloader.kernelImage.partition,
        Bootloader.loadAt Bootloader.stagingAddress (build ++ Bootloader.rootImage.suffix),
        Bootloader.writePartition Bootloader.rootImage.entry Bootloader.rootImage.partition,
        Bootloader.listDirectory] := rfl
  have loads (image : Bootloader.FlashImage) (known : ¬HoldsLineEnd image.suffix) :
      HoldsLineEnd (Bootloader.loadAt Bootloader.stagingAddress (build ++ image.suffix)) ↔
        HoldsLineEnd build :=
    holdsLineEnd_around (by decide +kernel) known
  rw [lines]
  simp only [List.forall_mem_cons, loads Bootloader.kernelImage (by decide +kernel),
    loads Bootloader.rootImage (by decide +kernel)]
  have others : ¬HoldsLineEnd Bootloader.eraseDirectory ∧ ¬HoldsLineEnd Bootloader.consent ∧
      ¬HoldsLineEnd (Bootloader.writePartition Bootloader.kernelImage.entry
        Bootloader.kernelImage.partition) ∧
      ¬HoldsLineEnd (Bootloader.writePartition Bootloader.rootImage.entry
        Bootloader.rootImage.partition) ∧ ¬HoldsLineEnd Bootloader.listDirectory := by
    decide +kernel
  simp [others]

theorem execSteps_free_iff (starts : Nat) :
    (∀ line ∈ (execSteps build starts).flatMap Step.lines, ¬HoldsLineEnd line) ↔
      ¬HoldsLineEnd build := by
  have loads : HoldsLineEnd (Bootloader.loadFile (build ++ Bootloader.bootSuffix)) ↔
      HoldsLineEnd build :=
    holdsLineEnd_around (by decide +kernel) (by decide +kernel)
  have start : ¬HoldsLineEnd Bootloader.startLoaded := by decide +kernel
  simp [execSteps, Step.atPrompt, Step.lines, loads, start]

/-- The lines of a plan hold no line end exactly if the name of the build holds none, or there is
nothing to do with it. -/
theorem script_free_iff (mode : Mode) :
    (∀ line ∈ (ofMode mode build).script, ¬HoldsLineEnd line) ↔
      (ofMode mode build).steps = [] ∨ ¬HoldsLineEnd build := by
  have interrupt : ∀ line ∈ if mode.interrupts then [Bootloader.interruptLine] else [],
      ¬HoldsLineEnd line := by
    split <;> decide +kernel
  rw [script, List.forall_mem_append]
  cases mode with
  | flash start =>
      exact (and_iff_right interrupt).trans (flashSteps_free_iff.trans (or_iff_right nofun).symm)
  | exec start =>
      cases start with
      | autoboot | manual =>
          exact (and_iff_right interrupt).trans
            ((execSteps_free_iff _).trans (or_iff_right nofun).symm)
  | unrecognized token => exact iff_of_true ⟨nofun, nofun⟩ (.inl rfl)

end Plan

/-! ## What the console gets -/

/-- On a stream that takes everything at once nothing breaks off, neither a line nor an answer. -/
theorem Utterance.Shows.framed_of_prompt {utterance : Utterance} {events : List Happening}
    (shows : utterance.Shows .telnet events) (refusing : Refusing events) :
    Framed (utterance.whole.map lineBytes) [] events where
  wrote := shows.wroteIn_eq
  wrotePart part member := absurd (shows.part part member).1 Pace.not_stalls_prompt
  replied := refusing.whole
  repliedPart part member := absurd (refusing.part part member).1 Pace.not_stalls_prompt
  final := by
    refine List.pairwise_of_forall_mem_list fun event member _ _ breaks => ?_
    cases event with
    | wrotePart part => exact absurd (shows.part part member).1 Pace.not_stalls_prompt
    | repliedPart part => exact absurd (refusing.part part member).1 Pace.not_stalls_prompt
    | _ => cases breaks

namespace Settings

/-- Everything that a session sends is one of the plan's lines with a line feed behind it. All of
these are single lines exactly if the name of the build holds no line end, or is not used; and then
the console, which reads its stream line by line, gets the first lines of the plan and nothing
else. -/
theorem session_sends_lines (settings : Settings) (deadline : Nat) (console : Console)
    (desk : Desk) :
    let session := settings.sessionUntil deadline
    let plan := settings.plan
    let harmless := plan.steps = [] ∨ ¬HoldsLineEnd settings.request.build
    ∃ events,
      (stateAfter (session.conduct plan (.ofConsole .telnet console desk))).happenings =
        desk.journal.happenings ++ events ∧
      sentIn events <+: plan.script.map lineBytes ∧
      ((∀ line ∈ plan.script, IsLine (lineBytes line)) ↔ harmless) ∧
      (harmless → splitLines (Telnet.decode .text (writtenIn events).flatten).2.text =
        ((plan.script.take (wroteIn events).length).map Utf8.encode, [])) := by
  intro session plan harmless
  rcases session.conduct_says plan console desk with
    ⟨events, said, happened, shows, begun, refusing⟩
  have free : (∀ line ∈ plan.script, ¬HoldsLineEnd line) ↔ harmless :=
    Plan.script_free_iff settings.request.mode
  refine ⟨events, happened, ?_, ?_, fun without => ?_⟩
  · have first : said.gone <+: said.lines := List.prefix_append _ _
    rw [shows.sent]
    exact (first.trans begun).map lineBytes
  · simp only [isLine_lineBytes_iff]
    exact free
  · have whole := said.whole_prefix_lines.trans begun
    have lines : ∀ line ∈ said.whole, ¬HoldsLineEnd line := fun line member =>
      free.mpr without line (whole.subset member)
    have readBack : ∀ text ∈ said.whole.map lineBytes, IsReadBack text := by
      intro text member
      rcases List.mem_map.mp member with ⟨line, inside, rfl⟩
      refine isReadBack_lineBytes fun padded => lines line inside (.inr ?_)
      exact carriageReturn_mem_encode_iff.mp (padded.subset List.mem_cons_self)
    have front : plan.script.take (wroteIn events).length = said.whole := by
      rw [shows.wroteIn_eq, List.length_map, List.length_map]
      exact (List.prefix_iff_eq_take.mp whole).symm
    rcases (shows.framed_of_prompt refusing).run_eq readBack rfl with ⟨state, rest, read, none⟩
    rw [front, Telnet.decode_eq_run, read, List.prefix_nil.mp none, List.append_nil]
    exact splitLines_lines lines

/-- The name of this build ends the line of its command and goes on with a line of its own. -/
theorem run_sends_smuggled_line :
    let request : Request := ⟨.exec .manual, "192.168.1.1", "x\nfis init -f\n"⟩
    let settings := Settings.ofRequest request
    let result := settings.run [] (.listening .silent) (.start .none .none)
    Request.ofArguments ["E", "192.168.1.1", "x\nfis init -f\n"] = .ok request ∧
      settings.check = .ok settings ∧
      (stateAfter result).journal.sends = [Utf8.encode "load x\nfis init -f\n_kernel\n"] ∧
      ¬IsLine (Utf8.encode "load x\nfis init -f\n_kernel\n") ∧
      "fis init -f" ∉ settings.plan.script ∧
      (stateAfter result).journal.linesReceived =
        [Utf8.encode "load x\r", Utf8.encode "fis init -f\r", Utf8.encode "_kernel\r"] := by
  refine ⟨by decide +kernel, by decide +kernel, by decide +kernel, ?_, by decide +kernel,
    by decide +kernel⟩
  intro line
  exact absurd line.noLineFeed (by decide +kernel)

end Settings

end BootConsole
