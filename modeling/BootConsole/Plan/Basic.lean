import BootConsole.Failure
import BootConsole.Plan.Mode
import BootConsole.Plan.Bootloader

/-!
# Plans

A plan is everything that a session sends and waits for. It is complete before the connection is
opened.
-/

namespace BootConsole

structure Reply where
  question : Pattern
  answer : String
  deriving DecidableEq, Repr

structure Step where
  command : String
  expect : Pattern
  reply : Option Reply
  deriving DecidableEq, Repr

namespace Step

/-- A step by the texts of its patterns; the pattern that ends it is read first. -/
def ofTexts (command expect : String) (reply : Option (String × String)) :
    Except Failure Step :=
  match Pattern.ofText? expect with
  | none => .error .invalidPattern
  | some expect =>
      match reply with
      | none => .ok ⟨command, expect, none⟩
      | some (question, answer) =>
          match Pattern.ofText? question with
          | none => .error .invalidPattern
          | some question => .ok ⟨command, expect, some ⟨question, answer⟩⟩

def lines (step : Step) : List String :=
  step.command :: (step.reply.map Reply.answer).toList

def atPrompt (command : String) : Step :=
  ⟨command, Bootloader.prompt, none⟩

end Step

structure Plan where
  mode : Mode
  /-- Whether the countdown is interrupted before the first step. -/
  interrupts : Bool
  prompt : Pattern
  steps : List Step
  deriving DecidableEq, Repr

namespace Plan

def imageSteps (build : String) (image : Bootloader.FlashImage) : List Step :=
  [.atPrompt (Bootloader.loadAt Bootloader.stagingAddress (build ++ image.suffix)),
    .atPrompt (Bootloader.writePartition image.entry image.partition)]

def flashSteps (build : String) : List Step :=
  { Step.atPrompt Bootloader.eraseDirectory with
      reply := some ⟨Bootloader.question, Bootloader.consent⟩ } ::
    (imageSteps build Bootloader.kernelImage ++ imageSteps build Bootloader.rootImage ++
      [.atPrompt Bootloader.listDirectory])

def execSteps (build : String) (starts : Nat) : List Step :=
  .atPrompt (Bootloader.loadFile (build ++ Bootloader.bootSuffix)) ::
    List.replicate starts (.atPrompt Bootloader.startLoaded)

/-- The steps of a mode. After an interrupted countdown the kernel is started twice. -/
def stepsOf (mode : Mode) (build : String) : List Step :=
  match mode with
  | .flash _ => flashSteps build
  | .exec .autoboot => execSteps build 2
  | .exec .manual => execSteps build 1
  | .unrecognized _ => []

def ofMode (mode : Mode) (build : String) : Plan where
  mode := mode
  interrupts := mode.interrupts
  prompt := Bootloader.prompt
  steps := stepsOf mode build

def script (plan : Plan) : List String :=
  (if plan.interrupts then [Bootloader.interruptLine] else []) ++ plan.steps.flatMap Step.lines

end Plan

end BootConsole
