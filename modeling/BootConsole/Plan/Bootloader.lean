import BootConsole.Duration
import BootConsole.Pattern.Basic

/-!
# The bootloader's console

What has to be known about the RedBoot console: where it listens, what it prints when it is ready or
asks before it destroys, where images belong, how its commands are spelled, and which words report a
failure.
-/

namespace BootConsole.Bootloader

def port : Nat := 9000

def sessionTimeout : Duration := .ofSeconds 3600

def quietTime : Nat := 300

def promptText : String := "^RedBoot>"

def prompt : Pattern where
  text := Pattern.inLineMode promptText
  program :=
    .ofExpr (.ofSequence [.assertion .lineStart, .literal (Utf8.encode "RedBoot>")])

def questionText : String := "^.*continue \\(y/n\\)\\?"

def question : Pattern where
  text := Pattern.inLineMode questionText
  program :=
    .ofExpr (.ofSequence
      [.assertion .lineStart,
        .repeated (.characterIn (.complement .characters (.single 0x0A))) 0 none true,
        .literal (Utf8.encode "continue (y/n)?")])

def consent : String := "y"

/-- Ctrl-C, which ends the countdown. It is sent as a line, so that an idle console prints its
prompt again. -/
def interruptLine : String := "\x03"

def interruptName : String := "^C"

structure FlashImage where
  /-- How the name of its file ends. -/
  suffix : String
  entry : UInt32
  partition : String
  deriving DecidableEq, Repr

def kernelImage : FlashImage := ⟨"_kernel.gz.sync", 0x80050100, "kernel"⟩

def rootImage : FlashImage := ⟨"_rootfs_clean.iso.ulzma", 0x00000000, "rootfs"⟩

def stagingAddress : UInt32 := 0x80050000

def bootSuffix : String := "_kernel"

/-- The words by which the bootloader reports a failure, the more telling first. -/
def failureMarkers : List String := ["** Error", "Can't load", "Illegal command"]

/-! ## Commands -/

def hexWord (word : UInt32) : String :=
  let digits := Nat.toDigits 16 word.toNat
  "0x" ++ String.ofList (List.replicate (8 - digits.length) '0' ++ digits)

def eraseDirectory : String := "fis init -f"

def listDirectory : String := "fis list"

def loadAt (address : UInt32) (file : String) : String :=
  "load -r -v -b " ++ hexWord address ++ " " ++ file

def writePartition (entry : UInt32) (partition : String) : String :=
  "fis create -e " ++ hexWord entry ++ " " ++ partition

def loadFile (file : String) : String := "load " ++ file

def startLoaded : String := "exec"

/-! ## The patterns as they are written -/

set_option maxRecDepth 10000 in
theorem ofText?_promptText : Pattern.ofText? promptText = some prompt := by
  decide +kernel

set_option maxRecDepth 10000 in
theorem ofText?_questionText : Pattern.ofText? questionText = some question := by
  decide +kernel

end BootConsole.Bootloader
