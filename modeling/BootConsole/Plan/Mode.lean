/-!
# Modes

What a run is asked to do with the device, and the words for it.
-/

namespace BootConsole

inductive Start where
  | autoboot
  | manual
  deriving DecidableEq, Repr

def Start.description : Start → String
  | .autoboot => "autoboot"
  | .manual => "manual boot"

inductive Mode where
  /-- Write kernel and root file system to the flash memory. -/
  | flash (start : Start)
  /-- Load the kernel and start it. -/
  | exec (start : Start)
  /-- Any other request: the console is opened and closed again. -/
  | unrecognized (token : String)
  deriving DecidableEq, Repr

namespace Mode

def ofToken (token : String) : Mode :=
  if token = "f" then .flash .autoboot
  else if token = "F" then .flash .manual
  else if token = "e" then .exec .autoboot
  else if token = "E" then .exec .manual
  else .unrecognized token

def token : Mode → String
  | .flash .autoboot => "f"
  | .flash .manual => "F"
  | .exec .autoboot => "e"
  | .exec .manual => "E"
  | .unrecognized token => token

def interrupts : Mode → Bool
  | .flash .autoboot | .exec .autoboot => true
  | _ => false

def description : Mode → String
  | .flash start => "flash (" ++ start.description ++ ")"
  | .exec start => "exec (" ++ start.description ++ ")"
  | .unrecognized token => "no-op (unrecognized command '" ++ token ++ "')"

@[simp] theorem token_ofToken (token : String) : (ofToken token).token = token := by
  unfold ofToken
  split
  · simp_all [Mode.token]
  · split
    · simp_all [Mode.token]
    · split
      · simp_all [Mode.token]
      · split <;> simp_all [Mode.token]

end Mode

end BootConsole
