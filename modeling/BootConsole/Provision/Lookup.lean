import BootConsole.Failure

/-!
# Looking up a program

A probe runs a program of the system, and the system may refuse to run it. What it says is settled
by the name: a path is walked one name at a time, and the first name that cannot be passed decides.
Of all files only those are known that every machine has, and none of them can be run.
-/

namespace BootConsole.Probe

inductive Obstacle where
  /-- Nothing stands under the name. -/
  | missing
  /-- What stands there is a directory, or may not be run. -/
  | forbidden
  /-- The path goes on behind what is no directory. -/
  | notDirectory
  | nameTooLong
  | argumentTooLong
  /-- An argument that holds NUL cannot be handed over. -/
  | holdsNul
  deriving DecidableEq, Repr

def Obstacle.message : Obstacle → String
  | .missing => "No such file or directory (os error 2)"
  | .forbidden => "Permission denied (os error 13)"
  | .notDirectory => "Not a directory (os error 20)"
  | .nameTooLong => "File name too long (os error 36)"
  | .argumentTooLong => "Argument list too long (os error 7)"
  | .holdsNul => "nul byte found in provided data"

def Obstacle.fault (obstacle : Obstacle) : Fault :=
  ⟨.other, obstacle.message⟩

def longestName : Nat := 255

def pathLimit : Nat := 4096

def argumentLimit : Nat := 131072

def commonDirectories : List String :=
  ["/bin", "/boot", "/dev", "/dev/fd", "/dev/pts", "/dev/shm", "/etc",
    "/etc/default", "/etc/init.d", "/home", "/lib", "/lib64", "/media", "/mnt", "/opt", "/proc",
    "/proc/1", "/proc/net", "/proc/self", "/proc/self/fd", "/proc/sys", "/root", "/run",
    "/run/lock", "/sbin", "/srv", "/sys", "/sys/block", "/sys/bus", "/sys/class", "/sys/dev",
    "/sys/devices", "/sys/fs", "/sys/kernel", "/tmp", "/usr", "/usr/bin", "/usr/games",
    "/usr/include", "/usr/lib", "/usr/lib64", "/usr/local", "/usr/local/bin", "/usr/local/etc",
    "/usr/local/games", "/usr/local/include", "/usr/local/lib", "/usr/local/sbin",
    "/usr/local/share", "/usr/local/src", "/usr/sbin", "/usr/share", "/usr/share/doc", "/usr/src",
    "/var", "/var/cache", "/var/lib", "/var/lock", "/var/log", "/var/mail", "/var/run",
    "/var/spool", "/var/tmp"]

def commonFiles : List String :=
  ["/dev/full", "/dev/null", "/dev/ptmx", "/dev/random", "/dev/stderr", "/dev/stdin",
    "/dev/stdout", "/dev/tty", "/dev/urandom", "/dev/zero", "/etc/fstab", "/etc/group",
    "/etc/host.conf", "/etc/hostname", "/etc/hosts", "/etc/issue", "/etc/ld.so.conf",
    "/etc/nsswitch.conf", "/etc/os-release", "/etc/passwd", "/etc/profile", "/etc/resolv.conf",
    "/etc/shadow", "/etc/shells", "/proc/cmdline", "/proc/cpuinfo", "/proc/filesystems",
    "/proc/loadavg", "/proc/meminfo", "/proc/mounts", "/proc/self/cmdline", "/proc/self/environ",
    "/proc/self/maps", "/proc/self/status", "/proc/stat", "/proc/uptime", "/proc/version"]

/-- Where a directory really stands: some have a second name. -/
def realPath : List String → List String
  | ["bin"] => ["usr", "bin"]
  | ["lib"] => ["usr", "lib"]
  | ["lib64"] => ["usr", "lib64"]
  | ["sbin"] => ["usr", "sbin"]
  | ["var", "lock"] => ["run", "lock"]
  | ["var", "run"] => ["run"]
  | path => path

/-- Whether a name leads nowhere below the directory it stands in. -/
def isStep (name : String) : Bool :=
  name.isEmpty || name = "." || name = ".."

def walk (directory : List String) : List String → Obstacle
  | [] => .forbidden
  | name :: rest =>
      if name = ".." then walk directory.dropLast rest
      else if isStep name then walk directory rest
      else if longestName < name.utf8ByteSize then .nameTooLong
      else
        let path := directory ++ [name]
        let text := String.join (path.map ("/" ++ ·))
        if text ∈ commonDirectories then walk (realPath path) rest
        else if text ∈ commonFiles then if rest.isEmpty then .forbidden else .notDirectory
        else .missing

/-- Walk on from the directory where the program was started, of which nothing is known but that it
has directories around it. -/
def walkFromHere (names : List String) : Obstacle :=
  match names.dropWhile isStep with
  | [] => .forbidden
  | name :: _ => if longestName < name.utf8ByteSize then .nameTooLong else .missing

/-- Why a program is not run that is asked for by this name. A name without a slash is sought in the
directories of programs. -/
def obstacleTo (name : String) : Obstacle :=
  let names := name.splitOn "/"
  match names with
  | [_] =>
      if name.isEmpty then .missing
      else if isStep name then .forbidden
      else if longestName < name.utf8ByteSize then .nameTooLong
      else .missing
  | names =>
      if pathLimit ≤ name.utf8ByteSize then .nameTooLong
      else if names.head? = some "" then walk [] names
      else walkFromHere names

end BootConsole.Probe
