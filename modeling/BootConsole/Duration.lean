/-!
# Durations

A length of time in whole nanoseconds, and the way messages write one.
-/

namespace BootConsole

structure Duration where
  nanoseconds : Nat
  deriving DecidableEq, Repr

namespace Duration

def ofSeconds (count : Nat) : Duration :=
  ⟨count * 1000000000⟩

def ofMilliseconds (count : Nat) : Duration :=
  ⟨count * 1000000⟩

/-- The first whole millisecond at which the duration is over. -/
def milliseconds (duration : Duration) : Nat :=
  (duration.nanoseconds + 999999) / 1000000

def paddedDigits (width value : Nat) : List Char :=
  let digits := Nat.toDigits 10 value
  List.replicate (width - digits.length) '0' ++ digits

/-- The decimal point and the digits of `part` out of `10 ^ places`, up to the last one that is not
zero; nothing for zero. -/
def fraction (places part : Nat) : List Char :=
  if part = 0 then []
  else '.' :: ((paddedDigits places part).reverse.dropWhile (· == '0')).reverse

def decimal (places value : Nat) : List Char :=
  let unit := Nat.pow 10 places
  Nat.toDigits 10 (value / unit) ++ fraction places (value % unit)

/-- A duration is written in the largest of seconds, milliseconds, microseconds and nanoseconds of
which it holds at least one, and without needless zeros. -/
def text (duration : Duration) : String :=
  let count := duration.nanoseconds
  if 1000000000 ≤ count then String.ofList (decimal 9 count) ++ "s"
  else if 1000000 ≤ count then String.ofList (decimal 6 count) ++ "ms"
  else if 1000 ≤ count then String.ofList (decimal 3 count) ++ "µs"
  else String.ofList (decimal 0 count) ++ "ns"

end Duration

end BootConsole
