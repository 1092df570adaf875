/-!
# Durations in messages

* `Duration.text`: a whole number of milliseconds, as messages show it: below a second in
  milliseconds, else in seconds with as few decimals as are exact.
-/

namespace LiveTrip.Duration

/-- Three decimal places of a fraction of a second, without the zeros at the end. -/
def fraction (ms : Nat) : String :=
  let digits := [ms / 100 % 10, ms / 10 % 10, ms % 10]
  let kept := (digits.reverse.dropWhile (· = 0)).reverse
  String.join (kept.map toString)

/-- Text of a duration of `ms` milliseconds. -/
def text (ms : Nat) : String :=
  if ms = 0 then "0ns"
  else if ms < 1000 then toString ms ++ "ms"
  else
    let places := fraction (ms % 1000)
    if places.isEmpty then toString (ms / 1000) ++ "s"
    else toString (ms / 1000) ++ "." ++ places ++ "s"

end LiveTrip.Duration
