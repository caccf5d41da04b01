/-!
# Times that are shown

A time is shown in the largest unit of which it holds at least one, with all decimals that it has.
-/

namespace LangCheck.Command

/-- The decimals of a fraction of a unit, given the number of places that the unit has; zeros at the
end are left out. -/
def decimals (places fraction : Nat) : List Char :=
  let digits := Nat.toDigits 10 fraction
  let padded := List.replicate (places - digits.length) '0' ++ digits
  (padded.reverse.dropWhile (· = '0')).reverse

/-- A number of units, each of which has the given number of decimal places. -/
def inUnit (nanos places : Nat) (unit : String) : String :=
  let whole := toString (nanos / Nat.pow 10 places)
  match decimals places (nanos % Nat.pow 10 places) with
  | [] => whole ++ unit
  | ds => whole ++ "." ++ String.ofList ds ++ unit

/-- A time in nanoseconds. -/
def renderNanos (nanos : Nat) : String :=
  if 1000000000 ≤ nanos then inUnit nanos 9 "s"
  else if 1000000 ≤ nanos then inUnit nanos 6 "ms"
  else if 1000 ≤ nanos then inUnit nanos 3 "µs"
  else toString nanos ++ "ns"

example : renderNanos 1234500 = "1.2345ms" := by decide +kernel

end LangCheck.Command
