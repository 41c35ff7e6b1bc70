import LintRunner.Number

/-!
How long something took, in the unit that suits it. All steps are carried out in 64-bit floating
point, as the number of seconds is.
-/

namespace LintRunner.Duration

def wholeMinutes (seconds : Rat) : Int :=
  let excess := seconds - 60 * (seconds / 60).floor
  let quotient := Number.binary64 (Number.binary64 (seconds - excess) / 60)
  let below := quotient.floor
  if 1 / 2 < quotient - below then below + 1 else below

def describe (seconds : Rat) : String :=
  let rounded := Number.binary64 (Number.atPlaces 2 seconds)
  if 60 ≤ rounded then
    let minutes := wholeMinutes rounded
    let rest := Number.binary64 (rounded - Number.binary64 (minutes * 60 : Int))
    toString minutes ++ "m " ++ Number.fixed 2 rest ++ "s"
  else if Number.binary64 (1 / 100) ≤ rounded then Number.fixed 2 rounded ++ "s"
  else
    let nanos := Number.truncate (Number.binary64 (seconds * 1000000000))
    if 1000000 < nanos then Number.fixed 2 (Number.binary64 (nanos / 1000000)) ++ "ms"
    else if 1000 < nanos then Number.fixed 2 (Number.binary64 (nanos / 1000)) ++ "us"
    else toString nanos ++ "ns"

end LintRunner.Duration
