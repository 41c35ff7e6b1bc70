/-!
Rounding of exact numbers: to whole numbers, to decimal places, and to the numbers that 64 bits of
binary floating point can hold. A number halfway between two neighbours goes to the even one. And
the reading and writing of decimal digits, of which a whole number may have only so many.
-/

namespace LintRunner.Number

def nearest (x : Rat) : Int :=
  let below := x.floor
  let excess := x - below
  if excess < 1 / 2 then below
  else if 1 / 2 < excess then below + 1
  else if below % 2 = 0 then below
  else below + 1

def truncate (x : Rat) : Int := if x < 0 then -((-x).floor) else x.floor

def atPlaces (places : Nat) (x : Rat) : Rat := nearest (x * 10 ^ places) / 10 ^ places

def twoTo (e : Int) : Rat := if e < 0 then 1 / 2 ^ e.natAbs else 2 ^ e.natAbs

/-- The exponent of the greatest power of two that is no greater than `x`, which is positive. -/
def binaryExponent (x : Rat) : Int :=
  let guess : Int := (Nat.log2 x.num.natAbs : Int) - Nat.log2 x.den
  if x < twoTo guess then guess - 1 else guess

/-- The nearest number with 53 binary digits; none if that is beyond the range of exponents. -/
def binary64? (x : Rat) : Option Rat :=
  if x = 0 then some 0
  else
    let size := if x < 0 then -x else x
    let unit := twoTo (max (binaryExponent size - 52) (-1074))
    let rounded := nearest (size / unit) * unit
    if rounded < twoTo 1024 then some (if x < 0 then -rounded else rounded) else none

def binary64 (x : Rat) : Rat := (binary64? x).getD x

/-- The 64-bit number nearest to `n` times a power of ten; none if that is beyond the range. -/
def decimal? (n : Nat) (e : Int) : Option Rat :=
  let digits : Int := (toString n).length + e
  if n = 0 ∨ digits < -400 then some 0
  else if 400 < digits then none
  else binary64? (if e < 0 then n / 10 ^ e.natAbs else n * 10 ^ e.natAbs)

def ofDigits? (cs : List Char) : Option Nat :=
  if cs ≠ [] ∧ cs.all Char.isDigit then
    some (cs.foldl (fun n c => n * 10 + (c.toNat - 48)) 0)
  else none

/-- A whole number is neither read from more decimal digits than this nor written with more. -/
def mostDigits : Nat := 4300

/-- The least number that has more than so many decimal digits. -/
def leastBeyond (digits : Nat) : Nat := Nat.pow 10 digits

theorem leastBeyond_pos (digits : Nat) : 0 < leastBeyond digits := Nat.pow_pos (by decide)

def tooLongText : String :=
  "Exceeds the limit (" ++ toString mostDigits ++ " digits) for integer string conversion; "
    ++ "use sys.set_int_max_str_digits() to increase the limit"

/-- The decimal digits of a whole number; none if there are too many. -/
def written? (n : Int) : Option String :=
  if leastBeyond mostDigits ≤ n.natAbs then none else some (toString n)

def padLeft (width : Nat) (s : String) : String :=
  String.ofList (List.replicate (width - s.length) '0') ++ s

def fixed (places : Nat) (x : Rat) : String :=
  let size := if x < 0 then -x else x
  let scale := Nat.pow 10 places
  let units := (nearest (size * scale)).toNat
  (if x < 0 then "-" else "") ++ toString (units / scale) ++ "."
    ++ padLeft places (toString (units % scale))

end LintRunner.Number
