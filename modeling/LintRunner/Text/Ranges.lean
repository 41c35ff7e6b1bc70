/-!
Character classes given as tables of code point ranges.
-/

namespace LintRunner.Text

def inRanges (ranges : List (Nat × Nat)) (c : Char) : Bool :=
  ranges.any fun (lo, hi) => lo ≤ c.toNat && c.toNat ≤ hi

end LintRunner.Text
