/-!
One text put in place of another.
-/

namespace LintRunner.Text

/-- Every `old` replaced by `new`, from the left; `skip` more characters belong to one that has been
replaced already. -/
def substitute (old new : List Char) : Nat → List Char → List Char
  | _, [] => []
  | skip + 1, _ :: rest => substitute old new skip rest
  | 0, c :: rest =>
    if old.isPrefixOf (c :: rest) then new ++ substitute old new (old.length - 1) rest
    else c :: substitute old new 0 rest

def replaced (old new text : String) : String :=
  String.ofList (substitute old.toList new.toList 0 text.toList)

end LintRunner.Text
