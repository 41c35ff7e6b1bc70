import LintRunner.Config.Command

/-!
A whole configuration: what the project excludes, and its commands in the order of declaration.
-/

namespace LintRunner.Config

structure Project where
  excludes : List String
  commands : List (String × Command)
deriving DecidableEq, Repr

namespace Project

def readCommands : Value → Verdict (List (String × Command))
  | .table entries => .eachKey Command.read entries
  | _ => .refuse .notTable

def keys : List String := ["exclude", "commands"]

def read : Value → Verdict Project
  | .table t =>
    Project.mk
      <$> Command.optional t "exclude" [] readTexts
      <*> Command.optional t "commands" [] readCommands
      <* Command.onlyKeys keys t
  | _ => .refuse (.notModel .project)

end Project

end LintRunner.Config
