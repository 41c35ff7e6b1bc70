import LintRunner.Starter.Component

/-!
The text of a starter configuration. Commands come in the order of the components; what two
components share is written once.
-/

namespace LintRunner.Starter

def insertText (s : String) : List String → List String
  | [] => [s]
  | t :: rest =>
    if s = t then t :: rest else if s < t then s :: t :: rest else t :: insertText s rest

def excludesOf (components : List Component) : List String :=
  (components.flatMap Component.excludes).foldr insertText []

def firstOfEach : List Declared → List Declared
  | [] => []
  | d :: rest => d :: (firstOfEach rest).filter (·.name ≠ d.name)

def commandsOf (components : List Component) : List Declared :=
  firstOfEach (components.flatMap Component.commands)

def keyText (name : String) : String := if name.toList.contains ' ' then "\"" ++ name ++ "\"" else name

def excludeSection : List String → List String
  | [] => []
  | [e] => ["exclude = [\"" ++ e ++ "\"]\n"]
  | es => [withEnds (["exclude = ["] ++ es.map (fun e => "    \"" ++ e ++ "\",") ++ ["]"])]

def commandSection (d : Declared) : String :=
  withEnds (("[commands." ++ keyText d.name ++ "]") :: d.body)

def render (components : List Component) : String :=
  "\n".intercalate
    (excludeSection (excludesOf components) ++ (commandsOf components).map commandSection)

end LintRunner.Starter
