import LintRunner.Terminal.Print

/-!
What a run reports about each target, and the summary of what went wrong.
-/

namespace LintRunner

structure Glyphs where
  ring : String
  tidied : String
  unchanged : String
  maybeChanged : String
  clean : String
  dirty : String
  empty : String
  bullet : String
  broken : String

namespace Glyphs

def pictures : Glyphs where
  ring := "💍"
  tidied := "💧"
  unchanged := "✨"
  maybeChanged := "🤷"
  clean := "💯"
  dirty := "💩"
  empty := "⚫"
  bullet := "▶"
  broken := "💥"

def plain : Glyphs where
  ring := ":"
  tidied := "*"
  unchanged := "|"
  maybeChanged := "?"
  clean := "|"
  dirty := "*"
  empty := "_"
  bullet := "*"
  broken := "!"

end Glyphs

structure Reporter where
  ascii : Bool := false
  quiet : Bool := false
  color : Bool := true
  /-- Whether failures are also written as annotations for the service that runs the checks. -/
  annotates : Bool := false
deriving DecidableEq, Repr

structure FailedTarget where
  configKey : String
  paths : List Path
  reason : String
deriving DecidableEq, Repr

namespace Reporter

variable {σ : Type} (r : Reporter)

/-- The setting that asks for annotations, whatever its value is unless it is empty. -/
def annotatesIn (env : List (String × String)) : Bool :=
  (env.lookup "GITHUB_ACTIONS").any (· != "")

def glyphs : Glyphs := if r.ascii then .plain else .pictures

/-- Lines that are shown even by a quiet reporter. -/
def insist (paint : Option Terminal.Paint) (text : String) : Run σ Unit :=
  Terminal.printLine (some r.color) paint text

def say (paint : Option Terminal.Paint) (text : String) : Run σ Unit := do
  unless r.quiet do r.insist paint text

def starting (title description : String) : Run σ Unit :=
  r.say none (r.glyphs.ring ++ " " ++ title ++ " " ++ description)

def tidied (name summary : String) : Run σ Unit :=
  r.say (some .green) (r.glyphs.tidied ++ " Tidied by " ++ name ++ ":    " ++ summary)

def unchanged (name summary : String) : Run σ Unit :=
  r.say none (r.glyphs.unchanged ++ " Unchanged by " ++ name ++ ": " ++ summary)

def maybeChanged (name summary : String) : Run σ Unit :=
  r.say (some .yellow) (r.glyphs.maybeChanged ++ " Maybe changed by " ++ name ++ ": " ++ summary)

def passed (name summary : String) : Run σ Unit :=
  r.say (some .green) (r.glyphs.clean ++ " Passed " ++ name ++ ": " ++ summary)

/-- What a tool wrote, without the line ends behind it; nothing if it wrote nothing. -/
def echo (out : Option String) : Run σ Unit := do
  match out with
  | none => return
  | some "" => return
  | some text =>
    r.insist none (String.ofList (text.toList.reverse.dropWhile (· = '\n')).reverse)

def remark (name : String) (paths : List Path) : String :=
  match paths with
  | [p] => "::error file=" ++ p.text ++ "::Linting with " ++ name ++ " failed"
  | _ => "::error::Linting with " ++ name ++ " failed"

def lintFailed (name summary : String) (paths : List Path) (out err : Option String) :
    Run σ Unit := do
  r.insist (some .red) (r.glyphs.dirty ++ " Failed " ++ name ++ ": " ++ summary)
  r.echo out
  r.echo err
  if r.annotates then r.insist none (remark name paths)

def broken (name summary : String) : Run σ Unit :=
  r.insist (some .red) (r.glyphs.broken ++ " Error from " ++ name ++ ": " ++ summary)

def noFiles (text : String) : Run σ Unit := r.say none (r.glyphs.empty ++ " " ++ text)

def error (text : String) : Run σ Unit := r.insist (some .red) text

def failureLines (f : FailedTarget) : List String :=
  ["  " ++ r.glyphs.bullet ++ " [" ++ f.configKey ++ "] failed for ["
      ++ " ".intercalate (f.paths.map (·.text)) ++ "]",
    "    " ++ f.reason]

def summary (noun : String) (failed : List FailedTarget) : String :=
  let heading := "Error" ++ (if 1 < failed.length then "s" else "") ++ " when " ++ noun ++ " files:"
  "\n".intercalate (heading :: failed.flatMap r.failureLines)

end Reporter

end LintRunner
