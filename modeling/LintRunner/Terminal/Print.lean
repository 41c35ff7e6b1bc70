import LintRunner.Terminal.Markup
import LintRunner.Terminal.Table
import LintRunner.World

/-!
Printing lines, headings and tables in a run.
-/

namespace LintRunner.Terminal

variable {σ : Type}

def plainKinds : List String := ["dumb", "unknown"]

def isTerminal : Run σ Bool := return (← Run.host).terminal

def knowsColors : Run σ Bool := do
  let h ← Run.host
  return h.terminal && !plainKinds.contains ((h.env.lookup "TERM").getD "").toLower

def shownPaint (colored : Bool) (paint : Option Paint) : Run σ (Option Paint) := do
  return if colored && (← knowsColors) then paint else none

/-- Prints the lines of a text. Unless told otherwise, colours are wanted on any terminal. -/
def printLine (colored : Option Bool) (paint : Option Paint) (text : String) : Run σ Unit := do
  let paint ← shownPaint (colored.getD (← isTerminal)) paint
  Run.print (rendered paint text)

def symbol (sign : String) (wanted : Bool) : String := if wanted then sign else ""

def printInfo (symbols : Bool) (colored : Option Bool) (text : String) : Run σ Unit :=
  printLine colored (some .cyan) (symbol "ℹ️ " symbols ++ text)

def printFailure (symbols : Bool) (colored : Option Bool) (text : String) : Run σ Unit :=
  printLine colored (some .red) (symbol "❌ " symbols ++ text)

def withoutTags (text : String) : Run σ String := do
  match Markup.plain? text with
  | some plain => return plain
  | none => Run.fail (.crash .strayTag)

def usualWidth : Nat := 80

def lineWidth : Run σ Nat := do
  match ((← Run.host).env.lookup "COLUMNS").bind fun s => Number.ofDigits? s.toList with
  | some (n + 1) => return n + 1
  | _ => return usualWidth

/-- An empty line and a title, which stands in a rule where colours are wanted. -/
def printHeading (colored : Bool) (title : String) : Run σ Unit := do
  if colored then
    Run.print "\n"
    let paint ← shownPaint true (some .brightGreen)
    let width ← lineWidth
    if title = "" then Run.print (plainRule paint width)
    else Run.print (titledRule paint width (← withoutTags title))
  else printLine (some false) none ("\n--- " ++ title ++ " ---")

def printTable (heading : List String) (rows : List (List String)) : Run σ Unit := do
  let width ← lineWidth
  Run.print (Table.draw width heading (← rows.mapM (·.mapM withoutTags)))

end LintRunner.Terminal
