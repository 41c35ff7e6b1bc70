import LintRunner.Text.Cells
import LintRunner.Text.Lines

/-!
Text on its way to a terminal. It is printed as it stands, but for a few control characters, which are
dropped, and tabs, which are filled up to the next multiple of eight cells.
-/

namespace LintRunner.Terminal

inductive Paint where
  | red
  | green
  | yellow
  | cyan
  | brightGreen
deriving DecidableEq, Repr

def Paint.code : Paint → Nat
  | red => 31
  | green => 32
  | yellow => 33
  | cyan => 36
  | brightGreen => 92

/-- The text in a colour. Where there is no text there is no colour. -/
def painted (paint : Option Paint) (cs : List Char) : String :=
  match paint, cs with
  | some p, _ :: _ => "\x1b[" ++ toString p.code ++ "m" ++ String.ofList cs ++ "\x1b[0m"
  | _, _ => String.ofList cs

/-- The bell, backspace, vertical tab, form feed and carriage return. -/
def isDropped (c : Char) : Bool := [7, 8, 11, 12, 13].contains c.toNat

def cutAtTabs : List Char → List (List Char)
  | [] => []
  | c :: rest =>
    if c = '\t' then [c] :: cutAtTabs rest
    else match cutAtTabs rest with
      | [] => [[c]]
      | piece :: pieces => (c :: piece) :: pieces

def tabWidth : Nat := 8

/-- Fills up the pieces that end in a tab; the first of them starts at `column`. -/
def fillTabs (column : Nat) : List (List Char) → List (List Char)
  | [] => []
  | piece :: pieces =>
    if piece.getLast? = some '\t' then
      let body := piece.dropLast ++ [' ']
      let reached := column + Text.cells body
      let fill := (tabWidth - reached % tabWidth) % tabWidth
      (body ++ List.replicate fill ' ') :: fillTabs (reached + fill) pieces
    else piece :: fillTabs (column + Text.cells piece) pieces

def pieces (line : List Char) : List (List Char) := fillTabs 0 (cutAtTabs line)

def printable (text : String) : List Char := text.toList.filter (!isDropped ·)

def rendered (paint : Option Paint) (text : String) : String :=
  "\n".intercalate ((Text.fields '\n' (printable text)).map fun line =>
    String.join ((pieces line).map (painted paint))) ++ "\n"

/-- As much of a text as fits into some cells, filled up with a blank where a wide character is
cut. -/
def cropped (width : Nat) : List Char → List Char
  | [] => []
  | c :: rest =>
    if Text.cellsOf c ≤ width then c :: cropped (width - Text.cellsOf c) rest
    else List.replicate width ' '

/-- The text, or its beginning with a mark that says that more was there. -/
def abbreviated (width : Nat) (cs : List Char) : List Char :=
  if Text.cells cs ≤ width then cs else cropped (width - 1) cs ++ ['…']

def plainRule (paint : Option Paint) (width : Nat) : String :=
  painted paint (List.replicate width '─') ++ "\n"

/-- A line with a title in its middle, which keeps its own colour. -/
def titledRule (paint : Option Paint) (width : Nat) (title : String) : String :=
  let title := (printable title).map fun c => if c = '\n' then ' ' else c
  let title := abbreviated (width - 4) (pieces title).flatten
  let left := (width - Text.cells title) / 2 - 1
  let right := width - left - Text.cells title - 2
  painted paint (List.replicate left '─' ++ [' ']) ++ String.ofList title
    ++ painted paint (' ' :: List.replicate right '─') ++ "\n"

end LintRunner.Terminal
