import LintRunner.Number
import LintRunner.Terminal.Line
import LintRunner.Text.Blank

/-!
Tables with a heading, as wide as their cells ask for. Where that is more than a line holds, the
widest columns are narrowed and their cells broken between words.
-/

namespace LintRunner.Terminal.Table

def blanks (n : Nat) : List Char := List.replicate n ' '

def topTwo (widths : List Nat) : Nat × Nat :=
  let top := widths.foldr max 0
  (top, (widths.filter (· ≠ top)).foldr max 0)

/-- Takes `excess` away from the columns of width `top`, in equal shares of at most `most`. -/
def shareOut (top most : Nat) (excess sharers : Nat) : List Nat → List Nat
  | [] => []
  | width :: rest =>
    if width = top ∧ 0 < sharers then
      let share := min most (Number.nearest (excess / sharers : Rat)).toNat
      (width - share) :: shareOut top most (excess - share) (sharers - 1) rest
    else width :: shareOut top most excess sharers rest

/-- Narrows the widest columns until all fit, in at most so many rounds. -/
def narrowed (room : Nat) : Nat → List Nat → List Nat
  | 0, widths => widths
  | rounds + 1, widths =>
    let excess := widths.sum - room
    let (top, second) := topTwo widths
    if excess = 0 then widths
    else
      narrowed room rounds
        (shareOut top (min excess (top - second)) excess (widths.count top) widths)

/-- Words, each with the blanks behind it; the first also has those in front. The flag tells that the
first has begun. -/
def words (begun : Bool) : List Char → List (List Char)
  | [] => []
  | c :: rest =>
    let begun := begun || !Text.isBlank c
    match words begun rest with
    | [] => [[c]]
    | word :: more =>
      if begun && Text.isBlank c && word.head?.any (!Text.isBlank ·) then [c] :: word :: more
      else (c :: word) :: more

/-- Puts words on lines; `line` is the line so far. -/
def breakLines (width : Nat) (line : List Char) : List (List Char) → List (List Char)
  | [] => [line]
  | word :: rest =>
    if line = [] ∨ Text.cells line + Text.cells (Text.trimEnd word) ≤ width then
      breakLines width (line ++ word) rest
    else line :: breakLines width word rest

def withoutOverhang (width : Nat) (line : List Char) : List Char :=
  let blank := (line.reverse.takeWhile Text.isBlank).length
  line.take (line.length - min blank (line.length - width))

def fitted (width : Nat) (line : List Char) : List Char :=
  let line := abbreviated width (withoutOverhang width line)
  line ++ blanks (width - Text.cells line)

def cellLines (width : Nat) (text : String) : List (List Char) :=
  (Text.fields '\n' (printable text)).flatMap fun line =>
    (breakLines width [] (words false (pieces line).flatten)).map (fitted width)

def textWidth (text : String) : Nat := ((Text.lines (printable text)).map Text.cells).foldr max 0

structure Strokes where
  left : Char
  between : Char
  right : Char

def Strokes.draw (s : Strokes) (cells : List (List Char)) : String :=
  String.ofList (s.left :: [s.between].intercalate cells ++ [s.right]) ++ "\n"

def border (s : Strokes) (stroke : Char) (widths : List Nat) : String :=
  s.draw (widths.map fun width => List.replicate (width + 2) stroke)

def row (s : Strokes) (widths : List Nat) (cells : List String) : String :=
  let columns := (widths.zip cells).map fun (width, text) => (width, cellLines width text)
  let height := (columns.map (·.2.length)).foldr max 1
  String.join ((List.range height).map fun i =>
    s.draw (columns.map fun (width, lines) => ' ' :: lines.getD i (blanks width) ++ [' ']))

/-- What the columns have for their text: a line without the strokes and the blanks beside them. -/
def roomFor (lineWidth columns : Nat) : Nat := lineWidth - (3 * columns + 1)

/-- No column can have more than this for its text. -/
def mostFor (lineWidth columns : Nat) : Nat := lineWidth - (columns + 3)

def columnWidths (lineWidth columns : Nat) (rows : List (List String)) : List Nat :=
  let asked := (List.range columns).map fun i =>
    min (mostFor lineWidth columns) ((rows.map fun row => textWidth (row.getD i "")).foldr max 0)
  narrowed (roomFor lineWidth columns) (asked.foldr (· + ·) 0) asked

def draw (lineWidth : Nat) (heading : List String) (rows : List (List String)) : String :=
  let widths := columnWidths lineWidth heading.length (heading :: rows)
  border ⟨'┏', '┳', '┓'⟩ '━' widths
    ++ row ⟨'┃', '┃', '┃'⟩ widths heading
    ++ border ⟨'┡', '╇', '┩'⟩ '━' widths
    ++ String.join (rows.map (row ⟨'│', '│', '│'⟩ widths))
    ++ border ⟨'└', '┴', '┘'⟩ '─' widths

end LintRunner.Terminal.Table
