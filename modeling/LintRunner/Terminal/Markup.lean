import LintRunner.Text.Blank

/-!
Headings and tables may hold tags in brackets, which are instructions and not text. A tag is closed by
its name behind a slash, or by a slash alone. A backslash in front of a tag makes it text.
-/

namespace LintRunner.Terminal.Markup

inductive Piece where
  | text (cs : List Char)
  | tag (body : List Char)
deriving DecidableEq, Repr

def startsTag (c : Char) : Bool := ('a' ≤ c && c ≤ 'z') || ['#', '/', '@'].contains c

/-- The body of the tag that is opened in front of these characters, and what follows it. -/
def tagBody? (cs : List Char) : Option (List Char × List Char) :=
  let body := cs.takeWhile fun c => c ≠ '[' && c ≠ ']'
  match body, cs.drop body.length with
  | first :: _, ']' :: rest => if startsTag first then some (body, rest) else none
  | _, _ => none

/-- In plain text a backslash in front of a bracket is dropped. -/
def unescape : List Char → List Char
  | '\\' :: '[' :: rest => '[' :: unescape rest
  | c :: rest => c :: unescape rest
  | [] => []

/-- Of the backslashes in front of a tag, each pair stands for one; an odd one makes the tag text. -/
def tagPieces (backslashes : Nat) (body : List Char) : List Piece :=
  let kept := Piece.text (List.replicate (backslashes / 2) '\\')
  if backslashes % 2 = 1 then [kept, .text ('[' :: body ++ [']'])] else [kept, .tag body]

/-- Cuts a text into at most so many pieces; `plain` is the text before, last character first. -/
def cutFrom (plain : List Char) : Nat → List Char → List Piece
  | 0, _ => []
  | _ + 1, [] => [.text (unescape plain.reverse)]
  | most + 1, c :: rest =>
    if c = '[' then
      match tagBody? rest with
      | some (body, rest) =>
        let escapes := (plain.takeWhile (· = '\\')).length
        .text (unescape (plain.drop escapes).reverse) :: tagPieces escapes body
          ++ cutFrom [] most rest
      | none => cutFrom (c :: plain) most rest
    else cutFrom (c :: plain) most rest

def cut (cs : List Char) : List Piece := cutFrom [] (cs.length + 1) cs

def styleName (cs : List Char) : List Char := (Text.trim cs).map Char.toLower

def close? (name : List Char) : List (List Char) → Option (List (List Char))
  | [] => none
  | top :: rest => if top = name then some rest else (close? name rest).map (top :: ·)

/-- Opens or closes a tag; `opened` holds the open ones, last first. -/
def step? (opened : List (List Char)) (body : List Char) : Option (List (List Char)) :=
  let name := body.takeWhile (· ≠ '=')
  match name with
  | '/' :: closed =>
    match Text.trim closed, opened with
    | [], [] => none
    | [], _ :: rest => some rest
    | _, _ => close? (styleName closed) opened
  | _ => some (styleName name :: opened)

def textOf? (opened : List (List Char)) : List Piece → Option (List Char)
  | [] => some []
  | .text cs :: rest => (textOf? opened rest).map (cs ++ ·)
  | .tag body :: rest => do textOf? (← step? opened body) rest

def plain? (s : String) : Option String := (textOf? [] (cut s.toList)).map String.ofList

end LintRunner.Terminal.Markup
