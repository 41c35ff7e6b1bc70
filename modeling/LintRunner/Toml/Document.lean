import LintRunner.Text.Lines
import LintRunner.Toml.Compound

/-!
TOML documents. A document is read line by line into a draft, which knows the table that the last
header has opened and the tables that may not be opened or added to any more.
-/

namespace LintRunner.Toml

structure Draft where
  root : Table := []
  header : List String := []
  /-- Tables that no further header may open. -/
  opened : List (List String) := []
  /-- Tables made by dotted keys; they count as opened from the next header on. -/
  pending : List (List String) := []
  /-- Lists and tables written as values. Nothing can be added to them. -/
  closed : List (List String) := []

namespace Draft

def settle (d : Draft) : Draft := { d with opened := d.pending ++ d.opened, pending := [] }

def openTable? (d : Draft) (keys : List String) : Option Draft := do
  if d.opened.contains keys || leadsTo d.closed keys then none
  let root ← d.root.change? true some keys
  return { d with root, header := keys, opened := keys :: d.opened }

def addElement? (name : String) (t : Table) : Option Table :=
  match t.lookup name with
  | none => some (t ++ [(name, .list [.table []])])
  | some (.list items) => some (t.replace name (.list (items ++ [.table []])))
  | some _ => none

def isApart (keys other : List String) : Bool := !keys.isPrefixOf other

/-- Opens a new table at the end of a list. What was settled below the list's key concerned the
table before. -/
def openElement? (d : Draft) (keys : List String) : Option Draft := do
  if leadsTo d.closed keys then none
  let root ← d.root.change? true (addElement? (← keys.getLast?)) keys.dropLast
  return { d with
    root
    header := keys
    opened := keys :: d.opened.filter (isApart keys)
    closed := d.closed.filter (isApart keys) }

def between (header : List String) : List String → List (List String)
  | [] => []
  | [_] => []
  | name :: rest => (header ++ [name]) :: between (header ++ [name]) rest

def assign? (d : Draft) (keys : List String) (v : Value) : Option Draft := do
  let through := between d.header keys
  if through.any d.opened.contains then none
  let parent := d.header ++ keys.dropLast
  if leadsTo d.closed parent then none
  let root ← d.root.change? true (Table.add? (← keys.getLast?) v) parent
  return { d with
    root
    pending := through ++ d.pending
    closed := if isCompound v then (d.header ++ keys) :: d.closed else d.closed }

end Draft

def readBracket : List Char → Option (List Char)
  | ']' :: rest => some rest
  | _ => none

def readStatement (d : Draft) : List Char → Except Fault (Draft × List Char)
  | '#' :: rest => .ok (d, '#' :: rest)
  | '[' :: '[' :: rest => orMalformed do
    let (keys, rest) ← readKey (skipBlanks rest)
    return (← d.settle.openElement? keys, ← readBracket (← readBracket rest))
  | '[' :: rest => orMalformed do
    let (keys, rest) ← readKey (skipBlanks rest)
    return (← d.settle.openTable? keys, ← readBracket rest)
  | cs => do
    let (keys, rest) ← orMalformed (readKey cs)
    let (v, rest) ← readValue (← readEquals rest)
    return (← orMalformed (d.assign? keys v), rest)

def readLines : Nat → Draft → List Char → Except Fault Table
  | 0, _, _ => .error .malformed
  | most + 1, d, cs =>
    match skipBlanks cs with
    | [] => .ok d.root
    | '\n' :: rest => readLines most d rest
    | cs => do
      let (d, rest) ← readStatement d cs
      match ← skipComment false (skipBlanks rest) with
      | [] => return d.root
      | '\n' :: rest => readLines most d rest
      | _ => throw .malformed

/-- A carriage return goes with the line feed it stands before. -/
def dropReturns : List Char → List Char
  | '\r' :: '\n' :: rest => '\n' :: dropReturns rest
  | c :: rest => c :: dropReturns rest
  | [] => []

def readDocument (cs : List Char) : Except Fault Table :=
  let cs := dropReturns cs
  readLines (cs.length + 1) {} cs

end LintRunner.Toml
