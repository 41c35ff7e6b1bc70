import LintRunner.Toml.Key
import LintRunner.Toml.Scalar

/-!
Lists and tables within a line of TOML, and with them all values. A list may run over several lines
and end in a comma; a table may not. A table is whole once its closing brace is read: dotted keys
can add to it only before, and never to a list or table that one of its keys was given.
-/

namespace LintRunner.Toml

def isCompound : Value → Bool
  | .list _ => true
  | .table _ => true
  | _ => false

structure Inline where
  entries : Table := []
  closed : List (List String) := []

def leadsTo (closed : List (List String)) (keys : List String) : Bool :=
  closed.any (·.isPrefixOf keys)

def Inline.add? (t : Inline) (keys : List String) (v : Value) : Option Inline := do
  if leadsTo t.closed keys then none
  let stem ← keys.getLast?
  let entries ← t.entries.change? false (Table.add? stem v) keys.dropLast
  return ⟨entries, if isCompound v then keys :: t.closed else t.closed⟩

def readEquals : List Char → Except Fault (List Char)
  | '=' :: rest => .ok (skipBlanks rest)
  | _ => .error .malformed

mutual

def readParts : Nat → List Char → Except Fault (Value × List Char)
  | 0, _ => .error .malformed
  | most + 1, '[' :: rest => do
    let (items, rest) ← readItems most (← skipLoose false rest)
    return (.list items, rest)
  | most + 1, '\x7b' :: rest => do
    match skipBlanks rest with
    | '\x7d' :: rest => return (.table [], rest)
    | rest =>
      let (t, rest) ← readMembers most {} rest
      return (.table t.entries, rest)
  | _ + 1, cs => readScalar cs

def readItems : Nat → List Char → Except Fault (List Value × List Char)
  | 0, _ => .error .malformed
  | _ + 1, ']' :: rest => .ok ([], rest)
  | most + 1, cs => do
    let (v, rest) ← readParts most cs
    match ← skipLoose false rest with
    | ',' :: rest =>
      let (vs, rest) ← readItems most (← skipLoose false rest)
      return (v :: vs, rest)
    | ']' :: rest => return ([v], rest)
    | _ => throw .malformed

def readMembers : Nat → Inline → List Char → Except Fault (Inline × List Char)
  | 0, _, _ => .error .malformed
  | most + 1, t, cs => do
    let (keys, rest) ← orMalformed (readKey cs)
    let (v, rest) ← readParts most (← readEquals rest)
    let t ← orMalformed (t.add? keys v)
    match skipBlanks rest with
    | ',' :: rest => readMembers most t (skipBlanks rest)
    | '\x7d' :: rest => return (t, rest)
    | _ => throw .malformed

end

/-- Reads a value. No value has more parts than twice its characters. -/
def readValue (cs : List Char) : Except Fault (Value × List Char) := readParts (2 * cs.length + 2) cs

end LintRunner.Toml
