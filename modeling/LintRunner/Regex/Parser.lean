import LintRunner.Regex.Basic
import LintRunner.Regex.Names
import LintRunner.Regex.SyntaxError

/-!
Reading a regular expression. The reader sees one token at a time, a character or a backslash with
the character after it, and numbers groups in the order in which they open.
-/

namespace LintRunner.Regex

structure Modes where
  ignoreCase : Bool := false
  multiline : Bool := false
  dotAll : Bool := false
  verbose : Bool := false
  asciiOnly : Bool := false
  unicode : Bool := false
  template : Bool := false
deriving DecidableEq, Repr

/-- The least and greatest number of characters an expression can match; none is no limit. -/
structure Width where
  least : Nat
  most : Option Nat
deriving DecidableEq, Repr

namespace Width

def add (a b : Width) : Width :=
  ⟨a.least + b.least, a.most.bind fun m => b.most.map (m + ·)⟩

def either (a b : Width) : Width :=
  ⟨min a.least b.least, a.most.bind fun m => b.most.map (max m)⟩

def times (a : Width) (least : Nat) (most : Option Nat) : Width :=
  ⟨a.least * least,
    if a.most = some 0 then some 0 else a.most.bind fun m => most.map (m * ·)⟩

end Width

def width (groups : List (Nat × Width)) : Regex → Width
  | empty => ⟨0, some 0⟩
  | set _ _ => ⟨1, some 1⟩
  | seq a b => (a.width groups).add (b.width groups)
  | alt a b => (a.width groups).either (b.width groups)
  | repeated r least most _ => (r.width groups).times least most
  | group _ r => r.width groups
  | again _ n => (groups.lookup n).getD ⟨0, none⟩
  | ifGroup _ yes no => (yes.width groups).either (no.width groups)
  | atomic r => r.width groups
  | _ => ⟨0, some 0⟩

structure Reader where
  next : Option (List Char)
  rest : List Char
  /-- The number of characters before `rest`. -/
  index : Nat
  modes : Modes
  /-- One more than the number of groups opened so far. -/
  groups : Nat
  closed : List (Nat × Width)
  names : List (String × Nat)
  /-- Inside a lookbehind: the value of `groups` where the outermost one began. -/
  lookbehind : Option Nat
  /-- Groups that conditions ask about, with the place of the first question. -/
  asked : List (Nat × Nat)
  fixedLookbehinds : Bool

abbrev Read := StateT Reader (Except ReadError)

/-- A trailing backslash is refused as soon as it would be the token to come. -/
def tokenAt (index : Nat) : List Char → Except ReadError (Option (List Char) × List Char × Nat)
  | [] => .ok (none, [], index)
  | ['\\'] => .error (.flaw .trailingBackslash (some index))
  | '\\' :: c :: rest => .ok (some ['\\', c], rest, index + 2)
  | c :: rest => .ok (some [c], rest, index + 1)

namespace Read

def failAt {α : Type} (f : Flaw) (position : Nat) : Read α := throw (.flaw f (some position))

def here : Read Nat := do
  let r ← get
  return r.index - (r.next.getD []).length

/-- Refuses `offset` characters before the token to come. -/
def failBack {α : Type} (f : Flaw) (offset : Nat) : Read α := do failAt f ((← here) - offset)

def fail {α : Type} (f : Flaw) : Read α := failBack f 0

def peek : Read (Option (List Char)) := return (← get).next

def goOn (index : Nat) (chars : List Char) : Read Unit := do
  let (next, rest, index) ← tokenAt index chars
  modify ({ · with next, rest, index })

def take : Read (Option (List Char)) := do
  let r ← get
  goOn r.index r.rest
  return r.next

def accept (c : Char) : Read Bool := do
  if (← peek) = some [c] then
    let _ ← take
    return true
  else return false

def takeWhile (p : Char → Bool) : Nat → Read (List Char)
  | 0 => return []
  | n + 1 => do
    match ← peek with
    | some [c] =>
      if p c then
        let _ ← take
        return c :: (← takeWhile p n)
      else return []
    | _ => return []

def bound : Read Nat := do
  let r ← get
  return r.rest.length + 2

def takeUntil (closing : Char) (what : String) : Nat → List Char → Read (List Char)
  | 0, seen => return seen
  | n + 1, seen => do
    match ← take with
    | none =>
      if seen.isEmpty then fail (.missing what)
      else failBack (.unterminatedName (String.singleton closing)) seen.length
    | some token =>
      if token = [closing] then
        if seen.isEmpty then failBack (.missing what) 1 else return seen
      else takeUntil closing what n (seen ++ token)

def name (closing : Char) (what : String) : Read String := do
  return String.ofList (← takeUntil closing what (← bound) [])

end Read

def isOctal (c : Char) : Bool := '0' ≤ c && c ≤ '7'

def isHex (c : Char) : Bool := c.isDigit || ('a' ≤ c && c ≤ 'f') || ('A' ≤ c && c ≤ 'F')

def digitValue (c : Char) : Nat :=
  if c.isDigit then c.toNat - 48
  else if 'a' ≤ c && c ≤ 'f' then c.toNat - 87
  else c.toNat - 55

def numeral (base : Nat) (ds : List Char) : Nat :=
  ds.foldl (fun n d => n * base + digitValue d) 0

def isIdentifier (s : String) : Bool :=
  match s.toList with
  | [] => false
  | c :: rest => Text.isWord c && !Text.isDecimal c && rest.all Text.isWord

inductive Single where
  | one (code : Nat)
  | kind (k : CharKind) (negated : Bool)

def controlEscape? : Char → Option Nat
  | 'a' => some 7
  | 'f' => some 12
  | 'n' => some 10
  | 'r' => some 13
  | 't' => some 9
  | 'v' => some 11
  | '\\' => some 92
  | _ => none

def kindEscape? : Char → Option Single
  | 'd' => some (.kind .digit false)
  | 'D' => some (.kind .digit true)
  | 's' => some (.kind .space false)
  | 'S' => some (.kind .space true)
  | 'w' => some (.kind .word false)
  | 'W' => some (.kind .word true)
  | _ => none

/-- The escapes that mean the same inside and outside a set. -/
def commonEscape? (c : Char) : Read (Option Nat) := do
  let hex (digits : Nat) : Read Nat := do
    let ds ← Read.takeWhile isHex digits
    let shown := '\\' :: c :: ds
    if ds.length ≠ digits then Read.failBack (.incompleteEscape (String.ofList shown)) shown.length
    let n := numeral 16 ds
    if n > 0x10FFFF then Read.failBack (.badEscape (String.ofList shown)) shown.length
    return n
  match c with
  | 'x' => return some (← hex 2)
  | 'u' => return some (← hex 4)
  | 'U' => return some (← hex 8)
  | 'N' => do
    unless ← Read.accept '\x7b' do Read.fail .missingBrace
    let name ← Read.name '\x7d' "character name"
    match codeOfName? name with
    | some n => return some n
    | none => Read.failBack (.unknownCharacter name) (name.length + 4)
  | _ => return none

def octal (shown : List Char) : Read Nat := do
  let n := numeral 8 (shown.drop 1)
  if n > 0o377 then Read.failBack (.octalTooLarge (String.ofList shown)) shown.length
  return n

def plainEscape (c : Char) : Read Nat := do
  if c.isAlpha || c.isDigit then Read.failBack (.badEscape (String.ofList ['\\', c])) 2
  return c.toNat

def setEscape (c : Char) : Read Single := do
  if c = 'b' then return .one 8
  if let some n := controlEscape? c then return .one n
  if let some k := kindEscape? c then return k
  if let some n ← commonEscape? c then return .one n
  if isOctal c then return .one (← octal ('\\' :: c :: (← Read.takeWhile isOctal 2)))
  return .one (← plainEscape c)

def Single.item (modes : Modes) : Single → SetItem
  | .one n => .range n n
  | .kind k negated => .kind k negated modes.asciiOnly

def setUnit : List Char → Read Single
  | ['\\', c] => setEscape c
  | c :: _ => return .one c.toNat
  | [] => return .one 0

/-- The members of a set up to its closing bracket; `opened` is the place of the opening one. -/
def setItems (modes : Modes) (opened : Nat) : Nat → List SetItem → Read (List SetItem)
  | 0, seen => return seen
  | n + 1, seen => do
    match ← Read.take with
    | none => Read.failAt .unterminatedSet opened
    | some this =>
      if this = [']'] && !seen.isEmpty then return seen
      let first ← setUnit this
      if ← Read.accept '-' then
        match ← Read.take with
        | none => Read.failAt .unterminatedSet opened
        | some [']'] => return seen ++ [first.item modes, .range 45 45]
        | some that =>
          let last ← setUnit that
          let bad : Read (List SetItem) :=
            Read.failBack (.badRange (String.ofList this) (String.ofList that))
              (this.length + 1 + that.length)
          match first, last with
          | .one lo, .one hi => if hi < lo then bad else setItems modes opened n (seen ++ [.range lo hi])
          | _, _ => bad
      else setItems modes opened n (seen ++ [first.item modes])

def Modes.folding (m : Modes) : Folding :=
  if !m.ignoreCase then .none else if m.asciiOnly then .ascii else .full

def literal (modes : Modes) (code : Nat) : Regex := .set modes.folding ⟨false, [.range code code]⟩

inductive PieceKind where
  | place
  | repetition
  | other
deriving DecidableEq

structure Piece where
  regex : Regex
  kind : PieceKind

def other (r : Regex) : Piece := ⟨r, .other⟩

def place (r : Regex) : Piece := ⟨r, .place⟩

def checkOpen (g : Nat) (offset : Nat) : Read Unit := do
  let r ← get
  if g ≥ r.groups || (r.closed.lookup g).isNone then Read.failBack .openGroup offset

def checkLookbehind (g : Nat) : Read Unit := do
  if let some limit := (← get).lookbehind then
    checkOpen g 0
    if g ≥ limit then Read.fail .groupOfSameLookbehind

def reference (modes : Modes) (digits : List Char) : Read Piece := do
  let n := numeral 10 digits
  if n < (← get).groups then
    checkOpen n (digits.length + 1)
    checkLookbehind n
    return other (.again modes.folding n)
  Read.failBack (.invalidReference n) digits.length

def escape (modes : Modes) (c : Char) : Read Piece := do
  match c with
  | 'A' => return place .textStart
  | 'Z' => return place .textEnd
  | 'b' => return place (.boundary false modes.asciiOnly)
  | 'B' => return place (.boundary true modes.asciiOnly)
  | _ =>
  if let some n := controlEscape? c then return other (literal modes n)
  if let some k := kindEscape? c then
    return other (.set modes.folding ⟨false, [k.item modes]⟩)
  if let some n ← commonEscape? c then return other (literal modes n)
  if c = '0' then
    return other (literal modes (numeral 8 (← Read.takeWhile isOctal 2)))
  if c.isDigit then
    match ← Read.takeWhile Char.isDigit 1 with
    | [d] =>
      if isOctal c && isOctal d then
        match ← Read.takeWhile isOctal 1 with
        | [e] => return other (literal modes (← octal ['\\', c, d, e]))
        | _ => reference modes [c, d]
      else reference modes [c, d]
    | _ => reference modes [c]
  else return other (literal modes (← plainEscape c))

def isModeLetter (c : Char) : Bool := ['i', 'L', 'm', 's', 'x', 'a', 't', 'u'].contains c

def Modes.with (m : Modes) (letters : List Char) (on : Bool) : Modes :=
  letters.foldl (fun m c =>
    match c with
    | 'i' => { m with ignoreCase := on }
    | 'm' => { m with multiline := on }
    | 's' => { m with dotAll := on }
    | 'x' => { m with verbose := on }
    | 'a' => { m with asciiOnly := on }
    | 'u' => { m with unicode := on }
    | 't' => { m with template := on }
    | _ => m) m

/-- The letters after the first one, up to a character that ends them. -/
def modeLetters (missing : String) (off : Bool) (closers : List Char) (c : Char) :
    Nat → List Char → Read (List Char × Char)
  | 0, seen => return (seen, c)
  | n + 1, seen => do
    if off && (c = 'a' || c = 'u' || c = 'L') then Read.fail .typeFlagOff
    if c = 'L' then Read.fail .localeFlag
    let seen := seen ++ [c]
    if !off && seen.contains 'a' && seen.contains 'u' then Read.fail .incompatibleFlags
    match ← Read.take with
    | none => Read.fail (.missing missing)
    | some token =>
      match token with
      | [d] =>
        if closers.contains d then return (seen, d)
        if isModeLetter d then modeLetters missing off closers d n seen
        else if Text.isAlphanumeric d && !Text.isDecimal d then Read.failBack .unknownFlag 1
        else Read.failBack (.missing missing) 1
      | _ => Read.failBack (.missing missing) token.length

/-- Modes turned on and off for a group, or none if they are for the whole expression. -/
def modeChange (c : Char) : Read (Option (List Char × List Char)) := do
  let n ← Read.bound
  let (on, stop) ←
    if c = '-' then pure ([], '-')
    else modeLetters "-, : or )" false [')', '-', ':'] c n []
  if stop = ')' then
    modify fun r => { r with modes := r.modes.with on true }
    return none
  if on.contains 't' then Read.failBack .globalFlagOn 1
  let off ←
    if stop = '-' then
      match ← Read.take with
      | none => Read.fail (.missing "flag")
      | some [d] =>
        if isModeLetter d then
          let (off, _) ← modeLetters ":" true [':'] d n []
          pure off
        else if Text.isAlphanumeric d && !Text.isDecimal d then Read.failBack .unknownFlag 1
        else Read.failBack (.missing "flag") 1
      | some token => Read.failBack (.missing "flag") token.length
    else pure []
  if off.contains 't' then Read.failBack .globalFlagOff 1
  if on.any off.contains then Read.failBack .flagOnAndOff 1
  return some (on, off)

/-- The modes inside a group. Asking for ASCII ends Unicode matching, and the other way round. -/
def Modes.change (m : Modes) (on off : List Char) : Modes :=
  let m := if on.contains 'a' || on.contains 'u' then { m with asciiOnly := false, unicode := false } else m
  (m.with on true).with off false

/-- The bounds in braces, or none if they are no bounds but plain characters. -/
def braceBounds (opened : Nat) : Read (Option (Nat × Option Nat)) := do
  let n ← Read.bound
  let lo ← Read.takeWhile Char.isDigit n
  let hi ← if ← Read.accept ',' then Read.takeWhile Char.isDigit n else pure lo
  unless ← Read.accept '\x7d' do return none
  let limit := 4294967295
  let least := numeral 10 lo
  let most := if hi.isEmpty then none else some (numeral 10 hi)
  if least ≥ limit || most.any (· ≥ limit) then throw .countTooLarge
  if most.any (· < least) then Read.failAt .repeatBounds opened
  return some (least, most)

def readGreed : Read Greed := do
  if ← Read.accept '?' then return .lazy
  if ← Read.accept '+' then return .possessive
  return .greedy

def repeatLast (least : Nat) (most : Option Nat) (opened : Nat) (seen : List Piece) : Read (List Piece) := do
  match seen with
  | [] => Read.failAt .nothingToRepeat opened
  | last :: others =>
    if last.kind = .place then Read.failAt .nothingToRepeat opened
    if last.kind = .repetition then Read.failAt .multipleRepeat opened
    return ⟨.repeated last.regex least most (← readGreed), .repetition⟩ :: others

def openGroup (name : Option String) : Read Nat := do
  let r ← get
  if let some name := name then
    if let some earlier := r.names.lookup name then
      Read.failBack (.redefinedGroup name r.groups earlier) (name.length + 1)
  let names := match name with
    | some name => (name, r.groups) :: r.names
    | none => r.names
  modify ({ · with groups := r.groups + 1, names })
  return r.groups

def closeGroup (g : Nat) (r : Regex) : Read Unit :=
  modify fun s => { s with closed := (g, r.width s.closed) :: s.closed }

def checkName (name : String) : Read Unit := do
  unless isIdentifier name do Read.failBack (.badGroupName name) (name.length + 1)

def skipComment (opened : Nat) : Nat → Read Unit
  | 0 => return
  | n + 1 => do
    match ← Read.peek with
    | none => Read.failAt .unterminatedComment opened
    | some token =>
      let _ ← Read.take
      if token = [')'] then return else skipComment opened n

def skipLine : Nat → Read Unit
  | 0 => return
  | n + 1 => do
    match ← Read.take with
    | none => return
    | some token => if token = ['\n'] then return else skipLine n

def closeParenthesis (opened : Nat) : Read Unit := do
  unless ← Read.accept ')' do Read.failAt .unterminatedGroup opened

def conditionGroup (name : String) : Read Nat := do
  if isIdentifier name then
    match (← get).names.lookup name with
    | some g => return g
    | none => Read.failBack (.unknownGroup name) (name.length + 1)
  else
    unless name.toList.all Char.isDigit do Read.failBack (.badGroupName name) (name.length + 1)
    let g := numeral 10 name.toList
    if g = 0 then Read.failBack .badGroupNumber (name.length + 1)
    let position := (← Read.here) - name.length - 1
    modify fun r =>
      if (r.asked.lookup g).isSome then r else { r with asked := (g, position) :: r.asked }
    return g

inductive Opening where
  | nothing
  | piece (p : Piece)
  | capture (name : Option String)
  | plain (modes : Modes)
  | atomic
  | look (behind negated : Bool)
  | condition (group : Nat)

/-- Reads what follows the question mark. `first` says that nothing has been read before. -/
def opening (modes : Modes) (opened : Nat) (first : Bool) : Read Opening := do
  match ← Read.take with
  | none => Read.fail .unexpectedEnd
  | some ['P'] =>
    if ← Read.accept '<' then
      let name ← Read.name '>' "group name"
      checkName name
      return .capture (some name)
    if ← Read.accept '=' then
      let name ← Read.name ')' "group name"
      checkName name
      match (← get).names.lookup name with
      | none => Read.failBack (.unknownGroup name) (name.length + 1)
      | some g =>
        checkOpen g (name.length + 1)
        checkLookbehind g
        return .piece (other (.again modes.folding g))
    match ← Read.take with
    | none => Read.fail .unexpectedEnd
    | some token => Read.failBack (.unknownExtension (String.ofList ('P' :: token))) (token.length + 2)
  | some [':'] => return .plain modes
  | some ['#'] =>
    skipComment opened (← Read.bound)
    return .nothing
  | some ['='] => return .look false false
  | some ['!'] => return .look false true
  | some ['<'] =>
    match ← Read.take with
    | none => Read.fail .unexpectedEnd
    | some ['='] => return .look true false
    | some ['!'] => return .look true true
    | some token => Read.failBack (.unknownExtension (String.ofList ('<' :: token))) (token.length + 2)
  | some ['('] =>
    let g ← conditionGroup (← Read.name ')' "group name")
    checkLookbehind g
    return .condition g
  | some ['>'] => return .atomic
  | some [c] =>
    if isModeLetter c || c = '-' then
      match ← modeChange c with
      | none =>
        unless first do Read.failAt .flagsNotFirst opened
        return .nothing
      | some (on, off) => return .plain (modes.change on off)
    else Read.failBack (.unknownExtension (String.singleton c)) 2
  | some token => Read.failBack (.unknownExtension (String.ofList token)) (token.length + 1)

def isPatternBlank (c : Char) : Bool := [' ', '\t', '\n', '\r', '\x0b', '\x0c'].contains c

def together (seen : List Piece) : Regex := inOrder (seen.reverse.map (·.regex))

mutual

/-- Alternatives. At the outermost level the modes of the whole expression may still change. -/
def readAlternatives (modes : Modes) (outermost : Bool) : Nat → List Regex → Read Regex
  | 0, seen => return oneOf seen.reverse
  | n + 1, seen => do
    let r ← readSequence modes outermost (outermost && seen.isEmpty) n []
    let seen := r :: seen
    if ← Read.accept '|' then readAlternatives modes outermost n seen
    else return oneOf seen.reverse

/-- Pieces one after another, the last first in `seen`. -/
def readSequence (modes : Modes) (outermost first : Bool) : Nat → List Piece → Read Regex
  | 0, seen => return together seen
  | n + 1, seen => do
    let modes ← if outermost then pure (← get).modes else pure modes
    match ← Read.peek with
    | none => return together seen
    | some ['|'] => return together seen
    | some [')'] => return together seen
    | some token =>
      let _ ← Read.take
      let more (p : Piece) : Read Regex := readSequence modes outermost first n (p :: seen)
      match token with
      | ['\\', c] => more (← escape modes c)
      | ['['] =>
        let opened := (← Read.here) - 1
        let negated ← Read.accept '^'
        let items ← setItems modes opened (← Read.bound) []
        more (other (.set modes.folding ⟨negated, items⟩))
      | ['.'] =>
        more (other (if modes.dotAll then .set .none .all else dot))
      | ['^'] => more (place (if modes.multiline then .lineStart else .textStart))
      | ['$'] => more (place (if modes.multiline then .lineEnd else .lastEnd))
      | ['('] => readGroup modes outermost first n seen ((← Read.here) - 1)
      | [c] =>
        if modes.verbose && isPatternBlank c then readSequence modes outermost first n seen
        else if modes.verbose && c = '#' then
          skipLine (← Read.bound)
          readSequence modes outermost first n seen
        else
          let here ← Read.here
          let repeated (least : Nat) (most : Option Nat) : Read Regex := do
            readSequence modes outermost first n (← repeatLast least most (here - 1) seen)
          match c with
          | '?' => repeated 0 (some 1)
          | '*' => repeated 0 none
          | '+' => repeated 1 none
          | '\x7b' =>
            if (← Read.peek) = some ['\x7d'] then more (other (literal modes c.toNat))
            else
              let back ← get
              match ← braceBounds here with
              | some (least, most) => repeated least most
              | none =>
                modify fun _ => back
                more (other (literal modes c.toNat))
          | _ => more (other (literal modes c.toNat))
      | _ => readSequence modes outermost first n seen

def readGroup (modes : Modes) (outermost first : Bool) :
    Nat → List Piece → Nat → Read Regex
  | 0, seen, _ => return together seen
  | n + 1, seen, opened => do
    let what ←
      if ← Read.accept '?' then opening modes opened (first && seen.isEmpty)
      else pure (.capture none)
    let more (p : Piece) : Read Regex := readSequence modes outermost first n (p :: seen)
    match what with
    | .nothing => readSequence modes outermost first n seen
    | .piece p => more p
    | .capture name =>
      let g ← openGroup name
      let r ← readAlternatives modes false n []
      closeParenthesis opened
      closeGroup g r
      more (other (.group g r))
    | .plain inner =>
      let r ← readAlternatives inner false n []
      closeParenthesis opened
      more (other r)
    | .atomic =>
      let r ← readAlternatives modes false n []
      closeParenthesis opened
      more (other (.atomic r))
    | .look false negated =>
      let r ← readAlternatives modes false n []
      closeParenthesis opened
      more (other (.ahead negated r))
    | .look true negated =>
      let outer := (← get).lookbehind
      modify fun s => { s with lookbehind := some (outer.getD s.groups) }
      let r ← readAlternatives modes false n []
      modify fun s => { s with lookbehind := outer }
      closeParenthesis opened
      let w := r.width (← get).closed
      unless w.most = some w.least do modify fun s => { s with fixedLookbehinds := false }
      more (other (.behind negated w.least r))
    | .condition g =>
      let yes ← readSequence modes false false n []
      let no ← if ← Read.accept '|' then readSequence modes false false n [] else pure .empty
      if (← Read.peek) = some ['|'] then Read.fail .tooManyBranches
      closeParenthesis opened
      more (other (.ifGroup g yes no))

end

def readWhole (length : Nat) : Read Regex := do
  let r ← readAlternatives {} true (3 * length + 8) []
  let s ← get
  if s.modes.asciiOnly && s.modes.unicode then throw .clashingModes
  if s.next.isSome then Read.fail .unbalancedClose
  for (g, position) in s.asked.reverse do
    if g ≥ s.groups then Read.failAt (.invalidReference g) position
  unless s.fixedLookbehinds do throw (.flaw .variableLookbehind none)
  return r

def read (text : List Char) : Except ReadError Regex := do
  let (next, rest, index) ← tokenAt 0 text
  let start : Reader :=
    { next, rest, index, modes := {}, groups := 1, closed := [], names := [], lookbehind := none,
      asked := [], fixedLookbehinds := true }
  (readWhole text.length).run' start

end LintRunner.Regex
