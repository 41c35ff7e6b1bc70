import LintRunner.Regex.Parser
import LintRunner.Text.Lines

/-!
Lines of an ignore file. A line is a path of globs in which `**` stands for any number of
directories; a leading `!` takes back what an earlier line said. Each line becomes one regular
expression that is searched for in a path, with a slash after the path of a directory.
-/

namespace LintRunner

structure Pattern where
  line : String
  /-- False for a line that takes back. -/
  positive : Bool
  /-- None for a line that holds no pattern, such as a comment. -/
  regex : Option Regex

namespace Pattern

inductive Flaw where
  | malformed
  | badSet (e : Regex.ReadError)

abbrev Segment := List Char

def anyDepth : Segment := ['*', '*']

/-- The group that takes part in a match when a directory above was what the pattern named. -/
def directoryGroup : Nat := 1

def slash : Regex := .char '/'

def directorySlash : Regex := .group directoryGroup slash

def notSlash : Regex := .set .none (.allBut '/')

/-- Splits after the bracket that closes a set. One directly at the front does not close it. -/
def closeSet : List Char → Option (List Char × List Char)
  | ']' :: rest => (cut rest).map fun (body, after) => (']' :: body, after)
  | rest => cut rest
where
  cut : List Char → Option (List Char × List Char)
    | [] => none
    | ']' :: rest => some ([], rest)
    | c :: rest => (cut rest).map fun (body, after) => (c :: body, after)

/-- The set as a regular expression writes it: a backslash stands for itself. -/
def setText (negated : Bool) (body : List Char) : List Char :=
  '[' :: (if negated then ['^'] else []) ++ body.flatMap (fun c => if c = '\\' then [c, c] else [c])
    ++ [']']

def openSet : List Char → Bool × List Char
  | '!' :: rest => (true, rest)
  | '^' :: rest => (true, rest)
  | rest => (false, rest)

theorem closeSet.cut_length {cs body after : List Char} (h : closeSet.cut cs = some (body, after)) :
    after.length < cs.length := by
  induction cs generalizing body with
  | nil => simp [closeSet.cut] at h
  | cons c rest ih =>
    unfold closeSet.cut at h
    split at h
    · simp at h
    · simp_all
    · next heq =>
      simp only [List.cons.injEq] at heq
      obtain ⟨rfl, rfl⟩ := heq
      obtain ⟨⟨b, a⟩, hb, he⟩ := Option.map_eq_some_iff.1 h
      simp only [Prod.mk.injEq] at he
      have := ih (he.2 ▸ hb)
      simp only [List.length_cons]
      omega

theorem closeSet_length {cs body after : List Char} (h : closeSet cs = some (body, after)) :
    after.length < cs.length := by
  unfold closeSet at h
  split at h
  · obtain ⟨⟨b, a⟩, hb, he⟩ := Option.map_eq_some_iff.1 h
    simp only [Prod.mk.injEq] at he
    have := closeSet.cut_length (he.2 ▸ hb)
    simp only [List.length_cons]
    omega
  · exact closeSet.cut_length h

theorem openSet_length (cs : List Char) : (openSet cs).2.length ≤ cs.length := by
  unfold openSet
  split <;> simp

inductive GlobToken where
  | literal (c : Char)
  | anyText
  | anyOne
  | set (text : List Char)

/-- The tokens of one segment; none where a bracket is left open. -/
def globTokens (cs : Segment) : Except Flaw (Option (List GlobToken)) :=
  match cs with
  | [] => .ok (some [])
  | '\\' :: rest =>
    match rest with
    | [] => .error .malformed
    | c :: rest => (globTokens rest).map (·.map (.literal c :: ·))
  | '*' :: rest => (globTokens rest).map (·.map (.anyText :: ·))
  | '?' :: rest => (globTokens rest).map (·.map (.anyOne :: ·))
  | '[' :: rest =>
    match _h : closeSet (openSet rest).2 with
    | none => .ok none
    | some (body, after) =>
      (globTokens after).map (·.map (.set (setText (openSet rest).1 body) :: ·))
  | c :: rest => (globTokens rest).map (·.map (.literal c :: ·))
  termination_by cs.length
  decreasing_by
    · simp only [List.length_cons]
      omega
    · simp only [List.length_cons]
      omega
    · simp only [List.length_cons]
      omega
    · have := closeSet_length _h
      have := openSet_length rest
      simp only [List.length_cons]
      omega
    · simp only [List.length_cons]
      omega

def GlobToken.regex : GlobToken → Except Flaw Regex
  | literal c => .ok (.char c)
  | anyText => .ok (.star notSlash)
  | anyOne => .ok notSlash
  | set text => (Regex.read text).mapError .badSet

inductive Step where
  | leadingDepth
  | innerDepth
  | finalDepth
  | glob (tokens : List GlobToken) (final : Bool)
  | anyName (final : Bool)

def collapseDepths : List Segment → List Segment
  | [] => []
  | s :: rest =>
    match collapseDepths rest with
    | t :: more => if s = anyDepth ∧ t = anyDepth then t :: more else s :: t :: more
    | [] => [s]

/-- A pattern without an inner slash applies at every depth. -/
def anchor : List Segment → List Segment
  | [] :: rest => rest
  | [s] => if s = anyDepth then [s] else [anyDepth, s]
  | [s, []] => if s = anyDepth then [s, []] else [anyDepth, s, []]
  | segments => segments

/-- Everything below counts, where the pattern ends in a slash. -/
def openEnd : List Segment → List Segment
  | [] => []
  | [s] => if s = [] then [anyDepth] else [s]
  | s :: rest => s :: openEnd rest

def step (first final : Bool) (s : Segment) : Except Flaw (Option Step) :=
  if s = anyDepth then
    .ok (some (if first then .leadingDepth else if final then .finalDepth else .innerDepth))
  else if s = ['*'] then .ok (some (.anyName final))
  else (globTokens s).map (·.map (.glob · final))

def steps (first : Bool) : List Segment → Except Flaw (Option (List Step))
  | [] => .ok (some [])
  | s :: rest => do
    match ← step first rest.isEmpty s with
    | none => return none
    | some st => return (← steps false rest).map (st :: ·)

/-- The end of a name: a directory above the path, or the path itself. -/
def nameEnd : Regex := .alt directorySlash .lastEnd

/-- One step as expressions. `slashed` says that a slash has to come before a name; the answer says
the same of the step that follows. -/
def stepRegex (forDirectories first slashed : Bool) : Step → Except Flaw (List Regex × Bool)
  | .leadingDepth =>
    .ok ([.textStart, .optional (.seq (.plus .dot) slash)], false)
  | .innerDepth => .ok ([.optional (.seq slash (.plus .dot))], true)
  | .finalDepth => .ok ([if forDirectories then directorySlash else slash], slashed)
  | .anyName final =>
    .ok (lead ++ [.plus notSlash] ++ (if final then [nameEnd] else []), true)
  | .glob tokens final => do
    let rs ← tokens.mapM GlobToken.regex
    return (lead ++ rs ++ (if final then [nameEnd] else []), true)
where
  lead : List Regex := (if first then [.textStart] else []) ++ (if slashed then [slash] else [])

def stepsRegex (forDirectories first slashed : Bool) : List Step → Except Flaw (List Regex)
  | [] => .ok []
  | st :: rest => do
    let (rs, slashed) ← stepRegex forDirectories first slashed st
    return rs ++ (← stepsRegex forDirectories false slashed rest)

def segmentsRegex (forDirectories : Bool) (segments : List Segment) : Except Flaw (Option Regex) :=
  if segments = [anyDepth] then
    .ok (some (if forDirectories then directorySlash else .dot))
  else if segments = [anyDepth, ['*']] then .ok (some .dot)
  else if segments = [anyDepth, ['*'], anyDepth] then
    .ok (some (if forDirectories then directorySlash else slash))
  else do
    match ← steps true segments with
    | none => return none
    | some sts => return some (.inOrder (← stepsRegex forDirectories true false sts))

/-- Blanks at the end do not count, unless a backslash protects them. -/
def significant (line : List Char) : List Char :=
  if line.reverse.take 2 = [' ', '\\'] then line else Text.trimEnd line

def sign : List Char → Bool × List Char
  | '!' :: rest => (false, rest)
  | cs => (true, cs)

def read (line : String) : Except Flaw Pattern := do
  let cs := significant line.toList
  if cs = [] || cs.head? = some '#' || cs = ['/'] then return ⟨line, true, none⟩
  let (positive, body) := sign cs
  let segments := Text.fields '/' body
  let forDirectories := segments.getLast? = some []
  let segments := anchor segments
  if segments = [] then throw .malformed
  return ⟨line, positive, ← segmentsRegex forDirectories (collapseDepths (openEnd segments))⟩

/-- The first match in `path`, which ends in a slash for a directory. -/
def find? (p : Pattern) (path : List Char) : Option Cursor := p.regex.bind (·.search path)

def covers (p : Pattern) (path : List Char) : Bool := (p.find? path).isSome

/-- The match went through a directory above, or through the slash that marks the path as one. -/
def throughDirectory (c : Cursor) : Bool := (c.group? directoryGroup).isSome

def isActive (p : Pattern) : Bool := p.regex.isSome

end Pattern

end LintRunner
