import LintRunner.OsError

/-!
A tree of files as a table from places to what is there. A place is the list of names from the top;
the top itself is always a directory.
-/

namespace LintRunner

/-- The names from the top of the tree, without links, dots or `..`. -/
abbrev Location := List String

inductive Entry where
  /-- The flag stands for all execute bits together: they are set for everybody or for nobody. -/
  | file (bytes : ByteArray) (executable : Bool)
  | directory
  | link (target : String)

def Entry.same : (a b : Entry) → Decidable (a = b)
  | .file x e, .file y f => decidable_of_iff (x.data = y.data ∧ e = f) (by simp [ByteArray.ext_iff])
  | .link s, .link t => decidable_of_iff (s = t) (by simp)
  | .directory, .directory => isTrue rfl
  | .file _ _, .directory => isFalse nofun
  | .file _ _, .link _ => isFalse nofun
  | .directory, .file _ _ => isFalse nofun
  | .directory, .link _ => isFalse nofun
  | .link _, .file _ _ => isFalse nofun
  | .link _, .directory => isFalse nofun

instance : DecidableEq Entry := Entry.same

structure FileTree where
  entries : List (Location × Entry)

namespace FileTree

def empty : FileTree := ⟨[]⟩

def get? (t : FileTree) (l : Location) : Option Entry :=
  if l = [] then some .directory else t.entries.lookup l

def setIn (l : Location) (e : Entry) : List (Location × Entry) → List (Location × Entry)
  | [] => [(l, e)]
  | (k, x) :: rest => if k = l then (l, e) :: rest else (k, x) :: setIn l e rest

def put (t : FileTree) (l : Location) (e : Entry) : FileTree := ⟨setIn l e t.entries⟩

def erase (t : FileTree) (l : Location) : FileTree :=
  ⟨t.entries.filter fun (k, _) => (Path.afterFront l k).isNone⟩

def children (t : FileTree) (l : Location) : List (String × Entry) :=
  t.entries.filterMap fun (k, e) =>
    match Path.afterFront l k with
    | some [name] => some (name, e)
    | _ => none

def depth (t : FileTree) : Nat := t.entries.foldr (fun (k, _) d => max k.length d) 0

theorem lookup_setIn (l k : Location) (e : Entry) (es : List (Location × Entry)) :
    (setIn l e es).lookup k = if k = l then some e else es.lookup k := by
  induction es with
  | nil =>
    by_cases h : k = l
    · simp [setIn, h]
    · simp [setIn, h, List.lookup_cons, beq_eq_false_iff_ne.mpr h]
  | cons x rest ih =>
    obtain ⟨m, y⟩ := x
    by_cases hm : m = l
    · subst hm
      by_cases h : k = m
      · simp [setIn, h]
      · simp [setIn, h, List.lookup_cons, beq_eq_false_iff_ne.mpr h]
    · by_cases h : k = m
      · subst h
        simp [setIn, hm]
      · simp [setIn, hm, List.lookup_cons, beq_eq_false_iff_ne.mpr h, ih]

theorem get?_put {l : Location} (hl : l ≠ []) (t : FileTree) (k : Location) (e : Entry) :
    (t.put l e).get? k = if k = l then some e else t.get? k := by
  by_cases hk : k = []
  · simp [get?, hk, Ne.symm hl]
  · simp [get?, put, hk, lookup_setIn]

end FileTree

end LintRunner
