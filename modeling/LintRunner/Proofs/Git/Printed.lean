import LintRunner.Git
import Mathlib.Logic.Basic

/-! How git prints the names of files, one to a line: as they are, or between quotes if a character asks
for it, with each such character written as an escape. What is read back are the lines without blanks
around them; a name between quotes stays between quotes. -/

namespace LintRunner.Git

open Text

/-- The escapes that have a letter of their own. -/
def letters : List (Char × Char) := [('\x07', 'a'), ('\x08', 'b'), ('\t', 't'), ('\n', 'n'),
  ('\x0b', 'v'), ('\x0c', 'f'), ('\r', 'r'), ('"', '"'), ('\\', '\\')]

/-- The character is not written as it is: a control character, a quote, a backslash, or none of ASCII. -/
def isSpecial (c : Char) : Bool := c.toNat < 0x20 || 0x7e < c.toNat || c = '"' || c = '\\'

/-- A byte as three octal digits. -/
def octal (b : UInt8) : List Char :=
  ['\\', (b.toNat / 64).digitChar, (b.toNat / 8 % 8).digitChar, (b.toNat % 8).digitChar]

def escape (c : Char) : List Char :=
  match letters.lookup c with
  | some letter => ['\\', letter]
  | none => if isSpecial c then (String.utf8EncodeChar c).flatMap octal else [c]

def printed (name : String) : List Char :=
  if name.toList.any isSpecial then '"' :: name.toList.flatMap escape ++ ['"'] else name.toList

/-- The answer that lists these names. -/
def listing (names : List String) : String :=
  String.ofList (names.flatMap fun name => printed name ++ ['\n'])

/-- What is read from the line of a name. -/
def entryOf (name : String) : String := String.ofList (trim (printed name))

variable {c : Char} {name : String} {line rest : List Char}

theorem isSpecial_eq_false_iff :
    isSpecial c = false ↔ 0x20 ≤ c.toNat ∧ c.toNat ≤ 0x7e ∧ c ≠ '"' ∧ c ≠ '\\' := by
  simp [isSpecial, and_assoc]

theorem digitChar_printable {n : Nat} (hn : n < 8) :
    0x20 ≤ n.digitChar.toNat ∧ n.digitChar.toNat ≤ 0x7e := by
  have hdigits : ∀ n < 8, 0x20 ≤ (Nat.digitChar n).toNat ∧ (Nat.digitChar n).toNat ≤ 0x7e := by decide
  exact hdigits n hn

theorem octal_printable {b : UInt8} (hc : c ∈ octal b) : 0x20 ≤ c.toNat ∧ c.toNat ≤ 0x7e := by
  have hb : b.toNat < 256 := b.toNat_lt
  simp only [octal, List.mem_cons, List.not_mem_nil, or_false] at hc
  rcases hc with rfl | rfl | rfl | rfl
  · decide
  · exact digitChar_printable (by omega)
  · exact digitChar_printable (by omega)
  · exact digitChar_printable (by omega)

theorem escape_printable {d : Char} (hd : d ∈ escape c) : 0x20 ≤ d.toNat ∧ d.toNat ≤ 0x7e := by
  unfold escape at hd
  split at hd
  · next letter hletter =>
    have hletters : ∀ x ∈ letters, 0x20 ≤ x.2.toNat ∧ x.2.toNat ≤ 0x7e := by decide
    obtain ⟨front, back, hsplit, -⟩ := List.lookup_eq_some_iff.1 hletter
    simp only [List.mem_cons, List.not_mem_nil, or_false] at hd
    rcases hd with rfl | rfl
    · decide
    · exact hletters (c, d) (by simp [hsplit])
  · split at hd
    · obtain ⟨b, -, hb⟩ := List.mem_flatMap.1 hd
      exact octal_printable hb
    · next hplain =>
      obtain ⟨hlow, hhigh, -⟩ := isSpecial_eq_false_iff.1 (by simpa using hplain)
      rw [List.mem_singleton.1 hd]
      exact ⟨hlow, hhigh⟩

/-- A printed name is a line of ASCII without control characters. -/
theorem printed_printable (hc : c ∈ printed name) : 0x20 ≤ c.toNat ∧ c.toNat ≤ 0x7e := by
  unfold printed at hc
  split at hc
  · simp only [List.cons_append, List.mem_cons, List.mem_append, List.not_mem_nil, or_false] at hc
    rcases hc with rfl | hc | rfl
    · decide
    · obtain ⟨d, -, hd⟩ := List.mem_flatMap.1 hc
      exact escape_printable hd
    · decide
  · next hplain =>
    have hno : isSpecial c = false := by
      simp only [Bool.not_eq_true, List.any_eq_false] at hplain
      simpa using hplain c hc
    obtain ⟨hlow, hhigh, -⟩ := isSpecial_eq_false_iff.1 hno
    exact ⟨hlow, hhigh⟩

theorem isLineBreak_of_printable (hlow : 0x20 ≤ c.toNat) (hhigh : c.toNat ≤ 0x7e) :
    isLineBreak c = false := by
  rw [← Bool.not_eq_true]
  intro hbreak
  have houtside : ∀ d ∈ lineBreaks, d.toNat < 0x20 ∨ 0x7e < d.toNat := by simp [lineBreaks]
  rcases houtside c (by simpa [isLineBreak] using hbreak) with h | h <;> omega

theorem lines_line (hline : ∀ c ∈ line, isLineBreak c = false) (rest : List Char) :
    lines (line ++ '\n' :: rest) = line :: lines rest := by
  induction line with
  | nil =>
    rw [List.nil_append, lines]
    · rfl
    · simp
  | cons c line ih =>
    have hc := hline c List.mem_cons_self
    have hreturn : c ≠ '\r' := by
      rintro rfl
      cases hc
    rw [List.cons_append, lines]
    · simp [hc, ih fun d hd => hline d (List.mem_cons_of_mem c hd)]
    · simp [hreturn]

theorem lines_listing (names : List String) : lines (listing names).toList = names.map printed := by
  rw [listing, String.toList_ofList]
  induction names with
  | nil => rfl
  | cons name names ih =>
    have hline : ∀ c ∈ printed name, isLineBreak c = false := fun c hc =>
      isLineBreak_of_printable (printed_printable hc).1 (printed_printable hc).2
    rw [List.flatMap_cons, List.append_assoc, List.singleton_append, lines_line hline, ih, List.map_cons]

/-- The entries that are read are those of the names, unless there is nothing but blanks to a name. -/
theorem mem_linesOf_listing {names : List String} {entry : String} :
    entry ∈ linesOf (listing names) ↔ entry ≠ "" ∧ ∃ name ∈ names, entryOf name = entry := by
  rw [linesOf, lines_listing]
  simp only [List.mem_map, List.mem_filter, exists_exists_and_eq_and, entryOf, decide_not,
    Bool.not_eq_true', decide_eq_false_iff_not]
  constructor
  · rintro ⟨line, ⟨⟨name, hname, rfl⟩, hline⟩, rfl⟩
    exact ⟨by simpa using hline, name, hname, rfl⟩
  · rintro ⟨hentry, name, hname, rfl⟩
    exact ⟨_, ⟨⟨name, hname, rfl⟩, by simpa using hentry⟩, rfl⟩

/-- Git prints the name as it is, and no blank comes first or last. -/
structure IsPlain (name : String) : Prop where
  verbatim : ∀ c ∈ name.toList, isSpecial c = false
  front : name.toList.head? ≠ some ' '
  back : name.toList.getLast? ≠ some ' '

theorem isBlank_of_plain (hc : isSpecial c = false) (hspace : c ≠ ' ') : isBlank c = false := by
  obtain ⟨hlow, hhigh, -, -⟩ := isSpecial_eq_false_iff.1 hc
  have hne : c.toNat ≠ 0x20 := fun h => hspace (Char.toNat_inj.1 h)
  simp only [isBlank, blankRanges, inRanges, List.any_cons, List.any_nil]
  simp
  omega

/-- Such a name is read as it is. -/
theorem entryOf_plain (hplain : IsPlain name) : entryOf name = name := by
  have hprinted : printed name = name.toList := by
    rw [printed, if_neg]
    simpa using hplain.verbatim
  have hink {c : Char} (hc : c ∈ name.toList) (hspace : c ≠ ' ') : isBlank c = false :=
    isBlank_of_plain (hplain.verbatim c hc) hspace
  have hfront : trimStart name.toList = name.toList := by
    unfold trimStart
    cases hname : name.toList with
    | nil => rfl
    | cons c rest =>
      have hc : isBlank c = false := hink (by simp [hname]) fun h => hplain.front (by simp [hname, h])
      simp [hc]
  have hback : trimEnd name.toList = name.toList := by
    rcases List.eq_nil_or_concat name.toList with hname | ⟨front, c, hname⟩
    · rw [hname]
      rfl
    · rw [List.concat_eq_append] at hname
      have hc : isBlank c = false := hink (by simp [hname]) fun h => hplain.back (by simp [hname, h])
      rw [hname, trimEnd_append_inked hc]
  rw [entryOf, hprinted, trim, hfront, hback, String.ofList_toList]

end LintRunner.Git
