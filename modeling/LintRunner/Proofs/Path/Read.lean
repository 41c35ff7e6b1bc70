import LintRunner.Proofs.FileTree.Sound
import LintRunner.Proofs.Path.Below

/-! Reading a path from its names with slashes between them. -/

namespace LintRunner

namespace Text

variable {sep : Char} {cs : List Char}

theorem fields_of_not_mem (hcs : sep ∉ cs) : fields sep cs = [cs] := by
  induction cs with
  | nil => rfl
  | cons c cs ih =>
    obtain ⟨hc, hcs⟩ : sep ≠ c ∧ sep ∉ cs := by simpa using hcs
    rw [fields, if_neg (Ne.symm hc), ih hcs]

theorem fields_append (hcs : sep ∉ cs) (rest : List Char) :
    fields sep (cs ++ sep :: rest) = cs :: fields sep rest := by
  induction cs with
  | nil => simp [fields]
  | cons c cs ih =>
    obtain ⟨hc, hcs⟩ : sep ≠ c ∧ sep ∉ cs := by simpa using hcs
    rw [List.cons_append, fields, if_neg (Ne.symm hc), ih hcs]

end Text

namespace Path

variable {p q : Path} {names : List String}

theorem fields_intercalate (hne : names ≠ []) (hnames : ∀ n ∈ names, '/' ∉ n.toList) :
    Text.fields '/' ("/".intercalate names).toList = names.map (·.toList) := by
  induction names with
  | nil => exact absurd rfl hne
  | cons n names ih =>
    obtain ⟨hn, hnames⟩ := List.forall_mem_cons.1 hnames
    cases names with
    | nil => simpa using Text.fields_of_not_mem hn
    | cons n' names =>
      have hsplit : ("/".intercalate (n :: n' :: names)).toList =
          n.toList ++ '/' :: ("/".intercalate (n' :: names)).toList := by
        simp [String.intercalate_cons_cons]
      rw [hsplit, Text.fields_append hn, ih (by simp) hnames]
      rfl

theorem namesIn_slash (s : String) : namesIn ("/" ++ s) = namesIn s := by
  simp [namesIn, Text.fields]

theorem namesIn_anchor (a : Anchor) (s : String) : namesIn (a.text ++ s) = namesIn s := by
  cases a with
  | relative => rw [Anchor.text, String.empty_append]
  | root => exact namesIn_slash s
  | doubleRoot =>
    have htwo : Anchor.doubleRoot.text ++ s = "/" ++ ("/" ++ s) := by
      rw [← String.append_assoc]
      rfl
    rw [htwo, namesIn_slash, namesIn_slash]

theorem namesIn_intercalate (hnames : ∀ n ∈ names, n ≠ "" ∧ '/' ∉ n.toList) :
    namesIn ("/".intercalate names) = names := by
  rcases eq_or_ne names [] with rfl | hne
  · rfl
  · rw [namesIn, fields_intercalate hne fun n hn => (hnames n hn).2, List.map_map]
    simp only [Function.comp_def, String.ofList_toList, List.map_id']
    exact List.filter_eq_self.2 fun n hn => by simpa using (hnames n hn).1

theorem head?_intercalate (hnames : ∀ n ∈ names, n ≠ "" ∧ '/' ∉ n.toList) :
    ("/".intercalate names).toList.head? ≠ some '/' := by
  cases names with
  | nil => simp
  | cons n names =>
    obtain ⟨hne, hslash⟩ := hnames n (by simp)
    obtain ⟨c, cs, hcs⟩ := List.exists_cons_of_ne_nil (show n.toList ≠ [] by simpa using hne)
    have hc : c ≠ '/' := by
      rintro rfl
      exact hslash (by simp [hcs])
    cases names with
    | nil => simpa [hcs] using hc
    | cons n' names => simpa [String.intercalate_cons_cons, hcs] using hc

theorem anchorOf_append (a : Anchor) {cs : List Char} (hcs : cs.head? ≠ some '/') :
    anchorOf (a.text.toList ++ cs) = a := by
  cases cs with
  | nil => cases a <;> rfl
  | cons c cs =>
    have hc : c ≠ '/' := by simpa using hcs
    cases a <;> simp [Anchor.text, anchorOf, hc]

/-- A path as it can be written: no name in it is empty, a single dot or has a slash. -/
def Spelled (p : Path) : Prop := ∀ n ∈ p.parts, isName n = true ∧ '/' ∉ n.toList

instance : DecidablePred Spelled :=
  fun p => inferInstanceAs (Decidable (∀ n ∈ p.parts, isName n = true ∧ '/' ∉ n.toList))

/-- A path is read as it was written. -/
theorem Spelled.ofString_text (hp : p.Spelled) : ofString p.text = p := by
  obtain ⟨a, names⟩ := p
  have hnames : ∀ n ∈ names, n ≠ "" ∧ '/' ∉ n.toList := by
    intro n hn
    obtain ⟨hname, hslash⟩ := hp n hn
    simp only [isName, Bool.and_eq_true, bne_iff_ne] at hname
    exact ⟨hname.1, hslash⟩
  have hkept : names.filter isName = names := List.filter_eq_self.2 fun n hn => (hp n hn).1
  have hread : namesIn (a.text ++ "/".intercalate names) = names := by
    rw [namesIn_anchor, namesIn_intercalate hnames]
  have hanchor : anchorOf (a.text ++ "/".intercalate names).toList = a := by
    rw [String.toList_append]
    exact anchorOf_append a (head?_intercalate hnames)
  cases a with
  | relative =>
    cases names with
    | nil => rfl
    | cons n names => rw [text, ofString, hanchor, hread, hkept]
  | root => rw [text, ofString, hanchor, hread, hkept]
  | doubleRoot => rw [text, ofString, hanchor, hread, hkept]

theorem Spelled.parent (hp : p.Spelled) : p.parent.Spelled :=
  fun n hn => hp n (List.dropLast_subset _ hn)

theorem Spelled.join (hp : p.Spelled) (hq : q.Spelled) : (p / q).Spelled := by
  by_cases habsolute : q.isAbsolute = true
  · rwa [show p / q = q from if_pos habsolute]
  · rw [show p / q = { p with parts := p.parts ++ q.parts } from if_neg habsolute]
    exact List.forall_mem_append.2 ⟨hp, hq⟩

theorem Spelled.of_join (hrel : q.anchor = .relative) (hjoin : (p / q).Spelled) : q.Spelled := by
  rw [join_of_relative hrel] at hjoin
  exact (List.forall_mem_append.1 hjoin).2

/-- The names of entries are read as they were written. -/
theorem ofString_intercalate (hnames : ∀ n ∈ names, FileTree.IsEntryName n) :
    ofString ("/".intercalate names) = ⟨.relative, names⟩ := by
  have hspelled : Spelled ⟨.relative, names⟩ := by
    intro n hn
    obtain ⟨hne, hdot, -, hslash, -⟩ := hnames n hn
    exact ⟨by simp [isName, hne, hdot], hslash⟩
  cases names with
  | nil => rfl
  | cons n names => simpa [text, Anchor.text] using hspelled.ofString_text

end Path

end LintRunner
