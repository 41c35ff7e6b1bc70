import LintRunner.Pattern.Matcher
import LintRunner.Proofs.Path.Read

/-! A line that is a plain name matches every path that the name is in. What comes before the name is
taken as long as it can be, so that where a path ends in the name, it is the path itself that is
matched and no directory above it, even one of the same name. -/

namespace LintRunner

namespace Regex

variable {β : Type} {c : Cursor} {k : Cursor → Option β} {x : β} {n : Nat} {y : Char} {r : Regex}
  {rs : List Regex} {before after text rest : List Char} {groups : List (Nat × List Char)}

theorem run_inOrder_cons (r : Regex) (rs : List Regex) (c : Cursor) (k : Cursor → Option β) :
    (inOrder (r :: rs)).run c k = r.run c fun d => (inOrder rs).run d k := by
  cases rs <;> rfl

theorem contains_one (y z : Char) : (CharSet.one y).contains .none z = true ↔ z = y := by
  simp only [CharSet.contains, CharSet.one, CharSet.itemHolds, Folding.variants, List.any_cons,
    List.any_nil, Bool.or_false, Bool.bne_false, Bool.and_eq_true, decide_eq_true_eq,
    ← Char.toNat_inj]
  omega

theorem contains_allBut (y z : Char) : (CharSet.allBut y).contains .none z = true ↔ z ≠ y := by
  rw [ne_eq, ← contains_one, Bool.not_eq_true]
  simp only [CharSet.contains, CharSet.one, CharSet.allBut, Bool.bne_false, Bool.bne_true,
    Bool.not_eq_true']

theorem run_char_cons : (char y).run ⟨before, y :: rest, groups⟩ k = k ⟨y :: before, rest, groups⟩ :=
  if_pos ((contains_one y y).2 rfl)

theorem of_run_char (hx : (char y).run c k = some x) :
    ∃ rest, c.after = y :: rest ∧ k ⟨y :: c.before, rest, c.groups⟩ = some x := by
  obtain ⟨before, after, groups⟩ := c
  cases after with
  | nil => cases hx
  | cons z rest =>
    by_cases hz : z = y
    · subst hz
      rw [run_char_cons] at hx
      exact ⟨rest, rfl, hx⟩
    · have hno : (char y).run ⟨before, z :: rest, groups⟩ k = none :=
        if_neg fun hz' => hz ((contains_one y z).1 hz')
      rw [hno] at hx
      cases hx

theorem run_dot_cons (hy : y ≠ '\n') :
    dot.run ⟨before, y :: rest, groups⟩ k = k ⟨y :: before, rest, groups⟩ :=
  if_pos ((contains_allBut '\n' y).2 hy)

theorem of_run_dot (hx : dot.run c k = some x) :
    ∃ y rest, c.after = y :: rest ∧ k ⟨y :: c.before, rest, c.groups⟩ = some x := by
  obtain ⟨before, after, groups⟩ := c
  cases after with
  | nil => cases hx
  | cons y rest =>
    by_cases hy : y = '\n'
    · have hno : dot.run ⟨before, y :: rest, groups⟩ k = none :=
        if_neg fun hy' => (contains_allBut '\n' y).1 hy' hy
      rw [hno] at hx
      cases hx
    · rw [run_dot_cons hy] at hx
      exact ⟨y, rest, rfl, hx⟩

theorem run_chars_append : (inOrder (text.map char ++ rs)).run ⟨before, text ++ rest, groups⟩ k =
    (inOrder rs).run ⟨text.reverse ++ before, rest, groups⟩ k := by
  induction text generalizing before with
  | nil => rfl
  | cons y text ih =>
    rw [List.map_cons, List.cons_append, run_inOrder_cons, List.cons_append, run_char_cons, ih]
    simp

theorem of_run_chars (hx : (inOrder (text.map char ++ rs)).run c k = some x) :
    ∃ rest, c.after = text ++ rest := by
  induction text generalizing c with
  | nil => exact ⟨c.after, rfl⟩
  | cons y text ih =>
    rw [List.map_cons, List.cons_append, run_inOrder_cons] at hx
    obtain ⟨rest, hafter, hx⟩ := of_run_char hx
    obtain ⟨rest', rfl⟩ := ih hx
    exact ⟨rest', hafter⟩

theorem of_run_manyOf_dot (hx : manyOf dot.run n c k = some x) :
    ∃ text rest, c.after = text ++ rest ∧ k ⟨text.reverse ++ c.before, rest, c.groups⟩ = some x := by
  have hhere (c : Cursor) (hx : k c = some x) : ∃ text rest, c.after = text ++ rest ∧
      k ⟨text.reverse ++ c.before, rest, c.groups⟩ = some x := ⟨[], c.after, rfl, hx⟩
  induction n generalizing c with
  | zero => exact hhere c hx
  | succ n ih =>
    rcases Option.or_eq_some_iff.1 hx with hfar | ⟨-, hx⟩
    · obtain ⟨y, rest, hafter, hx⟩ := of_run_dot hfar
      rw [if_neg (by simp [Cursor.atSamePlace, hafter])] at hx
      obtain ⟨text, rest', rfl, hx⟩ := ih hx
      exact ⟨y :: text, rest', hafter, by simpa using hx⟩
    · exact hhere c hx

/-- What can be found here is found, if nothing is found further on. -/
theorem run_manyOf_dot_here {d : β} (hd : k c = some d) : ∃ x, manyOf dot.run (n + 1) c k = some x ∧
    (x = d ∨ ∃ e, e.after.length < c.after.length ∧ k e = some x) := by
  rw [manyOf]
  cases hfar : dot.run c fun e => if e.atSamePlace c then k e else manyOf dot.run n e k with
  | none => exact ⟨d, hd, .inl rfl⟩
  | some x =>
    obtain ⟨y, rest, hafter, hx⟩ := of_run_dot hfar
    rw [if_neg (by simp [Cursor.atSamePlace, hafter])] at hx
    obtain ⟨text, rest', rfl, hx⟩ := of_run_manyOf_dot hx
    refine ⟨x, rfl, .inr ⟨_, ?_, hx⟩⟩
    simp only [hafter, List.length_cons, List.length_append]
    omega

/-- What is found further on is what is found. -/
theorem run_manyOf_dot_append (htext : '\n' ∉ text)
    (hx : manyOf dot.run n ⟨text.reverse ++ before, rest, groups⟩ k = some x) :
    manyOf dot.run (text.length + n) ⟨before, text ++ rest, groups⟩ k = some x := by
  induction text generalizing before with
  | nil => simpa using hx
  | cons y text ih =>
    obtain ⟨hy, htext⟩ : '\n' ≠ y ∧ '\n' ∉ text := by simpa using htext
    have hrest : manyOf dot.run (text.length + n) ⟨y :: before, text ++ rest, groups⟩ k = some x :=
      ih htext (by simpa using hx)
    rw [List.length_cons, Nat.add_right_comm, List.cons_append, manyOf, run_dot_cons (Ne.symm hy),
      if_neg (by simp [Cursor.atSamePlace]), hrest]
    rfl

theorem run_optional : (optional r).run c k = (r.run c k).or (k c) := by
  have hrounds : roundsLeft c 0 (some 1) = 1 := by simp [roundsLeft]
  change manyOf r.run (roundsLeft c 0 (some 1)) c k = _
  rw [hrounds, manyOf]
  simp only [manyOf, ite_self]

theorem search_of_run (hx : r.run (.start text) some = some c) : r.search text = some c := by
  cases text with
  | nil => exact hx
  | cons y rest =>
    rw [search, searchFrom]
    exact congrArg (Option.or · _) hx

end Regex

namespace Pattern

open Regex

variable {name : String} {cs above rest : List Char} {x : Cursor} {n : Nat}

/-- The signs that make a line more than a name. -/
def signs : List Char := ['/', '\\', '*', '?', '[', '!', '#']

/-- The line stands for nothing but the name that it is. -/
def IsPlain (cs : List Char) : Prop := cs ≠ [] ∧ (∀ c ∈ cs, c ∉ signs) ∧ significant cs = cs

instance : DecidablePred IsPlain := fun cs =>
  decidable_of_iff (cs ≠ [] ∧ cs.all (· ∉ signs) = true ∧ significant cs = cs) (by simp [IsPlain])

/-- The expression of a plain name. -/
def nameRegex (cs : List Char) : Regex :=
  .inOrder ([.textStart, .optional (.seq (.plus .dot) slash)] ++ cs.map .char ++ [nameEnd])

theorem globTokens_plain (hcs : ∀ c ∈ cs, c ∉ signs) :
    globTokens cs = .ok (some (cs.map .literal)) := by
  induction cs with
  | nil => simp [globTokens]
  | cons c cs ih =>
    obtain ⟨hc, hcs⟩ := List.forall_mem_cons.1 hcs
    simp only [signs, List.mem_cons, not_or] at hc
    rw [globTokens]
    · rw [ih hcs]
      rfl
    all_goals grind

theorem mapM_regex_literal (cs : List Char) :
    (cs.map GlobToken.literal).mapM GlobToken.regex = .ok (cs.map .char) := by
  induction cs with
  | nil => rfl
  | cons c cs ih =>
    rw [List.map_cons, List.mapM_cons, ih]
    rfl

theorem sign_plain (hcs : '!' ∉ cs) : sign cs = (true, cs) := by
  unfold sign
  split
  · simp at hcs
  · rfl

theorem ne_of_plain (hcs : ∀ c ∈ cs, c ∉ signs) (front back : List Char) : cs ≠ front ++ '*' :: back := by
  rintro rfl
  exact hcs '*' (by simp) (by decide)

theorem anchor_plain (hne : cs ≠ []) (hcs : ∀ c ∈ cs, c ∉ signs) : anchor [cs] = [anyDepth, cs] := by
  have hdepth : cs ≠ anyDepth := ne_of_plain hcs ['*'] []
  rw [anchor]
  · exact if_neg hdepth
  · simpa using hne

theorem segmentsRegex_plain (hcs : ∀ c ∈ cs, c ∉ signs) :
    segmentsRegex false [anyDepth, cs] = .ok (some (nameRegex cs)) := by
  have hdepth : cs ≠ anyDepth := ne_of_plain hcs ['*'] []
  have hany : cs ≠ ['*'] := ne_of_plain hcs [] []
  have hsteps : steps true [anyDepth, cs] = .ok (some [.leadingDepth, .glob (cs.map .literal) true]) := by
    simp [steps, step, hdepth, hany, globTokens_plain hcs]
    rfl
  have hregexes : stepsRegex false true false [.leadingDepth, .glob (cs.map .literal) true] =
      .ok ([.textStart, .optional (.seq (.plus .dot) slash)] ++ cs.map .char ++ [nameEnd]) := by
    simp only [stepsRegex, stepRegex, mapM_regex_literal, bind, Except.bind, pure, Except.pure]
    simp [stepRegex.lead]
  rw [segmentsRegex, if_neg (by simp), if_neg (by simp [hany]), if_neg (by simp), hsteps]
  simp only [bind, Except.bind, hregexes]
  rfl

theorem read_plain (hname : IsPlain name.toList) :
    read name = .ok ⟨name, true, some (nameRegex name.toList)⟩ := by
  obtain ⟨hne, hplain, hsignificant⟩ := hname
  have hnot (c : Char) (hc : c ∈ signs) : c ∉ name.toList := fun hmem => hplain c hmem hc
  have hhead : name.toList.head? ≠ some '#' := fun hhead =>
    hnot '#' (by decide) (List.mem_of_mem_head? hhead)
  have hslash : name.toList ≠ ['/'] := fun hslash => hnot '/' (by decide) (by simp [hslash])
  have hdepth : name.toList ≠ anyDepth := ne_of_plain hplain ['*'] []
  have hsegments : collapseDepths (openEnd [anyDepth, name.toList]) = [anyDepth, name.toList] := by
    simp [openEnd, collapseDepths, hne, hdepth]
  simp only [read, hsignificant, sign_plain (hnot '!' (by decide)),
    Text.fields_of_not_mem (hnot '/' (by decide)), anchor_plain hne hplain, hsegments]
  rw [if_neg (by simp [hne, hhead, hslash]), if_neg (by simp)]
  simp only [List.getLast?_singleton, Option.some.injEq, hne, decide_false, segmentsRegex_plain hplain]
  rfl

/-- Names with a slash after them, on one line; or nothing at all. -/
def IsLead (cs : List Char) : Prop := cs = [] ∨ ∃ names, names ≠ [] ∧ '\n' ∉ names ∧ cs = names ++ ['/']

/-- The name and its end come next. -/
def nameHere (cs : List Char) : Cursor → Option Cursor :=
  fun d => (inOrder (cs.map .char ++ [nameEnd])).run d some

theorem nameHere_append (cs before rest : List Char) (groups : List (Nat × List Char)) :
    nameHere cs ⟨before, cs ++ rest, groups⟩ =
      nameEnd.run ⟨cs.reverse ++ before, rest, groups⟩ some := run_chars_append

theorem length_le_of_nameHere {d : Cursor} (hx : nameHere cs d = some x) :
    cs.length ≤ d.after.length := by
  obtain ⟨rest, hafter⟩ := of_run_chars hx
  rw [hafter, List.length_append]
  exact Nat.le_add_right _ _

theorem run_nameRegex (cs text : List Char) : (nameRegex cs).run (.start text) some =
    ((Regex.seq (.plus .dot) slash).run (.start text) (nameHere cs)).or (nameHere cs (.start text)) := by
  rw [nameRegex, List.append_assoc]
  simp only [List.cons_append, List.nil_append, run_inOrder_cons, run_optional]
  rfl

theorem length_lt_of_run_directories {c : Cursor} {k : Cursor → Option Cursor}
    (hx : (Regex.seq (.plus .dot) slash).run c k = some x) :
    ∃ d, d.after.length < c.after.length ∧ k d = some x := by
  obtain ⟨y, rest, hafter, hmany⟩ := of_run_dot hx
  obtain ⟨text, rest', hrest, hslash⟩ := of_run_manyOf_dot hmany
  obtain ⟨rest'', hrest', hx⟩ := of_run_char hslash
  dsimp only at hrest hrest'
  subst hrest hrest'
  refine ⟨_, ?_, hx⟩
  rw [hafter]
  simp only [List.length_cons, List.length_append]
  omega

/-- What is found from the slash on is what is found. -/
theorem run_directories {names rest : List Char} {k : Cursor → Option Cursor} (hne : names ≠ [])
    (hnames : '\n' ∉ names)
    (hx : manyOf dot.run (rest.length + 1) ⟨names.reverse, rest, []⟩ (fun d => slash.run d k) = some x) :
    (Regex.seq (.plus .dot) slash).run (.start (names ++ rest)) k = some x := by
  obtain ⟨y, names, rfl⟩ := List.exists_cons_of_ne_nil hne
  obtain ⟨hy, hnames⟩ : '\n' ≠ y ∧ '\n' ∉ names := by simpa using hnames
  have hmany : manyOf dot.run (names.length + (rest.length + 1)) ⟨[y], names ++ rest, []⟩
      (fun d => slash.run d k) = some x := run_manyOf_dot_append hnames (by simpa using hx)
  rw [← Nat.add_assoc, ← List.length_append] at hmany
  change dot.run (.start (y :: (names ++ rest)))
    (fun d => manyOf dot.run (d.after.length + 1) d fun d => slash.run d k) = some x
  rw [Cursor.start, run_dot_cons (Ne.symm hy)]
  exact hmany

/-- What can be found after the lead is found, if nothing is found further on. -/
theorem search_nameRegex_of_lead (habove : IsLead above) {d : Cursor}
    (hd : nameHere cs ⟨above.reverse, rest, []⟩ = some d) :
    ∃ x, (nameRegex cs).search (above ++ rest) = some x ∧
      (x = d ∨ ∃ e, e.after.length < rest.length ∧ nameHere cs e = some x) := by
  rcases habove with rfl | ⟨names, hne, hnames, rfl⟩
  · have hhere : nameHere cs (.start rest) = some d := hd
    have hrun := run_nameRegex cs rest
    rw [hhere] at hrun
    cases hfar : (Regex.seq (.plus .dot) slash).run (.start rest) (nameHere cs) with
    | none =>
      rw [hfar] at hrun
      exact ⟨d, search_of_run hrun, .inl rfl⟩
    | some x =>
      rw [hfar] at hrun
      exact ⟨x, search_of_run hrun, .inr (length_lt_of_run_directories hfar)⟩
  · have hslash : slash.run ⟨names.reverse, '/' :: rest, []⟩ (nameHere cs) = some d := by
      rw [slash, run_char_cons]
      simpa using hd
    -- longer leads are tried first, and what they find has less of the text after it
    obtain ⟨x, hmany, hx⟩ := run_manyOf_dot_here (n := ('/' :: rest).length)
      (k := fun e => slash.run e (nameHere cs)) hslash
    have hrun := run_nameRegex cs (names ++ ['/'] ++ rest)
    rw [List.append_assoc, List.singleton_append, run_directories hne hnames hmany] at hrun
    refine ⟨x, by simpa using search_of_run hrun, hx.imp_right ?_⟩
    rintro ⟨e, hlt, he⟩
    obtain ⟨rest', hafter, hx⟩ := of_run_char he
    refine ⟨_, ?_, hx⟩
    simp only [hafter, List.length_cons] at hlt ⊢
    omega

theorem search_nameRegex_end (habove : IsLead above) :
    (nameRegex cs).search (above ++ cs) = some ⟨(above ++ cs).reverse, [], []⟩ := by
  have hhere : nameHere cs ⟨above.reverse, cs, []⟩ = some ⟨(above ++ cs).reverse, [], []⟩ := by
    have happend := nameHere_append cs above.reverse [] []
    rw [List.append_nil] at happend
    rw [happend, List.reverse_append]
    rfl
  obtain ⟨x, hsearch, rfl | ⟨e, hlt, hx⟩⟩ := search_nameRegex_of_lead habove hhere
  · exact hsearch
  · exact absurd (length_le_of_nameHere hx) (Nat.not_le.2 hlt)

theorem exists_search_nameRegex (habove : IsLead above) (rest : List Char) :
    ∃ x, (nameRegex cs).search (above ++ (cs ++ '/' :: rest)) = some x := by
  have hhere : ∃ d, nameHere cs ⟨above.reverse, cs ++ '/' :: rest, []⟩ = some d :=
    ⟨_, nameHere_append cs above.reverse ('/' :: rest) []⟩
  obtain ⟨d, hd⟩ := hhere
  obtain ⟨x, hsearch, -⟩ := search_nameRegex_of_lead habove hd
  exact ⟨x, hsearch⟩

theorem toList_intercalate_append {names more : List String} (hnames : names ≠ []) (hmore : more ≠ []) :
    ("/".intercalate (names ++ more)).toList =
      ("/".intercalate names).toList ++ '/' :: ("/".intercalate more).toList := by
  induction names with
  | nil => exact absurd rfl hnames
  | cons n names ih =>
    cases names with
    | nil =>
      obtain ⟨m, more, rfl⟩ := List.exists_cons_of_ne_nil hmore
      simp [String.intercalate_cons_cons]
    | cons n' names =>
      have hrest := ih (by simp)
      simp only [List.cons_append] at hrest ⊢
      rw [String.intercalate_cons_cons, String.toList_append, hrest, String.intercalate_cons_cons]
      simp

theorem not_mem_intercalate {names : List String} {c : Char} (hc : c ≠ '/')
    (hnames : ∀ n ∈ names, c ∉ n.toList) : c ∉ ("/".intercalate names).toList := by
  induction names with
  | nil => simp
  | cons n names ih =>
    obtain ⟨hn, hnames⟩ := List.forall_mem_cons.1 hnames
    cases names with
    | nil => simpa using hn
    | cons n' names =>
      have hrest := ih hnames
      rw [String.intercalate_cons_cons, String.toList_append, String.toList_append]
      simp only [List.mem_append, not_or]
      exact ⟨⟨hn, by simpa using hc⟩, hrest⟩

theorem intercalate_ne_nil {names : List String} (hne : names ≠ []) (hnames : "" ∉ names) :
    ("/".intercalate names).toList ≠ [] := by
  obtain ⟨n, names, rfl⟩ := List.exists_cons_of_ne_nil hne
  cases names with
  | nil =>
    have hn : n ≠ "" := Ne.symm (by simpa using hnames)
    simpa using hn
  | cons n' names => simp [String.intercalate_cons_cons]

/-- A path with the name in it. -/
theorem exists_lead {front : List String} (hempty : "" ∉ front) (hlines : ∀ n ∈ front, '\n' ∉ n.toList)
    {more : List String} (hmore : more ≠ []) : ∃ above, IsLead above ∧
      ("/".intercalate (front ++ more)).toList = above ++ ("/".intercalate more).toList := by
  by_cases hfront : front = []
  · exact ⟨[], .inl rfl, by simp [hfront]⟩
  · refine ⟨("/".intercalate front).toList ++ ['/'], .inr ⟨_, intercalate_ne_nil hfront hempty,
      not_mem_intercalate (by decide) hlines, rfl⟩, ?_⟩
    rw [toList_intercalate_append hfront hmore]
    simp

/-- A plain name matches what it stands above, and at the end of a path the path itself. -/
theorem find?_plain {p : Pattern} (hname : IsPlain name.toList) (hp : read name = .ok p)
    {front : List String} (hempty : "" ∉ front) (hlines : ∀ n ∈ front, '\n' ∉ n.toList)
    (back : List String) : ∃ c, p.find? (Matcher.subject (front ++ name :: back) false) = some c ∧
      (back = [] → throughDirectory c = false) := by
  cases (read_plain hname).symm.trans hp
  obtain ⟨above, habove, htext⟩ := exists_lead hempty hlines (List.cons_ne_nil name back)
  have hsubject : Matcher.subject (front ++ name :: back) false =
      above ++ ("/".intercalate (name :: back)).toList := by
    rw [← htext]
    exact List.append_nil _
  rw [hsubject]
  cases back with
  | nil => exact ⟨_, by simpa [find?] using search_nameRegex_end habove, fun _ => rfl⟩
  | cons n back =>
    obtain ⟨c, hc⟩ : ∃ c, (nameRegex name.toList).search
        (above ++ (name.toList ++ '/' :: ("/".intercalate (n :: back)).toList)) = some c :=
      exists_search_nameRegex habove _
    have hrest : ("/".intercalate (name :: n :: back)).toList =
        name.toList ++ '/' :: ("/".intercalate (n :: back)).toList := by
      simp [String.intercalate_cons_cons]
    exact ⟨c, by rw [hrest]; exact hc, fun hnil => by simp at hnil⟩

end Pattern

end LintRunner
