import LintRunner.Proofs.Pattern.Name
import LintRunner.Proofs.Selection.Control

/-! Patterns for names at any depth: `**/` with a whole name behind it, or with `*` and the end of a name.
Such a pattern covers every path that ends so, however deep it lies. -/

namespace LintRunner

namespace Regex

variable {β : Type} {r : Regex} {rs : List Regex} {k : Cursor → Option β} {text before rest : List Char}
  {groups : List (Nat × List Char)} {y : Char} {n : Nat}

/-- Each of these characters is taken where it comes next. -/
def Takes (r : Regex) (text : List Char) : Prop :=
  ∀ y ∈ text, ∀ (β : Type) (before rest : List Char) (groups : List (Nat × List Char))
    (k : Cursor → Option β), r.run ⟨before, y :: rest, groups⟩ k = k ⟨y :: before, rest, groups⟩

theorem takes_dot (htext : '\n' ∉ text) : Takes dot text :=
  fun _ hy _ _ _ _ _ => run_dot_cons fun h => htext (h ▸ hy)

theorem takes_notSlash (htext : '/' ∉ text) : Takes Pattern.notSlash text :=
  fun _ hy _ _ _ _ _ => if_pos ((contains_allBut '/' _).2 fun h => htext (h ▸ hy))

/-- Something is found wherever it can be found after some rounds. -/
theorem isSome_manyOf (htext : Takes r text) (hn : text.length ≤ n)
    (hk : (k ⟨text.reverse ++ before, rest, groups⟩).isSome = true) :
    (manyOf r.run n ⟨before, text ++ rest, groups⟩ k).isSome = true := by
  induction text generalizing before n with
  | nil =>
    cases n with
    | zero => exact hk
    | succ n =>
      rw [manyOf, Option.isSome_or, Bool.or_eq_true]
      exact .inr hk
  | cons y text ih =>
    obtain ⟨n, rfl⟩ := Nat.exists_eq_add_of_le' hn
    have hrest : (manyOf r.run (n + text.length) ⟨y :: before, text ++ rest, groups⟩ k).isSome = true :=
      ih (fun z hz => htext z (List.mem_cons_of_mem y hz)) (Nat.le_add_left _ _) (by simpa using hk)
    rw [List.length_cons, ← Nat.add_assoc, List.cons_append, manyOf, htext y List.mem_cons_self,
      if_neg (by simp [Cursor.atSamePlace]), Option.isSome_or, hrest, Bool.true_or]

theorem isSome_star (htext : Takes r text) (hk : (k ⟨text.reverse ++ before, rest, groups⟩).isSome = true) :
    ((star r).run ⟨before, text ++ rest, groups⟩ k).isSome = true :=
  isSome_manyOf (n := (text ++ rest).length + 1) htext (by rw [List.length_append]; omega) hk

theorem isSome_plus (htext : Takes r text) (hne : text ≠ [])
    (hk : (k ⟨text.reverse ++ before, rest, groups⟩).isSome = true) :
    ((plus r).run ⟨before, text ++ rest, groups⟩ k).isSome = true := by
  obtain ⟨y, text, rfl⟩ := List.exists_cons_of_ne_nil hne
  have hrun : (plus r).run ⟨before, y :: text ++ rest, groups⟩ k =
      manyOf r.run ((text ++ rest).length + 1) ⟨y :: before, text ++ rest, groups⟩ k :=
    htext y List.mem_cons_self _ _ _ _ _
  rw [hrun]
  exact isSome_manyOf (fun z hz => htext z (List.mem_cons_of_mem y hz)) (by rw [List.length_append]; omega) (by simpa using hk)

end Regex

namespace Pattern

open Regex

variable {line : String} {glob cs above rest : List Char} {tokens : List GlobToken} {rs : List Regex}

/-- The expression of a glob at any depth. -/
def depthRegex (rs : List Regex) : Regex :=
  .inOrder ([.textStart, .optional (.seq (.plus .dot) slash)] ++ rs ++ [nameEnd])

/-- The end of a name, without signs and with no blank at its own end. -/
def IsEnding (cs : List Char) : Prop :=
  (∀ c ∈ cs, c ∉ signs) ∧ cs.getLast?.any (fun c => !Text.isBlank c) = true

instance : DecidablePred IsEnding := fun cs =>
  decidable_of_iff (cs.all (· ∉ signs) = true ∧ cs.getLast?.any (fun c => !Text.isBlank c) = true)
    (by simp [IsEnding])

theorem significant_append (front : List Char) (hcs : cs.getLast?.any (fun c => !Text.isBlank c) = true) :
    significant (front ++ cs) = front ++ cs := by
  rcases List.eq_nil_or_concat cs with rfl | ⟨init, c, rfl⟩
  · cases hcs
  · rw [List.concat_eq_append, List.getLast?_append, List.getLast?_singleton, Option.some_or, Option.any_some] at hcs
    unfold significant
    split
    · rfl
    · rw [List.concat_eq_append, ← List.append_assoc]
      exact Text.trimEnd_append_inked (by simpa using hcs) _

theorem segmentsRegex_depth (hdepth : glob ≠ anyDepth) (hany : glob ≠ ['*'])
    (htokens : globTokens glob = .ok (some tokens)) (hrs : tokens.mapM GlobToken.regex = .ok rs) :
    segmentsRegex false [anyDepth, glob] = .ok (some (depthRegex rs)) := by
  have hsteps : steps true [anyDepth, glob] = .ok (some [.leadingDepth, .glob tokens true]) := by
    simp [steps, step, hdepth, hany, htokens]
    rfl
  have hregexes : stepsRegex false true false [.leadingDepth, .glob tokens true] =
      .ok ([.textStart, .optional (.seq (.plus .dot) slash)] ++ rs ++ [nameEnd]) := by
    simp only [stepsRegex, stepRegex, hrs, bind, Except.bind, pure, Except.pure]
    simp [stepRegex.lead]
  rw [segmentsRegex, if_neg (by simp), if_neg (by simp [hany]), if_neg (by simp), hsteps]
  simp only [bind, Except.bind, hregexes]
  rfl

theorem read_depth (hline : line.toList = anyDepth ++ '/' :: glob) (hslash : '/' ∉ glob)
    (hlast : glob.getLast?.any (fun c => !Text.isBlank c) = true) (hdepth : glob ≠ anyDepth)
    (hany : glob ≠ ['*']) (htokens : globTokens glob = .ok (some tokens))
    (hrs : tokens.mapM GlobToken.regex = .ok rs) :
    read line = .ok ⟨line, true, some (depthRegex rs)⟩ := by
  have hne : glob ≠ [] := by
    rintro rfl
    cases hlast
  have hsignificant : significant line.toList = '*' :: '*' :: '/' :: glob := by
    rw [hline]
    exact significant_append ['*', '*', '/'] hlast
  have hfields : Text.fields '/' ('*' :: '*' :: '/' :: glob) = [anyDepth, glob] := by
    have happend : Text.fields '/' (anyDepth ++ '/' :: glob) = anyDepth :: Text.fields '/' glob :=
      Text.fields_append (by decide) glob
    rwa [Text.fields_of_not_mem hslash] at happend
  have hanchor : anchor [anyDepth, glob] = [anyDepth, glob] := by
    rw [anchor]
    · simp [anyDepth]
    · simp
    · exact fun s h => hne (List.cons.inj (List.cons.inj h).2).1
  have hsegments : collapseDepths (openEnd [anyDepth, glob]) = [anyDepth, glob] := by
    simp [openEnd, collapseDepths, hne, hdepth]
  have hsign : sign ('*' :: '*' :: '/' :: glob) = (true, '*' :: '*' :: '/' :: glob) := rfl
  simp only [read, hsignificant, hsign, hfields, hanchor, hsegments]
  rw [if_neg (by simp), if_neg (by simp)]
  simp only [List.getLast?_cons_cons, List.getLast?_singleton, Option.some.injEq, hne, decide_false,
    segmentsRegex_depth hdepth hany htokens hrs]
  rfl

theorem read_depth_name (hcs : IsEnding cs) (hline : line.toList = anyDepth ++ '/' :: cs) :
    read line = .ok ⟨line, true, some (depthRegex (cs.map .char))⟩ :=
  read_depth hline (fun h => hcs.1 _ h (by decide)) hcs.2 (ne_of_plain hcs.1 ['*'] [])
    (ne_of_plain hcs.1 [] []) (globTokens_plain hcs.1) (mapM_regex_literal cs)

theorem read_depth_ending (hcs : IsEnding cs) (hline : line.toList = anyDepth ++ '/' :: '*' :: cs) :
    read line = .ok ⟨line, true, some (depthRegex (.star notSlash :: cs.map .char))⟩ := by
  have hne : cs ≠ [] := by
    rintro rfl
    cases hcs.2
  have htokens : globTokens ('*' :: cs) = .ok (some (.anyText :: cs.map .literal)) := by
    rw [globTokens, globTokens_plain hcs.1]
    rfl
  have hrs : (GlobToken.anyText :: cs.map .literal).mapM GlobToken.regex =
      .ok (.star notSlash :: cs.map .char) := by
    rw [List.mapM_cons, mapM_regex_literal]
    rfl
  refine read_depth hline ?_ ?_ ?_ ?_ htokens hrs
  · intro h
    exact hcs.1 '/' ((List.mem_cons.1 h).resolve_left (by decide)) (by decide)
  · obtain ⟨c, cs, rfl⟩ := List.exists_cons_of_ne_nil hne
    rw [List.getLast?_cons_cons]
    exact hcs.2
  · intro h
    exact ne_of_plain hcs.1 [] [] (List.cons.inj h).2
  · intro h
    exact hne (List.cons.inj h).2

/-- Only a `!` makes a pattern take back. -/
theorem positive_of_read {q : Pattern} (hline : '!' ∉ line.toList) (hq : read line = .ok q) :
    q.positive = true := by
  have hsubset : significant line.toList ⊆ line.toList := by
    unfold significant
    split
    · exact List.Subset.refl _
    · intro c hc
      have hc := (List.dropWhile_suffix Text.isBlank).subset (List.mem_reverse.1 hc)
      exact List.mem_reverse.1 hc
  have hsign := sign_plain fun hmem => hline (hsubset hmem)
  simp only [read, hsign] at hq
  split at hq
  · cases hq
    rfl
  · split at hq
    · cases hq
    · obtain ⟨r, -, hq⟩ := Run.of_bind_ok hq
      cases hq
      rfl

theorem exists_search_depthRegex (habove : IsLead above)
    (hrest : ((inOrder (rs ++ [nameEnd])).run ⟨above.reverse, rest, []⟩ some : Option Cursor).isSome = true) :
    ∃ x, (depthRegex rs).search (above ++ rest) = some x := by
  have hrun : ((depthRegex rs).run (.start (above ++ rest)) some : Option Cursor) =
      ((Regex.seq (.plus .dot) slash).run (.start (above ++ rest))
        (fun d => (inOrder (rs ++ [nameEnd])).run d some)).or
          ((inOrder (rs ++ [nameEnd])).run (.start (above ++ rest)) some) := by
    rw [depthRegex, List.append_assoc]
    simp only [List.cons_append, List.nil_append, run_inOrder_cons, run_optional]
    rfl
  have hsome : ((depthRegex rs).run (.start (above ++ rest)) some : Option Cursor).isSome = true := by
    rw [hrun, Option.isSome_or, Bool.or_eq_true]
    rcases habove with rfl | ⟨names, hne, hnames, rfl⟩
    · exact .inr hrest
    · left
      rw [List.append_assoc]
      refine isSome_plus (takes_dot hnames) hne ?_
      rw [List.append_nil, slash, List.singleton_append, run_char_cons]
      simpa using hrest
  obtain ⟨x, hx⟩ := Option.isSome_iff_exists.1 hsome
  exact ⟨x, search_of_run hx⟩

theorem isSome_run_name (cs above : List Char) :
    ((inOrder (cs.map .char ++ [nameEnd])).run ⟨above, cs, []⟩ some : Option Cursor).isSome = true := by
  have happend := nameHere_append cs above [] []
  rw [List.append_nil] at happend
  exact congrArg Option.isSome happend

variable {p : Pattern} {front : List String} {name : String}

theorem covers_of_depthRegex (hp : p.regex = some (depthRegex rs)) (hempty : "" ∉ front)
    (hlines : ∀ n ∈ front, '\n' ∉ n.toList) (hname : ∀ above,
      ((inOrder (rs ++ [nameEnd])).run ⟨above, name.toList, []⟩ some : Option Cursor).isSome = true) :
    p.covers (Matcher.subject (front ++ [name]) false) = true := by
  obtain ⟨above, habove, htext⟩ := exists_lead hempty hlines (List.cons_ne_nil name [])
  have hsubject : Matcher.subject (front ++ [name]) false = above ++ name.toList := by
    rw [String.intercalate_singleton] at htext
    rw [← htext]
    exact List.append_nil _
  obtain ⟨x, hx⟩ := exists_search_depthRegex habove (hname above.reverse)
  rw [hsubject, covers, find?, hp, Option.bind_some, hx]
  rfl

/-- A name is found at any depth. -/
theorem exists_covers_name (hname : IsEnding name.toList) (hline : line.toList = anyDepth ++ '/' :: name.toList)
    (hempty : "" ∉ front) (hlines : ∀ n ∈ front, '\n' ∉ n.toList) :
    ∃ p, read line = .ok p ∧ p.covers (Matcher.subject (front ++ [name]) false) = true :=
  ⟨_, read_depth_name hname hline,
    covers_of_depthRegex rfl hempty hlines fun above => isSome_run_name _ above⟩

/-- And so is a name that ends in some way, whatever it begins with. -/
theorem exists_covers_ending {stem : List Char} (hcs : IsEnding cs)
    (hline : line.toList = anyDepth ++ '/' :: '*' :: cs) (hempty : "" ∉ front)
    (hlines : ∀ n ∈ front, '\n' ∉ n.toList) (hname : name.toList = stem ++ cs) (hslash : '/' ∉ name.toList) :
    ∃ p, read line = .ok p ∧ p.covers (Matcher.subject (front ++ [name]) false) = true := by
  refine ⟨_, read_depth_ending hcs hline, covers_of_depthRegex rfl hempty hlines fun above => ?_⟩
  rw [hname] at hslash ⊢
  rw [List.cons_append, run_inOrder_cons]
  exact isSome_star (takes_notSlash fun h => hslash (List.mem_append_left _ h)) (isSome_run_name cs _)

end Pattern

namespace Matcher

open Pattern

/-- Where no line takes back, one pattern that covers the path is enough. -/
theorem covers_of_mem {root p : Path} {lines : List String} {m : Matcher} {line : String} {q : Pattern}
    {names : List String} (hm : compile root lines = .ok m) (hlines : ∀ line ∈ lines, '!' ∉ line.toList)
    (hnames : m.candidate? p = some names) (hline : line ∈ lines) (hq : read line = .ok q)
    (hcovers : q.covers (subject names false) = true) : m.covers p false = true := by
  have hread := readAll_of_compile hm
  rw [covers_eq_verdict hnames]
  cases hverdict : verdict m.patterns (subject names false) with
  | none =>
    have hno := verdict_eq_none_iff.1 hverdict q ((mem_of_readAll hread).2 ⟨line, hline, hq⟩)
    rw [hcovers] at hno
    cases hno
  | some b =>
    obtain ⟨r, c, ⟨front, back, hpatterns, -⟩, rfl⟩ := verdict_eq_some_iff.1 hverdict
    have hmem : r ∈ m.patterns := by rw [hpatterns]; simp
    obtain ⟨line, hline, hr⟩ := (mem_of_readAll hread).1 hmem
    exact positive_of_read (hlines line hline) hr

end Matcher

end LintRunner
