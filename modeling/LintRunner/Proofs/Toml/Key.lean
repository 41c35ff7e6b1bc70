import LintRunner.Proofs.Toml.Rest
import Mathlib.Data.List.TakeWhile

/-! Names in TOML keys. A name in quotes is read as it stands just where nothing in it has a meaning of
its own; escapes only ever make it shorter. Without quotes it has to be bare. -/

namespace LintRunner.Toml

variable {cs rest s : List Char}

/-- Stands for itself in a basic string. -/
def isVerbatim (c : Char) : Bool := c ≠ '"' && c ≠ '\\' && !isControl c

theorem of_consResult {c : Char} {x : Option (List Char × List Char)}
    (hread : consResult c x = some (s, rest)) : ∃ s', s = c :: s' ∧ x = some (s', rest) := by
  obtain ⟨⟨s', rest'⟩, hx, heq⟩ := Option.map_eq_some_iff.1 hread
  cases heq
  exact ⟨s', rfl, hx⟩

theorem length_of_consResult {c d : Char} {x : Option (List Char × List Char)}
    (hx : ∀ {s : List Char}, x = some (s, rest) → s.length + rest.length < cs.length)
    (hread : consResult c x = some (s, rest)) : s.length + rest.length < (d :: cs).length := by
  obtain ⟨s', rfl, hread'⟩ := of_consResult hread
  have hlength := hx hread'
  simp only [List.length_cons]
  omega

/-- Each character that is read takes up one at least, and the closing quote one more. -/
theorem length_of_readBasic {block : Bool} {place : Place}
    (hread : readBasic block place cs = some (s, rest)) : s.length + rest.length < cs.length := by
  fun_induction readBasic block place cs generalizing s
  all_goals first
    | rename_i ih
      exact length_of_consResult ih hread
    | rename_i ih
      exact Nat.lt_succ_of_lt (ih hread)
    | cases hread
      done
    | cases hread
      simp only [List.length_nil, List.length_drop, List.length_cons]
      omega

theorem length_of_readLiteral (hread : readLiteral cs = some (s, rest)) :
    s.length + rest.length < cs.length := by
  fun_induction readLiteral cs generalizing s with
  | case1 => cases hread
  | case2 cs =>
    cases hread
    simp
  | case3 => cases hread
  | case4 c cs _ _ ih => exact length_of_consResult ih hread

theorem readBasic_plain_cons (c : Char) (cs : List Char) : readBasic false .plain (c :: cs) =
    if c = '\\' then readBasic false .escape cs
    else if c = '"' then some ([], cs)
    else if isControl c then none
    else consResult c (readBasic false .plain cs) := by
  rw [readBasic]
  · by_cases hquote : c = '"' <;> simp [hquote]
  all_goals simp

/-- In quotes a name is read as it stands just where every character stands for itself. -/
theorem readBasic_quoted_iff : readBasic false .plain (cs ++ ['"']) = some (cs, rest) ↔
    rest = [] ∧ ∀ c ∈ cs, isVerbatim c = true := by
  induction cs with
  | nil => exact ⟨fun hread => ⟨by cases hread; rfl, nofun⟩, fun ⟨hrest, _⟩ => by rw [hrest]; rfl⟩
  | cons c cs ih =>
    rw [List.cons_append, readBasic_plain_cons, List.forall_mem_cons]
    -- behind a backslash there is too little left for a string as long as this one
    have hescape : ¬ readBasic false .escape (cs ++ ['"']) = some (c :: cs, rest) := fun hread => by
      have hlength := length_of_readBasic hread
      simp only [List.length_cons, List.length_append, List.length_nil] at hlength
      omega
    have hcons : consResult c (readBasic false .plain (cs ++ ['"'])) = some (c :: cs, rest) ↔
        readBasic false .plain (cs ++ ['"']) = some (cs, rest) := by
      constructor
      · intro hread
        obtain ⟨s', heq, hread⟩ := of_consResult hread
        cases heq
        exact hread
      · intro hread
        rw [hread]
        rfl
    split
    · next hc => exact iff_of_false hescape (by simp [hc, isVerbatim])
    split
    · next hc => simp [hc, isVerbatim]
    split
    · next hc => simp [hc, isVerbatim]
    · next hslash hquote hcontrol => simp [hcons, ih, hslash, hquote, hcontrol, isVerbatim]

/-- A name is shorter than what it is read from, or it is bare. -/
theorem readName_cases (hread : readName cs = some (s, rest)) : s.length < cs.length ∨
    s = cs.takeWhile isBare ∧ s ≠ [] ∧ rest = cs.dropWhile isBare := by
  unfold readName at hread
  split at hread
  · next cs =>
    have hlength := length_of_readBasic hread
    exact .inl (by rw [List.length_cons]; omega)
  · next cs =>
    have hlength := length_of_readLiteral hread
    exact .inl (by rw [List.length_cons]; omega)
  · split at hread
    · cases hread
    · next hbare =>
      cases hread
      exact .inr ⟨rfl, hbare, rfl⟩

theorem readName_bare (hne : cs ≠ []) (hcs : ∀ c ∈ cs, isBare c = true)
    (hrest : rest.takeWhile isBare = []) : readName (cs ++ rest) = some (cs, rest) := by
  obtain ⟨c, cs, rfl⟩ := List.exists_cons_of_ne_nil hne
  have hc := hcs c List.mem_cons_self
  have hdrop : rest.dropWhile isBare = rest := by
    have hall := List.takeWhile_append_dropWhile (p := isBare) (l := rest)
    rwa [hrest, List.nil_append] at hall
  unfold readName
  split
  · next heq =>
    rw [(List.cons.inj heq).1] at hc
    exact absurd hc (by decide)
  · next heq =>
    rw [(List.cons.inj heq).1] at hc
    exact absurd hc (by decide)
  · rw [List.takeWhile_append_of_pos hcs, List.dropWhile_append_of_pos hcs, hrest, hdrop]
    simp

theorem isBlank_of_isBare {c : Char} (hc : isBare c = true) : isBlank c = false := by
  rw [Bool.eq_false_iff]
  intro hblank
  simp only [isBlank, Bool.or_eq_true, decide_eq_true_eq] at hblank
  rcases hblank with rfl | rfl <;> exact absurd hc (by decide)

theorem skipBlanks_bare (hcs : ∀ c ∈ cs, isBare c = true) : skipBlanks cs = cs := by
  cases cs with
  | nil => rfl
  | cons c cs => exact List.dropWhile_cons_of_neg (by simp [isBlank_of_isBare (hcs c List.mem_cons_self)])

/-- Without quotes a name is read as it stands just where it is bare, whatever blanks are skipped. -/
theorem readName_skipBlanks_iff : readName (skipBlanks cs) = some (cs, rest) ↔
    rest = [] ∧ cs ≠ [] ∧ ∀ c ∈ cs, isBare c = true := by
  constructor
  · intro hread
    rcases readName_cases hread with hlength | ⟨hbare, hne, hrest⟩
    · exact absurd (List.dropWhile_suffix isBlank).length_le (Nat.not_le.2 hlength)
    · have hall : ∀ c ∈ cs, isBare c = true := fun c hc => by
        rw [hbare] at hc
        exact List.mem_takeWhile_imp hc
      rw [skipBlanks_bare hall] at hrest
      exact ⟨hrest.trans (List.dropWhile_eq_nil_iff.2 hall), hne, hall⟩
  · rintro ⟨rfl, hne, hall⟩
    rw [skipBlanks_bare hall]
    have hread : readName (cs ++ []) = some (cs, []) := readName_bare hne hall rfl
    rwa [List.append_nil] at hread

theorem readNames_succ (most : Nat) (cs : List Char) : readNames (most + 1) cs =
    (readName cs).bind fun (name, rest) =>
      match skipBlanks rest with
      | '.' :: rest => (readNames most (skipBlanks rest)).map fun r => (String.ofList name :: r.1, r.2)
      | rest => some ([String.ofList name], rest) := by
  simp only [readNames, Option.map_eq_bind]
  cases readName cs <;> rfl

theorem ne_nil_of_readNames {most : Nat} {names : List String}
    (hread : readNames most cs = some (names, rest)) : names ≠ [] := by
  cases most with
  | zero => cases hread
  | succ most =>
    rw [readNames_succ] at hread
    obtain ⟨r, -, hread⟩ := Option.bind_eq_some_iff.1 hread
    dsimp only at hread
    split at hread
    · obtain ⟨more, -, heq⟩ := Option.map_eq_some_iff.1 hread
      cases heq
      simp
    · cases hread
      simp

/-- One name, and nothing behind it but blanks. -/
theorem readNames_single_iff {name : String} {most : Nat} :
    readNames (most + 1) cs = some ([name], []) ↔
      ∃ rest, readName cs = some (name.toList, rest) ∧ skipBlanks rest = [] := by
  rw [readNames_succ, Option.bind_eq_some_iff]
  constructor
  · rintro ⟨⟨s, rest⟩, hname, hread⟩
    dsimp only at hread
    split at hread
    · obtain ⟨⟨more, rest'⟩, hmore, heq⟩ := Option.map_eq_some_iff.1 hread
      cases heq
      exact absurd rfl (ne_nil_of_readNames hmore)
    · next hrest =>
      obtain ⟨hs, hblank⟩ : String.ofList s = name ∧ skipBlanks rest = [] := by simpa using hread
      exact ⟨rest, by rw [← hs, String.toList_ofList]; exact hname, hblank⟩
  · rintro ⟨rest, hname, hblank⟩
    exact ⟨_, hname, by simp [hblank]⟩

/-- The names of a dotted key whose first name is bare. -/
theorem keyNames?_dotted {first : String} (hne : first.toList ≠ [])
    (hfirst : ∀ c ∈ first.toList, isBare c = true) (s : String) (names : List String) :
    keyNames? (first ++ "." ++ s) = some (first :: names) ↔
      readNames (first.toList.length + s.toList.length + 1) (skipBlanks s.toList) = some (names, []) := by
  have hname : readName (first.toList ++ '.' :: s.toList) = some (first.toList, '.' :: s.toList) :=
    readName_bare hne hfirst rfl
  have hkey : readKey (first ++ "." ++ s).toList =
      (readNames (first.toList.length + s.toList.length + 1) (skipBlanks s.toList)).map
        fun r => (first :: r.1, r.2) := by
    rw [readKey, String.toList_append, String.toList_append, List.append_assoc]
    have htext : first.toList ++ (".".toList ++ s.toList) = first.toList ++ '.' :: s.toList := rfl
    rw [htext, readNames_succ, hname]
    simp [skipBlanks, isBlank, Nat.add_assoc]
  rw [keyNames?, hkey]
  cases readNames (first.toList.length + s.toList.length + 1) (skipBlanks s.toList) with
  | none => simp
  | some r =>
    obtain ⟨names', rest⟩ := r
    cases rest <;> simp

end LintRunner.Toml
