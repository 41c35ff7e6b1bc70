import LintRunner.Proofs.Toml.Key
import LintRunner.Proofs.Toml.Local

/-! Strings, lists and statements of TOML may go on over several lines. What is read of them is read with
more text behind too, where a line end is left. -/

namespace LintRunner.Toml

variable {α β : Type} {cs rest more : List Char}

open Remains

/-- What was read is read with more text behind too, where a line end is left. -/
def Kept [Remains α] (more : List Char) (x x' : Option α) : Prop :=
  ∀ a, x = some a → '\n' ∈ left a → x' = some (further more a)

section Kept

variable [Remains α] [Remains β] {x x' : Option α}

theorem kept_none : Kept more none x' := nofun

theorem kept_some (a : α) : Kept more (some a) (some (further more a)) := by
  rintro _ ⟨⟩ -
  rfl

theorem Same.kept (hx : Same more x x') : Kept more x x' := by
  rintro a rfl -
  exact hx.eq

theorem Kept.ite {p : Prop} [Decidable p] {y y' : Option α} (hx : p → Kept more x x')
    (hy : ¬ p → Kept more y y') : Kept more (if p then x else y) (if p then x' else y') := by
  split
  · exact hx ‹_›
  · exact hy ‹_›

theorem Kept.map {f : α → β} (hx : Kept more x x') (hleft : ∀ a, left (f a) = left a)
    (hf : ∀ a, f (further more a) = further more (f a)) : Kept more (x.map f) (x'.map f) := by
  intro b hb hbreak
  obtain ⟨a, ha, rfl⟩ := Option.map_eq_some_iff.1 hb
  rw [hx a ha (hleft a ▸ hbreak), Option.map_some, hf]

theorem Kept.bind {f f' : α → Option β} (hx : Kept more x x')
    (hleft : ∀ a, Leaves left (left a) (f a)) (hf : ∀ a, Kept more (f a) (f' (further more a))) :
    Kept more (x >>= f) (x' >>= f') := by
  intro b hb hbreak
  obtain ⟨a, ha, hb⟩ := Option.bind_eq_some_iff.1 hb
  rw [hx a ha ((hleft a b hb).subset hbreak)]
  exact hf a b hb hbreak

end Kept

theorem kept_consResult {c : Char} {x x' : Option (List Char × List Char)} (hx : Kept more x x') :
    Kept more (consResult c x) (consResult c x') := hx.map (fun _ => rfl) fun _ => rfl

theorem kept_readLiteral (cs more : List Char) : Kept more (readLiteral cs) (readLiteral (cs ++ more)) := by
  induction cs with
  | nil => exact kept_none
  | cons c rest ih =>
    exact Kept.ite (fun _ => kept_some ([], rest)) fun _ =>
      Kept.ite (fun _ => kept_none) fun _ => kept_consResult ih

theorem isClosed_append (quote : Char) (hquote : quote ≠ '\n') (hcs : '\n' ∈ cs) :
    isClosed quote (cs ++ more) = isClosed quote cs :=
  take_append_of_break [quote, quote] more (by simp [Ne.symm hquote]) hcs

/-- A closing quote is followed by what it was followed by, as long as a line end comes. -/
theorem kept_closing {quote : Char} {x x' : Option (List Char × List Char)} (hquote : quote ≠ '\n')
    (hcs : '\n' ∈ cs) (hx : Kept more x x') :
    Kept more (if isClosed quote cs then some ([], cs.drop 2) else x)
      (if isClosed quote (cs ++ more) then some ([], (cs ++ more).drop 2) else x') := by
  rw [isClosed_append quote hquote hcs]
  refine Kept.ite (fun hclosed => Same.kept ?_) fun _ => hx
  exact (same_drop [quote, quote] (by simp [Ne.symm hquote]) hcs hclosed).map
    (f := fun rest => (([] : List Char), rest)) (fun _ => rfl) fun _ => rfl

/-- Where there is no line end, none can be left. -/
theorem Leaves.kept [Remains α] {x x' : Option α} (hx : Leaves left cs x) (hcs : '\n' ∉ cs) :
    Kept more x x' := fun a ha hbreak => absurd ((hx a ha).subset hbreak) hcs

theorem kept_inside {block : Bool} {place : Place} {c : Char} (hplace : place = .plain ∨ place = .afterBreak)
    (hrest : ∀ place, Kept more (readBasic block place rest) (readBasic block place (rest ++ more))) :
    Kept more (readBasic block place (c :: rest)) (readBasic block place (c :: rest ++ more)) := by
  have hopen (cs : List Char) : readBasic block place (c :: cs) =
      if place = .afterBreak ∧ isBlankOrBreak c then readBasic block .afterBreak cs
      else if c = '\\' then readBasic block .escape cs
      else if c = '"' then if !block then some ([], cs) else if isClosed '"' cs then some ([], cs.drop 2)
        else consResult c (readBasic block .plain cs)
      else if isControl c && !(block && c = '\n') then none
      else consResult c (readBasic block .plain cs) := by
    rcases hplace with rfl | rfl <;> by_cases hquote : c = '"' <;> simp [readBasic, hquote, isControl]
  by_cases hbreak : '\n' ∈ c :: rest
  · rw [List.cons_append, hopen, hopen]
    refine Kept.ite (fun _ => hrest _) fun _ => Kept.ite (fun _ => hrest _) fun _ => ?_
    refine Kept.ite (fun hquote => ?_) fun _ => Kept.ite (fun _ => kept_none) fun _ => kept_consResult (hrest _)
    subst hquote
    refine Kept.ite (fun _ => kept_some ([], rest)) fun _ => ?_
    exact kept_closing (by decide) (break_mem_tail (by decide) hbreak) (kept_consResult (hrest _))
  · exact (leaves_readBasic block place (c :: rest)).kept hbreak

theorem kept_readBasic (block : Bool) (place : Place) (cs more : List Char) :
    Kept more (readBasic block place cs) (readBasic block place (cs ++ more)) := by
  induction cs generalizing place with
  | nil => exact kept_none
  | cons c rest ih =>
    cases place with
    | plain => exact kept_inside (.inl rfl) ih
    | escape =>
      simp only [List.cons_append, readBasic]
      cases escapes.lookup c with
      | some meant => exact kept_consResult (ih .plain)
      | none =>
        exact Kept.ite (fun _ => ih _) fun _ => Kept.ite (fun _ => ih _) fun _ =>
          Kept.ite (fun _ => ih _) fun _ => Kept.ite (fun _ => ih _) fun _ => kept_none
    | code digits soFar =>
      simp only [List.cons_append, readBasic]
      cases hexValue? c with
      | none => exact kept_none
      | some digit =>
        refine Kept.ite (fun _ => ih _) fun _ => ?_
        cases scalar? (soFar * 16 + digit) with
        | none => exact kept_none
        | some meant => exact kept_consResult (ih .plain)
    | beforeBreak =>
      exact Kept.ite (fun _ => ih _) fun _ => Kept.ite (fun _ => ih _) fun _ => kept_none
    | afterBreak => exact kept_inside (.inr rfl) ih

theorem kept_readLiteralBlock (cs more : List Char) :
    Kept more (readLiteralBlock cs) (readLiteralBlock (cs ++ more)) := by
  induction cs with
  | nil => exact kept_none
  | cons c rest ih =>
    have hopen (cs : List Char) : readLiteralBlock (c :: cs) =
        if c = '\'' then if isClosed '\'' cs then some ([], cs.drop 2) else consResult c (readLiteralBlock cs)
        else if isControl c && c ≠ '\n' then none else consResult c (readLiteralBlock cs) := by
      by_cases hquote : c = '\'' <;> simp [readLiteralBlock, hquote, isControl]
    by_cases hbreak : '\n' ∈ c :: rest
    · rw [List.cons_append, hopen, hopen]
      refine Kept.ite (fun hquote => ?_) fun _ => Kept.ite (fun _ => kept_none) fun _ => kept_consResult ih
      subst hquote
      exact kept_closing (by decide) (break_mem_tail (by decide) hbreak) (kept_consResult ih)
    · exact (leaves_readLiteralBlock (c :: rest)).kept hbreak

theorem takeQuotes_append {quote : Char} (hquote : quote ≠ '\n') {s : List Char} (hcs : '\n' ∈ cs) :
    takeQuotes quote (s, cs ++ more) = further more (takeQuotes quote (s, cs)) := by
  have hextra (cs : List Char) : (cs.take 2).takeWhile (· = quote) = (cs.takeWhile (· = quote)).take 2 := by
    rcases cs with _ | ⟨c, _ | ⟨d, rest⟩⟩
    · rfl
    · by_cases hc : c = quote <;> simp [hc]
    · by_cases hc : c = quote <;> by_cases hd : d = quote <;> simp [hc, hd]
  have hlength : ((cs.takeWhile (· = quote)).take 2).length ≤ cs.length :=
    ((List.take_prefix _ _).trans (List.takeWhile_prefix _)).length_le
  unfold takeQuotes
  dsimp only
  rw [hextra, hextra, takeWhile_append_of_break (by simp [Ne.symm hquote]) hcs,
    List.drop_append_of_le_length hlength]
  rfl

theorem kept_takeQuotes {quote : Char} (hquote : quote ≠ '\n') {x x' : Option (List Char × List Char)}
    (hx : Kept more x x') : Kept more (x.map (takeQuotes quote)) (x'.map (takeQuotes quote)) := by
  intro r hr hbreak
  obtain ⟨⟨s, rest⟩, hread, rfl⟩ := Option.map_eq_some_iff.1 hr
  have hrest : '\n' ∈ rest := (List.drop_suffix _ rest).subset hbreak
  rw [hx _ hread hrest, Option.map_some]
  exact congrArg some (takeQuotes_append hquote hrest)

theorem dropBreak_append (hcs : cs ≠ []) : dropBreak (cs ++ more) = dropBreak cs ++ more := by
  cases cs with
  | nil => exact absurd rfl hcs
  | cons c rest =>
    unfold dropBreak
    split <;> split <;> simp_all

/-- A string starts here whatever follows; it is the same if it ends before a line end that is left. -/
theorem kept_readString? (hcs : '\n' ∈ cs) (more : List Char) :
    Option.Rel (Kept more) (readString? cs) (readString? (cs ++ more)) := by
  rcases cs with _ | ⟨c, rest⟩
  · cases hcs
  have hblock {quote : Char} (hquote : quote ≠ '\n') (hrest : '\n' ∈ rest)
      (hclosed : isClosed quote rest = true) (f : List Char → Option (List Char × List Char))
      (hf : ∀ cs, Kept more (f cs) (f (cs ++ more))) :
      Kept more ((f (dropBreak (rest.drop 2))).map (takeQuotes quote))
        ((f (dropBreak ((rest ++ more).drop 2))).map (takeQuotes quote)) := by
    have hdrop : Same more (some (rest.drop 2)) (some ((rest ++ more).drop 2)) :=
      same_drop [quote, quote] (by simp [Ne.symm hquote]) hrest hclosed
    have hsplit : (rest ++ more).drop 2 = rest.drop 2 ++ more := Option.some.inj hdrop.eq
    have hleft : '\n' ∈ rest.drop 2 := hdrop.breaks _ rfl
    rw [hsplit, dropBreak_append (List.ne_nil_of_mem hleft)]
    exact kept_takeQuotes hquote (hf _)
  by_cases hbasic : c = '"'
  · subst hbasic
    have hrest : '\n' ∈ rest := break_mem_tail (by decide) hcs
    simp only [readString?, List.cons_append, isClosed_append '"' (by decide) hrest]
    split
    · next hclosed => exact .some (hblock (by decide) hrest hclosed _ fun cs => kept_readBasic _ _ cs more)
    · exact .some (kept_readBasic _ _ rest more)
  by_cases hliteral : c = '\''
  · subst hliteral
    have hrest : '\n' ∈ rest := break_mem_tail (by decide) hcs
    simp only [readString?, List.cons_append, isClosed_append '\'' (by decide) hrest]
    split
    · next hclosed => exact .some (hblock (by decide) hrest hclosed _ fun cs => kept_readLiteralBlock cs more)
    · exact .some (kept_readLiteral rest more)
  have hnone (cs : List Char) : readString? (c :: cs) = none :=
    readString?.eq_3 _ (fun _ h => hbasic (List.cons.inj h).1) fun _ h => hliteral (List.cons.inj h).1
  rw [List.cons_append, hnone, hnone]
  exact .none

theorem kept_readName (cs more : List Char) : Kept more (readName cs) (readName (cs ++ more)) := by
  rcases cs with _ | ⟨c, rest⟩
  · exact kept_none
  by_cases hbasic : c = '"'
  · subst hbasic
    exact kept_readBasic false .plain rest more
  by_cases hliteral : c = '\''
  · subst hliteral
    exact kept_readLiteral rest more
  have hbare (cs : List Char) : readName (c :: cs) =
      if (c :: cs).takeWhile isBare = [] then none
      else some ((c :: cs).takeWhile isBare, (c :: cs).dropWhile isBare) := by
    rw [readName.eq_3 _ (fun _ h => hbasic (List.cons.inj h).1) fun _ h => hliteral (List.cons.inj h).1]
    split <;> simp_all
  by_cases hbreak : '\n' ∈ c :: rest
  · have hdrop : Same more (some ((c :: rest).dropWhile isBare))
        (some ((c :: rest ++ more).dropWhile isBare)) := same_dropWhile rfl hbreak
    rw [List.cons_append, hbare, hbare, ← List.cons_append, takeWhile_append_of_break rfl hbreak,
      Option.some.inj hdrop.eq]
    exact Kept.ite (fun _ => kept_none) fun _ => kept_some (_, _)
  · exact (leaves_readName (c :: rest)).kept hbreak

theorem same_skipBlanks (hcs : '\n' ∈ cs) :
    Same more (some (skipBlanks cs)) (some (skipBlanks (cs ++ more))) := same_dropWhile rfl hcs

theorem skipBlanks_append (hcs : '\n' ∈ cs) : skipBlanks (cs ++ more) = skipBlanks cs ++ more :=
  Option.some.inj (same_skipBlanks hcs).eq

theorem readNames_of_dot {most : Nat} {name rest' : List Char} (hname : readName cs = some (name, rest))
    (hdot : skipBlanks rest = '.' :: rest') : readNames (most + 1) cs =
      (readNames most (skipBlanks rest')).map fun r => (String.ofList name :: r.1, r.2) := by
  rw [readNames_succ, hname, Option.bind_some]
  dsimp only
  rw [hdot]
  rfl

theorem readNames_of_end {most : Nat} {name : List Char} (hname : readName cs = some (name, rest))
    (hend : ∀ rest', skipBlanks rest ≠ '.' :: rest') :
    readNames (most + 1) cs = some ([String.ofList name], skipBlanks rest) := by
  rw [readNames_succ, hname, Option.bind_some]
  dsimp only
  split
  · next rest' hdot => exact absurd hdot (hend rest')
  · rfl

/-- The names of a key, read with at least as many allowed. -/
theorem readNames_append {most most' : Nat} (hmost : most ≤ most') {r : List String × List Char}
    (hr : readNames most cs = some r) (hbreak : '\n' ∈ r.2) :
    readNames most' (cs ++ more) = some (r.1, r.2 ++ more) := by
  induction most generalizing most' cs r with
  | zero => cases hr
  | succ most ih =>
    obtain ⟨most', rfl⟩ : ∃ m, most' = m + 1 := ⟨most' - 1, by omega⟩
    cases hname : readName cs with
    | none =>
      rw [readNames, hname] at hr
      cases hr
    | some p =>
      obtain ⟨name, rest⟩ := p
      by_cases hdot : ∃ rest', skipBlanks rest = '.' :: rest'
      · obtain ⟨rest', hdot⟩ := hdot
        rw [readNames_of_dot hname hdot] at hr
        obtain ⟨q, hq, rfl⟩ := Option.map_eq_some_iff.1 hr
        have hrest' : '\n' ∈ rest' :=
          ((leaves_readNames most _ q hq).trans (skipBlanks_suffix rest')).subset hbreak
        have hrest : '\n' ∈ rest := (suffix_of_skipBlanks hdot).subset hrest'
        have hname' := kept_readName cs more (name, rest) hname hrest
        have hdot' : skipBlanks (rest ++ more) = '.' :: (rest' ++ more) := by
          rw [skipBlanks_append hrest, hdot, List.cons_append]
        rw [readNames_of_dot hname' hdot', skipBlanks_append hrest', ih (by omega) hq hbreak]
        rfl
      · have hend : ∀ rest', skipBlanks rest ≠ '.' :: rest' := fun rest' h => hdot ⟨rest', h⟩
        rw [readNames_of_end hname hend] at hr
        cases hr
        have hrest : '\n' ∈ rest := (skipBlanks_suffix rest).subset hbreak
        have hname' := kept_readName cs more (name, rest) hname hrest
        rw [readNames_of_end hname', skipBlanks_append hrest]
        intro rest' h
        rw [skipBlanks_append hrest] at h
        cases hblanks : skipBlanks rest with
        | nil => rw [hblanks] at hbreak; cases hbreak
        | cons c rest'' =>
          rw [hblanks, List.cons_append] at h
          exact hend rest'' (by rw [hblanks, (List.cons.inj h).1])

theorem kept_readKey (cs more : List Char) : Kept more (readKey cs) (readKey (cs ++ more)) := by
  intro r hr hbreak
  exact readNames_append (by rw [List.length_append]; omega) hr hbreak

/-- The same where a text can be refused; what is left is an end of it. -/
structure Stays [Remains α] (more cs : List Char) (x x' : Except Fault α) : Prop where
  rest : ∀ a, x = .ok a → left a <:+ cs
  kept : ∀ a, x = .ok a → '\n' ∈ left a → x' = .ok (further more a)

section Stays

variable [Remains α] [Remains β] {cs' : List Char} {x x' : Except Fault α}

theorem stays_error {f : Fault} : Stays more cs (.error f) x' := ⟨nofun, nofun⟩

theorem stays_ok {a : α} (ha : left a <:+ cs) : Stays more cs (.ok a) (.ok (further more a)) := by
  constructor
  · rintro _ ⟨⟩
    exact ha
  · rintro _ ⟨⟩ -
    rfl

/-- Where there is no line end, none can be left. -/
theorem Reads.stays (hx : Reads left cs x) (hcs : '\n' ∈ cs → Stays more cs x x') : Stays more cs x x' :=
  ⟨hx.rest, fun a ha hbreak => (hcs ((hx.rest a ha).subset hbreak)).kept a ha hbreak⟩

theorem Stays.of_no_break {x'' : Except Fault α} (hx : Stays more cs x x'') (hcs : '\n' ∉ cs) :
    Stays more cs x x' :=
  ⟨hx.rest, fun a ha hbreak => absurd ((hx.rest a ha).subset hbreak) hcs⟩

theorem Stays.of_suffix (hx : Stays more cs' x x') (hcs : cs' <:+ cs) : Stays more cs x x' :=
  ⟨fun a ha => (hx.rest a ha).trans hcs, hx.kept⟩

theorem Kept.orMalformed {x x' : Option α} (hx : Kept more x x') (hleft : Leaves left cs x) :
    Stays more cs (orMalformed x) (orMalformed x') := by
  cases x with
  | none => exact stays_error
  | some a =>
    refine ⟨?_, ?_⟩
    · rintro _ ⟨⟩
      exact hleft a rfl
    · rintro _ ⟨⟩ hbreak
      rw [hx a rfl hbreak]
      rfl

theorem Stays.bind {f f' : α → Except Fault β} (hx : Stays more cs x x')
    (hf : ∀ a, Stays more (left a) (f a) (f' (further more a))) :
    Stays more cs (x >>= f) (x' >>= f') := by
  constructor
  · intro b hb
    obtain ⟨a, ha, hb⟩ := Run.of_bind_ok hb
    exact ((hf a).rest b hb).trans (hx.rest a ha)
  · intro b hb hbreak
    obtain ⟨a, ha, hb⟩ := Run.of_bind_ok hb
    rw [hx.kept a ha (((hf a).rest b hb).subset hbreak)]
    exact (hf a).kept b hb hbreak

end Stays

theorem stays_readScalar (cs more : List Char) : Stays more cs (readScalar cs) (readScalar (cs ++ more)) := by
  refine ⟨(reads_readScalar cs).rest, fun r hr hbreak => ?_⟩
  have hcs : '\n' ∈ cs := ((reads_readScalar cs).rest r hr).subset hbreak
  have hstring := kept_readString? hcs more
  unfold readScalar at hr ⊢
  generalize readString? cs = x, readString? (cs ++ more) = x' at hstring hr ⊢
  cases hstring with
  | @some read read' hread =>
    cases read with
    | none => cases hr
    | some p =>
      cases hr
      rw [hread p rfl hbreak]
      rfl
  | none =>
    dsimp only at hr ⊢
    rw [(same_readTruth? hcs).eq]
    cases htruth : readTruth? cs with
    | some p =>
      rw [htruth] at hr
      cases hr
      rfl
    | none =>
      rw [htruth] at hr
      exact (readPlain_append hcs).trans (congrArg (Except.map (further more)) hr)

theorem stays_skipLoose (started : Bool) (cs more : List Char) :
    Stays more cs (skipLoose started cs) (skipLoose started (cs ++ more)) := by
  induction cs generalizing started with
  | nil => exact (reads_skipLoose started []).stays fun hcs => absurd hcs List.not_mem_nil
  | cons c rest ih =>
    have hrest (started : Bool) :
        Stays more (c :: rest) (skipLoose started rest) (skipLoose started (rest ++ more)) :=
      (ih started).of_suffix (List.suffix_cons c rest)
    cases started with
    | true =>
      simp only [List.cons_append, skipLoose]
      split
      · exact hrest false
      · split
        · exact stays_error
        · exact hrest true
    | false =>
      simp only [List.cons_append, skipLoose]
      split
      · exact hrest false
      · split
        · exact hrest true
        · exact stays_ok (a := c :: rest) (List.suffix_refl _)

theorem stays_skipComment (started : Bool) (cs more : List Char) :
    Stays more cs (skipComment started cs) (skipComment started (cs ++ more)) := by
  induction cs generalizing started with
  | nil => exact (reads_skipComment started []).stays fun hcs => absurd hcs List.not_mem_nil
  | cons c rest ih =>
    have hrest : Stays more (c :: rest) (skipComment true rest) (skipComment true (rest ++ more)) :=
      (ih true).of_suffix (List.suffix_cons c rest)
    have hstop : Stays more (c :: rest) (.ok (c :: rest)) (.ok (c :: rest ++ more)) :=
      stays_ok (a := c :: rest) (List.suffix_refl _)
    cases started with
    | true =>
      simp only [List.cons_append, skipComment]
      split
      · exact hstop
      · split
        · exact stays_error
        · exact hrest
    | false =>
      simp only [List.cons_append, skipComment]
      split
      · exact hrest
      · exact hstop

theorem stays_readEquals (cs more : List Char) : Stays more cs (readEquals cs) (readEquals (cs ++ more)) := by
  refine (reads_readEquals cs).stays fun hcs => ?_
  rcases cs with _ | ⟨c, rest⟩
  · cases hcs
  by_cases hc : c = '='
  · subst hc
    show Stays more _ (.ok (skipBlanks rest)) (.ok (skipBlanks (rest ++ more)))
    rw [skipBlanks_append (break_mem_tail (by decide) hcs)]
    exact stays_ok (a := skipBlanks rest) ((skipBlanks_suffix rest).trans (List.suffix_cons _ rest))
  · have hnone : readEquals (c :: rest) = .error .malformed :=
      readEquals.eq_2 _ fun _ h => hc (List.cons.inj h).1
    rw [hnone]
    exact stays_error

theorem stays_skipBlanks {f g : List Char → Except Fault α} [Remains α]
    (hf : ∀ cs cs', cs' = cs ++ more → Stays more cs (f cs) (g cs')) (cs : List Char) :
    Stays more cs (f (skipBlanks cs)) (g (skipBlanks (cs ++ more))) := by
  have hblanks : Stays more (skipBlanks cs) (f (skipBlanks cs)) (g (skipBlanks cs ++ more)) := hf _ _ rfl
  refine ⟨fun a ha => (hblanks.rest a ha).trans (skipBlanks_suffix cs), fun a ha hbreak => ?_⟩
  rw [skipBlanks_append ((skipBlanks_suffix cs).subset ((hblanks.rest a ha).subset hbreak))]
  exact hblanks.kept a ha hbreak

/-- How a table goes on behind its opening brace. -/
def firstMember (most : Nat) : List Char → Except Fault (Value × List Char)
  | '\x7d' :: rest => .ok (.table [], rest)
  | cs => readMembers most {} cs >>= fun r => .ok (.table r.1.entries, r.2)

/-- How a table goes on behind one of its members. -/
def nextMember (most : Nat) (t : Inline) : List Char → Except Fault (Inline × List Char)
  | ',' :: rest => readMembers most t (skipBlanks rest)
  | '\x7d' :: rest => .ok (t, rest)
  | _ => .error .malformed

theorem readParts_brace (most : Nat) (rest : List Char) :
    readParts (most + 1) ('\x7b' :: rest) = firstMember most (skipBlanks rest) := by
  rw [readParts]
  rfl

theorem readMembers_succ (most : Nat) (t : Inline) (cs : List Char) : readMembers (most + 1) t cs =
    (orMalformed (readKey cs) >>= fun p => readEquals p.2 >>= fun rest => readParts most rest >>= fun q =>
      orMalformed (t.add? p.1 q.1) >>= fun u => nextMember most u (skipBlanks q.2)) := by
  rw [readMembers]
  rfl

/-- A value, the members of a list, and those of a table, read with at least as many parts allowed. -/
theorem stays_parts (more : List Char) {most most' : Nat} (hmost : most ≤ most') :
    (∀ cs, Stays more cs (readParts most cs) (readParts most' (cs ++ more))) ∧
    (∀ cs, Stays more cs (readItems most cs) (readItems most' (cs ++ more))) ∧
    ∀ t cs, Stays more cs (readMembers most t cs) (readMembers most' t (cs ++ more)) := by
  -- the three call one another, each time with one part fewer, so one induction has to carry them all
  induction most generalizing most' with
  | zero =>
    refine ⟨fun cs => ?_, fun cs => ?_, fun t cs => ?_⟩
    · rw [readParts]
      exact stays_error
    · rw [readItems]
      exact stays_error
    · rw [readMembers]
      exact stays_error
  | succ most ih =>
    obtain ⟨most', rfl⟩ : ∃ m, most' = m + 1 := ⟨most' - 1, by omega⟩
    have hmost : most ≤ most' := by omega
    obtain ⟨hparts, hitems, hmembers⟩ := ih hmost
    refine ⟨fun cs => ?_, fun cs => ?_, fun t cs => ?_⟩
    · rcases cs with _ | ⟨c, rest⟩
      · exact ((reads_parts _).1 []).stays fun hcs => absurd hcs List.not_mem_nil
      by_cases hlist : c = '['
      · subst hlist
        rw [List.cons_append, readParts, readParts]
        refine Stays.of_suffix ?_ (List.suffix_cons _ rest)
        refine (stays_skipLoose false rest more).bind fun rest => (hitems rest).bind fun p => ?_
        exact stays_ok (a := (Value.list p.1, p.2)) (List.suffix_refl p.2)
      by_cases htable : c = '\x7b'
      · subst htable
        rw [List.cons_append, readParts_brace, readParts_brace]
        refine Stays.of_suffix (stays_skipBlanks ?_ rest) (List.suffix_cons _ rest)
        rintro cs _ rfl
        have hopen (cs : List Char) : Stays more cs
            (readMembers most {} cs >>= fun r => .ok (Value.table r.1.entries, r.2))
            (readMembers most' {} (cs ++ more) >>= fun r => .ok (Value.table r.1.entries, r.2)) :=
          (hmembers {} cs).bind fun r => stays_ok (a := (Value.table r.1.entries, r.2)) (List.suffix_refl r.2)
        rcases cs with _ | ⟨c, rest⟩
        · exact (hopen []).of_no_break List.not_mem_nil
        by_cases hclosed : c = '\x7d'
        · subst hclosed
          exact stays_ok (a := (Value.table [], rest)) (List.suffix_cons _ rest)
        · have hfirst (most : Nat) (cs : List Char) := firstMember.eq_2 most (c :: cs)
            fun _ h => hclosed (List.cons.inj h).1
          rw [List.cons_append, hfirst, hfirst]
          exact hopen (c :: rest)
      · have hscalar (most : Nat) (cs : List Char) : readParts (most + 1) (c :: cs) = readScalar (c :: cs) :=
          readParts.eq_4 _ _ (fun _ h => hlist (List.cons.inj h).1) fun _ h => htable (List.cons.inj h).1
        rw [List.cons_append, hscalar, hscalar]
        exact stays_readScalar (c :: rest) more
    · rcases cs with _ | ⟨c, rest⟩
      · exact ((reads_parts _).2.1 []).stays fun hcs => absurd hcs List.not_mem_nil
      by_cases hclosed : c = ']'
      · subst hclosed
        rw [List.cons_append, readItems, readItems]
        exact stays_ok (a := (([] : List Value), rest)) (List.suffix_cons _ rest)
      · have hitem (most : Nat) (cs : List Char) := readItems.eq_3 (c :: cs) most
          fun _ h => hclosed (List.cons.inj h).1
        rw [List.cons_append, hitem, hitem]
        refine (hparts (c :: rest)).bind fun p => (stays_skipLoose false p.2 more).bind fun rest => ?_
        dsimp only
        split
        · next rest =>
          refine Stays.of_suffix ?_ (List.suffix_cons ',' rest)
          refine (stays_skipLoose false rest more).bind fun rest => (hitems rest).bind fun q => ?_
          exact stays_ok (a := (p.1 :: q.1, q.2)) (List.suffix_refl q.2)
        · next rest => exact stays_ok (a := ([p.1], rest)) (List.suffix_cons ']' rest)
        · exact stays_error
    · rw [readMembers_succ, readMembers_succ]
      refine ((kept_readKey cs more).orMalformed (leaves_readKey cs)).bind fun p => ?_
      refine (stays_readEquals p.2 more).bind fun rest => (hparts rest).bind fun q => ?_
      cases t.add? p.1 q.1 with
      | none => exact stays_error
      | some u =>
        refine stays_skipBlanks (f := nextMember most u) (g := nextMember most' u) ?_ q.2
        rintro cs _ rfl
        unfold nextMember
        split
        · next rest =>
          refine Stays.of_suffix ?_ (List.suffix_cons ',' rest)
          refine stays_skipBlanks (f := readMembers most u) (g := readMembers most' u) ?_ rest
          rintro cs _ rfl
          exact hmembers u cs
        · next rest => exact stays_ok (a := (u, rest)) (List.suffix_cons _ rest)
        · exact stays_error

theorem stays_readValue (cs more : List Char) : Stays more cs (readValue cs) (readValue (cs ++ more)) :=
  (stays_parts more (by rw [List.length_append]; omega)).1 cs

end LintRunner.Toml
