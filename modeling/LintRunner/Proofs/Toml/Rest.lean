import LintRunner.Proofs.Run.Basic
import LintRunner.Toml.Document

/-! What a reader of TOML leaves is the end of what it was given. So if it stops at a whole number that
is too long, the digits of that number stand in the text. -/

namespace LintRunner.Toml

variable {α β : Type} {cs cs' rest : List Char} {left : α → List Char} {left' : β → List Char}

/-- Somewhere there are more digits in a row than a whole number may have. -/
def LongNumber (cs : List Char) : Prop :=
  ∃ run, run <:+: cs ∧ (∀ c ∈ run, c.isDigit = true ∨ c = '_') ∧ Number.mostDigits < run.countP Char.isDigit

theorem LongNumber.of_suffix (hlong : LongNumber cs') (hcs : cs' <:+ cs) : LongNumber cs := by
  obtain ⟨run, hrun, hdigits, hmost⟩ := hlong
  exact ⟨run, hrun.trans hcs.isInfix, hdigits, hmost⟩

/-- The part `left` of what is read is an end of the text. -/
def Leaves (left : α → List Char) (cs : List Char) (x : Option α) : Prop :=
  ∀ a, x = some a → left a <:+ cs

theorem leaves_none : Leaves left cs none := nofun

theorem leaves_some {a : α} (ha : left a <:+ cs) : Leaves left cs (some a) := by
  rintro _ ⟨⟩
  exact ha

theorem Leaves.of_suffix {x : Option α} (hx : Leaves left cs' x) (hcs : cs' <:+ cs) :
    Leaves left cs x := fun a ha => (hx a ha).trans hcs

theorem Leaves.bind {x : Option α} {f : α → Option β} (hx : Leaves left cs x)
    (hf : ∀ a, Leaves left' (left a) (f a)) : Leaves left' cs (x >>= f) := by
  intro b hb
  obtain ⟨a, ha, hb⟩ := Option.bind_eq_some_iff.1 hb
  exact (hf a b hb).trans (hx a ha)

theorem Leaves.map {x : Option α} (hx : Leaves left cs x) {f : α → β}
    (hf : ∀ a, left' (f a) <:+ left a) : Leaves left' cs (x.map f) := by
  intro b hb
  obtain ⟨a, ha, rfl⟩ := Option.map_eq_some_iff.1 hb
  exact (hf a).trans (hx a ha)

/-- The same where a text can be refused; for a number that is too long there is one. -/
structure Reads (left : α → List Char) (cs : List Char) (x : Except Fault α) : Prop where
  rest : ∀ a, x = .ok a → left a <:+ cs
  tooLong : x = .error .integerTooLong → LongNumber cs

theorem reads_ok {a : α} (ha : left a <:+ cs) : Reads left cs (.ok a) := by
  refine ⟨?_, nofun⟩
  rintro _ ⟨⟩
  exact ha

theorem reads_malformed : Reads left cs (.error .malformed) := ⟨nofun, nofun⟩

theorem Reads.of_suffix {x : Except Fault α} (hx : Reads left cs' x) (hcs : cs' <:+ cs) :
    Reads left cs x := ⟨fun a ha => (hx.rest a ha).trans hcs, fun he => (hx.tooLong he).of_suffix hcs⟩

theorem Reads.bind {x : Except Fault α} {f : α → Except Fault β} (hx : Reads left cs x)
    (hf : ∀ a, Reads left' (left a) (f a)) : Reads left' cs (x >>= f) := by
  constructor
  · intro b hb
    obtain ⟨a, ha, hb⟩ := Run.of_bind_ok hb
    exact ((hf a).rest b hb).trans (hx.rest a ha)
  · intro he
    rcases Run.of_bind_error he with he | ⟨a, ha, he⟩
    · exact hx.tooLong he
    · exact ((hf a).tooLong he).of_suffix (hx.rest a ha)

theorem Reads.map {x : Except Fault α} (hx : Reads left cs x) {f : α → β}
    (hf : ∀ a, left' (f a) <:+ left a) : Reads left' cs (x.map f) := by
  rcases x with (_ | _) | a
  · exact reads_malformed
  · exact ⟨nofun, fun _ => hx.tooLong rfl⟩
  · exact reads_ok ((hf a).trans (hx.rest a rfl))

theorem Leaves.orMalformed {x : Option α} (hx : Leaves left cs x) : Reads left cs (orMalformed x) := by
  cases x with
  | none => exact reads_malformed
  | some a => exact reads_ok (hx a rfl)

/-- What does not read on leaves all. -/
theorem leaves_rest (x : Option α) (cs : List Char) : Leaves (fun _ => cs) cs x :=
  fun _ _ => List.suffix_refl cs

theorem skipBlanks_suffix (cs : List Char) : skipBlanks cs <:+ cs := List.dropWhile_suffix _

theorem suffix_of_skipBlanks {c : Char} (hc : skipBlanks cs = c :: rest) : rest <:+ cs :=
  (List.suffix_cons c rest).trans (hc ▸ skipBlanks_suffix cs)

theorem reads_skipComment (started : Bool) (cs : List Char) : Reads id cs (skipComment started cs) := by
  fun_induction skipComment started cs with
  | case1 => exact reads_ok (List.suffix_refl _)
  | case2 rest ih => exact ih.of_suffix (List.suffix_cons _ rest)
  | case3 => exact reads_ok (List.suffix_refl _)
  | case4 => exact reads_ok (List.suffix_refl _)
  | case5 => exact reads_malformed
  | case6 c rest _ _ ih => exact ih.of_suffix (List.suffix_cons c rest)

theorem reads_skipLoose (started : Bool) (cs : List Char) : Reads id cs (skipLoose started cs) := by
  fun_induction skipLoose started cs with
  | case1 => exact reads_ok (List.suffix_refl _)
  | case2 rest ih => exact ih.of_suffix (List.suffix_cons _ rest)
  | case3 => exact reads_malformed
  | case4 c rest _ _ ih => exact ih.of_suffix (List.suffix_cons c rest)
  | case5 c rest _ ih => exact ih.of_suffix (List.suffix_cons c rest)
  | case6 rest _ ih => exact ih.of_suffix (List.suffix_cons _ rest)
  | case7 => exact reads_ok (List.suffix_refl _)

theorem leaves_consResult {c d : Char} {x : Option (List Char × List Char)}
    (hx : Leaves Prod.snd rest x) : Leaves Prod.snd (d :: rest) (consResult c x) :=
  (hx.of_suffix (List.suffix_cons d rest)).map fun _ => List.suffix_refl _

theorem leaves_readLiteral (cs : List Char) : Leaves Prod.snd cs (readLiteral cs) := by
  fun_induction readLiteral cs with
  | case1 => exact leaves_none
  | case2 rest => exact leaves_some (List.suffix_cons _ rest)
  | case3 => exact leaves_none
  | case4 c rest _ _ ih => exact leaves_consResult ih

theorem leaves_readLiteralBlock (cs : List Char) : Leaves Prod.snd cs (readLiteralBlock cs) := by
  fun_induction readLiteralBlock cs with
  | case1 => exact leaves_none
  | case2 c rest _ => exact leaves_some ((List.drop_suffix 2 rest).trans (List.suffix_cons c rest))
  | case3 => exact leaves_none
  | case4 c rest _ _ ih => exact leaves_consResult ih

theorem leaves_readBasic (block : Bool) (place : Place) (cs : List Char) :
    Leaves Prod.snd cs (readBasic block place cs) := by
  fun_induction readBasic block place cs
  all_goals first
    | exact leaves_none
    | exact leaves_consResult ‹_›
    | exact Leaves.of_suffix ‹_› (List.suffix_cons _ _)
    | exact leaves_some (List.suffix_cons _ _)
    | exact leaves_some ((List.drop_suffix 2 _).trans (List.suffix_cons _ _))

theorem dropBreak_suffix (cs : List Char) : dropBreak cs <:+ cs := by
  unfold dropBreak
  split
  · exact List.suffix_cons _ _
  · exact List.suffix_refl _

theorem leaves_readString? {r : Option (List Char × List Char)} (hr : readString? cs = some r) :
    Leaves Prod.snd cs r := by
  have hopening (c : Char) (rest : List Char) : dropBreak (rest.drop 2) <:+ c :: rest :=
    (dropBreak_suffix _).trans ((List.drop_suffix 2 rest).trans (List.suffix_cons c rest))
  unfold readString? at hr
  split at hr
  · split at hr <;> cases hr
    · exact ((leaves_readBasic _ _ _).of_suffix (hopening _ _)).map fun _ => List.drop_suffix _ _
    · exact (leaves_readBasic _ _ _).of_suffix (List.suffix_cons _ _)
  · split at hr <;> cases hr
    · exact ((leaves_readLiteralBlock _).of_suffix (hopening _ _)).map fun _ => List.drop_suffix _ _
    · exact (leaves_readLiteral _).of_suffix (List.suffix_cons _ _)
  · cases hr

theorem leaves_readName (cs : List Char) : Leaves Prod.snd cs (readName cs) := by
  unfold readName
  split
  · exact (leaves_readBasic _ _ _).of_suffix (List.suffix_cons _ _)
  · exact (leaves_readLiteral _).of_suffix (List.suffix_cons _ _)
  · split
    · exact leaves_none
    · exact leaves_some (List.dropWhile_suffix _)

theorem leaves_readNames (most : Nat) (cs : List Char) : Leaves Prod.snd cs (readNames most cs) := by
  induction most generalizing cs with
  | zero => exact leaves_none
  | succ most ih =>
    unfold readNames
    refine (leaves_readName cs).bind fun (name, rest) => ?_
    refine Leaves.of_suffix ?_ (skipBlanks_suffix rest)
    dsimp only
    split
    · next rest' hdot =>
      rw [hdot]
      refine Leaves.of_suffix ?_ ((skipBlanks_suffix rest').trans (List.suffix_cons _ _))
      exact (ih _).bind fun _ => leaves_some (List.suffix_refl _)
    · exact leaves_some (List.suffix_refl _)

theorem leaves_readKey (cs : List Char) : Leaves Prod.snd cs (readKey cs) := leaves_readNames _ cs

theorem leaves_readDigits (n : Nat) (cs : List Char) : Leaves Prod.snd cs (readDigits n cs) := by
  induction n generalizing cs with
  | zero => exact leaves_some (List.suffix_refl _)
  | succ n ih =>
    cases cs with
    | nil => exact leaves_none
    | cons c rest =>
      show Leaves Prod.snd (c :: rest) (if c.isDigit then (readDigits n rest).map _ else none)
      split
      · exact ((ih rest).of_suffix (List.suffix_cons c rest)).map fun _ => List.suffix_refl _
      · exact leaves_none

theorem leaves_readPair (lo hi : Nat) (cs : List Char) : Leaves Prod.snd cs (readPair lo hi cs) := by
  refine (leaves_readDigits 2 cs).bind fun (n, rest) => ?_
  dsimp only
  split
  · exact leaves_some (List.suffix_refl _)
  · exact leaves_none

theorem leaves_readChar (isWanted : Char → Bool) (cs : List Char) :
    Leaves id cs (readChar isWanted cs) := by
  unfold readChar
  split
  · split
    · exact leaves_some (List.suffix_cons _ _)
    · exact leaves_none
  · exact leaves_none

theorem skipFraction_suffix (cs : List Char) : skipFraction cs <:+ cs := by
  unfold skipFraction
  split
  · split
    · exact (List.dropWhile_suffix _).trans ((List.suffix_cons _ _).trans (List.suffix_cons _ _))
    · exact List.suffix_refl _
  · exact List.suffix_refl _

theorem leaves_readClock (cs : List Char) : Leaves id cs (readClock cs) :=
  (leaves_readPair 0 23 cs).bind fun _ => (leaves_readChar _ _).bind fun _ =>
    (leaves_readPair 0 59 _).bind fun _ => (leaves_readChar _ _).bind fun _ =>
      (leaves_readPair 0 59 _).bind fun _ => leaves_some (skipFraction_suffix _)

theorem leaves_readOffset (cs : List Char) : Leaves id cs (readOffset cs) := by
  unfold readOffset
  split
  · next rest hzulu => exact leaves_some (leaves_readChar _ _ _ hzulu)
  · exact (leaves_readChar _ cs).bind fun _ => (leaves_readPair 0 23 _).bind fun _ =>
      (leaves_readChar _ _).bind fun _ => (leaves_readPair 0 59 _).bind fun _ =>
        leaves_some (List.suffix_refl _)

theorem leaves_readDate (cs : List Char) : Leaves Prod.snd cs (readDate cs) :=
  (leaves_readDigits 4 cs).bind fun _ => (leaves_readChar _ _).bind fun _ =>
    (leaves_readPair 1 12 _).bind fun _ => (leaves_readChar _ _).bind fun _ =>
      (leaves_readPair 1 31 _).bind fun _ => leaves_some (List.suffix_refl _)

theorem skipTime_suffix (cs : List Char) : skipTime cs <:+ cs := by
  unfold skipTime
  split
  · exact List.suffix_refl _
  · next rest hclock =>
    have hrest : rest <:+ cs :=
      ((leaves_readChar _ cs).bind fun _ => leaves_readClock _ : Leaves id cs _) rest hclock
    cases hoffset : readOffset rest with
    | none => exact hrest
    | some more => exact (leaves_readOffset rest more hoffset).trans hrest

theorem reads_readMoment? {r : Except Fault (List Char)} (hr : readMoment? cs = some r) :
    Reads id cs r := by
  unfold readMoment? at hr
  split at hr
  · next exists_ rest hdate =>
    cases hr
    split
    · exact reads_ok ((skipTime_suffix rest).trans (leaves_readDate cs _ hdate))
    · exact reads_malformed
  · obtain ⟨rest, hclock, rfl⟩ := Option.map_eq_some_iff.1 hr
    exact reads_ok (leaves_readClock cs rest hclock)

section Digits

variable {isDigit : Char → Bool} {ds : List Char}

/-- The digits, and between them the underscores, stand in front of what is left. -/
theorem moreDigits_spec (hline : isDigit '_' = false) (cs : List Char) :
    ∃ run, cs = run ++ (moreDigits isDigit cs).2 ∧ run.filter isDigit = (moreDigits isDigit cs).1 ∧
      ∀ c ∈ run, isDigit c = true ∨ c = '_' := by
  fun_induction moreDigits isDigit cs with
  | case1 d rest hd more left hrest ih =>
    obtain ⟨run, hrun, hmore, hall⟩ := ih
    rw [hrest] at hrun hmore
    exact ⟨'_' :: d :: run, by simp [hrun], by simp [hline, hd, hmore], by simpa [hd] using hall⟩
  | case2 => exact ⟨[], rfl, rfl, nofun⟩
  | case3 c rest _ hc more left hrest ih =>
    obtain ⟨run, hrun, hmore, hall⟩ := ih
    rw [hrest] at hrun hmore
    exact ⟨c :: run, by simp [hrun], by simp [hc, hmore], by simpa [hc] using hall⟩
  | case4 => exact ⟨[], rfl, rfl, nofun⟩
  | case5 => exact ⟨[], rfl, rfl, nofun⟩

theorem of_digits? (hline : isDigit '_' = false) (hds : digits? isDigit cs = some (ds, rest)) :
    ∃ run, cs = run ++ rest ∧ run.filter isDigit = ds ∧ ∀ c ∈ run, isDigit c = true ∨ c = '_' := by
  unfold digits? at hds
  split at hds
  · next c cs =>
    split at hds
    · next hc =>
      cases hds
      obtain ⟨run, hrun, hmore, hall⟩ := moreDigits_spec hline cs
      exact ⟨c :: run, by rw [List.cons_append, ← hrun], by rw [List.filter_cons_of_pos hc, hmore],
        List.forall_mem_cons.2 ⟨.inl hc, hall⟩⟩
    · cases hds
  · cases hds

theorem leaves_digits? (hline : isDigit '_' = false) (cs : List Char) :
    Leaves Prod.snd cs (digits? isDigit cs) := by
  rintro ⟨ds, rest⟩ hds
  obtain ⟨run, rfl, -⟩ := of_digits? hline hds
  exact List.suffix_append run rest

end Digits

theorem leaves_readBased? (cs : List Char) : Leaves Prod.snd cs (readBased? cs) := by
  have hbased {base : Nat} {isDigit : Char → Bool} {c d : Char} {rest : List Char}
      (hline : isDigit '_' = false) :
      Leaves Prod.snd (c :: d :: rest) (readBased?.based base isDigit rest) :=
    ((leaves_digits? hline rest).of_suffix
      ((List.suffix_cons d rest).trans (List.suffix_cons c _))).map fun _ => List.suffix_refl _
  unfold readBased?
  split
  · exact hbased rfl
  · exact hbased rfl
  · exact hbased rfl
  · exact leaves_none

theorem readSign_suffix (cs : List Char) : (readSign cs).2 <:+ cs := by
  unfold readSign
  split
  · exact List.suffix_cons _ _
  · exact List.suffix_cons _ _
  · exact List.suffix_refl _

theorem of_wholePart? {whole : List Char} (hwhole : wholePart? cs = some (whole, rest)) :
    ∃ run, cs = run ++ rest ∧ run.filter Char.isDigit = whole ∧
      ∀ c ∈ run, c.isDigit = true ∨ c = '_' := by
  unfold wholePart? at hwhole
  split at hwhole
  · cases hwhole
    exact ⟨['0'], rfl, rfl, by simp⟩
  · exact of_digits? rfl hwhole

theorem leaves_fraction? (cs : List Char) : Leaves Prod.snd cs (fraction? cs) := by
  unfold fraction?
  split
  · exact (leaves_digits? rfl _).of_suffix (List.suffix_cons _ _)
  · exact leaves_none

theorem leaves_exponent? (cs : List Char) : Leaves Prod.snd cs (exponent? cs) := by
  unfold exponent?
  split
  · next c rest =>
    split
    · exact ((leaves_digits? rfl _).of_suffix
        ((readSign_suffix rest).trans (List.suffix_cons c rest))).map fun _ => List.suffix_refl _
    · exact leaves_none
  · exact leaves_none

theorem getD_suffix {x : Option (α × List Char)} (hx : Leaves Prod.snd cs x) (a : α) :
    (x.getD (a, cs)).2 <:+ cs := by
  cases x with
  | none => exact List.suffix_refl _
  | some p => exact hx p rfl

theorem reads_readDecimal? {r : Except Fault (Value × List Char)} (hr : readDecimal? cs = some r) :
    Reads Prod.snd cs r := by
  unfold readDecimal? at hr
  obtain ⟨⟨whole, afterWhole⟩, hwhole, hr⟩ := Option.bind_eq_some_iff.1 hr
  obtain ⟨run, hrun, hdigits, hall⟩ := of_wholePart? hwhole
  have hsuffix : run ++ afterWhole <:+ cs := hrun ▸ readSign_suffix cs
  have hafter : afterWhole <:+ cs := (List.suffix_append run afterWhole).trans hsuffix
  dsimp only at hr
  split at hr
  · cases hr
    unfold wholeNumber
    split
    · next hmost =>
      refine ⟨nofun, fun _ => ⟨run, ?_, hall, ?_⟩⟩
      · exact (List.infix_append [] run afterWhole).trans hsuffix.isInfix
      · rwa [List.countP_eq_length_filter, hdigits]
    · exact reads_ok hafter
  · cases hr
    exact reads_ok ((getD_suffix (leaves_exponent? _) _).trans
      ((getD_suffix (leaves_fraction? _) _).trans hafter))

theorem reads_readNumber? {r : Except Fault (Value × List Char)} (hr : readNumber? cs = some r) :
    Reads Prod.snd cs r := by
  unfold readNumber? at hr
  split at hr
  · next p hbased =>
    cases hr
    exact reads_ok (leaves_readBased? cs p hbased)
  · split at hr
    · next hdecimal =>
      cases hr
      exact reads_readDecimal? hdecimal
    · obtain ⟨p, hspecial, rfl⟩ := Option.map_eq_some_iff.1 hr
      unfold readSpecial? at hspecial
      obtain ⟨-, hspecial⟩ := Option.ite_none_right_eq_some.1 hspecial
      cases hspecial
      exact reads_ok ((List.drop_suffix 3 _).trans (readSign_suffix cs))

theorem leaves_readTruth? (cs : List Char) : Leaves Prod.snd cs (readTruth? cs) := by
  unfold readTruth?
  split
  · exact leaves_some (List.drop_suffix 4 cs)
  split
  · exact leaves_some (List.drop_suffix 5 cs)
  · exact leaves_none

theorem reads_readScalar (cs : List Char) : Reads Prod.snd cs (readScalar cs) := by
  unfold readScalar
  split
  · next r hr => exact (leaves_readString? hr).orMalformed.map fun _ => List.suffix_refl _
  split
  · next p hp => exact reads_ok (leaves_readTruth? cs p hp)
  unfold readPlain
  split
  · next r hr => exact (reads_readMoment? hr).map fun _ => List.suffix_refl _
  · cases hr : readNumber? cs with
    | none => exact reads_malformed
    | some r => exact reads_readNumber? hr

theorem reads_readEquals (cs : List Char) : Reads id cs (readEquals cs) := by
  unfold readEquals
  split
  · exact reads_ok ((skipBlanks_suffix _).trans (List.suffix_cons _ _))
  · exact reads_malformed

/-- A value, the members of a list, and those of a table, by how many parts there may be. -/
theorem reads_parts (most : Nat) : (∀ cs, Reads Prod.snd cs (readParts most cs)) ∧
    (∀ cs, Reads Prod.snd cs (readItems most cs)) ∧
    ∀ t cs, Reads Prod.snd cs (readMembers most t cs) := by
  induction most with
  | zero =>
    refine ⟨fun cs => ?_, fun cs => ?_, fun t cs => ?_⟩
    · rw [readParts]
      exact reads_malformed
    · rw [readItems]
      exact reads_malformed
    · rw [readMembers]
      exact reads_malformed
  | succ most ih =>
    obtain ⟨hparts, hitems, hmembers⟩ := ih
    refine ⟨fun cs => ?_, fun cs => ?_, fun t cs => ?_⟩
    · rw [readParts.eq_def]
      split
      · next h => cases h
      · next most' rest h =>
        obtain rfl := Nat.succ.inj h
        refine Reads.of_suffix ?_ (List.suffix_cons _ rest)
        refine (reads_skipLoose false rest).bind fun rest => (hitems rest).bind fun p => ?_
        exact reads_ok (List.suffix_refl p.2)
      · next most' rest h =>
        obtain rfl := Nat.succ.inj h
        refine Reads.of_suffix ?_ ((skipBlanks_suffix rest).trans (List.suffix_cons _ rest))
        split
        · next hclosed =>
          rw [hclosed]
          exact reads_ok (List.suffix_cons _ _)
        · refine (hmembers {} _).bind fun p => ?_
          exact reads_ok (List.suffix_refl p.2)
      · exact reads_readScalar _
    · rw [readItems.eq_def]
      split
      · next h => cases h
      · exact reads_ok (List.suffix_cons _ _)
      · next cs _ _ most' h _ =>
        obtain rfl := Nat.succ.inj h
        refine (hparts cs).bind fun p => (reads_skipLoose false p.2).bind fun rest => ?_
        split
        · next rest =>
          refine Reads.of_suffix ?_ (List.suffix_cons ',' rest)
          refine (reads_skipLoose false rest).bind fun rest => (hitems rest).bind fun p => ?_
          exact reads_ok (List.suffix_refl p.2)
        · next rest => exact reads_ok (List.suffix_cons ']' rest)
        · exact reads_malformed
    · rw [readMembers.eq_def]
      dsimp only
      refine (leaves_readKey cs).orMalformed.bind fun p => (reads_readEquals p.2).bind fun rest => ?_
      refine (hparts rest).bind fun q => ?_
      refine (leaves_rest (t.add? p.1 q.1) q.2).orMalformed.bind fun t => ?_
      split
      · next rest hcomma =>
        exact (hmembers t _).of_suffix ((skipBlanks_suffix rest).trans (suffix_of_skipBlanks hcomma))
      · next rest hclosed => exact reads_ok (suffix_of_skipBlanks hclosed)
      · exact reads_malformed

theorem reads_readValue (cs : List Char) : Reads Prod.snd cs (readValue cs) := (reads_parts _).1 cs

theorem reads_readStatement (d : Draft) (cs : List Char) : Reads Prod.snd cs (readStatement d cs) := by
  have hbracket (cs : List Char) : Leaves id cs (readBracket cs) := by
    unfold readBracket
    split
    · exact leaves_some (List.suffix_cons _ _)
    · exact leaves_none
  unfold readStatement
  split
  · exact reads_ok (List.suffix_refl _)
  · next rest =>
    refine Leaves.orMalformed (Leaves.of_suffix ?_ ((skipBlanks_suffix rest).trans
      ((List.suffix_cons _ rest).trans (List.suffix_cons _ _))))
    exact (leaves_readKey _).bind fun p => (leaves_rest _ p.2).bind fun _ => (hbracket _).bind fun _ =>
      (hbracket _).bind fun _ => leaves_some (List.suffix_refl _)
  · next rest _ =>
    refine Leaves.orMalformed (Leaves.of_suffix ?_ ((skipBlanks_suffix rest).trans
      (List.suffix_cons _ rest)))
    exact (leaves_readKey _).bind fun p => (leaves_rest _ p.2).bind fun _ => (hbracket _).bind fun _ =>
      leaves_some (List.suffix_refl _)
  · refine (leaves_readKey cs).orMalformed.bind fun p => (reads_readEquals p.2).bind fun rest => ?_
    refine (reads_readValue rest).bind fun q => ?_
    exact (leaves_rest (d.assign? p.1 q.1) q.2).orMalformed.bind fun _ => reads_ok (List.suffix_refl _)

theorem tooLong_of_readLines {most : Nat} {d : Draft} {cs : List Char}
    (he : readLines most d cs = .error .integerTooLong) : LongNumber cs := by
  induction most generalizing d cs with
  | zero => cases he
  | succ most ih =>
    unfold readLines at he
    split at he
    · cases he
    · next rest hrest => exact (ih he).of_suffix (suffix_of_skipBlanks hrest)
    · refine LongNumber.of_suffix ?_ (skipBlanks_suffix cs)
      rcases Run.of_bind_error he with he | ⟨⟨d', rest⟩, hstatement, he⟩
      · exact (reads_readStatement d _).tooLong he
      refine LongNumber.of_suffix ?_ ((reads_readStatement d _).rest _ hstatement)
      refine LongNumber.of_suffix ?_ (skipBlanks_suffix rest)
      rcases Run.of_bind_error he with he | ⟨after, hcomment, he⟩
      · exact (reads_skipComment false _).tooLong he
      refine LongNumber.of_suffix ?_ ((reads_skipComment false _).rest _ hcomment)
      split at he
      · cases he
      · next rest => exact (ih he).of_suffix (List.suffix_cons _ rest)
      · cases he

/-- A carriage return is dropped only in front of a line end, so it does not divide what has none. -/
theorem prefix_of_dropReturns {run : List Char} (hrun : run <+: dropReturns cs) (hbreak : '\n' ∉ run) :
    run <+: cs := by
  fun_induction dropReturns cs generalizing run with
  | case1 rest ih =>
    rcases run with _ | ⟨c, run⟩
    · exact List.nil_prefix
    · obtain ⟨rfl, -⟩ := List.cons_prefix_cons.1 hrun
      exact absurd List.mem_cons_self hbreak
  | case2 c rest _ ih =>
    rcases run with _ | ⟨d, run⟩
    · exact List.nil_prefix
    · obtain ⟨rfl, hrest⟩ := List.cons_prefix_cons.1 hrun
      exact List.cons_prefix_cons.2 ⟨rfl, ih hrest fun hmem => hbreak (List.mem_cons_of_mem _ hmem)⟩
  | case3 => exact hrun

theorem infix_of_dropReturns {run : List Char} (hrun : run <:+: dropReturns cs) (hbreak : '\n' ∉ run) :
    run <:+: cs := by
  fun_induction dropReturns cs with
  | case1 rest ih =>
    rcases List.infix_cons_iff.1 hrun with hfront | hrest
    · rcases run with _ | ⟨c, run⟩
      · exact List.nil_infix
      · obtain ⟨rfl, -⟩ := List.cons_prefix_cons.1 hfront
        exact absurd List.mem_cons_self hbreak
    · exact (ih hrest).trans ((List.suffix_cons _ rest).trans (List.suffix_cons _ _)).isInfix
  | case2 c rest _ ih =>
    rcases List.infix_cons_iff.1 hrun with hfront | hrest
    · rcases run with _ | ⟨d, run⟩
      · exact List.nil_infix
      · obtain ⟨rfl, hrest⟩ := List.cons_prefix_cons.1 hfront
        have hrest := prefix_of_dropReturns hrest fun hmem => hbreak (List.mem_cons_of_mem _ hmem)
        exact (List.cons_prefix_cons.2 ⟨rfl, hrest⟩).isInfix
    · exact (ih hrest).trans (List.suffix_cons c rest).isInfix
  | case3 => exact hrun

/-- A document that stops at a number has one that is too long. -/
theorem tooLong_of_readDocument (he : readDocument cs = .error .integerTooLong) : LongNumber cs := by
  obtain ⟨run, hrun, hdigits, hmost⟩ := tooLong_of_readLines he
  refine ⟨run, infix_of_dropReturns hrun fun hmem => ?_, hdigits, hmost⟩
  rcases hdigits _ hmem with h | h <;> revert h <;> decide

end LintRunner.Toml
