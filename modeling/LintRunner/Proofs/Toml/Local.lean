import LintRunner.Proofs.Toml.Rest

/-! Numbers, dates and words of TOML end within their line. So where a line end follows, more text behind
it changes nothing: neither whether something is read, nor what, nor where the reader stops. -/

namespace LintRunner.Toml

variable {α β : Type} {cs rest more : List Char}

/-- A result that holds the text that is left to read. -/
class Remains (α : Type) where
  left : α → List Char
  /-- The same result where so much more text is left. -/
  further : List Char → α → α

open Remains

instance : Remains (List Char) := ⟨id, fun more rest => rest ++ more⟩

instance : Remains (α × List Char) := ⟨Prod.snd, fun more r => (r.1, r.2 ++ more)⟩

/-- More text changes nothing but what is left, and a line end is left. -/
structure Same [Remains α] (more : List Char) (x x' : Option α) : Prop where
  eq : x' = x.map (further more)
  breaks : ∀ a, x = some a → '\n' ∈ left a

section Same

variable [Remains α] [Remains β] {x x' : Option α}

theorem same_none : Same more (none : Option α) none := ⟨rfl, nofun⟩

theorem same_some {a : α} (ha : '\n' ∈ left a) : Same more (some a) (some (further more a)) := by
  refine ⟨rfl, ?_⟩
  rintro _ ⟨⟩
  exact ha

theorem Same.bind {f f' : α → Option β} (hx : Same more x x')
    (hf : ∀ a, '\n' ∈ left a → Same more (f a) (f' (further more a))) :
    Same more (x >>= f) (x' >>= f') := by
  obtain ⟨rfl, hbreaks⟩ := hx
  cases x with
  | none => exact same_none
  | some a => exact hf a (hbreaks a rfl)

theorem Same.map {f : α → β} (hx : Same more x x') (hleft : ∀ a, left (f a) = left a)
    (hf : ∀ a, f (further more a) = further more (f a)) : Same more (x.map f) (x'.map f) := by
  obtain ⟨rfl, hbreaks⟩ := hx
  cases x with
  | none => exact same_none
  | some a =>
    rw [Option.map_some, Option.map_some, Option.map_some, hf]
    exact same_some (hleft a ▸ hbreaks a rfl)

theorem Same.getD {a a' : α} (hx : Same more x x') (ha : Same more (some a) (some a')) :
    Same more (some (x.getD a)) (some (x'.getD a')) := by
  obtain ⟨rfl, hbreaks⟩ := hx
  cases x with
  | none => exact ha
  | some b => exact same_some (hbreaks b rfl)

theorem Same.ite {p : Prop} [Decidable p] {y y' : Option α} (hx : p → Same more x x')
    (hy : ¬ p → Same more y y') : Same more (if p then x else y) (if p then x' else y') := by
  split
  · exact hx ‹_›
  · exact hy ‹_›

end Same

/-- A line end stands behind what is no line end. -/
theorem break_mem_tail {c : Char} (hc : c ≠ '\n') (hcs : '\n' ∈ c :: rest) : '\n' ∈ rest :=
  (List.mem_cons.1 hcs).resolve_left (Ne.symm hc)

theorem ne_break_of {p : Char → Bool} (hp : p '\n' = false) {c : Char} (hc : p c = true) : c ≠ '\n' := by
  rintro rfl
  rw [hp] at hc
  cases hc

theorem same_dropWhile {p : Char → Bool} (hp : p '\n' = false) (hcs : '\n' ∈ cs) :
    Same more (some (cs.dropWhile p)) (some ((cs ++ more).dropWhile p)) := by
  induction cs with
  | nil => cases hcs
  | cons c rest ih =>
    rw [List.cons_append, List.dropWhile_cons, List.dropWhile_cons]
    split
    · next hc => exact ih (break_mem_tail (ne_break_of hp hc) hcs)
    · exact same_some hcs

theorem takeWhile_append_of_break {p : Char → Bool} (hp : p '\n' = false) (hcs : '\n' ∈ cs) :
    (cs ++ more).takeWhile p = cs.takeWhile p := by
  induction cs with
  | nil => cases hcs
  | cons c rest ih =>
    rw [List.cons_append, List.takeWhile_cons, List.takeWhile_cons]
    split
    · next hc => rw [ih (break_mem_tail (ne_break_of hp hc) hcs)]
    · rfl

theorem same_readDigits (n : Nat) (hcs : '\n' ∈ cs) :
    Same more (readDigits n cs) (readDigits n (cs ++ more)) := by
  induction n generalizing cs with
  | zero => exact same_some hcs
  | succ n ih =>
    cases cs with
    | nil => cases hcs
    | cons c rest =>
      refine Same.ite (fun hc => ?_) fun _ => same_none
      exact (ih (break_mem_tail (ne_break_of rfl hc) hcs)).map (fun _ => rfl) fun _ => rfl

theorem same_readPair (lo hi : Nat) (hcs : '\n' ∈ cs) :
    Same more (readPair lo hi cs) (readPair lo hi (cs ++ more)) :=
  (same_readDigits 2 hcs).bind fun _ hleft => Same.ite (fun _ => same_some hleft) fun _ => same_none

theorem same_readChar {isWanted : Char → Bool} (hwanted : isWanted '\n' = false) (hcs : '\n' ∈ cs) :
    Same more (readChar isWanted cs) (readChar isWanted (cs ++ more)) := by
  cases cs with
  | nil => cases hcs
  | cons c rest =>
    exact Same.ite (fun hc => same_some (break_mem_tail (ne_break_of hwanted hc) hcs)) fun _ => same_none

theorem same_skipFraction (hcs : '\n' ∈ cs) :
    Same more (some (skipFraction cs)) (some (skipFraction (cs ++ more))) := by
  rcases cs with _ | ⟨c, _ | ⟨d, rest⟩⟩
  · cases hcs
  · obtain rfl : '\n' = c := List.mem_singleton.1 hcs
    exact same_some hcs
  by_cases hc : c = '.'
  · subst hc
    have hrest : '\n' ∈ d :: rest := break_mem_tail (by decide) hcs
    show Same more (some (if d.isDigit then rest.dropWhile Char.isDigit else '.' :: d :: rest))
      (some (if d.isDigit then (rest ++ more).dropWhile Char.isDigit else '.' :: d :: (rest ++ more)))
    split
    · next hd => exact same_dropWhile rfl (break_mem_tail (ne_break_of rfl hd) hrest)
    · exact same_some hcs
  · have hnone (rest : List Char) : skipFraction (c :: rest) = c :: rest :=
      skipFraction.eq_2 _ fun _ _ h => hc (List.cons.inj h).1
    rw [List.cons_append, hnone, hnone]
    exact same_some hcs

theorem same_readClock (hcs : '\n' ∈ cs) : Same more (readClock cs) (readClock (cs ++ more)) :=
  (same_readPair 0 23 hcs).bind fun _ h => (same_readChar rfl h).bind fun _ h =>
    (same_readPair 0 59 h).bind fun _ h => (same_readChar rfl h).bind fun _ h =>
      (same_readPair 0 59 h).bind fun _ h => same_skipFraction h

theorem same_readOffset (hcs : '\n' ∈ cs) : Same more (readOffset cs) (readOffset (cs ++ more)) := by
  unfold readOffset
  have hzulu : Same more (readChar (fun c => c = 'Z' || c = 'z') cs) _ := same_readChar rfl hcs
  obtain ⟨heq, hbreaks⟩ := hzulu
  rw [heq]
  cases hread : readChar (fun c => c = 'Z' || c = 'z') cs with
  | some rest => exact same_some (hbreaks rest hread)
  | none =>
    exact (same_readChar rfl hcs).bind fun _ h => (same_readPair 0 23 h).bind fun _ h =>
      (same_readChar rfl h).bind fun _ h => (same_readPair 0 59 h).bind fun _ h => same_some h

theorem same_readDate (hcs : '\n' ∈ cs) : Same more (readDate cs) (readDate (cs ++ more)) :=
  (same_readDigits 4 hcs).bind fun _ h => (same_readChar rfl h).bind fun _ h =>
    (same_readPair 1 12 h).bind fun _ h => (same_readChar rfl h).bind fun _ h =>
      (same_readPair 1 31 h).bind fun _ h => same_some h

theorem same_skipTime (hcs : '\n' ∈ cs) :
    Same more (some (skipTime cs)) (some (skipTime (cs ++ more))) := by
  have hclock : Same more ((readChar (fun c => c = 'T' || c = 't' || c = ' ') cs).bind readClock)
      ((readChar (fun c => c = 'T' || c = 't' || c = ' ') (cs ++ more)).bind readClock) :=
    (same_readChar rfl hcs).bind fun _ h => same_readClock h
  unfold skipTime
  rw [hclock.eq]
  cases hread : (readChar (fun c => c = 'T' || c = 't' || c = ' ') cs).bind readClock with
  | none => exact same_some hcs
  | some rest =>
    have hrest : '\n' ∈ rest := hclock.breaks rest hread
    exact (same_readOffset hrest).getD (same_some hrest)

/-- A date that is none of the calendar is none whatever follows it. -/
theorem readMoment?_append (hcs : '\n' ∈ cs) :
    readMoment? (cs ++ more) = (readMoment? cs).map (Except.map (· ++ more)) := by
  have hdate : Same more (readDate cs) (readDate (cs ++ more)) := same_readDate hcs
  unfold readMoment?
  rw [hdate.eq]
  cases hread : readDate cs with
  | some r =>
    obtain ⟨exists_, rest⟩ := r
    cases exists_ with
    | false => rfl
    | true =>
      have htime : skipTime (rest ++ more) = skipTime rest ++ more :=
        Option.some.inj (same_skipTime (hdate.breaks _ hread)).eq
      exact congrArg (fun rest => some (Except.ok rest)) htime
  | none =>
    have hclock : readClock (cs ++ more) = (readClock cs).map (· ++ more) := (same_readClock hcs).eq
    simp only [Option.map_none, hclock, Option.map_map]
    rfl

section Digits

variable {isDigit : Char → Bool}

theorem moreDigits_line {d : Char} (hd : isDigit d = true) (rest : List Char) :
    moreDigits isDigit ('_' :: d :: rest) =
      (d :: (moreDigits isDigit rest).1, (moreDigits isDigit rest).2) := by
  rw [moreDigits, if_pos hd]

theorem moreDigits_digit {c : Char} (hc : isDigit c = true)
    (hline : ∀ d rest', c = '_' → rest = d :: rest' → False) :
    moreDigits isDigit (c :: rest) = (c :: (moreDigits isDigit rest).1, (moreDigits isDigit rest).2) := by
  rw [moreDigits.eq_2 _ _ _ hline, if_pos hc]

/-- Where no underscore with a character behind it starts, none starts with more text behind either. -/
theorem noLine_append {c : Char} (hcs : '\n' ∈ c :: rest)
    (hline : ∀ d rest', c = '_' → rest = d :: rest' → False) :
    ∀ d rest', c = '_' → rest ++ more = d :: rest' → False := by
  intro d rest' hc hrest'
  have hrest : '\n' ∈ rest := break_mem_tail (by rw [hc]; decide) hcs
  cases rest with
  | nil => cases hrest
  | cons e rest => exact hline e rest hc rfl

theorem same_moreDigits (hdigit : isDigit '\n' = false) (hcs : '\n' ∈ cs) :
    Same more (some (moreDigits isDigit cs)) (some (moreDigits isDigit (cs ++ more))) := by
  induction cs using moreDigits.induct isDigit with
  | case1 d rest hd _ _ _ ih =>
    rw [List.cons_append, List.cons_append, moreDigits_line hd, moreDigits_line hd]
    exact (ih (break_mem_tail (ne_break_of hdigit hd) (break_mem_tail (by decide) hcs))).map
      (f := fun r => (d :: r.1, r.2)) (fun _ => rfl) fun _ => rfl
  | case2 d rest hd =>
    have hstop (rest : List Char) : moreDigits isDigit ('_' :: d :: rest) = ([], '_' :: d :: rest) := by
      rw [moreDigits, if_neg hd]
    rw [List.cons_append, List.cons_append, hstop, hstop]
    exact same_some hcs
  | case3 c rest hline hc _ _ _ ih =>
    rw [List.cons_append, moreDigits_digit hc hline, moreDigits_digit hc (noLine_append hcs hline)]
    exact (ih (break_mem_tail (ne_break_of hdigit hc) hcs)).map
      (f := fun r => (c :: r.1, r.2)) (fun _ => rfl) fun _ => rfl
  | case4 c rest hline hc =>
    rw [List.cons_append, moreDigits.eq_2 _ _ _ hline, moreDigits.eq_2 _ _ _ (noLine_append hcs hline),
      if_neg hc, if_neg hc]
    exact same_some hcs
  | case5 => cases hcs

theorem same_digits? (hdigit : isDigit '\n' = false) (hcs : '\n' ∈ cs) :
    Same more (digits? isDigit cs) (digits? isDigit (cs ++ more)) := by
  cases cs with
  | nil => cases hcs
  | cons c rest =>
    refine Same.ite (fun hc => ?_) fun _ => same_none
    exact (same_moreDigits hdigit (break_mem_tail (ne_break_of hdigit hc) hcs)).map
      (f := fun r => (c :: r.1, r.2)) (fun _ => rfl) fun _ => rfl

end Digits

theorem same_readBased? (hcs : '\n' ∈ cs) : Same more (readBased? cs) (readBased? (cs ++ more)) := by
  rcases cs with _ | ⟨c, _ | ⟨d, rest⟩⟩
  · cases hcs
  · obtain rfl : '\n' = c := List.mem_singleton.1 hcs
    exact same_none
  by_cases hsign : c = '0' ∧ (d = 'x' ∨ d = 'o' ∨ d = 'b')
  · have hbased {base : Nat} {isDigit : Char → Bool} (hdigit : isDigit '\n' = false)
        (hrest : '\n' ∈ rest) : Same more (readBased?.based base isDigit rest)
          (readBased?.based base isDigit (rest ++ more)) :=
      (same_digits? hdigit hrest).map (fun _ => rfl) fun _ => rfl
    obtain ⟨rfl, rfl | rfl | rfl⟩ := hsign
    · exact hbased rfl (break_mem_tail (by decide) (break_mem_tail (by decide) hcs))
    · exact hbased rfl (break_mem_tail (by decide) (break_mem_tail (by decide) hcs))
    · exact hbased rfl (break_mem_tail (by decide) (break_mem_tail (by decide) hcs))
  · have hnone (rest : List Char) : readBased? (c :: d :: rest) = none := by
      rw [readBased?.eq_4]
      · rintro _ ⟨⟩
        exact hsign ⟨rfl, .inl rfl⟩
      · rintro _ ⟨⟩
        exact hsign ⟨rfl, .inr (.inl rfl)⟩
      · rintro _ ⟨⟩
        exact hsign ⟨rfl, .inr (.inr rfl)⟩
    rw [List.cons_append, List.cons_append, hnone, hnone]
    exact same_none

theorem same_readSign (hcs : '\n' ∈ cs) :
    Same more (some (readSign cs)) (some (readSign (cs ++ more))) := by
  rcases cs with _ | ⟨c, rest⟩
  · cases hcs
  by_cases hminus : c = '-'
  · subst hminus
    exact same_some (break_mem_tail (by decide) hcs)
  by_cases hplus : c = '+'
  · subst hplus
    exact same_some (break_mem_tail (by decide) hcs)
  have hnone (rest : List Char) : readSign (c :: rest) = (false, c :: rest) :=
    readSign.eq_3 _ (fun _ h => hminus (List.cons.inj h).1) fun _ h => hplus (List.cons.inj h).1
  rw [List.cons_append, hnone, hnone]
  exact same_some hcs

theorem same_wholePart? (hcs : '\n' ∈ cs) : Same more (wholePart? cs) (wholePart? (cs ++ more)) := by
  rcases cs with _ | ⟨c, rest⟩
  · cases hcs
  by_cases hzero : c = '0'
  · subst hzero
    exact same_some (break_mem_tail (by decide) hcs)
  have hdigits (rest : List Char) : wholePart? (c :: rest) = digits? Char.isDigit (c :: rest) :=
    wholePart?.eq_2 _ fun _ h => hzero (List.cons.inj h).1
  rw [List.cons_append, hdigits, hdigits]
  exact same_digits? rfl hcs

theorem same_fraction? (hcs : '\n' ∈ cs) : Same more (fraction? cs) (fraction? (cs ++ more)) := by
  rcases cs with _ | ⟨c, rest⟩
  · cases hcs
  by_cases hpoint : c = '.'
  · subst hpoint
    exact same_digits? rfl (break_mem_tail (by decide) hcs)
  have hnone (rest : List Char) : fraction? (c :: rest) = none :=
    fraction?.eq_2 _ fun _ h => hpoint (List.cons.inj h).1
  rw [List.cons_append, hnone, hnone]
  exact same_none

theorem same_exponent? (hcs : '\n' ∈ cs) : Same more (exponent? cs) (exponent? (cs ++ more)) := by
  rcases cs with _ | ⟨c, rest⟩
  · cases hcs
  by_cases hc : c = 'e' ∨ c = 'E'
  · have hdigits (rest : List Char) : exponent? (c :: rest) =
        (digits? Char.isDigit (readSign rest).2).map fun r =>
          (if (readSign rest).1 then -(valueOf 10 r.1 : Int) else valueOf 10 r.1, r.2) := if_pos hc
    have hrest : '\n' ∈ rest := break_mem_tail (by rintro rfl; revert hc; decide) hcs
    have hsign : Same more (some (readSign rest)) (some (readSign (rest ++ more))) := same_readSign hrest
    rw [List.cons_append, hdigits, hdigits, Option.some.inj hsign.eq]
    exact (same_digits? rfl (hsign.breaks _ rfl)).map (fun _ => rfl) fun _ => rfl
  · have hnone (rest : List Char) : exponent? (c :: rest) = none := if_neg hc
    rw [List.cons_append, hnone, hnone]
    exact same_none

/-- A decimal number, given what stands before its point. -/
def decimalFrom (negative : Bool) (whole afterWhole : List Char) : Except Fault (Value × List Char) :=
  let r := (fraction? afterWhole).getD ([], afterWhole)
  if r.1 = [] ∧ (exponent? r.2).isNone then (wholeNumber negative whole).map (·, afterWhole)
  else
    let e := (exponent? r.2).getD (0, r.2)
    .ok (floatingNumber negative (whole ++ r.1) r.1.length e.1, e.2)

theorem readDecimal?_eq (cs : List Char) : readDecimal? cs =
    (wholePart? (readSign cs).2).map fun r => decimalFrom (readSign cs).1 r.1 r.2 := by
  rw [Option.map_eq_bind]
  exact congrArg (Option.bind _) (funext fun r => (apply_ite some _ _ _).symm)

theorem decimalFrom_append {negative : Bool} {whole : List Char} (hcs : '\n' ∈ cs) :
    decimalFrom negative whole (cs ++ more) =
      (decimalFrom negative whole cs).map (further more) := by
  have hplaces : Same more (some ((fraction? cs).getD ([], cs)))
      (some ((fraction? (cs ++ more)).getD ([], cs ++ more))) := (same_fraction? hcs).getD (same_some hcs)
  unfold decimalFrom
  rw [Option.some.inj hplaces.eq]
  generalize (fraction? cs).getD ([], cs) = r at hplaces ⊢
  obtain ⟨places, rest⟩ := r
  have hrest : '\n' ∈ rest := hplaces.breaks _ rfl
  have hexp : Same more (exponent? rest) (exponent? (rest ++ more)) := same_exponent? hrest
  have hend : Same more (some ((exponent? rest).getD (0, rest)))
      (some ((exponent? (rest ++ more)).getD (0, rest ++ more))) := hexp.getD (same_some hrest)
  have hnone : (exponent? (rest ++ more)).isNone = (exponent? rest).isNone := by
    rw [hexp.eq, Option.isNone_map]
  show (if places = [] ∧ (exponent? (rest ++ more)).isNone then
      (wholeNumber negative whole).map fun v => (v, cs ++ more) else _) = Except.map _ (if _ then _ else _)
  rw [hnone]
  split
  · cases wholeNumber negative whole <;> rfl
  · show Except.ok (floatingNumber negative (whole ++ places) places.length
      ((exponent? (rest ++ more)).getD (0, rest ++ more)).1,
      ((exponent? (rest ++ more)).getD (0, rest ++ more)).2) = _
    rw [Option.some.inj hend.eq]
    rfl

theorem readDecimal?_append (hcs : '\n' ∈ cs) :
    readDecimal? (cs ++ more) = (readDecimal? cs).map (Except.map (further more)) := by
  have hsign : Same more (some (readSign cs)) (some (readSign (cs ++ more))) := same_readSign hcs
  rw [readDecimal?_eq, readDecimal?_eq, Option.some.inj hsign.eq]
  have hwhole : Same more (wholePart? (readSign cs).2) (wholePart? ((readSign cs).2 ++ more)) :=
    same_wholePart? (hsign.breaks _ rfl)
  show (wholePart? ((readSign cs).2 ++ more)).map _ = _
  rw [hwhole.eq]
  cases hread : wholePart? (readSign cs).2 with
  | none => rfl
  | some r => exact congrArg some (decimalFrom_append (hwhole.breaks r hread))

theorem prefix_append_iff {word : List Char} (hword : '\n' ∉ word) (hcs : '\n' ∈ cs) :
    word <+: cs ++ more ↔ word <+: cs := by
  refine ⟨fun h => ?_, fun h => h.trans (List.prefix_append cs more)⟩
  exact (List.prefix_or_prefix_of_prefix h (List.prefix_append cs more)).resolve_right
    fun hle => hword (hle.subset hcs)

theorem take_append_of_break (word more : List Char) (hword : '\n' ∉ word) (hcs : '\n' ∈ cs) :
    ((cs ++ more).take word.length == word) = (cs.take word.length == word) := by
  rw [Bool.eq_iff_iff, beq_iff_eq, beq_iff_eq, eq_comm, eq_comm (a := cs.take _),
    ← List.prefix_iff_eq_take, ← List.prefix_iff_eq_take, prefix_append_iff hword hcs]

theorem same_drop (word : List Char) (hword : '\n' ∉ word) (hcs : '\n' ∈ cs)
    (hfront : (cs.take word.length == word) = true) :
    Same more (some (cs.drop word.length)) (some ((cs ++ more).drop word.length)) := by
  rw [beq_iff_eq, eq_comm, ← List.prefix_iff_eq_take] at hfront
  obtain ⟨rest, rfl⟩ := hfront
  rw [List.append_assoc, List.drop_left, List.drop_left]
  exact same_some ((List.mem_append.1 hcs).resolve_left hword)

theorem same_readSpecial? (hcs : '\n' ∈ cs) : Same more (readSpecial? cs) (readSpecial? (cs ++ more)) := by
  have hsign : Same more (some (readSign cs)) (some (readSign (cs ++ more))) := same_readSign hcs
  have hrest : '\n' ∈ (readSign cs).2 := hsign.breaks _ rfl
  have hinf := take_append_of_break ['i', 'n', 'f'] more (by decide) hrest
  have hnan := take_append_of_break ['n', 'a', 'n'] more (by decide) hrest
  dsimp only [List.length_cons, List.length_nil, Nat.reduceAdd] at hinf hnan
  have hspecial : isSpecial (((readSign cs).2 ++ more).take 3) = isSpecial ((readSign cs).2.take 3) := by
    rw [isSpecial, hinf, hnan, isSpecial]
  unfold readSpecial?
  rw [Option.some.inj hsign.eq]
  show Same more _ (if isSpecial (((readSign cs).2 ++ more).take 3) then _ else _)
  rw [hspecial]
  refine Same.ite (fun hword => ?_) fun _ => same_none
  have hdrop : Same more (some ((readSign cs).2.drop 3)) (some (((readSign cs).2 ++ more).drop 3)) :=
    (Bool.or_eq_true_iff.1 hword).elim (same_drop ['i', 'n', 'f'] (by decide) hrest)
      (same_drop ['n', 'a', 'n'] (by decide) hrest)
  exact hdrop.map (f := fun rest => (Value.notFinite, rest)) (fun _ => rfl) fun _ => rfl

theorem readNumber?_append (hcs : '\n' ∈ cs) :
    readNumber? (cs ++ more) = (readNumber? cs).map (Except.map (further more)) := by
  unfold readNumber?
  rw [(same_readBased? hcs).eq, readDecimal?_append hcs, (same_readSpecial? hcs).eq]
  cases readBased? cs with
  | some r => rfl
  | none =>
    cases readDecimal? cs with
    | some r => rfl
    | none => cases readSpecial? cs <;> rfl

theorem same_readTruth? (hcs : '\n' ∈ cs) : Same more (readTruth? cs) (readTruth? (cs ++ more)) := by
  have hword (word : List Char) (b : Bool) (hword : '\n' ∉ word)
      (hfront : (cs.take word.length == word) = true) : Same more
        (some (Value.bool b, cs.drop word.length)) (some (Value.bool b, (cs ++ more).drop word.length)) :=
    (same_drop word hword hcs hfront).map (f := fun rest => (Value.bool b, rest)) (fun _ => rfl) fun _ => rfl
  have htrue := take_append_of_break ['t', 'r', 'u', 'e'] more (by decide) hcs
  have hfalse := take_append_of_break ['f', 'a', 'l', 's', 'e'] more (by decide) hcs
  unfold readTruth?
  dsimp only [List.length_cons, List.length_nil, Nat.reduceAdd] at htrue hfalse
  rw [htrue, hfalse]
  refine Same.ite (hword ['t', 'r', 'u', 'e'] true (by decide)) fun _ => ?_
  exact Same.ite (hword ['f', 'a', 'l', 's', 'e'] false (by decide)) fun _ => same_none

theorem textBefore_append (cs rest more : List Char) :
    textBefore (cs ++ more) (rest ++ more) = textBefore cs rest := by
  have hlength : (cs ++ more).length - (rest ++ more).length = cs.length - rest.length := by
    rw [List.length_append, List.length_append, Nat.add_sub_add_right]
  rw [textBefore, hlength, List.take_append_of_le_length (Nat.sub_le _ _), textBefore]

/-- What is neither a text nor a truth value ends within its line. -/
theorem readPlain_append (hcs : '\n' ∈ cs) :
    readPlain (cs ++ more) = (readPlain cs).map (further more) := by
  unfold readPlain
  rw [readMoment?_append hcs, readNumber?_append hcs]
  cases readMoment? cs with
  | none => cases readNumber? cs <;> rfl
  | some r =>
    cases r with
    | error f => rfl
    | ok rest =>
      show Except.ok (Value.moment (textBefore (cs ++ more) (rest ++ more)), rest ++ more) = _
      rw [textBefore_append]
      rfl

end LintRunner.Toml
