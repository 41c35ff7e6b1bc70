import LintRunner.Proofs.Toml.Kept

/-! The statements of a document. What a line says does not depend on what was read before it, only what
comes of it does. So whole lines are read alike wherever they stand, and a draft follows their statements. -/

namespace LintRunner.Toml

variable {cs rest rest' more : List Char} {d d' : Draft}

/-- What a line says. -/
inductive Statement where
  | nothing
  | opens (keys : List String)
  | opensElement (keys : List String)
  | assigns (keys : List String) (v : Value)

open Statement

def Draft.take? (d : Draft) : Statement → Option Draft
  | nothing => some d
  | opens keys => d.settle.openTable? keys
  | opensElement keys => d.settle.openElement? keys
  | assigns keys v => d.assign? keys v

def Draft.takeAll? (d : Draft) (ss : List Statement) : Option Draft := ss.foldlM Draft.take? d

/-- A header, from behind its opening brackets to behind those that close it. -/
def header (make : List String → Statement) (close : List Char → Option (List Char)) (cs : List Char) :
    Except Fault (Statement × List Char) :=
  orMalformed (readKey (skipBlanks cs) >>= fun p => close p.2 >>= fun rest => some (make p.1, rest))

/-- The statement with which a line begins. -/
def statementAt : List Char → Except Fault (Statement × List Char)
  | '#' :: rest => .ok (nothing, '#' :: rest)
  | '[' :: '[' :: rest => header opensElement (fun rest => readBracket rest >>= readBracket) rest
  | '[' :: rest => header opens readBracket rest
  | cs => orMalformed (readKey cs) >>= fun p => readEquals p.2 >>= readValue >>= fun q =>
    .ok (assigns p.1 q.1, q.2)

theorem orMalformed_take? (d : Draft) (s : Statement) (x : Option (List Char)) :
    orMalformed (d.take? s >>= fun d => x >>= fun rest => some (d, rest)) =
      (orMalformed (x >>= fun rest => some (s, rest)) >>= fun r =>
        (orMalformed (d.take? r.1)).map (·, r.2)) := by
  cases x with
  | none => cases d.take? s <;> rfl
  | some rest =>
    show _ = (orMalformed (d.take? s)).map (·, rest)
    cases d.take? s <;> rfl

/-- Reading a statement and applying it to the draft is reading it into the draft. -/
theorem readStatement_eq (d : Draft) (cs : List Char) : readStatement d cs =
    (statementAt cs >>= fun r => (orMalformed (d.take? r.1)).map (·, r.2)) := by
  unfold readStatement
  split
  · rfl
  · next rest =>
    rw [statementAt, header]
    cases readKey (skipBlanks rest) with
    | none => rfl
    | some p =>
      have hclose := orMalformed_take? d (opensElement p.1) (readBracket p.2 >>= readBracket)
      refine Eq.trans (congrArg orMalformed (congrArg (Option.bind (d.take? (opensElement p.1)))
        (funext fun d => ?_))) hclose
      exact (bind_assoc ..).symm
  · next rest hsingle =>
    rw [statementAt.eq_3 _ hsingle, header]
    cases readKey (skipBlanks rest) with
    | none => rfl
    | some p => exact orMalformed_take? d (opens p.1) (readBracket p.2)
  · next hcomment helement htable =>
    rw [statementAt.eq_4 _ hcomment helement htable]
    cases readKey cs with
    | none => rfl
    | some p =>
      show (readEquals p.2 >>= fun rest => readValue rest >>= fun q =>
        orMalformed (d.take? (assigns p.1 q.1)) >>= fun d => .ok (d, q.2)) =
          ((readEquals p.2 >>= readValue >>= fun q => .ok (assigns p.1 q.1, q.2)) >>= fun r =>
            (orMalformed (d.take? r.1)).map (·, r.2))
      cases readEquals p.2 with
      | error e => rfl
      | ok rest =>
        show (readValue rest >>= _) = ((readValue rest >>= _) >>= _)
        cases readValue rest with
        | error e => rfl
        | ok q =>
          show (orMalformed (d.take? (assigns p.1 q.1)) >>= _) = (orMalformed (d.take? (assigns p.1 q.1))).map _
          cases d.take? (assigns p.1 q.1) <;> rfl

theorem leaves_readBracket (cs : List Char) : Leaves id cs (readBracket cs) := by
  unfold readBracket
  split
  · exact leaves_some (List.suffix_cons _ _)
  · exact leaves_none

theorem kept_readBracket (cs more : List Char) : Kept more (readBracket cs) (readBracket (cs ++ more)) := by
  rcases cs with _ | ⟨c, rest⟩
  · exact kept_none
  by_cases hc : c = ']'
  · subst hc
    exact kept_some rest
  · rw [readBracket.eq_2 _ fun _ h => hc (List.cons.inj h).1]
    exact kept_none

theorem orMalformed_bind {α β : Type} (x : Option α) (f : α → Option β) :
    orMalformed (x >>= f) = (orMalformed x >>= fun a => orMalformed (f a)) := by
  cases x <;> rfl

theorem stays_header (make : List String → Statement) {close : List Char → Option (List Char)}
    (hkept : ∀ cs, Kept more (close cs) (close (cs ++ more))) (hleaves : ∀ cs, Leaves id cs (close cs))
    (cs : List Char) : Stays more cs (header make close cs) (header make close (cs ++ more)) := by
  unfold header
  simp only [orMalformed_bind]
  refine stays_skipBlanks (f := fun cs => orMalformed (readKey cs) >>= _)
    (g := fun cs => orMalformed (readKey cs) >>= _) ?_ cs
  rintro cs _ rfl
  refine ((kept_readKey cs more).orMalformed (leaves_readKey cs)).bind fun p => ?_
  refine ((hkept p.2).orMalformed (hleaves p.2)).bind fun rest => ?_
  exact stays_ok (a := (make p.1, rest)) (List.suffix_refl rest)

theorem stays_assignment (cs more : List Char) : Stays more cs
    (orMalformed (readKey cs) >>= fun p => readEquals p.2 >>= readValue >>= fun q =>
      .ok (assigns p.1 q.1, q.2))
    (orMalformed (readKey (cs ++ more)) >>= fun p => readEquals p.2 >>= readValue >>= fun q =>
      .ok (assigns p.1 q.1, q.2)) := by
  refine ((kept_readKey cs more).orMalformed (leaves_readKey cs)).bind fun p => ?_
  refine ((stays_readEquals p.2 more).bind fun rest => stays_readValue rest more).bind fun q => ?_
  exact stays_ok (a := (assigns p.1 q.1, q.2)) (List.suffix_refl q.2)

theorem stays_statementAt (cs more : List Char) : Stays more cs (statementAt cs) (statementAt (cs ++ more)) := by
  rcases cs with _ | ⟨c, rest⟩
  · have hnil : Stays more [] (statementAt []) (statementAt []) := stays_error
    exact hnil.of_no_break List.not_mem_nil
  by_cases hcomment : c = '#'
  · subst hcomment
    exact stays_ok (a := (nothing, '#' :: rest)) (List.suffix_refl _)
  by_cases hheader : c = '['
  · subst hheader
    rcases rest with _ | ⟨c, rest⟩
    · have hopen : Stays more [] (header opens readBracket []) (header opens readBracket more) :=
        stays_header opens (kept_readBracket · more) leaves_readBracket []
      exact (hopen.of_suffix (List.suffix_cons '[' [])).of_no_break (by decide)
    by_cases helement : c = '['
    · subst helement
      have hclose (cs : List Char) : Kept more (readBracket cs >>= readBracket)
          (readBracket (cs ++ more) >>= readBracket) :=
        (kept_readBracket cs more).bind leaves_readBracket (kept_readBracket · more)
      refine (stays_header opensElement hclose (fun cs => ?_) rest).of_suffix ?_
      · exact (leaves_readBracket cs).bind leaves_readBracket
      · exact (List.suffix_cons _ rest).trans (List.suffix_cons _ _)
    · have hsingle (cs : List Char) : statementAt ('[' :: c :: cs) = header opens readBracket (c :: cs) :=
        statementAt.eq_3 _ fun _ h => helement (List.cons.inj h).1
      rw [List.cons_append, List.cons_append, hsingle, hsingle]
      exact (stays_header opens (kept_readBracket · more) leaves_readBracket (c :: rest)).of_suffix
        (List.suffix_cons _ _)
  · have hassigns (cs : List Char) := statementAt.eq_4 (c :: cs) (fun _ h => hcomment (List.cons.inj h).1)
      (fun _ h => hheader (List.cons.inj h).1) fun _ h => hheader (List.cons.inj h).1
    rw [List.cons_append, hassigns, hassigns]
    exact stays_assignment (c :: rest) more

/-- The statements of a text of whole lines, and of at most so many. -/
def statements? : Nat → List Char → Option (List Statement)
  | 0, _ => none
  | _ + 1, [] => some []
  | most + 1, c :: cs =>
    match skipBlanks (c :: cs) with
    | '\n' :: rest => statements? most rest
    | cs =>
      match statementAt cs with
      | .ok (s, rest) =>
        match skipComment false (skipBlanks rest) with
        | .ok ('\n' :: rest) => (statements? most rest).map (s :: ·)
        | _ => none
      | .error _ => none

/-- Reading on from `rest` with `d'` is what reading the text with `d` comes to. -/
def Advances (d : Draft) (cs : List Char) (d' : Draft) (rest : List Char) : Prop :=
  ∀ most, cs.length < most → ∃ most', rest.length < most' ∧ readLines most d cs = readLines most' d' rest

theorem Advances.refl (d : Draft) (cs : List Char) : Advances d cs d cs := fun most hmost => ⟨most, hmost, rfl⟩

theorem Advances.trans {d'' : Draft} {rest' : List Char} (h : Advances d cs d' rest)
    (h' : Advances d' rest d'' rest') : Advances d cs d'' rest' := by
  intro most hmost
  obtain ⟨most', hmost', heq⟩ := h most hmost
  obtain ⟨most'', hmost'', heq'⟩ := h' most' hmost'
  exact ⟨most'', hmost'', heq.trans heq'⟩

theorem advances_blank (d : Draft) (hcs : skipBlanks cs = '\n' :: rest) : Advances d cs d rest := by
  intro most hmost
  obtain ⟨most, rfl⟩ : ∃ m, most = m + 1 := ⟨most - 1, by omega⟩
  have hlength : (skipBlanks cs).length ≤ cs.length := (skipBlanks_suffix cs).length_le
  rw [hcs, List.length_cons] at hlength
  refine ⟨most, by omega, ?_⟩
  rw [readLines, hcs]
  rfl

theorem statementAt_break (rest : List Char) : statementAt ('\n' :: rest) = .error .malformed := rfl

theorem advances_line {s : Statement} (hs : statementAt (skipBlanks cs) = .ok (s, rest))
    (hend : skipComment false (skipBlanks rest) = .ok ('\n' :: rest')) (hd : d.take? s = some d') :
    Advances d cs d' rest' := by
  intro most hmost
  obtain ⟨most, rfl⟩ : ∃ m, most = m + 1 := ⟨most - 1, by omega⟩
  have hread : readStatement d (skipBlanks cs) = .ok (d', rest) := by
    rw [readStatement_eq, hs]
    show (orMalformed (d.take? s)).map _ = _
    rw [hd]
    rfl
  have hsuffix : '\n' :: rest' <:+ cs :=
    ((reads_skipComment false _).rest _ hend).trans ((skipBlanks_suffix rest).trans
      (((reads_readStatement d _).rest _ hread).trans (skipBlanks_suffix cs)))
  have hlength := hsuffix.length_le
  rw [List.length_cons] at hlength
  refine ⟨most, by omega, ?_⟩
  rw [readLines]
  split
  · next hnil =>
    rw [hnil] at hs
    cases hs
  · next hbreak =>
    rw [hbreak, statementAt_break] at hs
    cases hs
  · rw [hread]
    show (skipComment false (skipBlanks rest) >>= _) = _
    rw [hend]
    rfl

/-- A draft follows the statements of whole lines, whatever comes behind them. -/
theorem advances_of_statements {most : Nat} {ss : List Statement} (hss : statements? most cs = some ss)
    (hd : d.takeAll? ss = some d') (more : List Char) : Advances d (cs ++ more) d' more := by
  induction most generalizing cs ss d with
  | zero => cases hss
  | succ most ih =>
    rcases cs with _ | ⟨c, cs⟩
    · cases hss
      cases hd
      exact Advances.refl _ more
    unfold statements? at hss
    split at hss
    · next rest hblank =>
      have hbreak : '\n' ∈ c :: cs := (skipBlanks_suffix _).subset (hblank ▸ List.mem_cons_self)
      refine (advances_blank d ?_).trans (ih hss hd)
      rw [skipBlanks_append hbreak, hblank, List.cons_append]
    · split at hss
      · next s rest hs =>
        split at hss
        · next rest' hend =>
          obtain ⟨ss', hss', rfl⟩ := Option.map_eq_some_iff.1 hss
          obtain ⟨d'', hd'', hd'⟩ := Option.bind_eq_some_iff.1 hd
          have hblanks : '\n' ∈ skipBlanks rest :=
            ((reads_skipComment false _).rest _ hend).subset List.mem_cons_self
          have hrest : '\n' ∈ rest := (skipBlanks_suffix rest).subset hblanks
          -- a line end is left of the statement, so nothing of it changes with what comes behind
          have hstatement := stays_statementAt (skipBlanks (c :: cs)) more
          have hbreak : '\n' ∈ c :: cs :=
            (skipBlanks_suffix _).subset ((hstatement.rest _ hs).subset hrest)
          have hread : statementAt (skipBlanks (c :: cs ++ more)) = .ok (s, rest ++ more) := by
            rw [skipBlanks_append hbreak]
            exact hstatement.kept _ hs hrest
          refine (advances_line hread ?_ hd'').trans (ih hss' hd')
          rw [skipBlanks_append hrest]
          exact (stays_skipComment false _ more).kept _ hend List.mem_cons_self
        · cases hss
      · cases hss

theorem dropReturns_of_not_mem (hreturns : '\r' ∉ cs) : dropReturns cs = cs := by
  induction cs with
  | nil => rfl
  | cons c rest ih =>
    have hc : c ≠ '\r' := fun heq => hreturns (heq ▸ List.mem_cons_self)
    rw [dropReturns.eq_2 c rest fun _ h _ => hc h, ih fun hmem => hreturns (List.mem_cons_of_mem c hmem)]

theorem readDocument_of_advances (hreturns : '\r' ∉ cs) (h : Advances {} cs d []) :
    readDocument cs = .ok d.root := by
  obtain ⟨most, hmost, heq⟩ := h (cs.length + 1) (Nat.lt_succ_self _)
  obtain ⟨most, rfl⟩ : ∃ m, most = m + 1 := ⟨most - 1, by omega⟩
  unfold readDocument
  rw [dropReturns_of_not_mem hreturns, heq]
  rfl

end LintRunner.Toml
