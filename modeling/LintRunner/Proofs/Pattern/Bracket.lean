import LintRunner.Proofs.Run.Basic

/-! Bracket expressions of a pattern, read as sets of a regular expression. All that is special in a
set has been taken care of when its text is made, but for one thing: a range can run backwards. -/

namespace LintRunner

namespace Regex

variable {c : Char} {cs seen : List Char} {r r' : Reader} {α β : Type}

/-- A character as a set holds it. -/
def spelled (c : Char) : List Char := if c = '\\' then [c, c] else [c]

theorem spelled_ne (hc : c ≠ '\\') : spelled c = [c] := if_neg hc

namespace Read

theorem run_bind_ok {x : Read α} {a : α} (hx : x.run r = .ok (a, r')) (f : α → Read β) :
    (x >>= f).run r = (f a).run r' := by
  rw [StateT.run_bind, hx]
  rfl

theorem run_bind_error {x : Read α} {e : ReadError} (hx : x.run r = .error e) (f : α → Read β) :
    (x >>= f).run r = .error e := by
  rw [StateT.run_bind, hx]
  rfl

end Read

/-- The characters to come, each of them one token. -/
structure Ahead (r : Reader) (cs : List Char) : Prop where
  next : r.next = cs.head?.map spelled
  rest : r.rest = cs.tail.flatMap spelled

/-- What is still the same once the reader has gone on. -/
structure Reader.Kept (r r' : Reader) : Prop where
  modes : r'.modes = r.modes
  asked : r'.asked = r.asked
  fixedLookbehinds : r'.fixedLookbehinds = r.fixedLookbehinds

theorem Reader.Kept.refl (r : Reader) : r.Kept r := ⟨rfl, rfl, rfl⟩

theorem Reader.Kept.trans {r'' : Reader} (h₁ : r.Kept r') (h₂ : r'.Kept r'') : r.Kept r'' :=
  ⟨h₂.modes.trans h₁.modes, h₂.asked.trans h₁.asked,
    h₂.fixedLookbehinds.trans h₁.fixedLookbehinds⟩

theorem tokenAt_spelled (i : Nat) (cs : List Char) : ∃ j,
    tokenAt i (cs.flatMap spelled) = .ok (cs.head?.map spelled, cs.tail.flatMap spelled, j) := by
  cases cs with
  | nil => exact ⟨i, rfl⟩
  | cons c cs =>
    by_cases hc : c = '\\'
    · subst hc
      exact ⟨i + 2, rfl⟩
    · refine ⟨i + 1, ?_⟩
      simp only [List.flatMap_cons, spelled_ne hc, List.singleton_append, List.head?_cons,
        Option.map_some, List.tail_cons]
      unfold tokenAt
      split <;> simp_all

theorem goOn_run (hr : r.rest = cs.flatMap spelled) : ∃ r', (Read.goOn r.index r.rest).run r = .ok ((), r') ∧
    Ahead r' cs ∧ r.Kept r' := by
  obtain ⟨j, hj⟩ := tokenAt_spelled r.index cs
  refine ⟨{ r with next := cs.head?.map spelled, rest := cs.tail.flatMap spelled, index := j }, ?_,
    ⟨rfl, rfl⟩, ⟨rfl, rfl, rfl⟩⟩
  simp only [Read.goOn, hr, hj]
  rfl

theorem take_run (hr : Ahead r (c :: cs)) : ∃ r', Read.take.run r = .ok (some (spelled c), r') ∧
    Ahead r' cs ∧ r.Kept r' := by
  obtain ⟨r', hgo, hahead, hkept⟩ := goOn_run hr.rest
  refine ⟨r', ?_, hahead, hkept⟩
  have hget : (get : Read Reader).run r = .ok (r, r) := rfl
  rw [Read.take, Read.run_bind_ok hget, Read.run_bind_ok hgo, hr.next]
  rfl

theorem accept_run (hr : Ahead r (c :: cs)) {d : Char} (hd : d ≠ '\\') :
    (c = d ∧ ∃ r', (Read.accept d).run r = .ok (true, r') ∧ Ahead r' cs ∧ r.Kept r') ∨
      (c ≠ d ∧ (Read.accept d).run r = .ok (false, r)) := by
  have hpeek : Read.peek.run r = .ok (some (spelled c), r) := by
    show Except.ok (r.next, r) = _
    rw [hr.next]
    rfl
  rw [Read.accept, Read.run_bind_ok hpeek]
  by_cases hc : c = d
  · subst hc
    obtain ⟨r', htake, hahead, hkept⟩ := take_run hr
    refine .inl ⟨rfl, r', ?_, hahead, hkept⟩
    rw [if_pos (by rw [spelled_ne hd]), Read.run_bind_ok htake]
    rfl
  · refine .inr ⟨hc, ?_⟩
    have hne : some (spelled c) ≠ some [d] := by
      unfold spelled
      split
      · simp
      · simpa using hc
    rw [if_neg hne]
    rfl

/-- Before the bracket that closes a set, another character is accepted as a member of it. -/
theorem accept_member_run {body : List Char} (hr : Ahead r (body ++ [']'])) {d : Char} (hd : d ≠ '\\')
    (hclose : d ≠ ']') :
    (∃ rest r', body = d :: rest ∧ (Read.accept d).run r = .ok (true, r') ∧
        Ahead r' (rest ++ [']']) ∧ r.Kept r') ∨
      (body.head? ≠ some d ∧ (Read.accept d).run r = .ok (false, r)) := by
  cases body with
  | nil =>
    rcases accept_run hr hd with ⟨hc, -⟩ | ⟨-, hno⟩
    · exact absurd hc.symm hclose
    · exact .inr ⟨by simp, hno⟩
  | cons c rest =>
    rcases accept_run hr hd with ⟨rfl, r', haccept, hr', hk⟩ | ⟨hne, hno⟩
    · exact .inl ⟨rest, r', rfl, haccept, hr', hk⟩
    · exact .inr ⟨by simpa using hne, hno⟩

theorem setUnit_run (c : Char) (r : Reader) :
    (setUnit (spelled c)).run r = .ok (.one c.toNat, r) := by
  by_cases hc : c = '\\'
  · subst hc
    rfl
  · rw [spelled_ne hc]
    unfold setUnit
    split
    · simp_all
    · simp_all
      rfl
    · simp_all

theorem spelled_eq_close_iff : spelled c = [']'] ↔ c = ']' := by
  unfold spelled
  split
  · next hc =>
    subst hc
    simp
  · simp

/-- All is read and there are members, or a range runs backwards. -/
def SetRead (r : Reader) (x : Except ReadError (α × Reader)) : Prop :=
  (∃ a r', x = .ok (a, r') ∧ Ahead r' [] ∧ r.Kept r') ∨
    ∃ lo hi position, hi < lo ∧ x = .error (.flaw
      (.badRange (String.ofList (spelled lo)) (String.ofList (spelled hi))) position)

theorem SetRead.of_kept {x : Except ReadError (α × Reader)} (hr : r.Kept r') (hx : SetRead r' x) :
    SetRead r x :=
  hx.imp_left fun ⟨a, r'', hx, hahead, hkept⟩ => ⟨a, r'', hx, hahead, hr.trans hkept⟩

theorem SetRead.bind {x : Read α} {f : α → Read β} (hx : SetRead r (x.run r))
    (hf : ∀ a r', Ahead r' [] → SetRead r' ((f a).run r')) : SetRead r ((x >>= f).run r) := by
  rcases hx with ⟨a, r', hx, hahead, hkept⟩ | ⟨lo, hi, position, hback, hx⟩
  · rw [Read.run_bind_ok hx]
    exact .of_kept hkept (hf a r' hahead)
  · exact .inr ⟨lo, hi, position, hback, Read.run_bind_error hx f⟩

/-- A bracket closes the set, but not as its first member. -/
theorem setItems_run (modes : Modes) (opened n : Nat) {items : List SetItem} {body : List Char}
    (hr : Ahead r (body ++ [']'])) (hfirst : items = [] → body ≠ [])
    (hclose : ']' ∉ if items = [] then body.tail else body) (hn : body.length < n) :
    SetRead r ((setItems modes opened n items).run r) := by
  induction n generalizing r items body with
  | zero => omega
  | succ n ih =>
    unfold setItems
    cases body with
    | nil =>
      obtain ⟨r₁, htake, hr₁, hk₁⟩ := take_run hr
      have hitems : items ≠ [] := fun h => hfirst h rfl
      rw [Read.run_bind_ok htake]
      refine .inl ⟨items, r₁, ?_, hr₁, hk₁⟩
      simp [spelled, hitems]
      rfl
    | cons c body =>
      have htail : ']' ∉ body := by
        split at hclose
        · exact hclose
        · exact fun hm => hclose (List.mem_cons_of_mem _ hm)
      have hopen : ¬ (spelled c = [']'] && !items.isEmpty) = true := by
        rw [Bool.and_eq_true, decide_eq_true_eq, spelled_eq_close_iff]
        rintro ⟨rfl, hitems⟩
        rw [if_neg (by simpa using hitems)] at hclose
        exact hclose List.mem_cons_self
      obtain ⟨r₁, htake, hr₁, hk₁⟩ := take_run hr
      refine .of_kept hk₁ ?_
      rw [Read.run_bind_ok htake]
      simp only [hopen]
      rw [if_neg Bool.false_ne_true, Read.run_bind_ok (setUnit_run c r₁)]
      -- what the members so far are joined by decides nothing but that there are some
      have hgoOn {more : SetItem} {body : List Char} {r' : Reader} (hr' : Ahead r' (body ++ [']']))
          (hbody : ']' ∉ body) (hn : body.length < n) :
          SetRead r' ((setItems modes opened n (items ++ [more])).run r') :=
        ih hr' (by simp) (by simpa using hbody) hn
      rcases accept_member_run (show Ahead r₁ (body ++ [']']) from hr₁) (show '-' ≠ '\\' by decide)
          (by decide) with ⟨rest, r₂, rfl, hdash, hr₂, hk₂⟩ | ⟨-, hno⟩
      · refine .of_kept hk₂ ?_
        rw [Read.run_bind_ok hdash, if_pos rfl]
        cases rest with
        | nil =>
          obtain ⟨r₃, htake, hr₃, hk₃⟩ := take_run hr₂
          rw [Read.run_bind_ok htake]
          exact .inl ⟨_, r₃, rfl, hr₃, hk₃⟩
        | cons e rest =>
          obtain ⟨r₃, htake, hr₃, hk₃⟩ := take_run hr₂
          have he : e ≠ ']' := by
            rintro rfl
            exact htail (by simp)
          refine .of_kept hk₃ ?_
          rw [Read.run_bind_ok htake]
          split
          · next h => cases h
          · next h => exact absurd (spelled_eq_close_iff.1 (Option.some.inj h)) he
          · next that _ h =>
            obtain rfl := Option.some.inj h
            rw [Read.run_bind_ok (setUnit_run e r₃)]
            by_cases hback : e.toNat < c.toNat
            · simp only [if_pos hback]
              exact .inr ⟨c, e, _, hback, rfl⟩
            · simp only [if_neg hback]
              exact hgoOn hr₃ (fun h => htail (by simp [h])) (by simp at hn ⊢; omega)
      · rw [Read.run_bind_ok hno, if_neg Bool.false_ne_true]
        exact hgoOn hr₁ htail (by simpa using hn)

theorem accept_caret_run {negated : Bool} {body : List Char}
    (hr : Ahead r ((if negated then ['^'] else []) ++ (body ++ [']'])))
    (hhead : negated = false → body.head? ≠ some '^') :
    ∃ b r', (Read.accept '^').run r = .ok (b, r') ∧ Ahead r' (body ++ [']']) ∧ r.Kept r' := by
  cases negated with
  | true =>
    obtain ⟨-, r', haccept, hr', hk⟩ | ⟨hne, -⟩ := accept_run hr (show '^' ≠ '\\' by decide)
    · exact ⟨true, r', haccept, hr', hk⟩
    · exact absurd rfl hne
  | false =>
    rcases accept_member_run (show Ahead r (body ++ [']']) from hr) (show '^' ≠ '\\' by decide)
        (by decide) with ⟨rest, -, rfl, -⟩ | ⟨-, hno⟩
    · exact absurd rfl (hhead rfl)
    · exact ⟨false, r, hno, hr, .refl r⟩

theorem length_le_flatMap_spelled (cs : List Char) : cs.length ≤ (cs.flatMap spelled).length := by
  induction cs with
  | nil => exact Nat.le_refl 0
  | cons c cs ih =>
    have hpos : 0 < (spelled c).length := by
      unfold spelled
      split <;> simp
    simp only [List.flatMap_cons, List.length_append, List.length_cons]
    omega

theorem length_lt_rest_add_two {body : List Char} (hr : Ahead r (body ++ [']'])) :
    body.length < r.rest.length + 2 := by
  have hle := length_le_flatMap_spelled (body ++ [']']).tail
  rw [← hr.rest, List.length_tail, List.length_append, List.length_singleton] at hle
  omega

theorem run_get (r : Reader) : (get : Read Reader).run r = .ok (r, r) := rfl

theorem Read.run_peek (r : Reader) : Read.peek.run r = .ok (r.next, r) := rfl

theorem readSequence_of_none (modes : Modes) (first : Bool) (n : Nat) (seen : List Piece)
    (hnext : r.next = none) : (readSequence modes true first (n + 1) seen).run r = .ok (together seen, r) := by
  obtain ⟨next, _⟩ := r
  cases hnext
  rfl

theorem readSequence_of_bracket (modes : Modes) (first : Bool) (n : Nat) (seen : List Piece)
    (hnext : r.next = some ['[']) : (readSequence modes true first (n + 1) seen).run r = (do
      let _ ← Read.take
      let opened := (← Read.here) - 1
      let negated ← Read.accept '^'
      let items ← setItems r.modes opened (← Read.bound) []
      readSequence r.modes true first n (other (.set r.modes.folding ⟨negated, items⟩) :: seen)
        : Read Regex).run r := by
  obtain ⟨next, _⟩ := r
  cases hnext
  rfl

theorem readSequence_end (modes : Modes) (first : Bool) (n : Nat) (seen : List Piece)
    (hr : Ahead r []) : SetRead r ((readSequence modes true first (n + 1) seen).run r) :=
  .inl ⟨together seen, r, readSequence_of_none modes first n seen hr.next, hr, .refl r⟩

/-- The piece read first is the set, and there is no other. -/
theorem readSequence_bracket (modes : Modes) (first : Bool) (n : Nat) {negated : Bool}
    {body : List Char} (hr : Ahead r ('[' :: ((if negated then ['^'] else []) ++ (body ++ [']']))))
    (hbody : body ≠ []) (hclose : ']' ∉ body.tail) (hhead : negated = false → body.head? ≠ some '^') :
    SetRead r ((readSequence modes true first (n + 2) []).run r) := by
  have hhere (r : Reader) : Read.here.run r = .ok (r.index - (r.next.getD []).length, r) := rfl
  have hbound (r : Reader) : Read.bound.run r = .ok (r.rest.length + 2, r) := rfl
  obtain ⟨r₁, htake, hr₁, hk₁⟩ := take_run hr
  obtain ⟨b, r₂, haccept, hr₂, hk₂⟩ := accept_caret_run hr₁ hhead
  rw [readSequence_of_bracket modes first (n + 1) [] hr.next]
  refine .of_kept (hk₁.trans hk₂) ?_
  rw [Read.run_bind_ok htake, Read.run_bind_ok (hhere r₁), Read.run_bind_ok haccept,
    Read.run_bind_ok (hbound r₂)]
  exact .bind (setItems_run _ _ _ hr₂ (fun _ => hbody) (by simpa using hclose)
    (length_lt_rest_add_two hr₂)) fun items r₃ hr₃ => readSequence_end _ _ _ _ hr₃

theorem readAlternatives_bracket (modes : Modes) (n : Nat) {negated : Bool} {body : List Char}
    (hr : Ahead r ('[' :: ((if negated then ['^'] else []) ++ (body ++ [']']))))
    (hbody : body ≠ []) (hclose : ']' ∉ body.tail) (hhead : negated = false → body.head? ≠ some '^') :
    SetRead r ((readAlternatives modes true (n + 3) []).run r) := by
  rw [readAlternatives]
  refine (readSequence_bracket modes _ n hr hbody hclose hhead).bind fun x r₁ hr₁ => ?_
  have hnext : r₁.next = none := hr₁.next
  have hno : (Read.accept '|').run r₁ = .ok (false, r₁) := by
    rw [Read.accept, Read.run_bind_ok (Read.run_peek r₁), hnext]
    rfl
  rw [Read.run_bind_ok hno]
  exact .inl ⟨_, r₁, rfl, hr₁, .refl r₁⟩

theorem readWhole_bracket (length : Nat) {negated : Bool} {body : List Char}
    (hr : Ahead r ('[' :: ((if negated then ['^'] else []) ++ (body ++ [']']))))
    (hbody : body ≠ []) (hclose : ']' ∉ body.tail) (hhead : negated = false → body.head? ≠ some '^')
    (hmodes : r.modes = {}) (hasked : r.asked = []) (hfixed : r.fixedLookbehinds = true) :
    SetRead r ((readWhole length).run r) := by
  rw [readWhole]
  rcases readAlternatives_bracket {} (3 * length + 5) hr hbody hclose hhead with
    ⟨x, r₁, hx, hr₁, hk₁⟩ | ⟨lo, hi, position, hback, hx⟩
  · have hnext : r₁.next = none := hr₁.next
    refine .inl ⟨x, r₁, ?_, hr₁, hk₁⟩
    rw [Read.run_bind_ok hx, Read.run_bind_ok (run_get r₁)]
    simp only [hk₁.modes, hmodes, hnext, hk₁.asked, hasked, hk₁.fixedLookbehinds, hfixed]
    rfl
  · exact .inr ⟨lo, hi, position, hback, Read.run_bind_error hx _⟩

/-- The text of a set can be read, or one of its ranges runs backwards. -/
theorem read_setText {negated : Bool} {body : List Char} (hbody : body ≠ []) (hclose : ']' ∉ body.tail)
    (hhead : negated = false → body.head? ≠ some '^') :
    (∃ x, read (Pattern.setText negated body) = .ok x) ∨
      ∃ lo hi position, hi < lo ∧ read (Pattern.setText negated body) = .error (.flaw
        (.badRange (String.ofList (spelled lo)) (String.ofList (spelled hi))) position) := by
  have htext : Pattern.setText negated body =
      ('[' :: ((if negated then ['^'] else []) ++ (body ++ [']']))).flatMap spelled := by
    cases negated <;> simp [Pattern.setText, spelled] <;> rfl
  obtain ⟨j, hj⟩ := tokenAt_spelled 0 ('[' :: ((if negated then ['^'] else []) ++ (body ++ [']'])))
  let start : Reader := {
    next := some ['[']
    rest := ((if negated then ['^'] else []) ++ (body ++ [']'])).flatMap spelled
    index := j, modes := {}, groups := 1, closed := [], names := [], lookbehind := none, asked := []
    fixedLookbehinds := true }
  have hread : read (Pattern.setText negated body) =
      ((readWhole (Pattern.setText negated body).length).run start).map Prod.fst := by
    rw [read, htext, hj]
    rfl
  rw [hread]
  rcases readWhole_bracket (r := start) _ ⟨rfl, rfl⟩ hbody hclose hhead rfl rfl rfl with
    ⟨x, r₁, hx, -, -⟩ | ⟨lo, hi, position, hback, hx⟩
  · exact .inl ⟨x, by rw [hx]; rfl⟩
  · exact .inr ⟨lo, hi, position, hback, by rw [hx]; rfl⟩

end Regex

namespace Pattern

open Regex Run

variable {cs body after : List Char} {e : Flaw}

theorem not_mem_of_cut (h : closeSet.cut cs = some (body, after)) :
    ']' ∉ body ∧ (body = [] → cs.head? = some ']') ∧ (body ≠ [] → body.head? = cs.head?) := by
  induction cs generalizing body with
  | nil => cases h
  | cons c rest ih =>
    unfold closeSet.cut at h
    split at h
    · next hnil => cases hnil
    · next hcons =>
      cases hcons
      cases h
      simp
    · next d rest' hne hcons =>
      cases hcons
      obtain ⟨⟨b, a⟩, hb, he⟩ := Option.map_eq_some_iff.1 h
      cases he
      have hd : ']' ≠ c := by
        rintro rfl
        exact hne rfl
      simpa [hd] using (ih hb).1

/-- What a closed set holds: there is something, it begins as the text does, and behind its first
member no bracket closes it earlier. -/
theorem closeSet_body (h : closeSet cs = some (body, after)) :
    body ≠ [] ∧ ']' ∉ body.tail ∧ body.head? = cs.head? := by
  unfold closeSet at h
  split at h
  · obtain ⟨⟨b, a⟩, hb, he⟩ := Option.map_eq_some_iff.1 h
    cases he
    simpa using (not_mem_of_cut hb).1
  · next hne =>
    obtain ⟨hclose, hnil, hhead⟩ := not_mem_of_cut h
    have hbody : body ≠ [] := by
      intro hb
      obtain ⟨rest, rfl⟩ : ∃ rest, cs = ']' :: rest := by
        cases cs with
        | nil => cases hnil hb
        | cons c rest => exact ⟨rest, by rw [Option.some.inj (hnil hb)]⟩
      exact hne rest rfl
    exact ⟨hbody, fun hm => hclose (List.mem_of_mem_tail hm), hhead hbody⟩

theorem openSet_head (h : (openSet cs).1 = false) : (openSet cs).2.head? ≠ some '^' := by
  unfold openSet at h ⊢
  split
  · cases h
  · cases h
  · next hne =>
    cases cs with
    | nil => simp
    | cons c rest =>
      rintro hc
      cases hc
      exact hne rest rfl

/-- A range of a set runs backwards. -/
def Flaw.Backwards : Flaw → Prop
  | .malformed => False
  | .badSet e => ∃ lo hi position, hi < lo ∧ e = .flaw
      (.badRange (String.ofList (spelled lo)) (String.ofList (spelled hi))) position

/-- What a token may be refused for. -/
def GlobToken.Sound (t : GlobToken) : Prop := ∀ e, t.regex = .error e → e.Backwards

theorem sound_set {rest : List Char} (h : closeSet (openSet rest).2 = some (body, after)) :
    (GlobToken.set (setText (openSet rest).1 body)).Sound := by
  obtain ⟨hbody, hclose, hhead⟩ := closeSet_body h
  intro e he
  rcases read_setText hbody hclose fun hn => hhead ▸ openSet_head hn with
    ⟨x, hx⟩ | ⟨lo, hi, position, hback, hx⟩
  · rw [GlobToken.regex, hx] at he
    cases he
  · rw [GlobToken.regex, hx] at he
    cases he
    exact ⟨lo, hi, position, hback, rfl⟩

theorem sound_of_regex {t : GlobToken} {x : Regex} (ht : t.regex = .ok x) : t.Sound := by
  intro e he
  rw [ht] at he
  cases he

/-- Tokens that may be refused as one of them may, or a text that is malformed. -/
def Tokenized (x : Except Flaw (Option (List GlobToken))) : Prop :=
  (∀ e, x = .error e → e = .malformed) ∧ ∀ ts, x = .ok (some ts) → ∀ t ∈ ts, t.Sound

theorem Tokenized.cons {x : Except Flaw (Option (List GlobToken))} {t : GlobToken} (ht : t.Sound)
    (hx : Tokenized x) : Tokenized (x.map (·.map (t :: ·))) := by
  rcases x with e | _ | ts
  · exact ⟨fun e' he => hx.1 e' (by cases he; rfl), nofun⟩
  · exact ⟨nofun, nofun⟩
  · refine ⟨nofun, fun ts' hts => ?_⟩
    cases hts
    exact List.forall_mem_cons.2 ⟨ht, hx.2 ts rfl⟩

theorem tokenized_globTokens (cs : Segment) : Tokenized (globTokens cs) := by
  fun_induction globTokens cs with
  | case1 => exact ⟨nofun, fun ts hts => by cases hts; simp⟩
  | case2 => exact ⟨fun e he => (by cases he; rfl), nofun⟩
  | case3 c rest ih => exact ih.cons (sound_of_regex rfl)
  | case4 rest ih => exact ih.cons (sound_of_regex rfl)
  | case5 rest ih => exact ih.cons (sound_of_regex rfl)
  | case6 rest hopen => exact ⟨nofun, nofun⟩
  | case7 rest body after hclose ih => exact ih.cons (sound_set hclose)
  | case8 c rest _ _ _ _ ih => exact ih.cons (sound_of_regex rfl)

/-- The tokens of a step. -/
def Step.tokens : Step → List GlobToken
  | .glob tokens _ => tokens
  | _ => []

theorem sound_step (first final : Bool) (s : Segment) :
    (∀ e, step first final s = .error e → e = .malformed) ∧
      ∀ st, step first final s = .ok (some st) → ∀ t ∈ st.tokens, t.Sound := by
  unfold step
  split
  · refine ⟨nofun, fun st hst => ?_⟩
    cases hst
    intro t ht
    split at ht
    · cases ht
    · split at ht <;> cases ht
  · split
    · refine ⟨nofun, fun st hst => ?_⟩
      cases hst
      intro t ht
      cases ht
    · obtain ⟨herror, htokens⟩ := tokenized_globTokens s
      cases hs : globTokens s with
      | error e =>
        refine ⟨fun e' he => ?_, nofun⟩
        cases he
        exact herror e hs
      | ok ts =>
        refine ⟨nofun, fun st hst => ?_⟩
        cases ts with
        | none => cases hst
        | some ts =>
          cases hst
          exact htokens ts hs

theorem sound_steps (segments : List Segment) (first : Bool) :
    (∀ e, steps first segments = .error e → e = .malformed) ∧
      ∀ sts, steps first segments = .ok (some sts) → ∀ st ∈ sts, ∀ t ∈ st.tokens, t.Sound := by
  induction segments generalizing first with
  | nil => exact ⟨nofun, fun sts hsts => by cases hsts; simp⟩
  | cons s rest ih =>
    obtain ⟨herror, htokens⟩ := sound_step first rest.isEmpty s
    obtain ⟨hmore, hrest⟩ := ih false
    unfold steps
    constructor
    · intro e he
      rcases of_bind_error he with hs | ⟨st, hs, he⟩
      · exact herror e hs
      · cases st with
        | none => cases he
        | some st =>
          rcases of_bind_error he with hm | ⟨sts, -, he⟩
          · exact hmore e hm
          · cases he
    · intro sts hsts
      obtain ⟨st, hs, hsts⟩ := of_bind_ok hsts
      cases st with
      | none => cases hsts
      | some st =>
        obtain ⟨more, hm, hsts⟩ := of_bind_ok hsts
        cases more with
        | none => cases hsts
        | some more =>
          cases hsts
          exact List.forall_mem_cons.2 ⟨htokens st hs, hrest more hm⟩

theorem backwards_of_stepsRegex {sts : List Step} (hsts : ∀ st ∈ sts, ∀ t ∈ st.tokens, t.Sound)
    {forDirectories first slashed : Bool}
    (he : stepsRegex forDirectories first slashed sts = .error e) : e.Backwards := by
  induction sts generalizing first slashed with
  | nil => cases he
  | cons st rest ih =>
    obtain ⟨hst, hrest⟩ := List.forall_mem_cons.1 hsts
    unfold stepsRegex at he
    rcases of_bind_error he with hs | ⟨⟨rs, slashed'⟩, -, he⟩
    · cases st with
      | glob tokens final =>
        rcases of_bind_error hs with hm | ⟨rs, -, hs⟩
        · obtain ⟨front, t, back, rfl, -, ht⟩ := of_mapM_error hm
          exact hst t (by simp [Step.tokens]) e ht
        · cases hs
      | _ => cases hs
    · rcases of_bind_error he with hm | ⟨rs', -, he⟩
      · exact ih hrest hm
      · cases he

theorem of_segmentsRegex {forDirectories : Bool} {segments : List Segment}
    (he : segmentsRegex forDirectories segments = .error e) : e = .malformed ∨ e.Backwards := by
  unfold segmentsRegex at he
  split at he
  · cases he
  split at he
  · cases he
  split at he
  · cases he
  obtain ⟨hmalformed, hsound⟩ := sound_steps segments true
  rcases of_bind_error he with hs | ⟨sts, hs, he⟩
  · exact .inl (hmalformed e hs)
  cases sts with
  | none => cases he
  | some sts =>
    rcases of_bind_error he with hr | ⟨rs, -, he⟩
    · exact .inr (backwards_of_stepsRegex (hsound sts hs) hr)
    · cases he

/-- A line can only be malformed, or hold a set with a range that runs backwards. -/
theorem backwards_of_read {line : String} {x : ReadError} (he : read line = .error (.badSet x)) :
    Flaw.Backwards (.badSet x) := by
  simp only [read] at he
  split at he
  · cases he
  split at he
  · cases he
  rcases of_bind_error he with hs | ⟨r, -, he⟩
  · exact (of_segmentsRegex hs).resolve_left nofun
  · cases he

theorem line_of_read {line : String} {p : Pattern} (hp : read line = .ok p) : p.line = line := by
  simp only [read] at hp
  split at hp
  · cases hp
    rfl
  split at hp
  · cases hp
  obtain ⟨r, -, hp⟩ := of_bind_ok hp
  cases hp
  rfl

end Pattern

end LintRunner
