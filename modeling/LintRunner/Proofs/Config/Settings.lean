import LintRunner.Config.Command
import LintRunner.Proofs.Table
import Mathlib.Data.List.Lattice
import Mathlib.Data.List.Nodup
import Mathlib.Data.List.Pairwise

/-! Which settings a table gives a command. Every key of a table that is accepted spells one setting, and
of the values given for a setting under different spellings the last one counts. So no value is lost where
no two keys are spellings of one setting; `type` and its second name are refused together, but a hyphen
beside an underscore is not. -/

namespace LintRunner.Config

namespace Verdict

variable {α β : Type} {f : Verdict (α → β)} {x : Verdict α} {y : Verdict β} {a : α} {b : β}

theorem seq_sound_iff : (f <*> x) = .sound b ↔ ∃ g a, f = .sound g ∧ x = .sound a ∧ g a = b := by
  cases f <;> cases x <;> simp [Seq.seq]

theorem map_sound_iff {g : α → β} : (g <$> x) = .sound b ↔ ∃ a, x = .sound a ∧ g a = b := by
  cases x <;> simp [Functor.map]

theorem seqLeft_sound_iff : (x <* y) = .sound a ↔ x = .sound a ∧ ∃ b, y = .sound b := by
  cases x <;> cases y <;> simp [SeqLeft.seqLeft]

theorem under_sound_iff {steps : List Step} : x.under steps = .sound a ↔ x = .sound a := by
  cases x <;> simp [under]

def sound? : Verdict α → Option α
  | sound a => some a
  | faulty _ => none

theorem sound?_eq_some_iff {v : Verdict α} : v.sound? = some a ↔ v = .sound a := by
  cases v <;> simp [sound?]

end Verdict

inductive Setting where
  | kind
  | includes
  | excludes
  | invoke
  | workingDir
  | pathArgs
  | runMode
  | chdir
  | cmd
  | env
  | lintFlags
  | tidyFlags
  | pathFlag
  | okExitCodes
  | lintFailureExitCodes
  | expectStderr
  | ignoreStderr
  | labels
deriving DecidableEq, Repr

namespace Setting

def key : Setting → String
  | kind => "type"
  | includes => "include"
  | excludes => "exclude"
  | invoke => "invoke"
  | workingDir => "working_dir"
  | pathArgs => "path_args"
  | runMode => "run_mode"
  | chdir => "chdir"
  | cmd => "cmd"
  | env => "env"
  | lintFlags => "lint_flags"
  | tidyFlags => "tidy_flags"
  | pathFlag => "path_flag"
  | okExitCodes => "ok_exit_codes"
  | lintFailureExitCodes => "lint_failure_exit_codes"
  | expectStderr => "expect_stderr"
  | ignoreStderr => "ignore_stderr"
  | labels => "labels"

def names : Setting → List String
  | kind => ["type", "kind"]
  | s => [s.key]

/-- The settings beside the kind, which alone has two names. -/
def others : List Setting :=
  [includes, excludes, invoke, workingDir, pathArgs, runMode, chdir, cmd, env, lintFlags, tidyFlags,
    pathFlag, okExitCodes, lintFailureExitCodes, expectStderr, ignoreStderr, labels]

theorem mem_others_iff {s : Setting} : s ∈ others ↔ s ≠ kind := by
  cases s <;> decide

/-- The key with underscores for its hyphens. -/
def unified (key : String) : String := Text.replaced "-" "_" key

def isSpelled (s : Setting) (key : String) : Bool := s.names.contains (unified key)

/-- What the table gives last for the setting, under any of its spellings. -/
def last? (t : Table) (s : Setting) : Option Value :=
  (t.reverse.find? fun e => s.isSpelled e.1).map (·.2)

end Setting

namespace Command

/-- The setting of the command is what the value is read as. -/
def Holds (c : Command) : Setting → Value → Prop
  | .kind, v => readChoice .notChoice Filter.Kind.text Filter.Kind.every v = .sound c.kind
  | .includes, v => readTexts v = .sound c.includes
  | .excludes, v => readTexts v = .sound c.excludes
  | .invoke, v => readOptional readInvoke v = .sound c.invoke
  | .workingDir, v => readOptional readPlace v = .sound c.workingDir
  | .pathArgs, v =>
    readOptional (readChoice .notChoice Filter.PathStyle.text Filter.PathStyle.every) v = .sound c.pathArgs
  | .runMode, v =>
    readOptional (readChoice .notLiteral Filter.Scope.text Filter.Scope.every) v = .sound c.runMode
  | .chdir, v => readOptional readTruth v = .sound c.chdir
  | .cmd, v => readCmd v = .sound c.cmd
  | .env, v => readTextTable v = .sound c.env
  | .lintFlags, v => readTexts v = .sound c.lintFlags
  | .tidyFlags, v => readTexts v = .sound c.tidyFlags
  | .pathFlag, v => readText v = .sound c.pathFlag
  | .okExitCodes, v => readCodes v = .sound c.okExitCodes
  | .lintFailureExitCodes, v => readCodes v = .sound c.lintFailureExitCodes
  | .expectStderr, v => readTruth v = .sound c.expectStderr
  | .ignoreStderr, v => readTexts v = .sound c.ignoreStderr
  | .labels, v => readTexts v = .sound c.labels

/-- The setting of the command is what it is where nothing is given; some have to be given. -/
def Unset (c : Command) : Setting → Prop
  | .kind => False
  | .includes => False
  | .excludes => c.excludes = []
  | .invoke => c.invoke = none
  | .workingDir => c.workingDir = none
  | .pathArgs => c.pathArgs = none
  | .runMode => c.runMode = none
  | .chdir => c.chdir = none
  | .cmd => False
  | .env => c.env = []
  | .lintFlags => c.lintFlags = []
  | .tidyFlags => c.tidyFlags = []
  | .pathFlag => c.pathFlag = ""
  | .okExitCodes => c.okExitCodes = [0]
  | .lintFailureExitCodes => c.lintFailureExitCodes = []
  | .expectStderr => c.expectStderr = false
  | .ignoreStderr => c.ignoreStderr = []
  | .labels => c.labels = []

def Takes (c : Command) (s : Setting) (given : Option Value) : Prop :=
  given.elim (c.Unset s) (c.Holds s)

variable {t : Table} {c : Command} {α : Type} {key : String} {readPart : Value → Verdict α} {a : α}

theorem required_sound_iff : required t key readPart = .sound a ↔
    (t.lookup key).elim False fun v => readPart v = .sound a := by
  rw [required, Verdict.under_sound_iff]
  cases t.lookup key <;> simp [Verdict.refuse]

theorem optional_sound_iff {default : α} : optional t key default readPart = .sound a ↔
    (t.lookup key).elim (a = default) fun v => readPart v = .sound a := by
  rw [optional, Verdict.under_sound_iff]
  cases t.lookup key <;> simp [eq_comm]

/-- The key under which the setting is looked up. -/
def keyIn (t : Table) : Setting → String
  | .kind => kindKey t
  | s => s.key

theorem readTable_sound_iff : readTable t = .sound c ↔
    (∀ s, c.Takes s (t.lookup (keyIn t s))) ∧ onlyKeys (kindKey t :: keys.drop 1) t = .sound () := by
  unfold readTable
  dsimp only
  constructor
  · intro h
    -- the last setting is read outermost, so they come off from the end
    obtain ⟨k17, _, honly⟩ := Verdict.seqLeft_sound_iff.1 h
    obtain ⟨_, _, k16, h17, rfl⟩ := Verdict.seq_sound_iff.1 k17
    obtain ⟨_, _, k15, h16, rfl⟩ := Verdict.seq_sound_iff.1 k16
    obtain ⟨_, _, k14, h15, rfl⟩ := Verdict.seq_sound_iff.1 k15
    obtain ⟨_, _, k13, h14, rfl⟩ := Verdict.seq_sound_iff.1 k14
    obtain ⟨_, _, k12, h13, rfl⟩ := Verdict.seq_sound_iff.1 k13
    obtain ⟨_, _, k11, h12, rfl⟩ := Verdict.seq_sound_iff.1 k12
    obtain ⟨_, _, k10, h11, rfl⟩ := Verdict.seq_sound_iff.1 k11
    obtain ⟨_, _, k9, h10, rfl⟩ := Verdict.seq_sound_iff.1 k10
    obtain ⟨_, _, k8, h9, rfl⟩ := Verdict.seq_sound_iff.1 k9
    obtain ⟨_, _, k7, h8, rfl⟩ := Verdict.seq_sound_iff.1 k8
    obtain ⟨_, _, k6, h7, rfl⟩ := Verdict.seq_sound_iff.1 k7
    obtain ⟨_, _, k5, h6, rfl⟩ := Verdict.seq_sound_iff.1 k6
    obtain ⟨_, _, k4, h5, rfl⟩ := Verdict.seq_sound_iff.1 k5
    obtain ⟨_, _, k3, h4, rfl⟩ := Verdict.seq_sound_iff.1 k4
    obtain ⟨_, _, k2, h3, rfl⟩ := Verdict.seq_sound_iff.1 k3
    obtain ⟨_, _, k1, h2, rfl⟩ := Verdict.seq_sound_iff.1 k2
    obtain ⟨_, _, k0, h1, rfl⟩ := Verdict.seq_sound_iff.1 k1
    obtain ⟨_, h0, rfl⟩ := Verdict.map_sound_iff.1 k0
    refine ⟨fun s => ?_, honly⟩
    cases s with
    | kind => exact required_sound_iff.1 h0
    | includes => exact required_sound_iff.1 h1
    | excludes => exact optional_sound_iff.1 h2
    | invoke => exact optional_sound_iff.1 h3
    | workingDir => exact optional_sound_iff.1 h4
    | pathArgs => exact optional_sound_iff.1 h5
    | runMode => exact optional_sound_iff.1 h6
    | chdir => exact optional_sound_iff.1 h7
    | cmd => exact required_sound_iff.1 h8
    | env => exact optional_sound_iff.1 h9
    | lintFlags => exact optional_sound_iff.1 h10
    | tidyFlags => exact optional_sound_iff.1 h11
    | pathFlag => exact optional_sound_iff.1 h12
    | okExitCodes => exact optional_sound_iff.1 h13
    | lintFailureExitCodes => exact optional_sound_iff.1 h14
    | expectStderr => exact optional_sound_iff.1 h15
    | ignoreStderr => exact optional_sound_iff.1 h16
    | labels => exact optional_sound_iff.1 h17
  · rintro ⟨hs, honly⟩
    have h := Verdict.map_sound_iff (g := Command.mk).2 ⟨_, required_sound_iff.2 (hs .kind), rfl⟩
    have h := Verdict.seq_sound_iff.2 ⟨_, _, h, required_sound_iff.2 (hs .includes), rfl⟩
    have h := Verdict.seq_sound_iff.2 ⟨_, _, h, optional_sound_iff.2 (hs .excludes), rfl⟩
    have h := Verdict.seq_sound_iff.2 ⟨_, _, h, optional_sound_iff.2 (hs .invoke), rfl⟩
    have h := Verdict.seq_sound_iff.2 ⟨_, _, h, optional_sound_iff.2 (hs .workingDir), rfl⟩
    have h := Verdict.seq_sound_iff.2 ⟨_, _, h, optional_sound_iff.2 (hs .pathArgs), rfl⟩
    have h := Verdict.seq_sound_iff.2 ⟨_, _, h, optional_sound_iff.2 (hs .runMode), rfl⟩
    have h := Verdict.seq_sound_iff.2 ⟨_, _, h, optional_sound_iff.2 (hs .chdir), rfl⟩
    have h := Verdict.seq_sound_iff.2 ⟨_, _, h, required_sound_iff.2 (hs .cmd), rfl⟩
    have h := Verdict.seq_sound_iff.2 ⟨_, _, h, optional_sound_iff.2 (hs .env), rfl⟩
    have h := Verdict.seq_sound_iff.2 ⟨_, _, h, optional_sound_iff.2 (hs .lintFlags), rfl⟩
    have h := Verdict.seq_sound_iff.2 ⟨_, _, h, optional_sound_iff.2 (hs .tidyFlags), rfl⟩
    have h := Verdict.seq_sound_iff.2 ⟨_, _, h, optional_sound_iff.2 (hs .pathFlag), rfl⟩
    have h := Verdict.seq_sound_iff.2 ⟨_, _, h, optional_sound_iff.2 (hs .okExitCodes), rfl⟩
    have h := Verdict.seq_sound_iff.2 ⟨_, _, h, optional_sound_iff.2 (hs .lintFailureExitCodes), rfl⟩
    have h := Verdict.seq_sound_iff.2 ⟨_, _, h, optional_sound_iff.2 (hs .expectStderr), rfl⟩
    have h := Verdict.seq_sound_iff.2 ⟨_, _, h, optional_sound_iff.2 (hs .ignoreStderr), rfl⟩
    have h := Verdict.seq_sound_iff.2 ⟨_, _, h, optional_sound_iff.2 (hs .labels), rfl⟩
    exact Verdict.seqLeft_sound_iff.2 ⟨h, _, honly⟩

open Setting (unified)

theorem onlyKeys_sound_iff {known : List String} :
    onlyKeys known t = .sound () ↔ ∀ e ∈ t, e.1 ∈ known := by
  rw [onlyKeys]
  split
  · next hnone => simpa [List.filter_eq_nil_iff] using hnone
  · next hsome =>
    have hex : ¬ (t.filter fun e => !known.contains e.1) = [] := hsome
    simpa [List.filter_eq_nil_iff] using hex

/-- Of two keys that become one the last gives the value. -/
theorem lookup_unifyKeys (t : Table) (key : String) :
    (unifyKeys t).lookup key = (t.reverse.find? fun e => unified e.1 == key).map (·.2) := by
  suffices hfold : ∀ acc : Table,
      (t.foldl (fun t e => Table.put t (unified e.1) e.2) acc).lookup key =
        ((t.reverse.find? fun e => unified e.1 == key).map (·.2)).or (acc.lookup key) by
    exact (hfold []).trans (Option.or_none ..)
  induction t with
  | nil => simp
  | cons e t ih =>
    intro acc
    rw [List.foldl_cons, ih, Table.lookup_put, List.reverse_cons, List.find?_append]
    by_cases hkey : key = unified e.1
    · subst hkey
      cases t.reverse.find? fun e' => unified e'.1 == unified e.1 <;> simp
    · have hother : (unified e.1 == key) = false := beq_false_of_ne (Ne.symm hkey)
      simp [hkey, hother]

theorem has_unifyKeys (t : Table) (key : String) :
    (unifyKeys t).has key = true ↔ ∃ e ∈ t, unified e.1 = key := by
  rw [Table.has, lookup_unifyKeys]
  simp

/-- The second name of `type` stands beside it. -/
def NamesKindTwice (t : Table) : Prop :=
  (∃ e ∈ t, unified e.1 = "type") ∧ ∃ e ∈ t, unified e.1 = "kind"

theorem isSpelled_kind_iff {key : String} :
    Setting.kind.isSpelled key = true ↔ unified key = "type" ∨ unified key = "kind" := by
  simp [Setting.isSpelled, Setting.names]

theorem isSpelled_iff {s : Setting} (hs : s ≠ .kind) {key : String} :
    s.isSpelled key = true ↔ unified key = s.key := by
  cases s <;> simp_all [Setting.isSpelled, Setting.names]

theorem names_nodup : ((Setting.kind :: Setting.others).flatMap Setting.names).Nodup := by
  decide

/-- A key spells one setting at most. -/
theorem eq_of_isSpelled {s s' : Setting} {key : String} (hs : s.isSpelled key = true)
    (hs' : s'.isSpelled key = true) : s = s' := by
  have hmem : ∀ s : Setting, s ∈ Setting.kind :: Setting.others := fun s =>
    List.mem_cons.2 ((em (s = .kind)).imp_right Setting.mem_others_iff.2)
  by_contra hne
  have : Std.Symm (Function.onFun List.Disjoint Setting.names) := ⟨fun _ _ h => List.Disjoint.symm h⟩
  have hdisjoint : s.names.Disjoint s'.names :=
    (List.nodup_flatMap.1 names_nodup).2.forall (hmem s) (hmem s') hne
  exact hdisjoint (List.elem_iff.1 hs) (List.elem_iff.1 hs')

theorem kindKey_unifyKeys (t : Table) : kindKey (unifyKeys t) =
    if ¬ (∃ e ∈ t, unified e.1 = "type") ∧ ∃ e ∈ t, unified e.1 = "kind" then "kind" else "type" := by
  simp only [kindKey, Bool.and_eq_true, Bool.not_eq_true', ← Bool.not_eq_true, has_unifyKeys]

theorem onlyKeys_unifyKeys_iff {known : List String} :
    onlyKeys known (unifyKeys t) = .sound () ↔ ∀ e ∈ t, unified e.1 ∈ known := by
  rw [onlyKeys_sound_iff]
  constructor
  · intro h e he
    obtain ⟨e', he', hkey⟩ := Table.has_iff.1 ((has_unifyKeys t _).2 ⟨e, he, rfl⟩)
    exact hkey ▸ h e' he'
  · intro h e he
    obtain ⟨e', he', hkey⟩ := (has_unifyKeys t _).1 (Table.has_iff.2 ⟨e, he, rfl⟩)
    exact hkey ▸ h e' he'

/-- Every key that is checked is the name of one setting. -/
theorem keys_eq : keys = Setting.kind.key :: Setting.others.map Setting.key := rfl

theorem unified_mem_keys_iff {key : String} :
    unified key ∈ keys.drop 1 ↔ ∃ s : Setting, s ≠ .kind ∧ s.isSpelled key = true := by
  rw [keys_eq, List.drop_succ_cons, List.drop_zero, List.mem_map]
  refine exists_congr fun s => ?_
  rw [Setting.mem_others_iff]
  exact and_congr_right fun hs => by rw [isSpelled_iff hs, eq_comm]

theorem onlyKeys_kindKey_iff :
    onlyKeys (kindKey (unifyKeys t) :: keys.drop 1) (unifyKeys t) = .sound () ↔
      (∀ e ∈ t, ∃ s : Setting, s.isSpelled e.1 = true) ∧ ¬ NamesKindTwice t := by
  rw [onlyKeys_unifyKeys_iff, kindKey_unifyKeys]
  simp only [List.mem_cons, unified_mem_keys_iff]
  constructor
  · intro h
    refine ⟨fun e he => ?_, ?_⟩
    · rcases h e he with hkind | ⟨s, -, hs⟩
      · refine ⟨.kind, isSpelled_kind_iff.2 ?_⟩
        rw [hkind]
        split <;> simp
      · exact ⟨s, hs⟩
    · -- where `type` is given the kind is read from there, and its second name is a key too many
      rintro ⟨htype, e, he, hkind⟩
      rcases h e he with hsame | ⟨s, hne, hs⟩
      · rw [if_neg fun hno => hno.1 htype, hkind] at hsame
        exact absurd hsame (by decide)
      · rw [isSpelled_iff hne, hkind] at hs
        cases s <;> first | exact hne rfl | exact absurd hs (by decide)
  · rintro ⟨hknown, honce⟩ e he
    obtain ⟨s, hs⟩ := hknown e he
    by_cases hkind : s = .kind
    · subst hkind
      left
      rcases isSpelled_kind_iff.1 hs with htype | hkind
      · rw [if_neg fun hno => hno.1 ⟨e, he, htype⟩, htype]
      · rw [if_pos ⟨fun htype => honce ⟨htype, e, he, hkind⟩, e, he, hkind⟩, hkind]
    · exact .inr ⟨s, hkind, hs⟩

theorem lookup_keyIn (honce : ¬ NamesKindTwice t) (s : Setting) :
    (unifyKeys t).lookup (keyIn (unifyKeys t) s) = s.last? t := by
  rw [lookup_unifyKeys, Setting.last?, ← List.head?_filter, ← List.head?_filter]
  congr 2
  by_cases hs : s = .kind
  · subst hs
    have hname : keyIn (unifyKeys t) .kind = kindKey (unifyKeys t) := rfl
    rw [hname, kindKey_unifyKeys]
    refine List.filter_congr fun e he => Bool.eq_iff_iff.2 ?_
    rw [beq_iff_eq, isSpelled_kind_iff]
    rw [List.mem_reverse] at he
    split
    · next hkind => exact ⟨.inr, fun h => h.resolve_left fun htype => hkind.1 ⟨e, he, htype⟩⟩
    · next hno =>
      refine ⟨.inl, fun h => h.resolve_right fun hkind => ?_⟩
      by_cases htype : ∃ e ∈ t, unified e.1 = "type"
      · exact honce ⟨htype, e, he, hkind⟩
      · exact hno ⟨htype, e, he, hkind⟩
  · have hname : keyIn (unifyKeys t) s = s.key := by cases s <;> first | exact absurd rfl hs | rfl
    rw [hname]
    exact List.filter_congr fun e _ => Bool.eq_iff_iff.2 (by rw [beq_iff_eq, isSpelled_iff hs])

/-- A table is accepted where every key spells a setting and the second name of `type` does not stand
beside it, and what the command has for each setting comes from the value that is given for it last. -/
structure Accounts (t : Table) (c : Command) : Prop where
  known : ∀ e ∈ t, ∃ s : Setting, s.isSpelled e.1 = true
  kindOnce : ¬ NamesKindTwice t
  takes : ∀ s : Setting, c.Takes s (s.last? t)

theorem read_sound_iff : Command.read (.table t) = .sound c ↔ Accounts t c := by
  rw [Command.read, readTable_sound_iff, onlyKeys_kindKey_iff]
  constructor
  · rintro ⟨htakes, hknown, honce⟩
    exact ⟨hknown, honce, fun s => lookup_keyIn honce s ▸ htakes s⟩
  · rintro ⟨hknown, honce, htakes⟩
    exact ⟨fun s => (lookup_keyIn honce s).symm ▸ htakes s, hknown, honce⟩

/-- The two keys are spellings of one setting. -/
def Rivals (key key' : String) : Prop :=
  ∃ s : Setting, s.isSpelled key = true ∧ s.isSpelled key' = true

theorem last?_append_cons {pre post : Table} {e : String × Value} {s : Setting}
    (hs : s.isSpelled e.1 = true) (hpost : ∀ e' ∈ post, ¬ Rivals e.1 e'.1) :
    s.last? (pre ++ e :: post) = some e.2 := by
  have hnone : post.reverse.find? (fun e' => s.isSpelled e'.1) = none :=
    List.find?_eq_none.2 fun e' he' hs' => hpost e' (List.mem_reverse.1 he') ⟨s, hs, hs'⟩
  rw [Setting.last?, List.reverse_append, List.reverse_cons, List.append_assoc, List.find?_append, hnone,
    Option.none_or, List.singleton_append]
  simp only [List.find?_cons, hs, Option.map_some]

/-- A table makes a command where the command accounts for it, and then each value of the table that is
not followed by one under another spelling of its key is what the command's setting was read from. -/
theorem read_accounts (t : Table) (c : Command) :
    (Command.read (.table t) = .sound c ↔ Accounts t c) ∧
      (Accounts t c → ∀ pre e post, t = pre ++ e :: post → (∀ e' ∈ post, ¬ Rivals e.1 e'.1) →
        ∃ s : Setting, s.isSpelled e.1 = true ∧ c.Holds s e.2) := by
  refine ⟨read_sound_iff, ?_⟩
  rintro hc pre e post rfl hpost
  obtain ⟨s, hs⟩ := hc.known e (List.mem_append_right _ List.mem_cons_self)
  have htakes : c.Takes s (s.last? (pre ++ e :: post)) := hc.takes s
  rw [last?_append_cons hs hpost] at htakes
  exact ⟨s, hs, htakes⟩

/-- The table of a linter that is given its flags under both spellings of their key. -/
def flaggedTwice : Table :=
  [("type", .string "lint"), ("include", .string "*.py"), ("cmd", .string "tool"),
    ("lint-flags", .string "-a"), ("lint_flags", .string "-b")]

def flaggedLast : Command where
  kind := .lint
  includes := ["*.py"]
  excludes := []
  invoke := none
  workingDir := none
  pathArgs := none
  runMode := none
  chdir := none
  cmd := ["tool"]
  env := []
  lintFlags := ["-b"]
  tidyFlags := []
  pathFlag := ""
  okExitCodes := [0]
  lintFailureExitCodes := []
  expectStderr := false
  ignoreStderr := []
  labels := []

theorem read_flaggedTwice : Command.read (.table flaggedTwice) = .sound flaggedLast :=
  Verdict.sound?_eq_some_iff.1 (by decide +kernel)

theorem isSpelled_lint_flags : Setting.lintFlags.isSpelled "lint-flags" = true := by
  decide +kernel

/-- The later of the two values is the one that counts. -/
theorem read_accounts_flags :
    Accounts flaggedTwice flaggedLast ∧ flaggedLast.Holds .lintFlags (.string "-b") := by
  obtain ⟨hread, hkept⟩ := read_accounts flaggedTwice flaggedLast
  have hc : Accounts flaggedTwice flaggedLast := hread.1 read_flaggedTwice
  obtain ⟨s, hs, hholds⟩ := hkept hc (flaggedTwice.take 4) ("lint_flags", .string "-b") [] rfl (by simp)
  have hflags : s = .lintFlags := eq_of_isSpelled hs (by decide +kernel)
  exact ⟨hc, hflags ▸ hholds⟩

/-- A key that is given under both spellings is not refused, and one of its values is lost. -/
theorem not_read_keeps : ¬ ∀ (t : Table) (c : Command), Command.read (.table t) = .sound c →
    ∀ e ∈ t, ∃ s : Setting, s.isSpelled e.1 = true ∧ c.Holds s e.2 := by
  intro h
  obtain ⟨s, hs, hholds⟩ := h flaggedTwice flaggedLast read_flaggedTwice ("lint-flags", .string "-a")
    (by simp [flaggedTwice])
  have hflags : s = .lintFlags := eq_of_isSpelled hs isSpelled_lint_flags
  subst hflags
  simp [Holds, readTexts, flaggedLast] at hholds

end Command

end LintRunner.Config
