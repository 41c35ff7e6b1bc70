import LintRunner.Config.Loaded
import LintRunner.Proofs.Config.Settings
import LintRunner.Proofs.Starter.Render
import LintRunner.Proofs.Text.Utf8
import LintRunner.Proofs.Toml.Section

/-! What the sections of a starter configuration are read as. They are fixed, so they are read here once:
each declares a command that makes a filter, and whatever file speaks for a component, one of the component's
commands includes files of that kind. -/

namespace LintRunner.Starter

open Config

/-- Text whose bytes stand for characters, none of them a carriage return. -/
def isPlain (s : String) : Bool := s.toByteArray.data.toList.all fun b => b.toNat < 128 && b.toNat ≠ 13

namespace Declared

-- read from the bytes, which evaluation has at hand where it would have to decode the characters
def table? (d : Declared) : Option Table :=
  Toml.sectionTable? "commands" d.name (Text.ofSmall (commandSection d).toByteArray)

def command? (d : Declared) : Option Command := d.table?.bind fun t => (Command.read (.table t)).sound?

end Declared

/-- Settings of a command that takes part in runs, takes no file back and makes a filter. -/
def isUsable (name : String) (c : Command) : Bool :=
  c.hasLabel Filter.defaultLabel && c.includes.all (fun p => !p.toList.contains '!') &&
    (Loaded.buildFilter ⟨.root, []⟩ name c).toOption.isSome

namespace Component

/-- The patterns that the files speaking for the component match. -/
def triggers (c : Component) : List String :=
  (if c = gitignore then ["**/.gitignore"] else []) ++ (suffixes.filter (·.2 = c)).map fun e => "**/*" ++ e.1

def isSound (c : Component) : Bool :=
  c.commands.all (fun d => isPlain (commandSection d)) &&
    (c.commands.mapM fun (d : Declared) => d.command?.map (d.name, ·)).any fun read =>
      read.all (fun e => isUsable e.1 e.2) && c.triggers.all fun p => read.any fun e => e.2.includes.contains p

theorem sound (c : Component) : c.isSound = true := by cases c <;> decide +kernel

end Component

theorem toList_of_isPlain {s : String} (hs : isPlain s = true) :
    s.toList = Text.ofSmall s.toByteArray ∧ '\r' ∉ s.toList := by
  have hbytes : ∀ b ∈ s.toByteArray.data.toList, b.toNat < 128 ∧ b.toNat ≠ 13 := by
    intro b hb
    simpa only [Bool.and_eq_true, decide_eq_true_eq] using List.all_eq_true.1 hs b hb
  have hlist := Text.toList_of_small fun b hb => (hbytes b hb).1
  refine ⟨hlist, fun hmem => ?_⟩
  rw [hlist] at hmem
  obtain ⟨b, hb, hreturn⟩ := List.mem_map.1 hmem
  obtain ⟨hsmall, hno⟩ := hbytes b hb
  have hvalid : b.toNat.isValidChar := .inl (by omega)
  have hcode : (Char.ofNat b.toNat).toNat = b.toNat := by
    rw [Char.ofNat, dif_pos hvalid]
    unfold Char.ofNatAux Char.toNat
    simp
  rw [hreturn] at hcode
  exact hno hcode.symm

/-- The same filter for another project. -/
def moved (root : Path) (f : Filter) : Filter :=
  { f with
    root
    includer := ⟨root, f.includer.patterns⟩
    excluder := ⟨root, f.excluder.patterns⟩
    cmd := f.params.cmd.map (Text.replaced Filter.rootPlaceholder root.text) }

/-- Whether a filter can be made does not depend on the project. -/
theorem build_eq_map_moved (p : Filter.Params) (root root' : Path) :
    Filter.build p root' = (Filter.build p root).map (moved root') := by
  unfold Filter.build
  by_cases hflags : p.kind = .both ∧ p.lintFlags = [] ∧ p.tidyFlags = []
  · simp only [if_pos hflags]
    rfl
  by_cases hoverlap : Filter.overlap p ≠ []
  · simp only [if_neg hflags, if_pos hoverlap]
    rfl
  simp only [if_neg hflags, if_neg hoverlap, Matcher.compile]
  cases Pattern.readAll p.includes with
  | error e => rfl
  | ok includes =>
    cases Pattern.readAll p.excludes with
    | error e => rfl
    | ok excludes => cases Filter.tolerances p <;> rfl

theorem isUsable_iff {name : String} {k : Command} : isUsable name k = true ↔
    (k.hasLabel Filter.defaultLabel = true ∧ ∀ p ∈ k.includes, '!' ∉ p.toList) ∧
      ∀ root, ∃ f, Loaded.buildFilter root name k = .ok f := by
  have hall : k.includes.all (fun p => !p.toList.contains '!') = true ↔ ∀ p ∈ k.includes, '!' ∉ p.toList := by
    simp
  rw [isUsable, Bool.and_eq_true, Bool.and_eq_true, hall]
  refine and_congr_right fun _ => ⟨fun hbuilt root => ?_, fun hbuilt => ?_⟩
  · unfold Loaded.buildFilter at hbuilt ⊢
    cases hp : k.params name with
    | error e =>
      rw [hp] at hbuilt
      cases hbuilt
    | ok p =>
      rw [hp] at hbuilt
      show ∃ f, Filter.build p root = .ok f
      rw [build_eq_map_moved p ⟨.root, []⟩ root]
      cases hf : Filter.build p ⟨.root, []⟩ with
      | error e =>
        have hnone : (Filter.build p ⟨.root, []⟩).toOption.isSome = true := hbuilt
        rw [hf] at hnone
        cases hnone
      | ok f => exact ⟨_, rfl⟩
  · obtain ⟨f, hf⟩ := hbuilt ⟨.root, []⟩
    rw [hf]
    rfl

/-- What the section of a command declares. -/
structure Declares (d : Declared) (t : Table) (k : Command) : Prop where
  noReturn : '\r' ∉ (commandSection d).toList
  readsAs : Toml.sectionTable? "commands" d.name (commandSection d).toList = some t
  accepted : Command.read (.table t) = .sound k
  labelled : k.hasLabel Filter.defaultLabel = true
  positive : ∀ p ∈ k.includes, '!' ∉ p.toList
  builds : ∀ root, ∃ f, Loaded.buildFilter root d.name k = .ok f

theorem declares_of_command? {d : Declared} {k : Command} (hplain : isPlain (commandSection d) = true)
    (hk : d.command? = some k) (husable : isUsable d.name k = true) : ∃ t, Declares d t k := by
  obtain ⟨hlist, hreturn⟩ := toList_of_isPlain hplain
  obtain ⟨⟨hlabel, hpositive⟩, hbuilds⟩ := isUsable_iff.1 husable
  obtain ⟨t, ht, hk⟩ := Option.bind_eq_some_iff.1 hk
  exact ⟨t, hreturn, hlist ▸ ht, Verdict.sound?_eq_some_iff.1 hk, hlabel, hpositive, hbuilds⟩

theorem Declares.unique {d : Declared} {t t' : Table} {k k' : Command} (hk : Declares d t k)
    (hk' : Declares d t' k') : k = k' := by
  cases hk.readsAs.symm.trans hk'.readsAs
  cases hk.accepted.symm.trans hk'.accepted
  rfl

/-- The members on both sides of a list that is mapped without a failure. -/
theorem mem_of_mapM {α β : Type} {f : α → Option β} {as : List α} {bs : List β}
    (hbs : as.mapM f = some bs) :
    (∀ a ∈ as, ∃ b ∈ bs, f a = some b) ∧ ∀ b ∈ bs, ∃ a ∈ as, f a = some b := by
  induction as generalizing bs with
  | nil =>
    cases hbs
    exact ⟨nofun, nofun⟩
  | cons a as ih =>
    rw [List.mapM_cons] at hbs
    obtain ⟨b, hb, hbs⟩ := Option.bind_eq_some_iff.1 hbs
    obtain ⟨bs, hrest, hbs⟩ := Option.bind_eq_some_iff.1 hbs
    cases hbs
    obtain ⟨hthere, hback⟩ := ih hrest
    refine ⟨List.forall_mem_cons.2 ⟨⟨b, List.mem_cons_self, hb⟩, fun x hx => ?_⟩,
      List.forall_mem_cons.2 ⟨⟨a, List.mem_cons_self, hb⟩, fun y hy => ?_⟩⟩
    · obtain ⟨y, hy, hxy⟩ := hthere x hx
      exact ⟨y, List.mem_cons_of_mem b hy, hxy⟩
    · obtain ⟨x, hx, hxy⟩ := hback y hy
      exact ⟨x, List.mem_cons_of_mem a hx, hxy⟩

namespace Component

variable {c : Component}

/-- The commands of a component as they are read, one of them for each kind of files that speaks for it. -/
theorem exists_read (c : Component) : ∃ read : List (String × Command),
    (∀ d ∈ c.commands, ∃ e ∈ read, e.1 = d.name ∧ ∃ t, Declares d t e.2) ∧
    (∀ e ∈ read, ∃ d ∈ c.commands, e.1 = d.name ∧ ∃ t, Declares d t e.2) ∧
      ∀ p ∈ c.triggers, ∃ e ∈ read, p ∈ e.2.includes := by
  obtain ⟨hplain, hread⟩ := (Bool.and_eq_true ..).mp c.sound
  obtain ⟨read, hmapM, hchecked⟩ := (Option.any_eq_true ..).mp hread
  obtain ⟨husable, htriggers⟩ := (Bool.and_eq_true ..).mp hchecked
  obtain ⟨hthere, hback⟩ := mem_of_mapM hmapM
  have hdeclares {d : Declared} {e : String × Command} (hd : d ∈ c.commands) (he : e ∈ read)
      (hde : d.command?.map (d.name, ·) = some e) : e.1 = d.name ∧ ∃ t, Declares d t e.2 := by
    obtain ⟨k, hk, rfl⟩ := Option.map_eq_some_iff.1 hde
    exact ⟨rfl, declares_of_command? (List.all_eq_true.1 hplain d hd) hk (List.all_eq_true.1 husable _ he)⟩
  refine ⟨read, fun d hd => ?_, fun e he => ?_, fun p hp => ?_⟩
  · obtain ⟨e, he, hde⟩ := hthere d hd
    exact ⟨e, he, hdeclares hd he hde⟩
  · obtain ⟨d, hd, hde⟩ := hback e he
    exact ⟨d, hd, hdeclares hd he hde⟩
  · obtain ⟨e, he, hmem⟩ := List.any_eq_true.1 (List.all_eq_true.1 htriggers p hp)
    exact ⟨e, he, List.contains_iff_mem.1 hmem⟩

theorem declares {d : Declared} (hd : d ∈ c.commands) : ∃ t k, Declares d t k := by
  obtain ⟨read, hthere, -, -⟩ := c.exists_read
  obtain ⟨e, -, -, t, ht⟩ := hthere d hd
  exact ⟨t, e.2, ht⟩

theorem covers {pattern : String} (hpattern : pattern ∈ c.triggers) :
    ∃ d ∈ c.commands, ∃ t k, Declares d t k ∧ pattern ∈ k.includes := by
  obtain ⟨read, -, hback, htriggers⟩ := c.exists_read
  obtain ⟨e, he, hmem⟩ := htriggers pattern hpattern
  obtain ⟨d, hd, -, t, ht⟩ := hback e he
  exact ⟨d, hd, t, e.2, ht, hmem⟩

end Component

/-- What the text of excludes is read as, if it is read. -/
def excludesRead? (s : String) : Option (List String) :=
  match Toml.statements? (s.toByteArray.size + 1) (Text.ofSmall s.toByteArray) with
  | some [.assigns ["exclude"] v] => (readTexts v).sound?
  | _ => none

/-- Excludes make at most one section, and it is read as what they are. -/
def areSound (es : List String) : Bool :=
  match excludeSection es with
  | [] => es = []
  | [s] => isPlain s && excludesRead? s == some es
  | _ => false

theorem areSound_of_sublist : ∀ es ∈ (excludesOf Component.every).sublists, areSound es = true := by
  decide +kernel

end LintRunner.Starter
