import LintRunner.Proofs.Config.Key
import LintRunner.Proofs.Config.Load
import LintRunner.Proofs.Starter.Template
import Mathlib.Data.List.Sublists

/-! Every starter configuration loads. It gives the project its excludes in order and each command once, at
its first place; and the filters of its commands can all be made, so that each takes part in a run. -/

namespace LintRunner

open Config

variable {σ : Type}

theorem Config.Verdict.exists_eachKey {α β γ : Type} {check : α → Verdict β} (key : γ → String) (part : γ → α)
    {P : γ → β → Prop} {as : List γ} (hparts : ∀ a ∈ as, ∃ b, check (part a) = .sound b ∧ P a b) :
    ∃ bs, Verdict.eachKey check (as.map fun a => (key a, part a)) = .sound bs ∧
      List.Forall₂ (fun a e => e.1 = key a ∧ P a e.2) as bs := by
  induction as with
  | nil => exact ⟨[], rfl, .nil⟩
  | cons a as ih =>
    obtain ⟨b, hb, hP⟩ := hparts a List.mem_cons_self
    obtain ⟨bs, hbs, hall⟩ := ih fun x hx => hparts x (List.mem_cons_of_mem a hx)
    refine ⟨(key a, b) :: bs, ?_, .cons ⟨rfl, hP⟩ hall⟩
    rw [List.map_cons, Verdict.eachKey, hb, hbs]
    rfl

namespace Starter

variable {components : List Component} {top inner : Table} {es : List String}

/-- The part of a configuration before its commands gives these excludes. -/
structure Heads (es : List String) (top : Table) : Prop where
  given : (top.lookup "exclude").elim (es = []) fun v => readTexts v = .sound es
  only : ∀ e ∈ top, e.1 = "exclude"

theorem Heads.lookup_commands (htop : Heads es top) : top.lookup "commands" = none := by
  refine Table.lookup_eq_none_iff.2 fun e he heq => ?_
  rw [htop.only e he] at heq
  exact absurd heq (by decide)

theorem read_withGroup {commands : List (String × Command)} (htop : Heads es top)
    (hinner : Verdict.eachKey Command.read inner = .sound commands) :
    Project.read (.table (top.withGroup "commands" inner)) = .sound ⟨es, commands⟩ := by
  have hexclude : (top.withGroup "commands" inner).lookup "exclude" = top.lookup "exclude" := by
    cases inner with
    | nil => rfl
    | cons e inner =>
      have hapart : ¬ "exclude" = "commands" := by decide
      rw [Table.withGroup, Table.lookup_append, Table.lookup_cons, if_neg hapart, List.lookup_nil,
        Option.or_none]
      exact nofun
  have hcommands : ((top.withGroup "commands" inner).lookup "commands").elim (commands = []) fun v =>
      Project.readCommands v = .sound commands := by
    cases inner with
    | nil =>
      rw [Table.withGroup, htop.lookup_commands]
      cases hinner
      rfl
    | cons e inner =>
      rw [Table.withGroup, Table.lookup_append, htop.lookup_commands, Option.none_or, Table.lookup_cons,
        if_pos rfl]
      · exact hinner
      · exact nofun
  have honly : Command.onlyKeys Project.keys (top.withGroup "commands" inner) = .sound () := by
    refine Command.onlyKeys_sound_iff.2 fun e he => ?_
    cases inner with
    | nil => rw [htop.only e he]; decide
    | cons e' inner =>
      rcases List.mem_append.1 he with he | he
      · rw [htop.only e he]
        decide
      · rw [List.mem_singleton.1 he]
        exact List.mem_cons_of_mem _ List.mem_cons_self
  have hread := Verdict.map_sound_iff (g := Project.mk).2
    ⟨_, Command.optional_sound_iff.2 (hexclude ▸ htop.given), rfl⟩
  have hread := Verdict.seq_sound_iff.2 ⟨_, _, hread, Command.optional_sound_iff.2 hcommands, rfl⟩
  exact Verdict.seqLeft_sound_iff.2 ⟨hread, _, honly⟩

def Declared.table (d : Declared) : Table :=
  (Toml.sectionTable? "commands" d.name (commandSection d).toList).getD []

theorem declares_of_mem {d : Declared} (hd : d ∈ commandsOf components) : ∃ k, Declares d d.table k := by
  obtain ⟨c, -, hc⟩ := mem_commandsOf hd
  obtain ⟨t, k, hk⟩ := Component.declares hc
  have htable : d.table = t := by rw [Declared.table, hk.readsAs, Option.getD_some]
  exact ⟨k, htable.symm ▸ hk⟩

/-- The text in front of the commands makes the excludes and leaves the commands to come. -/
theorem advances_excludes (components : List Component) :
    ∃ top d, Heads (excludesOf components) top ∧ Toml.Grouped "commands" top [] d ∧
      (∀ s ∈ excludeSection (excludesOf components), '\r' ∉ s.toList) ∧
      ∀ more, Toml.Advances {} (['\n'].intercalate
        ((excludeSection (excludesOf components)).map String.toList ++ more)) d (['\n'].intercalate more) := by
  have hsound := areSound_of_sublist _ (List.mem_sublists.2 (excludesOf_sublist components))
  generalize excludesOf components = es at hsound
  unfold areSound at hsound
  split at hsound
  · next hnone =>
    rw [hnone]
    have hempty : es = [] := of_decide_eq_true hsound
    exact ⟨[], {}, ⟨hempty, nofun⟩, ⟨rfl, rfl, nofun, rfl, fun _ => rfl⟩, nofun,
      fun more => Toml.Advances.refl _ _⟩
  · next s hone =>
    obtain ⟨hplain, hread⟩ := (Bool.and_eq_true ..).mp hsound
    obtain ⟨hlist, hreturn⟩ := toList_of_isPlain hplain
    rw [hone]
    have hread : excludesRead? s = some es := eq_of_beq hread
    unfold excludesRead? at hread
    split at hread
    · next v hss =>
      let d : Toml.Draft :=
        { root := [("exclude", v)], closed := if Toml.isCompound v then [["exclude"]] else [] }
      have hd : Toml.Draft.takeAll? {} [.assigns ["exclude"] v] = some d := rfl
      refine ⟨[("exclude", v)], d, ⟨Verdict.sound?_eq_some_iff.1 hread, ?_⟩, ⟨rfl, rfl, nofun, rfl, fun name => ?_⟩,
        ?_, fun more => ?_⟩
      · intro e he
        rw [List.mem_singleton.1 he]
      · dsimp only [d]
        split <;> rfl
      · intro s' hs'
        rwa [List.mem_singleton.1 hs']
      · rw [← hlist] at hss
        rw [List.map_singleton]
        rcases more with _ | ⟨next, more⟩
        · have hend := Toml.advances_of_statements hss hd []
          rw [List.append_nil] at hend
          rw [List.append_nil, List.intercalate_singleton]
          exact hend
        · rw [List.singleton_append, List.intercalate_cons_cons, List.append_assoc]
          exact (Toml.advances_of_statements hss hd _).trans (Toml.advances_blank d rfl)
    · cases hread
  · cases hsound

theorem not_mem_intercalate {c : Char} {between : List Char} {texts : List (List Char)} (hbetween : c ∉ between)
    (htexts : ∀ text ∈ texts, c ∉ text) : c ∉ between.intercalate texts := by
  induction texts with
  | nil => exact List.not_mem_nil
  | cons text texts ih =>
    obtain ⟨htext, hrest⟩ := List.forall_mem_cons.1 htexts
    cases texts with
    | nil => rwa [List.intercalate_singleton]
    | cons next texts =>
      rw [List.intercalate_cons_cons, List.mem_append, List.mem_append]
      exact not_or.2 ⟨not_or.2 ⟨htext, hbetween⟩, ih hrest⟩

theorem readDocument_render (components : List Component) : ∃ top, Heads (excludesOf components) top ∧
    Toml.readDocument (render components).toList = .ok (top.withGroup "commands"
      ((commandsOf components).map fun d => (d.name, .table d.table))) := by
  obtain ⟨top, d, htop, hgrouped, hexcludes, hadvances⟩ := advances_excludes components
  have hcommands : ∀ d ∈ commandsOf components,
      Toml.sectionTable? "commands" d.name (commandSection d).toList = some d.table := fun d hd => by
    obtain ⟨k, hk⟩ := declares_of_mem hd
    exact hk.readsAs
  obtain ⟨d', hd', hgrouped'⟩ := hgrouped.advances_sections hcommands
    (nodup_firstOfEach _) fun _ _ => rfl
  have hreturn : '\r' ∉ (render components).toList := by
    rw [toList_render]
    refine not_mem_intercalate (by decide) fun text htext => ?_
    rcases List.mem_append.1 htext with hexclude | hcommand
    · obtain ⟨s, hs, rfl⟩ := List.mem_map.1 hexclude
      exact hexcludes s hs
    · obtain ⟨d, hd, rfl⟩ := List.mem_map.1 hcommand
      obtain ⟨k, hk⟩ := declares_of_mem hd
      exact hk.noReturn
  refine ⟨top, htop, ?_⟩
  rw [List.nil_append] at hgrouped'
  rw [← hgrouped'.root]
  refine Toml.readDocument_of_advances hreturn ?_
  rw [toList_render]
  exact (hadvances _).trans hd'

/-- The project that a starter configuration is for. -/
structure Configures (components : List Component) (p : Project) : Prop where
  excludes : p.excludes = excludesOf components
  commands : List.Forall₂ (fun d e => e.1 = d.name ∧ Declares d d.table e.2) (commandsOf components) p.commands

theorem load_render {file : Path} {h : Host σ} {w : World σ}
    (hbytes : w.tree.bytesAt h.cwd file = .ok (render components).toUTF8) :
    ∃ p, (load file).go h w = (.ok p, w) ∧ Configures components p := by
  obtain ⟨top, htop, hdocument⟩ := readDocument_render components
  have haccepted : ∀ d ∈ commandsOf components,
      ∃ k, Command.read (.table d.table) = .sound k ∧ Declares d d.table k := fun d hd => by
    obtain ⟨k, hk⟩ := declares_of_mem hd
    exact ⟨k, hk.accepted, hk⟩
  obtain ⟨commands, hread, hall⟩ := Verdict.exists_eachKey Declared.name
    (fun d => Value.table d.table) haccepted
  refine ⟨⟨excludesOf components, commands⟩, ?_, rfl, hall⟩
  have htext : Text.decodeStrict (render components).toUTF8 = some (render components).toList := by
    rw [Text.decodeStrict_eq_some_iff, String.toUTF8, ← String.toByteArray_ofList, String.ofList_toList]
  rw [go_load, hbytes]
  simp only [ofBytes, htext, hdocument, read_withGroup htop hread]
  rfl

variable {p : Project}

theorem Configures.name_eq (hp : Configures components p) :
    p.commands.map Prod.fst = (commandsOf components).map Declared.name := by
  have hall := hp.commands
  generalize commandsOf components = ds, p.commands = es at hall
  induction hall with
  | nil => rfl
  | cons hde _ ih => rw [List.map_cons, List.map_cons, ih, hde.1]

theorem Configures.declared (hp : Configures components p) {e : String × Command} (he : e ∈ p.commands) :
    ∃ d ∈ commandsOf components, e.1 = d.name ∧ Declares d d.table e.2 := by
  have hall := hp.commands
  generalize commandsOf components = ds, p.commands = es at hall he
  induction hall with
  | nil => cases he
  | cons hde _ ih =>
    rcases List.mem_cons.1 he with rfl | he
    · exact ⟨_, List.mem_cons_self, hde⟩
    · obtain ⟨d, hd, hde⟩ := ih he
      exact ⟨d, List.mem_cons_of_mem _ hd, hde⟩

theorem exists_mapM {α β ε : Type} {f : α → Except ε β} {as : List α} (hf : ∀ a ∈ as, ∃ b, f a = .ok b) :
    ∃ bs, as.mapM f = .ok bs ∧ ∀ a ∈ as, ∃ b ∈ bs, f a = .ok b := by
  induction as with
  | nil => exact ⟨[], rfl, nofun⟩
  | cons a as ih =>
    obtain ⟨b, hb⟩ := hf a List.mem_cons_self
    obtain ⟨bs, hbs, hall⟩ := ih fun x hx => hf x (List.mem_cons_of_mem a hx)
    refine ⟨b :: bs, ?_, List.forall_mem_cons.2 ⟨⟨b, List.mem_cons_self, hb⟩, fun x hx => ?_⟩⟩
    · rw [List.mapM_cons, hb, hbs]
      rfl
    · obtain ⟨y, hy, hxy⟩ := hall x hx
      exact ⟨y, List.mem_cons_of_mem b hy, hxy⟩

/-- For each action all filters can be made, and every command that serves it has one. -/
theorem Configures.filters (hp : Configures components p) (root file : Path) (action : Action) :
    ∃ fs, Loaded.filters ⟨root, file, p⟩ { action } = .ok fs ∧
      ∀ e ∈ p.commands, e.2.kind.serves action = true → ∃ f ∈ fs, f.name = e.1 := by
  have hbuilds : ∀ e ∈ p.commands.filter (fun e => Loaded.Choice.picks { action } e.1 e.2),
      ∃ f, Loaded.buildFilter root e.1 e.2 = .ok f := fun e he => by
    obtain ⟨d, -, hname, hd⟩ := hp.declared (List.mem_filter.1 he).1
    rw [hname]
    exact hd.builds root
  obtain ⟨fs, hfs, hall⟩ := exists_mapM hbuilds
  refine ⟨fs, hfs, fun e he hserves => ?_⟩
  obtain ⟨d, -, hname, hd⟩ := hp.declared he
  have hpicked : Loaded.Choice.picks { action } e.1 e.2 = true := by
    show (true && e.2.hasLabel Filter.defaultLabel && e.2.kind.serves action) = true
    rw [hd.labelled, hserves]
    rfl
  obtain ⟨f, hf, hbuilt⟩ := hall e (List.mem_filter.2 ⟨he, hpicked⟩)
  exact ⟨f, hf, name_of_buildFilter hbuilt⟩

theorem serves_some (kind : Filter.Kind) : ∃ action, kind.serves action = true := by
  cases kind
  · exact ⟨.lint, rfl⟩
  · exact ⟨.tidy, rfl⟩
  · exact ⟨.lint, rfl⟩

/-- Written to a file, a starter configuration of any components is loaded. Its excludes are those of the
components in order, each once; its commands are theirs, each name once at its first place; and for both
actions all filters can be made, so that every command has one. -/
theorem render_loads {file : Path} {h : Host σ} {w : World σ}
    (hbytes : w.tree.bytesAt h.cwd file = .ok (render components).toUTF8) :
    ∃ p, (load file).go h w = (.ok p, w) ∧
      p.excludes.Pairwise (· < ·) ∧ (∀ e, e ∈ p.excludes ↔ ∃ c ∈ components, e ∈ c.excludes) ∧
      p.commands.map Prod.fst = ((components.flatMap Component.commands).map Declared.name).eraseDups ∧
      ∀ root, ∃ lint tidy, Loaded.filters ⟨root, file, p⟩ { action := .lint } = .ok lint ∧
        Loaded.filters ⟨root, file, p⟩ { action := .tidy } = .ok tidy ∧
        ∀ name ∈ p.commands.map Prod.fst, ∃ f ∈ lint ++ tidy, f.name = name := by
  obtain ⟨p, hload, hp⟩ := load_render hbytes
  refine ⟨p, hload, hp.excludes ▸ pairwise_excludesOf components, fun e => hp.excludes ▸ mem_excludesOf,
    hp.name_eq.trans (map_name_firstOfEach _), fun root => ?_⟩
  obtain ⟨lint, hlint, hlints⟩ := hp.filters root file .lint
  obtain ⟨tidy, htidy, htidies⟩ := hp.filters root file .tidy
  refine ⟨lint, tidy, hlint, htidy, fun name hname => ?_⟩
  obtain ⟨e, he, rfl⟩ := List.mem_map.1 hname
  obtain ⟨action, haction⟩ := serves_some e.2.kind
  cases action with
  | lint =>
    obtain ⟨f, hf, hname⟩ := hlints e he haction
    exact ⟨f, List.mem_append_left _ hf, hname⟩
  | tidy =>
    obtain ⟨f, hf, hname⟩ := htidies e he haction
    exact ⟨f, List.mem_append_right _ hf, hname⟩

/-- A component is named twice, after another one that excludes nothing. -/
def Sample.chosen : List Component := [.yaml, .perl, .go, .perl]

/-- Their configuration, and nothing else in the project. -/
def Sample.configured : World Script :=
  ⟨⟨[(["p"], .directory), (["p", "gemlint.toml"], .file (render Sample.chosen).toUTF8 false)]⟩,
    {}, [], {}, .warning⟩

/-- The commands come in the order of the components; the excludes are sorted. -/
theorem render_loads_perl_twice :
    Sample.configured.tree.bytesAt [] ⟨.root, ["p", "gemlint.toml"]⟩ = .ok (render Sample.chosen).toUTF8 ∧
    ∃ p, ((load ⟨.root, ["p", "gemlint.toml"]⟩).go (Script.host [] [] false false) Sample.configured).1 = .ok p ∧
      p.excludes.Pairwise (· < ·) ∧ "blib/**" ∈ p.excludes ∧
      p.commands.map Prod.fst = ["prettier-yaml", "perlimports", "perlcritic", "perltidy", "podchecker", "podtidy",
        "golangci-lint", "tidy go files", "check-go-mod"] := by
  have hbytes : Sample.configured.tree.bytesAt [] ⟨.root, ["p", "gemlint.toml"]⟩ =
      .ok (render Sample.chosen).toUTF8 := rfl
  obtain ⟨p, hload, hsorted, hexcludes, hcommands, -⟩ :=
    render_loads (h := Script.host [] [] false false) (w := Sample.configured) hbytes
  refine ⟨hbytes, p, congrArg Prod.fst hload, hsorted, (hexcludes _).2 ⟨.perl, by decide, by decide⟩, ?_⟩
  rw [hcommands]
  decide

end Starter

end LintRunner
