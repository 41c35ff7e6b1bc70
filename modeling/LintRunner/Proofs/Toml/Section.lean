import LintRunner.Proofs.Table
import LintRunner.Proofs.Toml.Statement
import Mathlib.Data.List.Basic

/-! Sections of a document. A header with a new name below a group opens a table at the end of the group,
and the assignments behind it fill that table and nothing else. So sections one after the other make the
tables one after the other. -/

namespace LintRunner.Table

variable {t u : Table} {key : String} {rest : List String} {f : Table → Option Table} {throughLists : Bool}

theorem replace_append_self (hkey : t.lookup key = none) (v w : Value) :
    (t ++ [(key, v)]).replace key w = t ++ [(key, w)] := by
  have hfront : t.replace key w = t := by
    rw [replace, List.map_congr_left fun e he => if_neg (lookup_eq_none_iff.1 hkey e he), List.map_id']
  rw [replace, List.map_append, ← replace, hfront, List.map_singleton, if_pos rfl]

theorem change?_fresh (hkey : t.lookup key = none) : t.change? throughLists f (key :: rest) =
    (Table.change? throughLists f rest []).map fun u => t ++ [(key, .table u)] := by
  rw [change?, hkey]

theorem change?_last (hkey : t.lookup key = none) :
    Table.change? throughLists f (key :: rest) (t ++ [(key, .table u)]) =
      (u.change? throughLists f rest).map fun u => t ++ [(key, .table u)] := by
  have hlast : (t ++ [(key, Value.table u)]).lookup key = some (.table u) := by
    rw [lookup_append, hkey, Option.none_or, lookup_cons, if_pos rfl]
  rw [change?, hlast]
  simp only [replace_append_self hkey]

/-- A table with a group of tables at its end; without any there is no group. -/
def withGroup (t : Table) (group : String) : Table → Table
  | [] => t
  | u => t ++ [(group, .table u)]

theorem change?_withGroup (hkey : t.lookup key = none) :
    Table.change? throughLists f (key :: rest) (t.withGroup key u) =
      (u.change? throughLists f rest).map fun u => t ++ [(key, .table u)] := by
  cases u with
  | nil => exact change?_fresh hkey
  | cons e u => exact change?_last hkey

end LintRunner.Table

namespace LintRunner.Toml

open Statement

variable {d d' : Draft} {group name key : String} {top inner t : Table} {v : Value}

/-- A draft of what stands before a group and of the tables of the group. Only tables of the group have
been opened, and no value that was written as a whole contains one. -/
structure Grouped (group : String) (top inner : Table) (d : Draft) : Prop where
  root : d.root = top.withGroup group inner
  apart : top.lookup group = none
  opened : ∀ keys ∈ d.opened, ∃ name, inner.has name = true ∧ keys = [group, name]
  pending : d.pending = []
  closed : ∀ name, leadsTo d.closed [group, name] = false

/-- The last of the tables is the one that is being filled. -/
structure Filling (group name : String) (top inner t : Table) (d : Draft) : Prop where
  grouped : Grouped group top (inner ++ [(name, .table t)]) d
  header : d.header = [group, name]
  fresh : inner.lookup name = none

theorem withGroup_append_singleton (e : String × Value) :
    top.withGroup group (inner ++ [e]) = top ++ [(group, .table (inner ++ [e]))] := by
  cases inner <;> rfl

theorem Grouped.opens (hd : Grouped group top inner d) (hfresh : inner.lookup name = none) :
    ∃ d', d.take? (opens [group, name]) = some d' ∧ Filling group name top inner [] d' := by
  have hno : ¬ inner.has name = true := by simp [Table.has, hfresh]
  have hnew : d.opened.contains [group, name] = false := by
    rw [Bool.eq_false_iff, ne_eq, List.contains_iff_mem]
    intro hmem
    obtain ⟨name', hhas, heq⟩ := hd.opened _ hmem
    cases heq
    exact hno hhas
  have hopened : d.settle.opened = d.opened := by
    rw [Draft.settle, hd.pending, List.nil_append]
  have hroot : d.root.change? true some [group, name] =
      some (top ++ [(group, .table (inner ++ [(name, .table [])]))]) := by
    rw [hd.root, Table.change?_withGroup hd.apart, Table.change?_fresh hfresh]
    rfl
  refine ⟨{ d.settle with
    root := top ++ [(group, .table (inner ++ [(name, .table [])]))]
    header := [group, name]
    opened := [group, name] :: d.settle.opened }, ?_, ⟨⟨?_, hd.apart, ?_, rfl, hd.closed⟩, rfl, hfresh⟩⟩
  · show Draft.openTable? d.settle [group, name] = _
    unfold Draft.openTable?
    rw [hopened, hnew, show d.settle.closed = d.closed from rfl, hd.closed name]
    show (d.root.change? true some [group, name] >>= _) = _
    rw [hroot]
    rfl
  · exact (withGroup_append_singleton _).symm
  · intro keys hkeys
    rw [hopened] at hkeys
    rcases List.mem_cons.1 hkeys with rfl | hmem
    · exact ⟨name, by simp [Table.has_iff], rfl⟩
    · obtain ⟨name', hhas, rfl⟩ := hd.opened keys hmem
      obtain ⟨e, he, hname⟩ := Table.has_iff.1 hhas
      exact ⟨name', Table.has_iff.2 ⟨e, List.mem_append_left _ he, hname⟩, rfl⟩

theorem Filling.assigns (hd : Filling group name top inner t d) (hkey : t.lookup key = none) (v : Value) :
    ∃ d', d.take? (assigns [key] v) = some d' ∧ Filling group name top inner (t ++ [(key, v)]) d' := by
  have hroot : d.root.change? true (Table.add? key v) [group, name] =
      some (top ++ [(group, .table (inner ++ [(name, .table (t ++ [(key, v)]))]))]) := by
    rw [hd.grouped.root, Table.change?_withGroup hd.grouped.apart, Table.change?_last hd.fresh, Table.change?,
      Table.add?, if_neg (by simp [Table.has, hkey])]
    rfl
  refine ⟨{ d with
    root := top ++ [(group, .table (inner ++ [(name, .table (t ++ [(key, v)]))]))]
    closed := if isCompound v then [group, name, key] :: d.closed else d.closed },
    ?_, ⟨⟨?_, hd.grouped.apart, ?_, hd.grouped.pending, fun name' => ?_⟩, hd.header, hd.fresh⟩⟩
  · show Draft.assign? d [key] v = _
    simp [Draft.assign?, Draft.between, hd.header, hd.grouped.closed name, hroot]
  · exact (withGroup_append_singleton _).symm
  · intro keys hkeys
    obtain ⟨name', hhas, rfl⟩ := hd.grouped.opened keys hkeys
    obtain ⟨e, he, hname⟩ := Table.has_iff.1 hhas
    refine ⟨name', Table.has_iff.2 ?_, rfl⟩
    rcases List.mem_append.1 he with he | he
    · exact ⟨e, List.mem_append_left _ he, hname⟩
    · obtain rfl := List.mem_singleton.1 he
      exact ⟨_, List.mem_append_right _ List.mem_cons_self, hname⟩
  · -- what is closed now lies inside a table of the group, so it bars none of them
    have hlong : leadsTo ([group, name, key] :: d.closed) [group, name'] = false := by
      have hrest : d.closed.any (·.isPrefixOf [group, name']) = false := hd.grouped.closed name'
      rw [leadsTo, List.any_cons, hrest]
      simp [List.isPrefixOf]
    dsimp only
    split
    · exact hlong
    · exact hd.grouped.closed name'

/-- The table that the assignments of a section make, each to a name alone. -/
def entries? : List Statement → Option Table
  | [] => some []
  | nothing :: ss => entries? ss
  | assigns [key] v :: ss => (entries? ss).bind fun t => if t.has key then none else some ((key, v) :: t)
  | _ => none

theorem Filling.takeAll {ss : List Statement} {u : Table} (hd : Filling group name top inner t d)
    (hu : entries? ss = some u) (hapart : ∀ e ∈ t, u.has e.1 = false) :
    ∃ d', d.takeAll? ss = some d' ∧ Filling group name top inner (t ++ u) d' := by
  fun_induction entries? ss generalizing t u d with
  | case1 =>
    cases hu
    exact ⟨d, rfl, (List.append_nil t).symm ▸ hd⟩
  | case2 ss ih => exact ih hd hu hapart
  | case3 key v ss ih =>
    obtain ⟨u', hu', hkeys⟩ := Option.bind_eq_some_iff.1 hu
    split at hkeys
    · cases hkeys
    · next hnew =>
      cases hkeys
      have hkey : t.lookup key = none := by
        refine Table.lookup_eq_none_iff.2 fun e he heq => ?_
        have hno := hapart e he
        rw [Table.has, Table.lookup_cons, if_pos heq] at hno
        cases hno
      have hapart' : ∀ e ∈ t ++ [(key, v)], u'.has e.1 = false := by
        intro e he
        rcases List.mem_append.1 he with he | he
        · have hno := hapart e he
          rw [Table.has, Table.lookup_cons] at hno
          split at hno
          · cases hno
          · exact hno
        · obtain rfl := List.mem_singleton.1 he
          exact Bool.eq_false_iff.2 hnew
      obtain ⟨d₁, hd₁, hfilling⟩ := hd.assigns hkey v
      obtain ⟨d', hd', hfilled⟩ := ih hfilling hu' hapart'
      rw [List.append_assoc, List.singleton_append] at hfilled
      refine ⟨d', ?_, hfilled⟩
      show (d.take? _ >>= fun d => d.takeAll? ss) = _
      rw [hd₁]
      exact hd'
  | case4 => cases hu

/-- The table of a section that has the header of a table in a group. -/
def sectionTable? (group name : String) (cs : List Char) : Option Table :=
  match statements? (cs.length + 1) cs with
  | some (opens keys :: ss) => if keys = [group, name] then entries? ss else none
  | _ => none

theorem Grouped.advances {cs : List Char} (hd : Grouped group top inner d) (hfresh : inner.lookup name = none)
    (ht : sectionTable? group name cs = some t) (more : List Char) :
    ∃ d', Advances d (cs ++ more) d' more ∧ Grouped group top (inner ++ [(name, .table t)]) d' := by
  unfold sectionTable? at ht
  split at ht
  · next keys ss hss =>
    split at ht
    · next hkeys =>
      subst hkeys
      obtain ⟨d₁, hd₁, hfilling⟩ := hd.opens hfresh
      obtain ⟨d', hd', hfilled⟩ := hfilling.takeAll ht nofun
      refine ⟨d', advances_of_statements hss ?_ more, hfilled.grouped⟩
      show (d.take? _ >>= fun d => d.takeAll? ss) = _
      rw [hd₁]
      exact hd'
    · cases ht
  · cases ht

/-- Sections with an empty line between them make their tables in order. -/
theorem Grouped.advances_sections {α : Type} {name : α → String} {text : α → List Char} {table : α → Table}
    {as : List α} (hd : Grouped group top inner d)
    (htables : ∀ a ∈ as, sectionTable? group (name a) (text a) = some (table a))
    (hnames : (as.map name).Nodup) (hfresh : ∀ a ∈ as, inner.lookup (name a) = none) :
    ∃ d', Advances d (['\n'].intercalate (as.map text)) d' [] ∧
      Grouped group top (inner ++ as.map fun a => (name a, .table (table a))) d' := by
  induction as generalizing inner d with
  | nil => exact ⟨d, Advances.refl d [], by rwa [List.map_nil, List.append_nil]⟩
  | cons a as ih =>
    obtain ⟨hname, hnames⟩ := List.nodup_cons.1 hnames
    have hadvances := hd.advances (hfresh a List.mem_cons_self) (htables a List.mem_cons_self)
    -- the last section has no empty line behind it
    rcases as with _ | ⟨b, as⟩
    · obtain ⟨d', hd', hgrouped⟩ := hadvances []
      rw [List.append_nil] at hd'
      exact ⟨d', by rwa [List.map_singleton, List.intercalate_singleton], hgrouped⟩
    · obtain ⟨d₁, hd₁, hgrouped₁⟩ := hadvances ('\n' :: ['\n'].intercalate ((b :: as).map text))
      have hfresh₁ : ∀ c ∈ b :: as,
          (inner ++ [(name a, Value.table (table a))]).lookup (name c) = none := by
        intro c hc
        have hne : name c ≠ name a := fun heq => hname (heq ▸ List.mem_map_of_mem hc)
        rw [Table.lookup_append, hfresh c (List.mem_cons_of_mem a hc), Option.none_or, Table.lookup_cons,
          if_neg hne, List.lookup_nil]
      obtain ⟨d', hd', hgrouped'⟩ := ih hgrouped₁ (fun c hc => htables c (List.mem_cons_of_mem a hc))
        hnames hfresh₁
      refine ⟨d', ?_, ?_⟩
      · rw [List.map_cons, List.map_cons, List.intercalate_cons_cons, List.append_assoc]
        exact hd₁.trans ((advances_blank d₁ rfl).trans hd')
      · rwa [List.append_assoc, List.singleton_append] at hgrouped'

end LintRunner.Toml
