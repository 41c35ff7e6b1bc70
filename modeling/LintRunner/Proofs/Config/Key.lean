import LintRunner.Proofs.Filter.Invocation
import LintRunner.Proofs.Pass.Attempts
import LintRunner.Proofs.Toml.Key

/-! The key under which a filter is shown. Different names never share one. Read as a key of the
configuration it leads back to the command only where quotes are put around a name that needs them, which
is asked of blanks alone. -/

namespace LintRunner.Config

variable {top top' : Path} {name name' : String} {c c' : Command} {f g : Filter}

theorem name_of_buildFilter (hf : Loaded.buildFilter top name c = .ok f) : f.name = name := by
  obtain ⟨params, hparams, hf⟩ := Run.of_bind_ok hf
  obtain ⟨i, -, hi⟩ := Run.of_bind_ok (Run.of_mapError_ok hparams)
  cases hi
  rw [Filter.name, (Filter.of_build hf).1]

/-- The name as it is shown, with or without quotes, is read as the name again. -/
def IsLegible (name : String) : Prop :=
  if ' ' ∈ name.toList then name.toList.all Toml.isVerbatim = true
  else name ≠ "" ∧ name.toList.all Toml.isBare = true

instance : DecidablePred IsLegible := fun _ => inferInstanceAs (Decidable (ite _ _ _))

/-- The name as it is shown. -/
def shownName (name : String) : String :=
  if name.toList.contains ' ' then "\"" ++ name ++ "\"" else name

theorem configKey_eq (f : Filter) : f.configKey = "commands" ++ "." ++ shownName f.name := rfl

theorem toList_quoted (name : String) :
    ("\"" ++ name ++ "\"").toList = '"' :: (name.toList ++ ['"']) := by simp

theorem shownName_inj : shownName name = shownName name' ↔ name = name' := by
  refine ⟨fun heq => ?_, congrArg shownName⟩
  have hquoted {a b : String} (ha : ' ' ∈ a.toList) (hab : "\"" ++ a ++ "\"" = b) : ' ' ∈ b.toList := by
    rw [← hab, toList_quoted]
    simp [ha]
  simp only [shownName, List.contains_iff_mem] at heq
  split at heq
  · next hn =>
    split at heq
    · have htexts := congrArg String.toList heq
      rw [toList_quoted, toList_quoted] at htexts
      exact String.toList_inj.1 (by simpa using htexts)
    · next hn' => exact absurd (hquoted hn heq) hn'
  · next hn =>
    split at heq
    · next hn' => exact absurd (hquoted hn' heq.symm) hn
    · exact heq

theorem readName_shownName_iff : (∃ rest, Toml.readName (Toml.skipBlanks (shownName name).toList) =
    some (name.toList, rest) ∧ Toml.skipBlanks rest = []) ↔ IsLegible name := by
  unfold shownName IsLegible
  simp only [List.contains_iff_mem, List.all_eq_true]
  split
  · rw [toList_quoted]
    change (∃ rest, Toml.readBasic false .plain (name.toList ++ ['"']) = some (name.toList, rest) ∧
      Toml.skipBlanks rest = []) ↔ _
    simp only [Toml.readBasic_quoted_iff]
    exact ⟨fun ⟨_, ⟨_, hall⟩, _⟩ => hall, fun hall => ⟨[], ⟨rfl, hall⟩, rfl⟩⟩
  · simp only [Toml.readName_skipBlanks_iff, ne_eq, String.toList_eq_nil_iff]
    exact ⟨fun ⟨_, ⟨_, hname⟩, _⟩ => hname, fun hname => ⟨[], ⟨rfl, hname⟩, rfl⟩⟩

/-- The key tells the commands of a configuration apart, and it can be read as a key just where the name
in it is legible. -/
theorem configKey_readsBack (hf : Loaded.buildFilter top name c = .ok f)
    (hg : Loaded.buildFilter top' name' c' = .ok g) :
    (Toml.keyNames? f.configKey = some ["commands", name] ↔ IsLegible name) ∧
      (f.configKey = g.configKey ↔ name = name') := by
  rw [configKey_eq, configKey_eq, name_of_buildFilter hf, name_of_buildFilter hg]
  constructor
  · rw [Toml.keyNames?_dotted (by decide) (List.all_eq_true.1 rfl), Toml.readNames_single_iff]
    exact readName_shownName_iff
  · rw [String.append_right_inj]
    exact shownName_inj

open LintRunner.Sample in
theorem configKey_readsBack_dotted : ∃ f g,
    Loaded.buildFilter root "my.own tool" (command .lint "tool" []) = .ok f ∧
    Loaded.buildFilter root "my.tool" (command .lint "tool" []) = .ok g ∧
    Toml.keyNames? f.configKey = some ["commands", "my.own tool"] ∧
    Toml.keyNames? g.configKey ≠ some ["commands", "my.tool"] ∧ f.configKey ≠ g.configKey := by
  have hbuilt : ∀ name ∈ ["my.own tool", "my.tool"],
      (Loaded.buildFilter root name (command .lint "tool" [])).toOption.any (fun _ => true) = true := by
    decide +kernel
  obtain ⟨f, hf, -⟩ := Run.of_any_toOption (hbuilt "my.own tool" (by simp))
  obtain ⟨g, hg, -⟩ := Run.of_any_toOption (hbuilt "my.tool" (by simp))
  obtain ⟨hown, hkeys⟩ := configKey_readsBack hf hg
  refine ⟨f, g, hf, hg, hown.2 (by decide), fun hread => ?_, fun heq => ?_⟩
  · exact absurd ((configKey_readsBack hg hf).1.1 hread) (by decide)
  · exact absurd (hkeys.1 heq) (by decide)

open LintRunner.Sample in
/-- A dot in the name divides the key that is shown. -/
theorem not_configKey_readsBack : ¬ ∀ (name : String) (c : Command) (f : Filter),
    Loaded.buildFilter root name c = .ok f → Toml.keyNames? f.configKey = some ["commands", name] := by
  intro hall
  have hbuilt : (Loaded.buildFilter root "a.b" (command .lint "tool" [])).toOption.any
      (fun f => Toml.keyNames? f.configKey == some ["commands", "a", "b"]) = true := by decide +kernel
  obtain ⟨f, hf, hkey⟩ := Run.of_any_toOption hbuilt
  have hread := hall "a.b" (command .lint "tool" []) f hf
  rw [beq_iff_eq.1 hkey] at hread
  simp at hread

end LintRunner.Config
