import LintRunner.Config.Loaded
import LintRunner.Proofs.Run.Basic
import LintRunner.Proofs.Text.Utf8
import LintRunner.Proofs.Toml.Rest
import LintRunner.Script

/-! Loading a configuration, stage by stage: reading the file, taking its bytes for a text, the text
for a document, and the document for a project. Whatever goes wrong in the file system, in the form of
the document or in what it says is reported as a problem of the file. A text that is none and a number
that is too long are not. -/

namespace LintRunner.Config

open Run

variable {σ : Type} {h : Host σ} {w : World σ} {file : Path} {bytes : ByteArray}

/-- What loading ends with, by what there is to read and the stage that decides. -/
inductive Comes (file : Path) : Except Refusal ByteArray → Except Failure Project → Prop
  | unreadable (e : Errno) :
    Comes file (.error (.errno e)) (.error (.config (.file file (.os ⟨e, file.text⟩))))
  | nulInPath (hnul : FileTree.hasNul file = true) :
    Comes file (.error .nul) (.error (.crash .nulInPath))
  | notUtf8 {bytes : ByteArray} (hbytes : ¬ bytes.IsValidUTF8) :
    Comes file (.ok bytes) (.error (.crash .notUtf8))
  | malformed {cs : List Char} (hcs : Toml.readDocument cs = .error .malformed) :
    Comes file (.ok cs.utf8Encode) (.error (.config (.file file .syntaxFault)))
  | tooLong {cs : List Char} (hcs : Toml.readDocument cs = .error .integerTooLong)
      (hlong : Toml.LongNumber cs) : Comes file (.ok cs.utf8Encode) (.error (.crash .integerTooLong))
  | invalid {cs : List Char} {t : Table} {found : List Located} (hcs : Toml.readDocument cs = .ok t)
      (ht : Project.read (.table t) = .faulty found) :
    Comes file (.ok cs.utf8Encode) (.error (.config (.file file (.invalid found))))
  | sound {cs : List Char} {t : Table} {p : Project} (hcs : Toml.readDocument cs = .ok t)
      (ht : Project.read (.table t) = .sound p) : Comes file (.ok cs.utf8Encode) (.ok p)

theorem comes_ofBytes (file : Path) (bytes : ByteArray) : Comes file (.ok bytes) (ofBytes file bytes) := by
  unfold ofBytes
  split
  · next cs hcs =>
    rw [Text.decodeStrict_eq_some_iff.1 hcs]
    split
    · next hread => exact .malformed hread
    · next hread => exact .tooLong hread (Toml.tooLong_of_readDocument hread)
    · next t hread =>
      split
      · next p hp => exact .sound hread hp
      · next found hfound => exact .invalid hread hfound
  · next hcs => exact .notUtf8 (Text.decodeStrict_eq_none_iff.1 (Option.eq_none_iff_forall_ne_some.2 hcs))

theorem hasNul_of_bytesAt {t : FileTree} {here : Location} (hnul : t.bytesAt here file = .error .nul) :
    FileTree.hasNul file = true := by
  by_contra hno
  rcases of_bind_error hnul with hstatus | ⟨⟨l, e⟩, -, hentry⟩
  · rcases of_bind_error hstatus with hlocate | ⟨spot, -, hspot⟩
    · rw [FileTree.locate, if_neg hno] at hlocate
      cases hlocate
    · split at hspot
      · split at hspot <;> cases hspot
      · cases hspot
      · cases hspot
  · cases e <;> cases hentry

theorem go_load (file : Path) (h : Host σ) (w : World σ) :
    (load file).go h w = (match w.tree.bytesAt h.cwd file with
      | .ok bytes => ofBytes file bytes
      | .error (.errno e) => .error (.config (.file file (.os ⟨e, file.text⟩)))
      | .error .nul => .error (.crash .nulInPath), w) := by
  have hask : (attempt (bytesAt file)).go h w =
      (.ok ((w.tree.bytesAt h.cwd file).mapError (Failure.ofRefusal file)), w) := by
    rw [go_attempt, bytesAt, askTree, go_bind_ok (go_tree h w), go_bind_ok (go_here h w), go_ofExcept]
  unfold load
  rw [go_bind_ok hask]
  rcases w.tree.bytesAt h.cwd file with (e | _) | bytes
  · rfl
  · rfl
  · simp only [mapError_ok]
    rw [go_ofExcept]
    cases ofBytes file bytes <;> rfl

theorem comes_load (file : Path) (h : Host σ) (w : World σ) :
    Comes file (w.tree.bytesAt h.cwd file) ((load file).go h w).1 := by
  rw [go_load]
  rcases hbytes : w.tree.bytesAt h.cwd file with (e | _) | bytes
  · exact .unreadable e
  · exact .nulInPath (hasNul_of_bytesAt hbytes)
  · exact comes_ofBytes file bytes

/-- Loading gives a project or a problem of the file and changes nothing, but for three things: a path
that holds a NUL character, bytes that are no text, and a text with a number that is too long. -/
theorem load_project_or_problem (file : Path) (h : Host σ) (w : World σ) :
    ∃ out, (load file).go h w = (out, w) ∧ Comes file (w.tree.bytesAt h.cwd file) out ∧
      ((∃ p, out = .ok p) ∨ (∃ problem, out = .error (.config (.file file problem))) ∨
        (FileTree.hasNul file = true ∧ out = .error (.crash .nulInPath)) ∨
        (∃ bytes, w.tree.bytesAt h.cwd file = .ok bytes ∧ ¬ bytes.IsValidUTF8 ∧
          out = .error (.crash .notUtf8)) ∨
        ∃ cs, w.tree.bytesAt h.cwd file = .ok (List.utf8Encode cs) ∧ Toml.LongNumber cs ∧
          out = .error (.crash .integerTooLong)) := by
  obtain ⟨out, hout⟩ : ∃ out, (load file).go h w = (out, w) := ⟨_, go_load file h w⟩
  have hcomes := comes_load file h w
  rw [hout] at hcomes
  refine ⟨out, hout, hcomes, ?_⟩
  generalize w.tree.bytesAt h.cwd file = there at hcomes
  cases hcomes with
  | unreadable e => exact .inr (.inl ⟨_, rfl⟩)
  | nulInPath hnul => exact .inr (.inr (.inl ⟨hnul, rfl⟩))
  | notUtf8 hbytes => exact .inr (.inr (.inr (.inl ⟨_, rfl, hbytes, rfl⟩)))
  | malformed hcs => exact .inr (.inl ⟨_, rfl⟩)
  | tooLong hcs hlong => exact .inr (.inr (.inr (.inr ⟨_, rfl, hlong, rfl⟩)))
  | invalid hcs ht => exact .inr (.inl ⟨_, rfl⟩)
  | sound hcs ht => exact .inl ⟨_, rfl⟩

/-- A configuration of one byte, which no text has. -/
def Sample.unreadable : World Script :=
  ⟨⟨[(["p"], .directory), (["p", "gemlint.toml"], .file ⟨#[0xff]⟩ false)]⟩, {}, [], {}, .warning⟩

/-- Not all that is wrong with a file is reported as a problem of it. -/
theorem not_load_project_or_problem : ¬ ∀ (file : Path) (h : Host Script) (w : World Script),
    FileTree.hasNul file = false → (∃ p, ((load file).go h w).1 = .ok p) ∨
      ∃ problem, ((load file).go h w).1 = .error (.config (.file file problem)) := by
  intro hall
  let file : Path := ⟨.root, ["p", "gemlint.toml"]⟩
  have hbytes : Sample.unreadable.tree.bytesAt [] file = .ok ⟨#[0xff]⟩ := by decide +kernel
  have hnone : Text.decodeStrict ⟨#[0xff]⟩ = none := by decide +kernel
  have hends : ((load file).go (Script.host [] [] false false) Sample.unreadable).1 =
      .error (.crash .notUtf8) := by
    rw [go_load, show (Script.host [] [] false false).cwd = [] from rfl, hbytes]
    simp only [ofBytes, hnone]
    rfl
  rcases hall file (Script.host [] [] false false) Sample.unreadable (by decide) with
    ⟨p, hp⟩ | ⟨problem, hproblem⟩
  · cases hends.symm.trans hp
  · cases hends.symm.trans hproblem

end LintRunner.Config
