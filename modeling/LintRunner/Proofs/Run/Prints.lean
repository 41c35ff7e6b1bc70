import LintRunner.Pass
import LintRunner.Proofs.Run.Matches

/-! Runs that do no more than print. `Prints h v lines act`: wherever `act` is begun it ends with `v`, leaves
the tree as it is and prints these lines. What is reported of a target depends on nothing but the result. -/

namespace LintRunner

variable {σ α β : Type} {h : Host σ} {v : α} {v' : β} {lines lines' : List String}

open World

namespace Run

def Prints (h : Host σ) (v : α) (lines : List String) (act : Run σ α) : Prop :=
  ∀ w, ∃ w', act.go h w = (.ok v, w') ∧ w'.tree = w.tree ∧ w'.printed = w.printed ++ lines

theorem prints_pure (v : α) : Prints h v [] (pure v) := fun w => ⟨w, rfl, rfl, (List.append_nil _).symm⟩

theorem Prints.bind {x : Run σ α} {f : α → Run σ β} (hx : Prints h v lines x)
    (hf : Prints h v' lines' (f v)) : Prints h v' (lines ++ lines') (x >>= f) := by
  intro w
  obtain ⟨w₁, hgo, htree, hprinted⟩ := hx w
  obtain ⟨w₂, hgo', htree', hprinted'⟩ := hf w₁
  exact ⟨w₂, (go_bind_ok hgo f).trans hgo', htree'.trans htree,
    by rw [hprinted', hprinted, List.append_assoc]⟩

theorem prints_host : Prints h h [] host := fun w => ⟨w, rfl, rfl, (List.append_nil _).symm⟩

theorem prints_print (text : String) : Prints h () [text] (print text) :=
  fun w => ⟨_, rfl, rfl, printed_record w (.printed text)⟩

theorem prints_info (message : String) : Prints h () [] (info message) := by
  intro w
  obtain ⟨w', hgo, hsilent, -⟩ := go_log .info message h w
  exact ⟨w', hgo, hsilent.tree, by rw [hsilent.printed, List.append_nil]⟩

/-- What time it is makes no difference to what is printed. -/
theorem Prints.now {f : Rat → Run σ α} (hf : ∀ t, Prints h v lines (f t)) :
    Prints h v lines (now >>= f) := by
  intro w
  obtain ⟨w', hgo, htree, hprinted⟩ := hf (h.clock w.mind).1 { w with mind := (h.clock w.mind).2 }
  exact ⟨w', (go_bind_ok rfl f).trans hgo, htree, hprinted⟩

theorem Prints.forM {f : α → Run σ PUnit} (hf : ∀ a, ∃ lines, Prints h ⟨⟩ lines (f a)) (as : List α) :
    ∃ lines, Prints h ⟨⟩ lines (as.forM f) := by
  induction as with
  | nil => exact ⟨[], prints_pure _⟩
  | cons a as ih =>
    obtain ⟨lines, hlines⟩ := hf a
    obtain ⟨more, hmore⟩ := ih
    exact ⟨lines ++ more, hlines.bind hmore⟩

end Run

open Run

theorem Terminal.prints_printLine (colored : Option Bool) (paint : Option Paint) (text : String) :
    ∃ lines, Prints h () lines (printLine colored paint text) := by
  have hterminal : Prints h h.terminal [] (isTerminal : Run σ Bool) := prints_host.bind (prints_pure _)
  have hcolors : Prints h _ [] (knowsColors : Run σ Bool) := prints_host.bind (prints_pure _)
  have hpaint : Prints h _ [] (shownPaint (colored.getD h.terminal) paint : Run σ _) :=
    hcolors.bind (prints_pure _)
  exact ⟨_, hterminal.bind (hpaint.bind (prints_print _))⟩

namespace Reporter

variable (r : Reporter)

theorem prints_insist (paint : Option Terminal.Paint) (text : String) :
    ∃ lines, Prints h () lines (r.insist paint text) := Terminal.prints_printLine _ _ _

theorem prints_say (paint : Option Terminal.Paint) (text : String) :
    ∃ lines, Prints h () lines (r.say paint text) := by
  unfold say
  split
  · exact ⟨[], prints_pure _⟩
  · exact r.prints_insist paint text

theorem prints_echo (out : Option String) : ∃ lines, Prints h () lines (r.echo out) := by
  unfold echo
  split
  · exact ⟨[], prints_pure _⟩
  · exact ⟨[], prints_pure _⟩
  · exact r.prints_insist _ _

theorem prints_lintFailed (name summary : String) (paths : List Path) (out err : Option String) :
    ∃ lines, Prints h () lines (r.lintFailed name summary paths out err) := by
  obtain ⟨heading, hheading⟩ := r.prints_insist (h := h) (some .red)
    (r.glyphs.dirty ++ " Failed " ++ name ++ ": " ++ summary)
  obtain ⟨stdout, hstdout⟩ := r.prints_echo (h := h) out
  obtain ⟨stderr, hstderr⟩ := r.prints_echo (h := h) err
  have hremark : ∃ lines, Prints h () lines
      (if r.annotates then r.insist none (remark name paths) else pure ()) := by
    split
    · exact r.prints_insist _ _
    · exact ⟨[], prints_pure _⟩
  obtain ⟨lines, hlines⟩ := hremark
  exact ⟨_, hheading.bind (hstdout.bind (hstderr.bind hlines))⟩

end Reporter

theorem Pass.prints_report (r : Reporter) (f : Filter) (scope : Filter.Scope) (t : Target)
    (result : Result) : ∃ lines, Prints h () lines (report r f scope t result) := by
  unfold report
  split
  · exact r.prints_insist _ _
  · split
    · exact r.prints_say _ _
    · exact r.prints_lintFailed _ _ _ _ _
  · exact r.prints_say _ _
  · exact r.prints_say _ _
  · exact r.prints_say _ _

end LintRunner
