/-
What becomes of the log of a parse.

Little happens to a log on the way: it keeps its tolerance, and its
records grow at the end (`DiagnosticLog.Extends`). A strict log stays as it
was. So if nothing is recorded at the end of a run, nothing was recorded
anywhere on the way.
-/
import ScriptTree.Proofs.Action

namespace ScriptTree

variable {s s' : ParseState}

-- =============================================================== logs

/-- What a log may become. -/
structure DiagnosticLog.Extends (log log' : DiagnosticLog) : Prop where
  tolerant : log'.tolerant = log.tolerant
  recorded : log.recorded <+: log'.recorded
  strict : log.tolerant = false → log' = log

namespace DiagnosticLog.Extends

theorem refl (log : DiagnosticLog) : log.Extends log :=
  ⟨rfl, List.prefix_rfl, fun _ => rfl⟩

theorem trans {log₁ log₂ log₃ : DiagnosticLog} (h : log₁.Extends log₂)
    (h' : log₂.Extends log₃) : log₁.Extends log₃ where
  tolerant := h'.tolerant.trans h.tolerant
  recorded := h.recorded.trans h'.recorded
  strict hs := by
    have h₂ := h.strict hs
    subst h₂
    exact h'.strict hs

/-- Only a tolerant log records. -/
theorem record {log : DiagnosticLog} (h : log.tolerant = true)
    (d : Diagnostic) : log.Extends (log.record d) where
  tolerant := rfl
  recorded := List.prefix_append _ _
  strict hs := by
    rw [h] at hs
    cases hs

theorem of_accept {log log' : DiagnosticLog} {t : Token}
    (h : log.accept t = .ok log') : log.Extends log' := by
  have h := Parse.accept_ok.1 h
  split at h
  case isTrue =>
    obtain ⟨ht, rfl⟩ := h
    exact record ht _
  case isFalse =>
    subst h
    exact refl _

/-- Where nothing is recorded in the end, nothing was before. -/
theorem recorded_nil {log log' : DiagnosticLog} (h : log.Extends log')
    (hr : log'.recorded = []) : log.recorded = [] := by
  have hp := h.recorded
  rw [hr] at hp
  exact List.prefix_nil.1 hp

end DiagnosticLog.Extends

namespace ParseState

theorem Step.log (h : s.Step s') : s.log.Extends s'.log := by
  cases h with
  | shift h =>
      obtain ⟨-, next, rest, log, -, hl, rfl⟩ := Parse.shift_ok.1 h
      exact .of_accept hl
  | tolerate h =>
      obtain ⟨ht, rfl⟩ := Parse.tolerate_ok.1 h
      exact .record ht _
  | close h =>
      obtain ⟨-, rfl⟩ := Parse.close_ok.1 h
      exact .refl _
  | standAt h =>
      cases h
      exact .refl _

theorem Reaches.log (h : s.Reaches s') : s.log.Extends s'.log := by
  induction h with
  | refl => exact .refl _
  | tail _ hstep ih => exact ih.trans hstep.log

end ParseState

end ScriptTree
