/-
Any arithmetic that is right in range answers the same requests alike.

A reader adds to a scan what it records, which is said of the start of the
token. Whatever a session is asked for, its cursors stay sound
(`Session.Sound.answer`), so each answer is the same.
-/
import ScriptTree.Proofs.Arithmetic.Token
import ScriptTree.Token.Peek

namespace ScriptTree

variable (m : Machine) {text : List Char}

-- =========================================================== readers

theorem DiagnosticLog.accept_agrees {t : Token} (log : DiagnosticLog)
    (h : t.span.start.Sound text) :
    @DiagnosticLog.accept m.arithmetic log t = log.accept t := by
  unfold DiagnosticLog.accept
  rw [h.diagnose_agrees m]

namespace TokenReader

variable {r : TokenReader}

theorem skipTrivia_agrees (h : r.cursor.Sound text) :
    @skipTrivia m.arithmetic r = r.skipTrivia := by
  unfold skipTrivia
  rw [h.skipTrivia_agrees m]

theorem token_agrees [NameProperties] (h : r.cursor.Sound text) :
    @token _ m.arithmetic r = r.token := by
  unfold token
  rw [h.token_agrees m]
  split
  case h_1 => rfl
  case h_2 t stop htoken =>
    obtain ⟨-, ht, -⟩ := h.token htoken
    rw [DiagnosticLog.accept_agrees m _ ht.start]

/-- Looking ahead, a reader sees the same. -/
theorem peek_agrees [NameProperties] (h : r.cursor.Sound text) :
    @peek _ m.arithmetic r = r.peek := by
  have hahead : r.skipTrivia.2.cursor.Sound text :=
    h.walks (Cursor.walks_skipTrivia _)
  unfold peek next
  rw [skipTrivia_agrees m h, token_agrees m hahead]

end TokenReader

-- ========================================================== sessions

namespace Session.Sound

variable {s : Session}

/-- Each request is answered alike. -/
theorem answer_agrees [NameProperties] (h : s.Sound text) (request : Request) :
    @Session.answer _ m.arithmetic s request = s.answer request := by
  cases request with
  | token =>
      unfold Session.answer
      simp only [TokenReader.token_agrees m h.cursor]
  | trivia =>
      unfold Session.answer
      simp only [TokenReader.skipTrivia_agrees m h.cursor]
  | keep => rfl
  | goBack slot => rfl

/-- All requests are answered alike. -/
theorem answers_agree [NameProperties]
    (h : s.Sound text) (requests : List Request) :
    @Session.answers _ m.arithmetic s requests = s.answers requests := by
  induction requests generalizing s with
  | nil => rfl
  | cons request requests ih =>
      unfold Session.answers
      simp only [h.answer_agrees m, ih (h.answer request).2]

end Session.Sound

end ScriptTree
