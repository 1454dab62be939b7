/-
Any arithmetic that is right in range passes over the same text.

# In range

A sound cursor stands between two characters, on a line that starts
before it. What a step computes from there is in range: it cuts out text
between such places, and takes the start of a line or the bytes of a mark
just read from an offset. So an exact arithmetic gives what the plain one
gives (`Cursor.Sound.rest_agrees`, `Cursor.Sound.textTo_agrees`,
`Position.Sound.diagnose_agrees`), and the step ends at a sound cursor
again. Everything that is read is made of such steps.
-/
import ScriptTree.Proofs.Sound

namespace ScriptTree

variable (m : Machine) {text : List Char} {c d : Cursor} {ch : Char}
  {rest : List Char}

-- ============================================================ places

/-- A column is counted alike, as lines start before what is in them. -/
theorem Position.column_agrees {p : Position} (h : p.lineStart ≤ p.offset) : @Position.column m.arithmetic p = p.column :=
  m.exact.minus h

/-- A report at a sound place has its column. -/
theorem Position.Sound.diagnose_agrees {p : Position} (h : p.Sound text) (cause : Cause) :
    @Position.diagnose m.arithmetic p cause = p.diagnose cause := by
  unfold Position.diagnose
  rw [Position.column_agrees m h.lineStart_le]

/-- A failure is told about alike. -/
theorem Scan.fail_agrees {α : Type} (h : c.Sound text)
    (cause : Cause) :
    (@Scan.fail m.arithmetic α cause) c = Scan.fail cause c := by
  unfold Scan.fail
  rw [h.position.diagnose_agrees m]

-- =========================================================== cursors

namespace Cursor.Sound

/-- By the bytes of the next character a sound cursor moves to a sound
one. -/
theorem move (h : c.Sound text) (hc : c.rest = ch :: rest) :
    (c.move ch.utf8Size).Sound text := by
  rw [← advance_eq hc]
  exact h.advance

/-- A move over a character of one byte is sound. -/
theorem move_one (h : c.Sound text) (hc : c.rest = ch :: rest)
    (hch : ch.utf8Size = 1) : (c.move 1).Sound text :=
  hch ▸ h.move hc

/-- What is passed over leaves a sound cursor. -/
theorem walks {mayBreak : Bool} (h : c.Sound text)
    (hw : c.Walks mayBreak d) : d.Sound text := h.strays hw.strays

section Agrees

theorem rest_agrees (h : c.Sound text) : @Cursor.rest m.arithmetic c = c.rest :=
  m.exact.textFrom h.inStep

theorem peek_agrees (h : c.Sound text) : @peek m.arithmetic c = c.peek := by
  unfold peek
  rw [h.rest_agrees m]

theorem peekNext_agrees (h : c.Sound text) :
    @peekNext m.arithmetic c = c.peekNext := by
  unfold peekNext
  rw [h.rest_agrees m]

/-- The text between two cursors is cut out of the whole. -/
theorem textTo_agrees {word : List Char} {lines : Nat} (h : c.Sound text)
    (hr : c.Reads word lines d) : @textTo m.arithmetic c d = c.textTo d := by
  obtain ⟨before, hsource, hoffset⟩ := textFrom?_eq_some.1 h.inStep
  have hcut : textWithin? c.position.offset d.position.offset c.source
      = some word := by
    refine textWithin?_eq_some.2 ⟨before, d.rest, ?_, hoffset, hr.offset⟩
    rw [List.append_assoc, ← hr.rest]
    exact hsource
  unfold textTo
  rw [m.exact.textWithin hcut, Arithmetic.exact_plain.textWithin hcut]

/-- A run of characters is skipped alike, as their widths are their sizes.
-/
theorem skipRunWithin_agrees {p : Char → Bool} {width : Char → Nat}
    (hwidth : ∀ ch, p ch = true → width ch = ch.utf8Size) (steps : Nat)
    (h : c.Sound text) :
    @skipRunWithin m.arithmetic p width steps c = c.skipRunWithin p width steps := by
  induction steps generalizing c with
  | zero => rfl
  | succ steps ih =>
      unfold skipRunWithin
      rw [h.peek_agrees m]
      split
      case h_2 => rfl
      case h_1 ch hpeek =>
        obtain ⟨rest, hc⟩ := peek_eq_some.1 hpeek
        split
        case isFalse => rfl
        case isTrue hp =>
          rw [hwidth ch hp]
          exact ih (h.move hc)

theorem skipRun_agrees {p : Char → Bool} {width : Char → Nat}
    (hwidth : ∀ ch, p ch = true → width ch = ch.utf8Size)
    (h : c.Sound text) :
    @skipRun m.arithmetic p width c = c.skipRun p width := by
  unfold skipRun
  rw [h.rest_agrees m]
  exact h.skipRunWithin_agrees m hwidth _

theorem pastLineEnd_agrees (h : c.Sound text) (hc : c.rest = ch :: rest) :
    @pastLineEnd m.arithmetic c ch = c.pastLineEnd ch := by
  unfold pastLineEnd
  simp only [(h.move hc).peek_agrees m]

theorem lineBreak?_agrees (h : c.Sound text) :
    @lineBreak? m.arithmetic c = c.lineBreak? := by
  unfold lineBreak?
  rw [h.peek_agrees m]
  split
  case h_2 => rfl
  case h_1 ch hpeek =>
    obtain ⟨rest, hc⟩ := peek_eq_some.1 hpeek
    rw [h.pastLineEnd_agrees m hc]

-- ------------------------------------------------------------ trivia

/-- A comment is read alike from its mark on. -/
theorem lineComment_agrees {mark : Nat} (h : c.Sound text)
    (hmark : mark ≤ c.position.offset) :
    @lineComment m.arithmetic c mark = c.lineComment mark := by
  have hwidth (ch : Char) (_ : (!isLineTerminator ch) = true) :
      Char.utf8Size ch = ch.utf8Size := rfl
  obtain ⟨stop, hrun⟩ : ∃ stop,
      c.skipRun (fun ch => !isLineTerminator ch) Char.utf8Size = stop :=
    ⟨_, rfl⟩
  have hstop : stop = c.skipWhile inLine :=
    hrun.symm.trans (skipRun_eq hwidth c)
  have hread := reads_skipWhile inLine c
  rw [← hstop] at hread
  have hsound : stop.Sound text := by
    have hwalk : c.Walks true (c.skipWhile inLine) :=
      walks_skipWhile (fun hch => by simpa [inLine] using hch) c
    rw [hstop]
    exact h.walks hwalk
  have hminus : m.arithmetic.minus c.position.offset mark
      = Arithmetic.plain.minus c.position.offset mark := m.exact.minus hmark
  unfold lineComment
  simp only [h.skipRun_agrees m hwidth, hrun, hminus,
    h.textTo_agrees m hread, hsound.peek_agrees m]
  cases hpeek : stop.peek with
  | none => rfl
  | some ch =>
      obtain ⟨rest, hrest⟩ := peek_eq_some.1 hpeek
      simp only [hsound.pastLineEnd_agrees m hrest]

theorem comment?_agrees (h : c.Sound text) :
    @comment? m.arithmetic c = c.comment? := by
  unfold comment?
  rw [h.peek_agrees m, h.peekNext_agrees m]
  split
  case isFalse => rfl
  case isTrue hslashes =>
    obtain ⟨rest, hc⟩ := slashes_iff.1 hslashes
    have hpair : c.rest = ['/', '/'] ++ rest := hc
    have hmove := reads_move hpair
    have hsound : (c.move 2).Sound text := h.of_reads hmove (.inl rfl)
    have hle : 2 ≤ (c.move 2).position.offset := Nat.le_add_left _ _
    rw [hsound.lineComment_agrees m hle]

/-- Trivia are skipped alike, to the end of the text. -/
theorem skipTriviaWithin_agrees (steps : Nat) (h : c.Sound text) :
    @Cursor.skipTriviaWithin m.arithmetic steps c = c.skipTriviaWithin steps := by
  induction steps generalizing c with
  | zero => rfl
  | succ steps ih =>
      unfold Cursor.skipTriviaWithin
      rw [h.peek_agrees m, h.lineBreak?_agrees m, h.comment?_agrees m]
      split
      case h_1 => rfl
      case h_2 ch hpeek =>
        obtain ⟨rest, hc⟩ := peek_eq_some.1 hpeek
        split
        case isTrue => exact ih (h.move hc)
        case isFalse =>
          split
          case h_1 next hbreak => exact ih (h.lineBreak hbreak)
          case h_2 =>
            split
            case h_2 => rfl
            case h_1 comment next hcomment =>
              rw [ih (h.walks (walks_comment hcomment))]

/-- The same comments are passed over. -/
theorem skipTrivia_agrees (h : c.Sound text) :
    @skipTrivia m.arithmetic c = c.skipTrivia := by
  unfold skipTrivia
  rw [h.rest_agrees m]
  exact h.skipTriviaWithin_agrees m _

end Agrees

end Cursor.Sound

end ScriptTree
