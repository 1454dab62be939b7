/-
Scripts of one statement.

The parse of such a script is the run of the statement from the first
token to the end of the text (`item_of_parse`, `parse_of_item`). If the
first statement of a text is refused, then so is the text
(`parse_of_refused`).
-/
import ScriptTree.Proofs.Underway
import ScriptTree.Proofs.Written.Script

namespace ScriptTree

namespace Parse

variable {α β : Type} {more : Parse Bool} {q : Token → Bool} {p : Parse α}
  {a : α} {s u : ParseState} {steps : Nat}

-- ======================================================== repetition

theorem collectWhile_succ (hq : Looks more q) :
    collectWhile more p (steps + 1) s =
      if q s.lookahead then (p >>= fun a => collectWhile more p steps >>=
        fun later => pure (a :: later)) s
      else .ok [] s := by
  conv => lhs; unfold collectWhile
  rw [bind_of_ok (hq s)]
  split <;> rfl

theorem collectWhile_nil (hq : Looks more q)
    (h : q s.lookahead = false) :
    collectWhile more p (steps + 1) s = .ok [] s := by
  rw [collectWhile_succ hq, h]
  rfl

theorem of_collectWhile_nil (hq : Looks more q)
    (h : collectWhile more p steps s = .ok [] u) : u = s := by
  cases steps with
  | zero => exact absurd h exhausted_ok
  | succ steps =>
      rw [collectWhile_succ hq] at h
      split at h
      case isTrue =>
        obtain ⟨_, _, -, h⟩ := bind_ok.1 h
        obtain ⟨_, _, -, h⟩ := bind_ok.1 h
        cases (pure_ok.1 h).1
      case isFalse =>
        cases h
        rfl

theorem collectWhile_single (steps : Nat) (hq : Looks more q)
    (hfirst : q s.lookahead = true) (h : p s = .ok a u)
    (hlast : q u.lookahead = false) :
    collectWhile more p (steps + 2) s = .ok [a] u := by
  rw [collectWhile_succ hq, if_pos hfirst, bind_of_ok h,
    bind_of_ok (collectWhile_nil hq hlast)]
  rfl

/-- A repetition that comes to one item is a run of the item, up to where
the condition fails. -/
theorem of_collectWhile_single (hq : Looks more q)
    (h : collectWhile more p steps s = .ok [a] u) :
    p s = .ok a u ∧ q u.lookahead = false := by
  refine ⟨?_, looks_collectWhile hq h⟩
  cases steps with
  | zero => exact absurd h exhausted_ok
  | succ steps =>
      rw [collectWhile_succ hq] at h
      split at h
      case isTrue =>
        obtain ⟨a', s₁, hitem, h⟩ := bind_ok.1 h
        obtain ⟨later, s₂, hlater, h⟩ := bind_ok.1 h
        obtain ⟨hlist, rfl⟩ := pure_ok.1 h
        obtain ⟨rfl, rfl⟩ := List.cons.inj hlist
        rw [of_collectWhile_nil hq hlater]
        exact hitem
      case isFalse => cases h

theorem collectWhile_of_error {failure : Failure} (hq : Looks more q)
    (hfirst : q s.lookahead = true) (h : p s = .error failure u) :
    collectWhile more p (steps + 1) s = .error failure u := by
  rw [collectWhile_succ hq, if_pos hfirst]
  exact bind_of_error h

theorem looks_beforeEnd :
    Looks (do return !(← lookahead).isEnd) (fun t => !t.isEnd) :=
  fun _ => rfl

end Parse

-- ============================================================ scripts

variable {options : Options} {text : List Char} {s u : ParseState}
  {st : Statement Span}

/-- A report on a script of one statement is on a run of that statement
up to the end of the text. -/
theorem item_of_parse [NameProperties] {report : Report} {x : Statement Unit}
    (h : parse options text = .ok report)
    (hbody : report.script.body.map Statement.shape = [x]) :
    ∃ s st u, Parse.skip (.ofText text options.tolerant) = .ok () s ∧
      Parse.item (.ofDepth text.length) .ofScript
        { s with last := s.lookahead.span.stop } = .ok st u ∧
      u.lookahead.isEnd = true ∧ st.shape = x := by
  obtain ⟨script, final, hscript, rfl⟩ := parse_ok.1 h
  obtain ⟨_, s, hskip, -⟩ := bind_ok.1 hscript
  rw [Parse.script_of_skip hskip] at hscript
  obtain ⟨body, u, hrun, hscript⟩ := bind_ok.1 hscript
  obtain ⟨_, _, -, hscript⟩ := bind_ok.1 hscript
  obtain ⟨rfl, -⟩ := pure_ok.1 hscript
  have hshapes : body.map Statement.shape = [x] := by
    rw [← hbody]
    show _ = (Statement.mapAll options.locate body).map Statement.shape
    rw [Statement.mapAll_eq, List.map_map]
    exact List.map_congr_left fun st _ => (Statement.shape_map _ st).symm
  obtain ⟨st, rfl, hshape⟩ := List.map_eq_singleton_iff.1 hshapes
  obtain ⟨hitem, hend⟩ :=
    Parse.of_collectWhile_single Parse.looks_beforeEnd hrun
  exact ⟨s, st, u, hskip, hitem, by simpa using hend, hshape⟩

/-- A text with a token is not empty. -/
private theorem exists_length [NameProperties]
    (hskip : Parse.skip (.ofText text options.tolerant) = .ok () s)
    (hs : s.lookahead.isEnd = false) : ∃ n, text.length = n + 1 := by
  have hle := (ParseState.underway_of_skip hskip).ahead_le
  have hpos : 0 < s.ahead := by simp [ParseState.ahead, hs]
  exact ⟨text.length - 1, by omega⟩

/-- A text that is one statement. -/
theorem parse_of_item [NameProperties]
    (hskip : Parse.skip (.ofText text options.tolerant) = .ok () s)
    (hs : s.lookahead.isEnd = false)
    (h : Parse.item (.ofDepth text.length) .ofScript
      { s with last := s.lookahead.span.stop } = .ok st u)
    (hu : u.lookahead.isEnd = true) :
    ∃ report, parse options text = .ok report ∧
      report.script.body.map Statement.shape = [st.shape] := by
  obtain ⟨n, hn⟩ := exists_length hskip hs
  let start := s.lookahead.span.start
  have hbody := Parse.collectWhile_single n
    Parse.looks_beforeEnd (by simp [hs]) h (by simp [hu])
  have hscript : ∃ final, Parse.script (.ofDepth (text.length + 1))
      (.ofText text options.tolerant)
        = .ok ⟨[st], ⟨start, u.last⟩⟩ final := by
    rw [Parse.script_of_skip hskip]
    unfold Parse.scriptBody
    rw [Productions.depth_ofDepth, hn]
    rw [hn] at hbody
    exact ⟨_, bind_ok.2 ⟨[st], u, hbody, rfl⟩⟩
  obtain ⟨final, hscript⟩ := hscript
  refine ⟨_, parse_ok.2 ⟨_, final, hscript, rfl⟩, ?_⟩
  show (Statement.mapAll options.locate [st]).map Statement.shape = _
  rw [Statement.mapAll_eq, List.map_singleton, List.map_singleton,
    Statement.shape_map]

/-- A text with a statement that is refused. -/
theorem parse_of_refused [NameProperties] {d : Diagnostic}
    (hskip : Parse.skip (.ofText text options.tolerant) = .ok () s)
    (hs : s.lookahead.isEnd = false)
    (h : Parse.item (.ofDepth text.length) .ofScript
      { s with last := s.lookahead.span.stop } = .error (.refused d) u) :
    parse options text = .error (.refused d) := by
  have hscript : Parse.script (.ofDepth (text.length + 1))
      (.ofText text options.tolerant) = .error (.refused d) u := by
    rw [Parse.script_of_skip hskip]
    apply bind_of_error
    rw [Productions.depth_ofDepth]
    exact Parse.collectWhile_of_error Parse.looks_beforeEnd (by simp [hs]) h
  have htext : parseText options.tolerant text
      = ⟨.error (.refused d), u⟩ := by
    simp only [parseText, hscript]
  rw [parse_of_parseText htext]
  rfl

end ScriptTree
