/-
A text as tokens and what stands between them.

# Two accounts

A reader comes to the tokens of a text one by one, with the comments in
front of each (`TokenReader.Scans`). The text itself can be cut into
tokens and trivia (`Tiles`). The second account knows nothing of readers:
offsets are sums of bytes, and lines are those of the text.
-/
import ScriptTree.Source.Line
import ScriptTree.Token.Reader

namespace ScriptTree

/-- The tokens that a reader comes to, the end of the text as the last
one, each with the comments that were passed over in front of it. -/
inductive TokenReader.Scans [NameProperties] :
    TokenReader → List (List Comment × Token) → Prop where
  | done {r start stop : TokenReader} {comments : List Comment}
      {t : Token} :
      r.skipTrivia = (comments, start) → start.token = .ok t stop →
        t.isEnd = true → Scans r [(comments, t)]
  | token {r start stop : TokenReader} {comments : List Comment}
      {t : Token} {later : List (List Comment × Token)} :
      r.skipTrivia = (comments, start) → start.token = .ok t stop →
        t.isEnd = false → Scans stop later →
          Scans r ((comments, t) :: later)

/-- What a reader comes to, in so many tokens at most. -/
def TokenReader.scan? [NameProperties] :
    Nat → TokenReader → Option (List (List Comment × Token))
  | 0, _ => none
  | steps + 1, r =>
    let (comments, start) := r.skipTrivia
    match start.token with
    | .error _ _ => none
    | .ok t stop =>
      if t.isEnd then some [(comments, t)]
      else (stop.scan? steps).map ((comments, t) :: ·)

/-- A scan within bounds is a scan. -/
theorem TokenReader.scans_of_scan? [NameProperties]
    {steps : Nat} {r : TokenReader} {groups : List (List Comment × Token)}
    (h : r.scan? steps = some groups) : r.Scans groups := by
  induction steps generalizing r groups with
  | zero => cases h
  | succ steps ih =>
      unfold scan? at h
      simp only at h
      split at h
      case h_1 => cases h
      case h_2 t stop htoken =>
        split at h
        case isTrue hend =>
          cases h
          exact .done rfl htoken hend
        case isFalse hend =>
          obtain ⟨later, hlater, rfl⟩ := Option.map_eq_some_iff.1 h
          exact .token rfl htoken (by simpa using hend) (ih hlater)

/-- A text between tokens, which starts at the given offset of a source,
and the comments in it: there is nothing but blanks, line terminators and
those comments. A comment goes on to a line terminator or to the end of
the source. -/
inductive Trivia (source : List Char) :
    Nat → List Char → List Comment → Prop where
  | nil {offset : Nat} : Trivia source offset [] []
  | blank {offset : Nat} {ch : Char} {text : List Char}
      {comments : List Comment} :
      isWhiteSpace ch = true ∨ isLineTerminator ch = true →
        Trivia source (offset + ch.utf8Size) text comments →
          Trivia source offset (ch :: text) comments
  | comment {offset stop : Nat} {body text : List Char}
      {comments : List Comment} :
      breaksLine body = false →
        stop = offset + byteLength ('/' :: '/' :: body) →
        ((∃ ch ∈ text.head?, isLineTerminator ch = true) ∨
          text = [] ∧ stop = byteLength source) →
        Trivia source stop text comments →
          Trivia source offset ('/' :: '/' :: body ++ text)
            (⟨.ofList body, positionAt source offset,
              positionAt source stop⟩ :: comments)

/-- A text that starts at the given offset of a source and goes on to its
end, cut into tokens and what stands between them. -/
inductive Tiles (source : List Char) :
    Nat → List Char → List (List Comment × Token) → Prop where
  | done {offset : Nat} {gap : List Char} {comments : List Comment}
      {t : Token} :
      Trivia source offset gap comments → t.isEnd = true →
        offset + byteLength gap = byteLength source →
        t.span = ⟨positionAt source (byteLength source),
          positionAt source (byteLength source)⟩ →
          Tiles source offset gap [(comments, t)]
  | token {offset start stop : Nat} {gap word text : List Char}
      {comments : List Comment} {t : Token}
      {later : List (List Comment × Token)} :
      Trivia source offset gap comments → t.isEnd = false →
        start = offset + byteLength gap → word ≠ [] →
        stop = start + byteLength word → t.raw = .ofList word →
        t.span = ⟨positionAt source start, positionAt source stop⟩ →
        Tiles source stop text later →
          Tiles source offset (gap ++ word ++ text)
            ((comments, t) :: later)

/-- The spans of comments and tokens, as they come. -/
def spansOf (groups : List (List Comment × Token)) : List Span :=
  groups.flatMap fun group =>
    group.1.map Comment.span ++ [group.2.span]

/-- Whether one span ends before another starts, or where it starts. -/
def Span.Before (a b : Span) : Prop := a.stop.offset ≤ b.start.offset

/-- Whether a span takes any text. -/
def Span.Proper (a : Span) : Prop := a.start.offset < a.stop.offset

/-- Whether the ends of a span are where the lines of the text say. -/
def Span.Placed (text : List Char) (a : Span) : Prop :=
  a.start = positionAt text a.start.offset ∧
    a.stop = positionAt text a.stop.offset

end ScriptTree
