/-
Every parse comes to an end.

# Bounds that do not matter

Recursion and repetition are bounded in the grammar, and in whatever reads
a text. To say that a parse ends is to say that the bounds do not matter:
beyond the number of characters, what a parse comes to is the same under
any bound, and it is not that a bound ran out (`Parse.Settles`).

# Progress

What makes the bounds enough is that productions consume. A call that
succeeds has its lookahead start later than before (`call_offset_lt`),
and at the end of the text it is refused. So no repetition goes on more
often than there are tokens ahead, and one more time to find that there
are none.
-/
import ScriptTree.Proofs.Steps
import ScriptTree.Proofs.Tolerance
import ScriptTree.Proofs.Underway
import ScriptTree.Source.NameRanges

namespace ScriptTree

variable {text : List Char} {tolerant : Bool} {s s' : ParseState}

-- ============================================================= calls

/-- The productions that are called over and over. -/
inductive Call where
  | item (jumps : Jumps)
  | statement (jumps : Jumps)
  | assignment
  | declarator (kind : DeclarationKind)
  | parameter

namespace Call

/-- What a call gives. -/
abbrev Tree : Call → Type
  | item _ | statement _ => Statement Span
  | assignment => Expression Span
  | declarator _ => Declarator Span
  | parameter => Parameter Span

/-- The production that is called. -/
def parse (inner : Productions) : (call : Call) → Parse call.Tree
  | item jumps => Parse.item inner jumps
  | statement jumps => Parse.statement inner jumps
  | assignment => Parse.assignment inner
  | declarator kind => Parse.declarator inner kind
  | parameter => Parse.parameter inner

/-- A call that succeeds has consumed its first token. -/
theorem advances (depth : Nat) :
    ∀ call : Call, (call.parse (.ofDepth depth)).Advances := by
  have h := Simulation.levels_ofDepth (otherTolerance {} false)
    (Nat.le_refl depth)
  intro call
  cases call with
  | item jumps => exact (Simulation.advances_item h jumps).advances
  | statement jumps =>
      exact (Simulation.advances_statement h jumps).advances
  | assignment => exact (Simulation.advances_assignment h).advances
  | declarator kind =>
      exact (Simulation.advances_declarator h kind).advances
  | parameter => exact (Simulation.advances_parameter h).advances

variable {I J : ParseState → Prop} {h : ParseState.Invariant I J}
  {inner inner' : Productions} {n : Nat}

/-- A call is compared with itself under other bounds. -/
theorem consumes (hl : (Concord.single h).Levels n inner inner') :
    ∀ call : Call, ∃ v : call.Tree → call.Tree, Function.Injective v ∧
      (Concord.single h).Consumes n v (call.parse inner)
        (call.parse inner') := by
  intro call
  cases call with
  | item jumps =>
      exact ⟨_, injective_of_id Statement.map_id,
        Concord.consumes_item hl jumps⟩
  | statement jumps =>
      exact ⟨_, injective_of_id Statement.map_id,
        Concord.consumes_statement hl jumps⟩
  | assignment =>
      exact ⟨_, injective_of_id Expression.map_id,
        Concord.consumes_assignment hl⟩
  | declarator kind =>
      exact ⟨_, injective_of_id Declarator.map_id,
        Concord.consumes_declarator hl kind⟩
  | parameter =>
      exact ⟨_, injective_of_id Parameter.map_id,
        Concord.consumes_parameter hl⟩

end Call

/-- The repetitions of the grammar. -/
inductive Loop where
  /-- The statements of a script. -/
  | script
  /-- The statements of the body of a function. -/
  | functionBody
  /-- The statements of a block. -/
  | block (jumps : Jumps)
  /-- The arguments of a call. -/
  | arguments
  /-- The parameters of a function. -/
  | parameters
  /-- More declared names, each after a comma. -/
  | declarators (kind : DeclarationKind)
  /-- More expressions, each after a comma. -/
  | sequence

namespace Loop

/-- What is repeated. -/
abbrev Tree : Loop → Type
  | script | functionBody | block _ => Statement Span
  | arguments | sequence => Expression Span
  | parameters => Parameter Span
  | declarators _ => Declarator Span

/-- The repetition, with a bound on its steps. -/
def parse (inner : Productions) :
    (loop : Loop) → Nat → Parse (List loop.Tree)
  | script, steps =>
    Parse.collectWhile (do return !(← Parse.lookahead).isEnd)
      (inner.item .ofScript) steps
  | functionBody, steps =>
    Parse.collectWhile
      (do return !(← Parse.lookahead).isEnd && !(← Parse.isAt "\x7d"))
      (inner.item .ofFunction) steps
  | block jumps, steps =>
    Parse.collectWhile (do return !(← Parse.isAt "\x7d"))
      (inner.item jumps) steps
  | arguments, steps =>
    Parse.upToParenthesis inner.assignment Parse.argumentSeparator steps
  | parameters, steps =>
    Parse.upToParenthesis (Parse.parameter inner) (Parse.expect ",") steps
  | declarators kind, steps =>
    Parse.collectWhile (Parse.isAt ",")
      (do Parse.skip; Parse.declarator inner kind) steps
  | sequence, steps =>
    Parse.collectWhile (Parse.isAt ",")
      (do Parse.skip; Parse.assignment inner) steps

/-- The productions repeat as said, as often as there are levels. -/
theorem parse_eq (inner : Productions) :
    Parse.arguments inner = (do
      Parse.expect "("
      let items ← Loop.arguments.parse inner inner.depth
      Parse.expect ")"
      return items) ∧
    Parse.parameters inner = (do
      Parse.expect "("
      let items ← Loop.parameters.parse inner inner.depth
      Parse.expect ")"
      return items) ∧
    (∀ kind, Parse.declarators inner kind = do
      let first ← Parse.declarator inner kind
      let further ← (Loop.declarators kind).parse inner inner.depth
      return first :: further) ∧
    Parse.expression inner = (do
      let first ← Parse.lookahead
      let e ← Parse.assignment inner
      let further ← Loop.sequence.parse inner inner.depth
      Parse.sequenceOf first.span.start e further) ∧
    Parse.furtherItems inner.next inner.next.assignment
      = Loop.sequence.parse inner inner.next.depth ∧
    (∀ jumps, Parse.block inner jumps = do
      let first ← Parse.lookahead
      Parse.skip
      let body ← (Loop.block jumps).parse inner inner.depth
      Parse.expect "\x7d"
      return .mk body (← Parse.close .blockStatement first.span.start)) ∧
    Parse.functionBody inner = (do
      let first ← Parse.lookahead
      Parse.expect "\x7b"
      let body ← Loop.functionBody.parse inner inner.depth
      Parse.expect "\x7d"
      return .mk body (← Parse.close .blockStatement first.span.start)) ∧
    Parse.script inner = (do
      Parse.skip
      let first ← Parse.lookahead
      Parse.standAt first.span.stop
      let body ← Loop.script.parse inner inner.depth
      let span ← Parse.close .script first.span.start
      return ⟨body, span⟩) :=
  ⟨rfl, rfl, fun _ => rfl, rfl, rfl, fun _ => rfl, rfl, rfl⟩

variable {I J : ParseState → Prop} {h : ParseState.Invariant I J}
  {inner inner' : Productions} {n steps steps' : Nat}

/-- A repetition is compared with itself under other bounds. -/
theorem goes (hl : (Concord.single h).Levels n inner inner')
    (hsteps : n ≤ steps) (hsteps' : n ≤ steps') :
    ∀ loop : Loop, ∃ v : loop.Tree → loop.Tree, Function.Injective v ∧
      (Concord.single h).Goes n (List.map v) (loop.parse inner steps)
        (loop.parse inner' steps') := by
  intro loop
  cases loop with
  | script =>
      exact ⟨_, injective_of_id Statement.map_id,
        Concord.agrees_items hl .ofScript
          (fun _ => Concord.agrees_moreInScript) hsteps hsteps'⟩
  | functionBody =>
      exact ⟨_, injective_of_id Statement.map_id,
        Concord.agrees_items hl .ofFunction
          (fun _ => Concord.agrees_moreInBody) hsteps hsteps'⟩
  | block jumps =>
      exact ⟨_, injective_of_id Statement.map_id,
        Concord.agrees_items hl jumps
          (fun _ => Concord.agrees_moreInBlock) hsteps hsteps'⟩
  | arguments =>
      exact ⟨_, injective_of_id Expression.map_id,
        Concord.goes_upToParenthesis hl.assignment
          (fun _ => Concord.goes_argumentSeparator) hsteps hsteps'⟩
  | parameters =>
      refine ⟨_, injective_of_id Parameter.map_id,
        Concord.goes_upToParenthesis (fun m hm => ?_)
          (fun _ => Concord.goes_expect) hsteps hsteps'⟩
      exact Concord.consumes_parameter (hl.mono (Nat.le_of_lt hm))
  | declarators kind =>
      refine ⟨_, injective_of_id Declarator.map_id,
        Concord.goes_afterCommas (fun m hm => ?_) hsteps hsteps'⟩
      exact Concord.consumes_declarator (hl.mono (Nat.le_of_lt hm)) kind
  | sequence =>
      refine ⟨_, injective_of_id Expression.map_id,
        Concord.goes_afterCommas (fun m hm => ?_) hsteps hsteps'⟩
      exact Concord.consumes_assignment (hl.mono (Nat.le_of_lt hm))

end Loop

-- ============================================================ bounds

/-- From `enough` on it makes no difference which bound an action is
given, and the action does not fail because a bound ran out. -/
def Parse.Settles {α : Type} (p : Nat → Parse α) (enough : Nat)
    (s : ParseState) : Prop :=
  ∀ bound, enough ≤ bound →
    p bound s = p enough s ∧ ∀ u, p bound s ≠ .error .exhausted u

/-- An action that succeeds or is refused has not run out. -/
private theorem ne_exhausted {α : Type}
    {r : EStateM.Result Failure ParseState α}
    {P : α → ParseState → Prop} {Q : Diagnostic → ParseState → Prop}
    (h : (∃ a u, r = .ok a u ∧ P a u) ∨
      ∃ d u, r = .error (.refused d) u ∧ Q d u) (u : ParseState) :
    r ≠ .error .exhausted u := by
  intro hexhausted
  rw [hexhausted] at h
  rcases h with ⟨a, u', hok, -⟩ | ⟨d, u', hrefused, -⟩
  · cases hok
  · cases hrefused

namespace ParseState.Underway

open Concord (single at_single levels_ofDepth)

/-- Two runs that come to the same end do so whichever of the bounds they
have. -/
theorem settles_of [NameProperties]
    {α : Type} {p : Nat → Parse α} {enough n : Nat}
    {b o : Bool} (text : List Char) (hp : ∀ bound, enough ≤ bound →
      ∃ v : α → α, Function.Injective v ∧
        (single (invariant_underway text)).Alike
          ((single (invariant_underway text)).At b o n) v (p enough s)
            (p bound s)) :
    Parse.Settles p enough s := by
  intro bound hbound
  obtain ⟨v, hv, hend⟩ := hp bound hbound
  obtain ⟨hsame, hend⟩ := hend.single hv
  rw [hsame]
  exact ⟨rfl, ne_exhausted hend⟩

theorem call_settles [NameProperties] (hs : s.Underway text) (call : Call) :
    Parse.Settles (fun depth => call.parse (.ofDepth depth)) text.length
      s := by
  apply settles_of text
  intro bound hbound
  have hahead := hs.ahead_le
  have hlevels := levels_ofDepth (single (invariant_underway text))
    hahead (Nat.le_trans hahead hbound)
  obtain ⟨v, hv, hcall⟩ := call.consumes hlevels
  exact ⟨v, hv, hcall (at_single hs (Nat.lt_succ_self _))⟩

/-- At the end of the text there is nothing to call for. -/
theorem call_refused [NameProperties] (hs : s.Underway text)
    (hend : s.lookahead.isEnd = true) (call : Call) (depth : Nat) :
    ∃ d u, call.parse (.ofDepth depth) s = .error (.refused d) u := by
  have hlevels := levels_ofDepth (single (invariant_underway text))
    (Nat.zero_le depth) (Nat.zero_le depth)
  obtain ⟨v, hv, hcall⟩ := call.consumes hlevels
  have hahead : s.ahead < 0 + 1 := by simp [ahead, hend]
  rcases (hcall (at_single hs hahead)).single hv with
    ⟨-, ⟨a, u, -, -, hless⟩ | ⟨d, u, hrefused, -⟩⟩
  · exact absurd hless (Nat.not_lt_zero _)
  · exact ⟨d, u, hrefused⟩

/-- A call that succeeds makes progress, whatever its bound. -/
theorem call_offset_lt [NameProperties]
    (hs : s.Underway text) {call : Call} {depth : Nat}
    {a : call.Tree} (h : call.parse (.ofDepth depth) s = .ok a s') :
    s.offset < s'.offset := by
  cases hend : s.lookahead.isEnd with
  | true =>
      obtain ⟨d, u, hrefused⟩ := hs.call_refused hend call depth
      rw [hrefused] at h
      cases h
  | false => exact hs.offset_lt hend (call.advances depth h)

theorem loop_settles [NameProperties]
    (hs : s.Underway text) (loop : Loop) {depth : Nat}
    (hdepth : text.length < depth) :
    Parse.Settles (loop.parse (.ofDepth depth)) (text.length + 1) s := by
  apply settles_of text
  intro bound hbound
  have hahead := Nat.succ_le_succ hs.ahead_le
  have hlevels := levels_ofDepth (single (invariant_underway text))
    (Nat.le_trans hahead hdepth) (Nat.le_trans hahead hdepth)
  obtain ⟨v, hv, hloop⟩ := loop.goes hlevels hahead
    (Nat.le_trans hahead hbound)
  refine ⟨_, fun l l' hl => ?_, hloop (at_single hs (Nat.lt_succ_self _))⟩
  exact (List.map_inj_right fun _ _ hitem => hv hitem).1 hl

theorem script_settles [NameProperties] :
    Parse.Settles (fun depth => Parse.script (.ofDepth depth))
      (text.length + 1) (ofText text tolerant) := by
  intro bound hbound
  rcases Parse.shift_cases (ofText text tolerant) with ⟨u, hu⟩ | ⟨d, hd⟩
  · have hskip : Parse.skip (ofText text tolerant) = .ok () u :=
      Parse.skip_ok.2 hu
    have hunderway :
        Underway text { u with last := u.lookahead.span.stop } :=
      (underway_of_skip hskip).of_eq rfl rfl rfl rfl
    have hahead := Nat.lt_succ_of_le hunderway.ahead_le
    obtain ⟨hsame, hends⟩ := (invariant_underway text).scriptBody hunderway
      hahead (Nat.lt_of_lt_of_le hahead hbound) u.lookahead.span.start
    simp only [Parse.script_of_skip hskip]
    rw [hsame]
    exact ⟨rfl, ne_exhausted hends⟩
  · simp only [Parse.script_of_refused hd]
    exact ⟨trivial, nofun⟩

end ParseState.Underway

-- ============================================================== texts

/-- How a parse goes on from one of its states: never back, further with
every production that succeeds, and to an end under any large bound. -/
structure ParseState.Progresses [NameProperties]
    (text : List Char) (tolerant : Bool) (s : ParseState) : Prop where
  /-- The lookahead never starts earlier than the one before it. -/
  forward : ∀ t s', Parse.shift s = .ok t s' → s.offset ≤ s'.offset
  /-- After a call that succeeds the lookahead starts later. -/
  advances : ∀ (call : Call) (depth : Nat) (a : call.Tree) (s' : ParseState),
    call.parse (.ofDepth depth) s = .ok a s' →
      s'.Reachable text tolerant ∧ s.offset < s'.offset
  /-- At the end of the text every call is refused. -/
  refused : s.lookahead.isEnd = true → ∀ (call : Call) (depth : Nat),
    ∃ d s', call.parse (.ofDepth depth) s = .error (.refused d) s'
  /-- As many levels are enough as the text has characters. -/
  calls : ∀ call : Call,
    Parse.Settles (fun depth => call.parse (.ofDepth depth)) text.length s
  /-- No repetition goes on for more steps than there are characters, and
  one more. -/
  loops : ∀ (loop : Loop) (depth : Nat), text.length < depth →
    Parse.Settles (loop.parse (.ofDepth depth)) (text.length + 1) s

theorem ParseState.Reachable.progresses [NameProperties]
    (h : s.Reachable text tolerant) : s.Progresses text tolerant where
  forward t s' hshift :=
    h.underway.offset_le (.single (.shift hshift))
  advances call depth a s' hcall := by
    have hlt := h.underway.call_offset_lt hcall
    refine ⟨?_, hlt⟩
    obtain ⟨first, hfirst, hreaches⟩ := h
    exact ⟨first, hfirst,
      hreaches.trans ((call.advances depth).runs hcall)⟩
  refused hend call depth := h.underway.call_refused hend call depth
  calls call := h.underway.call_settles call
  loops loop _ hdepth := h.underway.loop_settles loop hdepth

/-- How a text is read: what is given more steps than there are characters
does no more in them. -/
structure Cursor.Exhausts [NameProperties]
    (c : Cursor) (steps : Nat) : Prop where
  trivia : c.skipTriviaWithin steps = c.skipTrivia
  names : ∀ isFirst,
    nameChars steps isFirst c = nameChars c.rest.length isFirst c
  strings : ∀ quote,
    quotedChars quote steps c = quotedChars quote c.rest.length c
  tokens : TokenStream.fromCursor steps c
    = TokenStream.fromCursor c.rest.length c

theorem Cursor.exhausts [NameProperties] {c : Cursor} {steps : Nat}
    (h : c.rest.length ≤ steps) : c.Exhausts steps where
  trivia := skipTrivia_eq h
  names _ := nameChars_eq h
  strings _ := quotedChars_eq h
  tokens := TokenStream.fromCursor_eq (Nat.le_refl _) h

/-- Both a parse and a token list come to an end on every text: the bounds
they are given make no difference. The states of a parse make progress,
and so does the feed of a token list, until it has failed or has nothing
more to give. -/
theorem parse_ends [NameProperties] (options : Options) (text : List Char) :
    Parse.Settles (fun depth => Parse.script (.ofDepth depth))
        (text.length + 1) (.ofText text options.tolerant) ∧
      parse options text ≠ .error .exhausted ∧
      (∀ t first,
        Parse.shift (.ofText text options.tolerant) = .ok t first →
          first.Reachable text options.tolerant ∧
            (ParseState.ofText text options.tolerant).offset
              ≤ first.offset) ∧
      (∀ s : ParseState, s.Reachable text options.tolerant →
        s.Progresses text options.tolerant) ∧
      (∀ bound, text.length < bound →
        (TokenFeed.ofText text options).drain bound
          = (TokenFeed.ofText text options).drain (text.length + 1)) ∧
      (((TokenFeed.ofText text options).drain (text.length + 1)).2.1 = none →
        ((TokenFeed.ofText text options).drain
          (text.length + 1)).2.2.next.1 = none) ∧
      ∀ (c : Cursor) (steps : Nat), c.rest.length ≤ steps →
        c.Exhausts steps := by
  have hscript : Parse.Settles _ _ (.ofText text options.tolerant) :=
    ParseState.Underway.script_settles
  have hsize : (TokenFeed.ofText text options).size < text.length + 1 := by
    show 0 + (Cursor.ofText text).rest.length < text.length + 1
    rw [Cursor.ofText_length]
    omega
  have hstep : (TokenFeed.ofText text options).reader.cursor.InStep :=
    Cursor.inStep_ofText text
  have hdrain := TokenFeed.drain_eq hstep hsize hsize
  refine ⟨hscript, fun h => ?_, fun t first hfirst => ?_,
    fun s hs => hs.progresses,
    fun bound hbound => ?_, hdrain.2, fun c steps => Cursor.exhausts⟩
  · have hnever := (hscript _ (Nat.le_refl _)).2
    rw [parse_eq_report ⟨_, Arithmetic.exact_plain⟩] at h
    simp only [parseText] at h
    split at h
    case h_1 => cases h
    case h_2 failure s hend =>
      cases h
      exact hnever s hend
  · have hsit := ParseState.situated_ofText text options.tolerant
    obtain ⟨hword, hgap⟩ := hsit.offset_of_shift hfirst
    obtain ⟨rfl, -⟩ := Parse.shift_ok.1 hfirst
    exact ⟨⟨first, Parse.skip_ok.2 hfirst, .refl⟩,
      Nat.le_trans hword hgap⟩
  · refine (TokenFeed.drain_eq hstep hsize ?_).1
    show 0 + (Cursor.ofText text).rest.length < bound
    rw [Cursor.ofText_length, Nat.zero_add]
    exact hbound

/-- One statement, after which the text is at its end. -/
theorem parse_ends_name :
    let text := "a".toList
    let feed := TokenFeed.ofText text { tolerant := true }
    let item := Call.item .ofScript
    ∃ first a s', first.Reachable text true ∧
      item.parse (.ofDepth 2) first = .ok a s' ∧
      s'.Reachable text true ∧ first.offset < s'.offset ∧
      s'.lookahead.isEnd = true ∧
      (∃ d u, item.parse (.ofDepth 9) s' = .error (.refused d) u) ∧
      Parse.Settles (Loop.script.parse (.ofDepth 2)) 2 first ∧
      feed.drain 9 = feed.drain 2 ∧ (feed.drain 2).2.2.next.1 = none ∧
      (Cursor.ofText text).Exhausts 9 := by
  intro text feed item
  have hruns : (match (Parse.skip >>= fun _ => item.parse (.ofDepth 2))
      (.ofText text true) with
    | .ok _ s' => s'.lookahead.isEnd
    | .error _ _ => false) = true := by decide +kernel
  have hends := parse_ends { tolerant := true } text
  obtain ⟨-, -, -, hprogress, hdrain, hlast, hscan⟩ := hends
  have hlength : text.length + 1 = 2 := rfl
  have hfeed : TokenFeed.ofText text { tolerant := true } = feed := rfl
  rw [hlength, hfeed] at hdrain hlast
  split at hruns
  case h_2 => cases hruns
  case h_1 a s' h =>
    obtain ⟨_, first, hskip, hcall⟩ := bind_ok.1 h
    have hfirst : first.Reachable text true := ⟨first, hskip, .refl⟩
    have hadvances := (hprogress first hfirst).advances
    obtain ⟨hreachable, hlt⟩ := hadvances item 2 a s' hcall
    have hrefused := (hprogress s' hreachable).refused hruns
    have hloop := (hprogress first hfirst).loops .script 2 (by decide)
    have hquiet : (feed.drain 2).2.1 = none := by decide +kernel
    have hsettled : feed.drain 9 = feed.drain 2 := hdrain 9 (by decide)
    exact ⟨first, a, s', hfirst, hcall, hreachable, hlt, hruns,
      hrefused item 9, hloop, hsettled, hlast hquiet,
      hscan (.ofText text) 9 (by decide)⟩

end ScriptTree
