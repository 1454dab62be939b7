/-
Token lists: the tokens of a text, with the comments between them where
these are asked for, and no regard to any grammar.

# One entry at a time

A feed gives the entries one by one. The comments in front of a token
come before it, so a feed holds entries that were read and not yet given.
Reading may go on after a failure. The comments in front of the failed
token were read before the failure was known, so they come after it.
-/
import ScriptTree.Options
import ScriptTree.Token.Reader

namespace ScriptTree

/-- An entry of a token list. -/
inductive TokenEntry where
  | token (token : Token)
  | comment (comment : Comment)
  deriving DecidableEq, Repr

/-- The span of an entry. -/
def TokenEntry.span : TokenEntry → Span
  | .token t => t.span
  | .comment c => c.span

/-- A source of entries. -/
structure TokenFeed where
  reader : TokenReader
  /-- Entries that were read and not yet given. -/
  pending : List TokenEntry
  deriving DecidableEq, Repr

namespace TokenFeed

/-- The feed at the start of a text. -/
def ofText (text : List Char) (options : Options) : TokenFeed where
  reader := .ofText text options.tolerant options.comment
  pending := []

variable [NameProperties] [Arithmetic]

/-- Reads up to and including the next token, if there is one. -/
def fill (feed : TokenFeed) : Except Diagnostic Unit × TokenFeed :=
  let (comments, reader) := feed.reader.skipTrivia
  let pending := feed.pending ++ comments.map TokenEntry.comment
  if reader.cursor.atEnd then (.ok (), ⟨reader, pending⟩)
  else match reader.token with
    | .ok t reader => (.ok (), ⟨reader, pending ++ [.token t]⟩)
    | .error d reader => (.error d, ⟨reader, pending⟩)

/-- Gives the first of the pending entries. -/
def give (feed : TokenFeed) :
    Option (Except Diagnostic TokenEntry) × TokenFeed :=
  match feed.pending with
  | [] => (none, feed)
  | entry :: rest => (some (.ok entry), { feed with pending := rest })

/-- The next entry, nothing at the end of the text, or a failure. -/
def next (feed : TokenFeed) :
    Option (Except Diagnostic TokenEntry) × TokenFeed :=
  if feed.pending.isEmpty then
    match feed.fill with
    | (.ok (), feed) => feed.give
    | (.error d, feed) => (some (.error d), feed)
  else feed.give

/-- What is given one after the other, also after failures and after the
end of the text. -/
def nexts : Nat → TokenFeed →
    List (Option (Except Diagnostic TokenEntry)) × TokenFeed
  | 0, feed => ([], feed)
  | steps + 1, feed =>
    let (given, feed) := feed.next
    let (later, feed) := feed.nexts steps
    (given :: later, feed)

/-- The entries up to the end of the text or the first failure, `steps`
at most, with that failure and the feed after it. -/
def drain : Nat → TokenFeed →
    List TokenEntry × Option Diagnostic × TokenFeed
  | 0, feed => ([], none, feed)
  | steps + 1, feed =>
    match feed.next with
    | (none, feed) => ([], none, feed)
    | (some (.error d), feed) => ([], some d, feed)
    | (some (.ok entry), feed) =>
      let (entries, failure, feed) := feed.drain steps
      (entry :: entries, failure, feed)

end TokenFeed

/-- A token list. -/
structure TokenList where
  entries : List TokenEntry
  /-- What was recorded, if anything could be. -/
  errors : Option (List Diagnostic)
  deriving DecidableEq, Repr

/-- The token list of a text. A failure ends it; it is recorded with the
others, or given instead of the list where nothing is tolerated. Every
entry takes a character of the text. -/
def tokenList [NameProperties] [Arithmetic]
    (options : Options) (text : List Char) :
    Except Diagnostic TokenList :=
  let (entries, failure, feed) :=
    (TokenFeed.ofText text options).drain (text.length + 1)
  let log : Except Diagnostic DiagnosticLog := match failure with
    | none => .ok feed.reader.log
    | some d => feed.reader.log.tolerate d
  log.map fun log =>
    ⟨entries, if options.tolerant then some log.recorded else none⟩

end ScriptTree
