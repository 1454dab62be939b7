/-
The JSON form of syntax trees and of what a report adds to them. A node
is an object: its type, then what is particular to the node, then its
location, of which only the part that the report shows is there.
-/
import ScriptTree.Json
import ScriptTree.Parser.Script

namespace ScriptTree

-- ====================================================== locations

/-- A place in a line as an object. -/
def LineColumn.toJson (p : LineColumn) : Json :=
  .object [("line", .nat p.line), ("column", .nat p.column)]

/-- A stretch of lines as an object, with the name of the text if it has
one. -/
def LineRange.toJson (r : LineRange) : Json :=
  .object <| [("start", r.start.toJson), ("end", r.stop.toJson)]
    ++ match r.source with
      | some source => [("source", .string source)]
      | none => []

/-- The members that a location adds to an object. -/
def Location.members (l : Location) : List (String × Json) :=
  (match l.range with
    | some (start, stop) => [("range", .array [.nat start, .nat stop])]
    | none => [])
  ++ match l.lines with
    | some lines => [("loc", lines.toJson)]
    | none => []

/-- A node: its kind, its own members, and its location. -/
def Location.node (place : Location) (kind : NodeKind)
    (members : List (String × Json)) : Json :=
  .object (("type", .string kind.name) :: members ++ place.members)

-- ========================================================== nodes

/-- The value of a literal. Whole numbers are written as such as long as
all of their neighbours can be told apart. -/
def LiteralValue.toJson : LiteralValue → Json
  | .boolean value => .bool value
  | .string text => .string text
  | .null => .null
  | .number x =>
    match x.reading with
    | .nan | .infinity _ => .null
    | .finite negative mantissa exponent =>
      match (wholeNumber? mantissa exponent).filter (· < Nat.pow 2 53) with
      | some whole => .whole (if negative then -whole else whole)
      | none => .number x

/-- The JSON form of a name. -/
def Identifier.toJson (id : Identifier Location) : Json :=
  id.place.node .identifier [("name", .string id.name)]

mutual

/-- The JSON form of an expression. -/
def Expression.toJson : Expression Location → Json
  | .identifier id => id.toJson
  | .literal value raw place =>
    place.node .literal [("value", value.toJson), ("raw", .string raw)]
  | .assignment operator left right place =>
    place.node .assignmentExpression [("operator", .string operator.text),
      ("left", left.toJson), ("right", right.toJson)]
  | .binary operator left right place =>
    place.node .binaryExpression [("operator", .string operator.text),
      ("left", left.toJson), ("right", right.toJson)]
  | .logical operator left right place =>
    place.node .logicalExpression [("operator", .string operator.text),
      ("left", left.toJson), ("right", right.toJson)]
  | .conditional test consequent alternate place =>
    place.node .conditionalExpression [("test", test.toJson),
      ("consequent", consequent.toJson),
      ("alternate", alternate.toJson)]
  | .call callee arguments place =>
    place.node .callExpression [("callee", callee.toJson),
      ("arguments", .array (Expression.toJsons arguments))]
  | .sequence items place =>
    place.node .sequenceExpression
      [("expressions", .array (Expression.toJsons items))]
  | .unary operator argument before place =>
    place.node .unaryExpression [("operator", .string operator.text),
      ("argument", argument.toJson), ("prefix", .bool before)]
  | .update operator argument before place =>
    place.node .updateExpression [("operator", .string operator.text),
      ("argument", argument.toJson), ("prefix", .bool before)]
  | .function fn => fn.toJson .functionExpression

/-- The JSON forms of several expressions. -/
def Expression.toJsons : List (Expression Location) → List Json
  | [] => []
  | e :: rest => e.toJson :: Expression.toJsons rest

/-- The JSON form of an expression that may be missing. -/
def Expression.toJson? : Option (Expression Location) → Json
  | none => .null
  | some e => e.toJson

/-- The JSON form of a function, as a statement or as an expression. -/
def Function.toJson (kind : NodeKind) : Function Location → Json
  | .mk id params body generator place =>
    place.node kind [("id", Json.option Identifier.toJson id),
      ("params", .array (Parameter.toJsons params)),
      ("body", body.toJson), ("generator", .bool generator),
      ("expression", .bool false), ("async", .bool false)]

/-- The JSON form of a parameter. One with a default value is a pattern. -/
def Parameter.toJson : Parameter Location → Json
  | .plain id => id.toJson
  | .withDefault id value place =>
    place.node .assignmentPattern
      [("left", id.toJson), ("right", value.toJson)]

/-- The JSON forms of several parameters. -/
def Parameter.toJsons : List (Parameter Location) → List Json
  | [] => []
  | p :: rest => p.toJson :: Parameter.toJsons rest

/-- The JSON form of a block. -/
def Block.toJson : Block Location → Json
  | .mk body place =>
    place.node .blockStatement [("body", .array (Statement.toJsons body))]

/-- The JSON form of a declared name. -/
def Declarator.toJson : Declarator Location → Json
  | .mk id init place =>
    place.node .variableDeclarator
      [("id", id.toJson), ("init", Expression.toJson? init)]

/-- The JSON forms of several declared names. -/
def Declarator.toJsons : List (Declarator Location) → List Json
  | [] => []
  | d :: rest => d.toJson :: Declarator.toJsons rest

/-- The JSON form of a declaration. -/
def Declaration.toJson : Declaration Location → Json
  | .mk kind declarators place =>
    place.node .variableDeclaration
      [("declarations", .array (Declarator.toJsons declarators)),
        ("kind", .string kind.text)]

/-- The JSON form of the start of a loop. -/
def ForInit.toJson : ForInit Location → Json
  | .declaration decl => decl.toJson
  | .expression e => e.toJson

/-- The JSON form of the start of a loop that may be missing. -/
def ForInit.toJson? : Option (ForInit Location) → Json
  | none => .null
  | some init => init.toJson

/-- The JSON form of a statement. -/
def Statement.toJson : Statement Location → Json
  | .declaration decl => decl.toJson
  | .function fn => fn.toJson .functionDeclaration
  | .block b => b.toJson
  | .ifElse test consequent alternate place =>
    place.node .ifStatement [("test", test.toJson),
      ("consequent", consequent.toJson),
      ("alternate", Statement.toJson? alternate)]
  | .forLoop init test update body place =>
    place.node .forStatement [("init", ForInit.toJson? init),
      ("test", Expression.toJson? test),
      ("update", Expression.toJson? update), ("body", body.toJson)]
  | .whileLoop test body place =>
    place.node .whileStatement
      [("test", test.toJson), ("body", body.toJson)]
  | .doWhileLoop body test place =>
    place.node .doWhileStatement
      [("body", body.toJson), ("test", test.toJson)]
  | .returning argument place =>
    place.node .returnStatement
      [("argument", Expression.toJson? argument)]
  | .breaking label place =>
    place.node .breakStatement
      [("label", Json.option Identifier.toJson label)]
  | .continuing label place =>
    place.node .continueStatement
      [("label", Json.option Identifier.toJson label)]
  | .throwing argument place =>
    place.node .throwStatement [("argument", argument.toJson)]
  | .expression e place =>
    place.node .expressionStatement [("expression", e.toJson)]
  | .labeled label body place =>
    place.node .labeledStatement
      [("label", label.toJson), ("body", body.toJson)]
  | .empty place => place.node .emptyStatement []
  | .debugger place => place.node .debuggerStatement []

/-- The JSON forms of several statements. -/
def Statement.toJsons : List (Statement Location) → List Json
  | [] => []
  | s :: rest => s.toJson :: Statement.toJsons rest

/-- The JSON form of a statement that may be missing. -/
def Statement.toJson? : Option (Statement Location) → Json
  | none => .null
  | some s => s.toJson

end

-- ======================================================== reports

/-- What a diagnostic consists of, apart from its name. -/
def Diagnostic.members (d : Diagnostic) : List (String × Json) :=
  [("message", .string d.message), ("index", .nat d.index),
    ("lineNumber", .nat d.line), ("column", .nat d.column),
    ("description", .string d.description)]

/-- The JSON form of a diagnostic. -/
def Diagnostic.toJson (d : Diagnostic) : Json :=
  .object (("name", .string "Error") :: d.members)

/-- The JSON form of a list of diagnostics. -/
def Diagnostic.toJsons (ds : List Diagnostic) : Json :=
  .array (ds.map toJson)

/-- The JSON form of an entry: a token by its source text, and a comment
by the text after its marker. -/
def LocatedEntry.toJson (e : LocatedEntry) : Json :=
  let (kind, text) := match e.entry with
    | .token t => (t.kind.name, t.raw)
    | .comment c => ("Line", c.text)
  .object (("type", .string kind) :: ("value", .string text)
    :: e.location.members)

/-- A member, if there is a value for it. -/
def member? (name : String) : Option Json → List (String × Json)
  | some value => [(name, value)]
  | none => []

/-- The JSON form of a report. -/
def Report.toJson (r : Report) : Json :=
  let entries (list : List LocatedEntry) : Json :=
    .array (list.map LocatedEntry.toJson)
  .object <|
    [("type", .string NodeKind.script.name),
      ("body", .array (Statement.toJsons r.script.body)),
      ("sourceType", .string "script")]
    ++ r.script.place.members
    ++ member? "comments" (r.comments.map entries)
    ++ member? "tokens" (r.tokens.map entries)
    ++ member? "errors" (r.errors.map Diagnostic.toJsons)

/-- The location of an entry of a token list, which has no place for the
name of the text. -/
def Options.listedEntry (options : Options) (entry : TokenEntry) :
    LocatedEntry :=
  { options with source := none }.locateEntry entry

/-- The JSON form of a token list, with the locations that the options
ask for. -/
def TokenList.toJson (list : TokenList) (options : Options) : Json :=
  let entry (e : TokenEntry) := (options.listedEntry e).toJson
  .object <|
    [("tokens", .array (list.entries.map entry))]
    ++ member? "errors" (list.errors.map Diagnostic.toJsons)

end ScriptTree
