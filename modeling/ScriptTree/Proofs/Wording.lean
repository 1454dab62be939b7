/-
How diagnostics with something filled in read.

Each template starts with a word of its own, and what is filled in comes
after it. So no diagnostic about a token in the wrong place or about a
label reads like the one about words in escapes.
-/
import ScriptTree.Grammar.State

namespace ScriptTree

theorem description_unknownLabel (name : String) :
    (Cause.unknownLabel name).description
      = "Undefined label '" ++ name ++ "'" := by
  apply String.toList_inj.1
  show (String.ofList (replaceAll ['%', '0'] name.toList 0
    Message.unknownLabel.toList)).toList = _
  rw [String.toList_ofList, String.toList_append, String.toList_append]
  rfl

theorem description_unexpectedToken (text : String) :
    (Cause.unexpectedToken text).description.toList
      = "Unexpected token ".toList ++ text.toList := by
  show (String.ofList (replaceAll ['%', '0'] text.toList 0
    Message.unexpectedToken.toList)).toList = _
  rw [String.toList_ofList]
  show "Unexpected token ".toList ++ (text.toList ++ []) = _
  rw [List.append_nil]

theorem description_labelRedeclared (name : String) :
    (Cause.labelRedeclared name).description.toList
      = "Label '".toList
        ++ (name.toList ++ "' has already been declared".toList) := by
  show (String.ofList (replaceAll ['%', '1'] name.toList 0
    (replaceAll ['%', '0'] "Label".toList 0
      Message.redeclaration.toList))).toList = _
  rw [String.toList_ofList]
  rfl

/-- What starts with another letter is not about words in escapes. -/
private theorem ne_escapedReserved {description : String} (ch : Char)
    (h : description.toList.head? = some ch) (hch : ch ≠ 'K') :
    description ≠ Message.escapedReserved := by
  rintro rfl
  exact hch (Option.some.inj h).symm

theorem unknownLabel_ne_escapedReserved (name : String) :
    (Cause.unknownLabel name).description ≠ Message.escapedReserved := by
  refine ne_escapedReserved 'U' ?_ (by decide)
  rw [description_unknownLabel, String.toList_append,
    String.toList_append]
  rfl

theorem unexpectedToken_ne_escapedReserved (text : String) :
    (Cause.unexpectedToken text).description
      ≠ Message.escapedReserved := by
  refine ne_escapedReserved 'U' ?_ (by decide)
  rw [description_unexpectedToken]
  rfl

theorem unexpected_ne_escapedReserved (t : Token) :
    t.unexpected.description ≠ Message.escapedReserved := by
  unfold Token.unexpected
  split
  case h_6 | h_7 | h_8 => exact unexpectedToken_ne_escapedReserved _
  all_goals decide

end ScriptTree
