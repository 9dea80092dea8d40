import LispFront.Form.Basic
import LispFront.Text.Quoted

/-! Items stand between brackets and are divided by single spaces; the keys and values of a map
alternate. Spans and metadata are not written. -/

namespace LispFront.Form

mutual
def text : Form → String
  | .nil => "nil"
  | .bool value => if value then "true" else "false"
  | .int value => toString value
  | .float value => value.text
  | .str value => Text.quoted value
  | .keyword name => ":" ++ name.text
  | .symbol name _ _ => name.text
  | .list items _ _ => "(" ++ " ".intercalate (itemTexts items) ++ ")"
  | .vector items _ _ => "[" ++ " ".intercalate (itemTexts items) ++ "]"
  | .map entries _ _ => "\x7b" ++ " ".intercalate (entryTexts entries) ++ "\x7d"

def itemTexts : List Form → List String
  | [] => []
  | item :: rest => item.text :: itemTexts rest

def entryTexts : List (Form × Form) → List String
  | [] => []
  | (key, value) :: rest => key.text :: value.text :: entryTexts rest
end

end LispFront.Form
