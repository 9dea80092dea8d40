import LispFront.Text.Hidden

/-! A text between double quotes. The quote, the backslash and the four common control characters
have escapes of two characters; any other character that would not show is written by its code in
hexadecimal. -/

namespace LispFront.Text

def hex (n : Nat) : String := String.ofList (Nat.toDigits 16 n)

def quotedChar (c : Char) : String :=
  match c with
  | '"' => "\\\""
  | '\\' => "\\\\"
  | '\n' => "\\n"
  | '\r' => "\\r"
  | '\t' => "\\t"
  | '\x00' => "\\0"
  | _ => if isHidden c then "\\u\x7b" ++ hex c.toNat ++ "\x7d" else String.ofList [c]

def quoted (text : String) : String :=
  "\"" ++ String.join (text.toList.map quotedChar) ++ "\""

end LispFront.Text
