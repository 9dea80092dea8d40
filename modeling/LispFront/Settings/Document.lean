import LispFront.Settings.Basic

/-! A document has one `key = value` pair a line; `#` starts a comment. A value is a text between
double quotes, `true` or `false`, a decimal integer, or an array of such values. No key may come
twice; unknown keys are passed over. -/

namespace LispFront.Document

inductive Token where
  | word (chars : List Char)
  | text (chars : List Char)
  | equals
  | comma
  | opening
  | closing
  deriving DecidableEq, Repr

/-- What the scanner is in the middle of. Characters so far are in reverse. -/
inductive Mode where
  | idle
  | word (chars : List Char)
  | text (chars : List Char)
  | comment

def isControl (c : Char) : Bool := (c.toNat < 0x20 && c != '\t') || c.toNat == 0x7f

def isKeyChar (c : Char) : Bool := c.isAlphanum || c == '_' || c == '-'

def isWordChar (c : Char) : Bool := isKeyChar c || c == '+'

/-- What a character outside words and texts gives and starts. -/
def start (c : Char) : Option (List Token × Mode) :=
  match c with
  | ' ' | '\t' => some ([], .idle)
  | '=' => some ([.equals], .idle)
  | ',' => some ([.comma], .idle)
  | '[' => some ([.opening], .idle)
  | ']' => some ([.closing], .idle)
  | '"' => some ([], .text [])
  | '#' => some ([], .comment)
  | _ => if isWordChar c then some ([], .word [c]) else none

def scan : Mode → List Char → Option (List Token)
  | .idle, [] | .comment, [] => some []
  | .word chars, [] => some [.word chars.reverse]
  | .text _, [] => none
  | .idle, c :: rest => do
    let (tokens, mode) ← start c
    let others ← scan mode rest
    return tokens ++ others
  | .word chars, c :: rest =>
    if isWordChar c then scan (.word (c :: chars)) rest
    else do
      let (tokens, mode) ← start c
      let others ← scan mode rest
      return .word chars.reverse :: tokens ++ others
  | .text chars, c :: rest =>
    if c == '"' then do
      let others ← scan .idle rest
      return .text chars.reverse :: others
    else if c == '\\' || isControl c then none
    else scan (.text (c :: chars)) rest
  | .comment, c :: rest => if isControl c then none else scan .comment rest

inductive Value where
  | text (content : String)
  | flag (state : Bool)
  | number (value : Int)
  | array (items : List Value)

/-- Digits without a leading zero; single underscores may divide them. -/
def natural? (chars : List Char) : Option Nat :=
  let groups := Text.segmentChars (· == '_') chars
  let digits := groups.flatten
  if groups.all (fun group => !group.isEmpty && group.all Char.isDigit) &&
      (digits.head? != some '0' || digits.length == 1) then
    some (digits.foldl (fun n c => 10 * n + (c.toNat - '0'.toNat)) 0)
  else
    none

/-- Integers have 64 bits. -/
def integer? (chars : List Char) : Option Int :=
  let value? : Option Int := match chars with
    | '-' :: rest => (natural? rest).map fun n => -(n : Int)
    | '+' :: rest => (natural? rest).map fun n => (n : Int)
    | _ => (natural? chars).map fun n => (n : Int)
  value?.filter fun n => -Int.pow 2 63 ≤ n && n < Int.pow 2 63

def scalar? : Token → Option Value
  | .text chars => some (.text (String.ofList chars))
  | .word chars =>
    if chars = "true".toList then some (.flag true)
    else if chars = "false".toList then some (.flag false)
    else (integer? chars).map .number
  | _ => none

/-- The items of an array up to its closing bracket, which ends the line. A comma
may follow the last item. -/
def items? : List Token → Option (List Value)
  | [.closing] => some []
  | [item, .closing] => (scalar? item).map ([·])
  | item :: .comma :: rest => do
    let value ← scalar? item
    let values ← items? rest
    return value :: values
  | _ => none

def value? : List Token → Option Value
  | .opening :: rest => (items? rest).map .array
  | [token] => scalar? token
  | _ => none

/-- A line holds a pair, or nothing but blanks and a comment. -/
def pair? : List Token → Option (Option (String × Value))
  | [] => some none
  | .word key :: .equals :: rest =>
    if key.all isKeyChar then
      (value? rest).map fun value => some (String.ofList key, value)
    else none
  | _ => none

/-- Lines end with a line feed, which a carriage return may precede. -/
def lines (chars : List Char) : List (List Char) :=
  let all := Text.segmentChars (· == '\n') chars
  (all.dropLast.map fun line =>
    if line.getLast? == some '\r' then line.dropLast else line) ++ [all.getLastD []]

def pairs? : List (List Char) → Option (List (String × Value))
  | [] => some []
  | line :: rest => do
    let pair ← pair? (← scan .idle line)
    let pairs ← pairs? rest
    return pair.toList ++ pairs

def read? (text : String) : Option (List (String × Value)) :=
  (pairs? (lines text.toList)).filter fun pairs => decide (pairs.map Prod.fst).Nodup

def Value.text? : Value → Option String
  | .text content => some content
  | _ => none

def Value.flag? : Value → Option Bool
  | .flag state => some state
  | _ => none

def texts? : List Value → Option (List String)
  | [] => some []
  | value :: rest => do
    let text ← value.text?
    let texts ← texts? rest
    return text :: texts

def Value.texts? : Value → Option (List String)
  | .array items => Document.texts? items
  | _ => none

end LispFront.Document

namespace LispFront

/-- Why there are no settings. -/
inductive SettingsError where
  | unreadable
  | malformed
  deriving DecidableEq, Repr

namespace Settings

/-- Takes over one pair; a known key refuses a value of another kind. -/
def set? (settings : Settings) (key : String) (value : Document.Value) : Option Settings :=
  match key with
  | "core-namespace" => value.text?.map fun text => { settings with coreNamespace := text }
  | "default-namespace" => value.text?.map fun text => { settings with defaultNamespace := text }
  | "allow-redefinition" =>
    value.flag?.map fun flag => { settings with allowRedefinition := flag }
  | "extra-reserved-words" =>
    value.texts?.map fun words => { settings with reservedWords := words }
  | _ => some settings

def setAll? (settings : Settings) : List (String × Document.Value) → Option Settings
  | [] => some settings
  | (key, value) :: rest => do
    let settings ← settings.set? key value
    settings.setAll? rest

def ofText (text : String) : Except SettingsError Settings :=
  match (Document.read? text).bind fun pairs => setAll? {} pairs with
  | some settings => .ok settings
  | none => .error .malformed

/-- The settings in a file, of which there is no content when it cannot be read. -/
def ofFile (content : Option String) : Except SettingsError Settings :=
  match content with
  | some text => ofText text
  | none => .error .unreadable

end Settings

end LispFront
