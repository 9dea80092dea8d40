/-! Namespace and class names are segments divided by marks such as `.`. A text with no mark is one
segment, and so is the empty text. -/

namespace LispFront.Text

def segmentChars (isMark : Char → Bool) : List Char → List (List Char)
  | [] => [[]]
  | c :: rest =>
    match segmentChars isMark rest with
    | [] => [[c]]
    | first :: others => if isMark c then [] :: first :: others else (c :: first) :: others

def segments (isMark : Char → Bool) (text : String) : List String :=
  (segmentChars isMark text.toList).map String.ofList

def lastSegment (isMark : Char → Bool) (text : String) : String :=
  (segments isMark text).getLastD text

/-- Letter case is folded for the letters `A` to `Z` only. -/
def asciiLower (text : String) : String :=
  String.ofList (text.toList.map Char.toLower)

end LispFront.Text
