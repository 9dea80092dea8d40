import LispFront.Text.Segments

/-! Words the host platform keeps for itself; no segment of a namespace may be one of them, in
whatever letter case. -/

namespace LispFront

def platformWords : List String :=
  ["__halt_compiler", "abstract", "and", "array", "as", "bool", "break", "callable", "case",
   "catch", "class", "clone", "const", "continue", "declare", "default", "do", "echo", "else",
   "elseif", "empty", "enddeclare", "endfor", "endforeach", "endif", "endswitch", "endwhile",
   "enum", "eval", "exit", "extends", "false", "final", "finally", "float", "fn", "for",
   "foreach", "function", "global", "goto", "if", "implements", "include", "include_once",
   "instanceof", "insteadof", "int", "interface", "isset", "iterable", "list", "match", "mixed",
   "namespace", "never", "new", "null", "object", "or", "parent", "print", "private",
   "protected", "public", "readonly", "require", "require_once", "return", "self", "static",
   "string", "switch", "throw", "trait", "true", "try", "unset", "use", "var", "void", "while",
   "xor", "yield"]

def isPlatformWord (word : String) : Bool :=
  platformWords.contains (Text.asciiLower word)

end LispFront
