/-! A span is the region of a source file that a form was read from. Lines and columns are unsigned
64-bit numbers and start at one. -/

namespace LispFront

structure Span where
  startLine : UInt64
  startColumn : UInt64
  endLine : UInt64
  endColumn : UInt64
  file : Option String := none
  deriving DecidableEq, Repr

/-- The place a report points at: the start, with the file when it is known. -/
def Span.describe (span : Span) : String :=
  match span.file with
  | some path => s!"{path}:{span.startLine}:{span.startColumn}"
  | none => s!"line {span.startLine}, column {span.startColumn}"

def Span.startText (span : Span) : String :=
  s!"{span.startLine}:{span.startColumn}"

def Span.endText (span : Span) : String :=
  s!"{span.endLine}:{span.endColumn}"

end LispFront
