import LispFront.Form.Order

/-! Code that was not read from a file has no spans. `locate` gives one to every symbol, list,
vector and map inside a form that lacks it and leaves the others, and all metadata, as they are. -/

namespace LispFront.Form

mutual
def locate (site : Span) : Form → Form
  | .symbol name span metadata => .symbol name (span.or (some site)) metadata
  | .list items span metadata => .list (locateItems site items) (span.or (some site)) metadata
  | .vector items span metadata =>
    .vector (locateItems site items) (span.or (some site)) metadata
  | .map entries span metadata =>
    .map (Entries.ofList (locateEntries site entries)) (span.or (some site)) metadata
  | form => form

def locateItems (site : Span) : List Form → List Form
  | [] => []
  | item :: rest => item.locate site :: locateItems site rest

def locateEntries (site : Span) : List (Form × Form) → List (Form × Form)
  | [] => []
  | (key, value) :: rest => (key.locate site, value.locate site) :: locateEntries site rest
end

/-- Without a span to give, nothing changes. -/
def locateAt (site : Option Span) (form : Form) : Form :=
  match site with
  | some site => form.locate site
  | none => form

end LispFront.Form
