/-! A name is a base text with an optional namespace. Symbols and keywords share it, and it alone
decides whether two of them are equal. -/

namespace LispFront

structure Name where
  ns : Option String := none
  base : String
  deriving DecidableEq, Repr

def Name.plain (base : String) : Name := { base }

def Name.qualified (ns base : String) : Name := { ns := some ns, base }

def Name.isQualified (name : Name) : Bool := name.ns.isSome

/-- The written form: `ns/base`, or the base alone. -/
def Name.text (name : Name) : String :=
  match name.ns with
  | some ns => ns ++ "/" ++ name.base
  | none => name.base

/-- Reads the written form. The first `/` divides only with text on both sides of
it, so that `/` itself is a plain name. -/
def Name.parse (text : String) : Name :=
  let chars := text.toList
  let before := chars.takeWhile (· != '/')
  match chars.dropWhile (· != '/') with
  | [] => .plain text
  | _ :: after =>
    if before.isEmpty || after.isEmpty then .plain text
    else .qualified (String.ofList before) (String.ofList after)

/-- By namespace, a missing one first, then by base. -/
def Name.cmp (a b : Name) : Ordering :=
  (compare a.ns b.ns).then (compare a.base b.base)

end LispFront
