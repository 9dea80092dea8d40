import LispFront.Expansion.Host

/-! A host function can be given as data: a fixed failure, a check of an argument count, an analysis
of the first argument, or a template. In a template `$1` stands for the first argument, `$@2` for
all from the second on, `$argc` for their number, `$ns` and `$site` for the place of the call, and
`$g` for a fresh name. -/

namespace LispFront

inductive HostRule where
  | fail (reason : String)
  | arity (counts : List Int)
  | analyze
  | template (body : Form)

structure HostTemplate where
  /-- The stem of the fresh name drawn before anything else. -/
  stem : Option String := none
  rule : HostRule

namespace Template

/-- What the symbols of a template stand for in one call. -/
structure Call where
  args : List Form
  site : CallSite
  fresh : Option Symbol

/-- A decimal number without a sign. -/
def number? (digits : List Char) : Option Nat :=
  if digits.isEmpty || !digits.all Char.isDigit then none
  else some (digits.foldl (fun n c => 10 * n + (c.toNat - '0'.toNat)) 0)

def missing (number : Nat) : HostError := .failed s!"missing argument {number}"

/-- The form that a symbol stands for; other symbols stay. -/
def hole (call : Call) (symbol : Form) (base : String) : Except HostError Form :=
  match base with
  | "$ns" => .ok (.str call.site.ns)
  | "$site" => .ok ((call.site.span.map fun span => Form.str span.describe).getD .nil)
  | "$argc" => .ok (.int call.args.length)
  | "$g" => .ok ((call.fresh.map Symbol.form).getD symbol)
  | _ =>
    match base.toList with
    | '$' :: digits =>
      match number? digits with
      | some number =>
        if number = 0 then .error (missing number)
        else match call.args[number - 1]? with
          | some arg => .ok arg
          | none => .error (missing number)
      | none => .ok symbol
    | _ => .ok symbol

/-- The arguments that an element of a list or vector stands for, if it splices. -/
def splice? (call : Call) : Form → Option (List Form)
  | .symbol { ns := none, base } _ _ =>
    match base.toList with
    | ['$', '@'] => some call.args
    | '$' :: '@' :: digits => (number? digits).map fun number => call.args.drop (number - 1)
    | _ => none
  | _ => none

/-- An element gives one form unless it splices. -/
def splicedOr (call : Call) (item : Form) (single : Except HostError Form) :
    Except HostError (List Form) :=
  match splice? call item with
  | some args => .ok args
  | none => single.map ([·])

mutual
def fill (call : Call) : Form → Except HostError Form
  | .symbol name span metadata =>
    match name.ns with
    | none => hole call (.symbol name span metadata) name.base
    | some _ => .ok (.symbol name span metadata)
  | .list items span metadata => do
    let items ← fillItems call items
    return .list items span metadata
  | .vector items span metadata => do
    let items ← fillItems call items
    return .vector items span metadata
  | .map entries span metadata => do
    let entries ← fillEntries call entries
    return .map (Entries.ofList entries) span metadata
  | form => .ok form

def fillItems (call : Call) : List Form → Except HostError (List Form)
  | [] => .ok []
  | item :: rest => do
    let here ← splicedOr call item (fill call item)
    let there ← fillItems call rest
    return here ++ there

def fillEntries (call : Call) : List (Form × Form) → Except HostError (List (Form × Form))
  | [] => .ok []
  | (key, value) :: rest => do
    let key ← fill call key
    let value ← fill call value
    let others ← fillEntries call rest
    return (key, value) :: others
end

end Template

namespace HostTemplate

/-- The steps of a rule once the fresh name is drawn. -/
def steps (rule : HostRule) (call : Template.Call) : HostAction :=
  match rule with
  | .fail reason => .done (.error (.failed reason))
  | .arity counts =>
    .done (.ok (.bool (match call.args with
      | [.int count] => counts.contains count
      | _ => false)))
  | .analyze =>
    match call.args with
    | [] => .done (.error (Template.missing 1))
    | form :: _ => .analyze form fun result =>
      .done (match result with
        | .ok node => .ok (.str node.kindName)
        | .error error => .error (.failed error.describe))
  | .template body => .done (Template.fill call body)

def function (template : HostTemplate) : Host.Function := fun args site =>
  match template.stem with
  | none => steps template.rule { args, site, fresh := none }
  | some stem => .drawName stem fun symbol =>
    steps template.rule { args, site, fresh := some symbol }

end HostTemplate

end LispFront
