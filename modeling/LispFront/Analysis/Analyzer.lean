import LispFront.Analysis.Binder
import LispFront.Analysis.Block
import LispFront.Analysis.Call
import LispFront.Analysis.Declaration
import LispFront.Analysis.Define
import LispFront.Analysis.Guarded
import LispFront.Analysis.HostAccess
import LispFront.Analysis.Struct

/-! `Analyzer.analyze` turns a form into a tree. One step, `analyzeForm`, gives the rule of a form
in terms of the analysis of its parts; the steps are tied together by the depth of the form, which
bounds how far they can nest, and by a limit on expansions inside expansions. -/

namespace LispFront

structure Analyzer where
  settings : Settings := {}
  host : Host := .none
  /-- How many expansions may follow from one another. Macros that name each other
  twice make chains that double with each of them, so this is far above any chain
  that can be carried out; it ends only the expansion that never would. -/
  expansionLimit : Nat := Nat.pow 10 18

namespace Analyzer

def analyzeSpecial (analyzer : Analyzer) (visit : Visit) (form : SpecialForm)
    (args : List Form) (span : Option Span) (scope : Scope) : AnalyzeM Node :=
  match form with
  | .define => analyzeDefine visit args span scope
  | .fn => analyzeFn visit args span scope
  | .letIn => analyzeLet analyzer.settings visit args span scope
  | .loop => analyzeLoop visit args span scope
  | .block => analyzeBody visit args span scope
  | .branch => analyzeBranch visit args span scope
  | .recur => analyzeRecur visit args span scope
  | .quote => analyzeQuote args span scope
  | .apply => analyzeApply visit args span scope
  | .guarded => analyzeGuarded analyzer.settings visit args span scope
  | .throw => analyzeThrow visit args span scope
  | .assign => analyzeAssign analyzer.settings visit args span scope
  | .foreach => analyzeForeach visit args span scope
  | .ns => analyzeNs analyzer.settings args span scope
  | .inNs => analyzeInNs analyzer.settings args span scope
  | .defStruct => analyzeDefStruct analyzer.settings visit args span scope
  | .defInterface => analyzeDefInterface args span scope
  | .defException => analyzeDefException args span scope
  | .hostNew => analyzeHostNew visit args span scope
  | .hostMember => analyzeHostMember form false visit args span scope
  | .hostStaticMember => analyzeHostMember form true visit args span scope
  | .hostPropertySet => analyzeHostPropertySet visit args span scope
  | .hostArrayGet => analyzeHostPair form .hostArrayGet visit args span scope
  | .hostArraySet => analyzeHostArraySet visit args span scope
  | .hostArrayPush => analyzeHostPair form .hostArrayPush visit args span scope
  | .hostArrayUnset => analyzeHostPair form .hostArrayUnset visit args span scope

/-- The special form that a list is, by its head. -/
def special? (head : Form) : Option SpecialForm :=
  head.symbol?.bind fun symbol => SpecialForm.ofName? symbol.name

/-- One step: `visit` analyzes parts of the form, `expand` what the host returns. -/
def analyzeForm (analyzer : Analyzer) (visit expand : Visit) : Visit
  | .symbol name span metadata, scope =>
    analyzeSymbol analyzer.settings { name, span, metadata } scope
  | .list (head :: args) span _, scope =>
    match special? head with
    | some form => analyzer.analyzeSpecial visit form args span scope
    | none => analyzeCall analyzer.settings analyzer.host visit expand head args span scope
  | .vector items span _, scope => analyzeVector visit items span scope
  | .map entries span _, scope => analyzeMap visit entries span scope
  | form, scope => pure (literal form scope)

/-- Nested steps, `depth` of them at most. -/
def descend (analyzer : Analyzer) (expand : Visit) : Nat → Visit
  | 0 => fun form _ => AnalyzeM.failAt .nestingLimit form
  | depth + 1 => analyzer.analyzeForm (analyzer.descend expand depth) expand

/-- A rule may wrap the parts of a form into new forms, at most four deep: a loop
over patterns becomes a `let` around a `loop` around a `let`. -/
def stepsFor (form : Form) : Nat := 4 * form.depth

def analyzeWithin (analyzer : Analyzer) : Nat → Visit
  | 0 => fun form scope =>
    analyzer.descend (fun form _ => AnalyzeM.failAt .nestingLimit form) (stepsFor form) form scope
  | expansions + 1 => fun form scope =>
    analyzer.descend (analyzer.analyzeWithin expansions) (stepsFor form) form scope

def analyze (analyzer : Analyzer) : Visit :=
  analyzer.analyzeWithin analyzer.expansionLimit

def analyzeTopLevel (analyzer : Analyzer) (form : Form) : AnalyzeM Node :=
  analyzer.analyze form .top

end Analyzer

end LispFront
