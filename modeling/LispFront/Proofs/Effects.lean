import LispFront.Proofs.Draws

/-! An analysis changes the state only in the ways listed here, whether it succeeds or fails. So a
relation between states that each of them keeps and that composes is kept by every analysis
(`Tracks.follows_analyze`). It may depend on the frame that a `recur` would restart. -/

namespace LispFront

variable {α β : Type}

theorem Scope.returning_frame (scope : Scope) : scope.returning.frame = scope.frame := by
  unfold Scope.returning
  split <;> rfl

/-- The special forms whose own rule writes to the registry. -/
def SpecialForm.changesRegistry : SpecialForm → Bool
  | .define | .ns | .inNs | .defStruct | .defInterface | .defException => true
  | _ => false

/-- The special form that a form is. -/
def Form.special? : Form → Option SpecialForm
  | .list (head :: _) _ _ => Analyzer.special? head
  | _ => none

/-- What a special form writes to the registry: a definition or an interface under a name, or
what a switch to a namespace brings with it. -/
inductive Write where
  | definition (base : String)
  | interface (base : String)
  | switch
  deriving DecidableEq

/-- What a special form with these arguments writes, unless it fails before that. -/
def SpecialForm.write? (form : SpecialForm) (args : List Form) : Option Write :=
  let base := (args.head?.bind Form.plainSymbol?).map Symbol.base
  match form with
  | .define | .defStruct | .defException => base.map .definition
  | .defInterface => base.map .interface
  | .ns | .inNs => some .switch
  | _ => none

theorem definedName_eq_ok {form : SpecialForm} {args : List Form} {span : Option Span}
    {name : Symbol} (read : definedName form args span = .ok name) :
    args.head?.bind Form.plainSymbol? = some name := by
  unfold definedName at read
  split at read
  next found => rw [found, Except.ok.inj read]
  · contradiction

/-- One change to the registry, by what is written. -/
inductive Change (settings : Settings) (s : State) : Write → State → Prop where
  | define {base : String} {metadata : Entries} {previous : Option Definition}
      {registry : Registry} (added : s.registry.addDefinition s.registry.current base metadata =
        .ok (previous, registry)) : Change settings s (.definition base) { s with registry }
  /-- An interface is defined and its methods are noted. -/
  | interface {base : String} {span : Option Span} {previous : Option Definition}
      {registry : Registry} (methods : List String)
      (added : s.registry.addDefinition s.registry.current base
        ((Entries.flagged "interface").located span) = .ok (previous, registry)) :
      Change settings s (.interface base)
        { s with registry := registry.addInterface s.registry.current base methods }
  | declare {args : List Form} {span : Option Span} {ns : String} {declaration : Declaration}
      (read : Declaration.ofArgs settings args span = .ok (ns, declaration)) :
      Change settings s .switch { s with registry := declaration.register ns s.registry }
  | switch {ns : String} {span : Option Span} (valid : settings.checkNamespace ns span = .ok ()) :
      Change settings s .switch { s with registry := s.registry.setCurrent ns }

/-- A relation that every move of an analysis keeps, changes to the registry apart. -/
structure Steady (analyzer : Analyzer) (R : Option Frame → State → State → Prop) : Prop where
  refl : ∀ {frame s}, R frame s s
  trans : ∀ {frame s t u}, R frame s t → R frame t u → R frame s u
  inner : ∀ {frame s t}, R none s t → R frame s t
  names : ∀ {frame s} (draws : List Draw), R frame s { s with names := s.names.after draws }
  opens : ∀ {frame params s t},
    R (some { id := s.frames.length, params }) s.opened t → R frame s t
  restarts : ∀ {frame : Frame} {s}, R (some frame) s (s.restarted frame)
  host : ∀ {callable args site reenter s}, (∀ form s, R none s (reenter form s).2) →
    R none s ((analyzer.host.invoke callable args site).run reenter s).2

/-- A relation that every move of an analysis keeps, writes that are not allowed apart. A
failing definition is taken back, so that case is a move of its own. -/
structure Permits (analyzer : Analyzer) (allows : Write → Prop)
    (R : Option Frame → State → State → Prop) : Prop extends Steady analyzer R where
  change : ∀ {frame s t write}, allows write → Change analyzer.settings s write t → R frame s t
  undo : ∀ {frame s t base metadata previous registry}, allows (.definition base) →
    s.registry.addDefinition s.registry.current base metadata = .ok (previous, registry) →
    R none { s with registry } t →
    R frame s { t with
      registry := t.registry.restoreDefinition s.registry.current base previous }

/-- A relation that every move of an analysis keeps. -/
abbrev Tracks (analyzer : Analyzer) (R : Option Frame → State → State → Prop) : Prop :=
  Permits analyzer (fun _ => True) R

/-- The relation holds between the states before and after, whatever the outcome. -/
def Tracked (r : State → State → Prop) (step : AnalyzeM α) : Prop := ∀ s, r s (step s).2

theorem Tracked.of_run {r : State → State → Prop} {step : AnalyzeM α} {s t : State}
    {result : Except AnalysisError α} (tracked : Tracked r step) (run : step s = (result, t)) :
    r s t := by
  have reached := tracked s
  rw [run] at reached
  exact reached

def Follows (R : Option Frame → State → State → Prop) (visit : Visit) : Prop :=
  ∀ form scope, Tracked (R scope.frame) (visit form scope)

/-- With no host, a relation between registries need only allow for them to stay as they
are. -/
theorem Steady.between_registries {analyzer : Analyzer} (r : Registry → Registry → Prop)
    (unhosted : analyzer.host = .none) (refl : ∀ registry, r registry registry)
    (trans : ∀ {first second third}, r first second → r second third → r first third) :
    Steady analyzer fun _ s t => r s.registry t.registry where
  refl := refl _
  trans := trans
  inner kept := kept
  names _ := refl _
  opens kept := kept
  restarts := refl _
  host {callable args site reenter s} _ := by
    rw [unhosted]
    exact refl _

namespace Steady

variable {analyzer : Analyzer} {R : Option Frame → State → State → Prop}
variable (steady : Steady analyzer R) {frame : Option Frame}

include steady

theorem of_inner {step : AnalyzeM α} (tracked : Tracked (R none) step) :
    Tracked (R frame) step := fun s => steady.inner (tracked s)

theorem of_pure {a : α} : Tracked (R frame) (pure a) := fun _ => steady.refl

theorem of_throw {error : AnalysisError} : Tracked (R frame) (throw error : AnalyzeM α) :=
  fun _ => steady.refl

theorem of_fail {fault : Fault} {span : Option Span} :
    Tracked (R frame) (AnalyzeM.fail fault span : AnalyzeM α) := steady.of_throw

theorem of_failAt {fault : Fault} {form : Form} :
    Tracked (R frame) (AnalyzeM.failAt fault form : AnalyzeM α) := steady.of_throw

theorem of_ofExcept {result : Except AnalysisError α} :
    Tracked (R frame) (AnalyzeM.ofExcept result) := fun _ => steady.refl

theorem of_draw {draw : Draw} : Tracked (R frame) (AnalyzeM.ofNames (NameSupply.draw draw)) :=
  fun _ => steady.names [draw]

theorem of_temps {draw : NameM α} (temps : DrawsTemps draw) :
    Tracked (R frame) (AnalyzeM.ofNames draw) := by
  intro s
  obtain ⟨count, moved⟩ := temps s.names
  change R frame s { s with names := (draw s.names).2 }
  rw [moved]
  exact steady.names _

/-- What lowering does to the state, if it succeeds. -/
theorem lowered {draw : NameM α} {a : α} {s : State} {names : NameSupply}
    (temps : DrawsTemps draw) (run : Gives draw s.names a names) : R frame s { s with names } := by
  obtain ⟨count, moved⟩ := temps s.names
  rw [run] at moved
  obtain rfl : names = _ := moved
  exact steady.names _

theorem of_registry : Tracked (R frame) AnalyzeM.registry := fun _ => steady.refl

theorem of_activate {frame : Frame} : Tracked (R (some frame)) (AnalyzeM.activate frame) :=
  fun _ => steady.restarts

/-- The second step may rely on how the first one went. -/
theorem bind_given {x : AnalyzeM α} {f : α → AnalyzeM β} (first : Tracked (R frame) x)
    (rest : ∀ s a t, Gives x s a t → R frame t (f a t).2) : Tracked (R frame) (x >>= f) := by
  intro s
  match run : x s with
  | (.ok a, t) =>
    rw [bind_of_ok run]
    exact steady.trans (first.of_run run) (rest s a t run)
  | (.error error, t) =>
    rw [bind_of_error run]
    exact first.of_run run

theorem bind {x : AnalyzeM α} {f : α → AnalyzeM β} (first : Tracked (R frame) x)
    (rest : ∀ a, Tracked (R frame) (f a)) : Tracked (R frame) (x >>= f) :=
  steady.bind_given first fun _ a t _ => rest a t

theorem bind_ofExcept {result : Except AnalysisError α} {f : α → AnalyzeM β}
    (rest : ∀ a, result = .ok a → Tracked (R frame) (f a)) :
    Tracked (R frame) (AnalyzeM.ofExcept result >>= f) :=
  steady.bind_given steady.of_ofExcept fun _ a t run => rest a (gives_ofExcept.mp run).1 t

theorem bind_newFrame {params : List Symbol} {f : Frame → AnalyzeM β}
    (rest : ∀ own, Tracked (R (some own)) (f own)) :
    Tracked (R frame) (AnalyzeM.newFrame params >>= f) := by
  intro s
  rw [bind_of_ok (gives_newFrame.mpr ⟨rfl, rfl⟩)]
  exact steady.opens (rest _ _)

omit steady in
theorem bindAll_frame {visit : Visit} {pairs : List (Symbol × Form)} {scope bodyScope : Scope}
    {bindings : List (Binding Node)} {s t : State}
    (run : Gives (Binder.bindAll visit pairs scope) s (bindings, bodyScope) t) :
    bodyScope.frame = scope.frame := by
  induction pairs generalizing scope bindings s with
  | nil =>
    simp only [Binder.bindAll, gives_pure, Prod.mk.injEq] at run
    rw [run.1.2]
  | cons pair rest ih =>
    simp only [Binder.bindAll, gives_bind, gives_pure, Prod.mk.injEq] at run
    obtain ⟨shadow, _, _, init, _, _, ⟨later, inner⟩, _, more, ⟨_, rfl⟩, rfl⟩ := run
    have frames := ih more
    exact frames

section Rules

variable {visit : Visit} (visits : Follows R visit)
variable {args : List Form} {span : Option Span} {scope : Scope}

include visits

theorem of_inner_visit {form : Form} (blocked : scope.frame = none) :
    Tracked (R frame) (visit form scope) :=
  steady.of_inner (blocked ▸ visits form scope)

theorem of_visitAll {forms : List Form} :
    Tracked (R scope.frame) (visitAll visit scope forms) := by
  induction forms with
  | nil => exact steady.of_pure
  | cons form rest ih =>
    exact steady.bind (visits form scope) fun _ => steady.bind ih fun _ => steady.of_pure

theorem of_inner_visitAll {forms : List Form} (blocked : scope.frame = none) :
    Tracked (R frame) (visitAll visit scope forms) :=
  steady.of_inner (blocked ▸ steady.of_visitAll visits)

theorem of_analyzeVector {items : List Form} :
    Tracked (R frame) (analyzeVector visit items span scope) :=
  steady.bind (steady.of_inner_visitAll visits rfl) fun _ => steady.of_pure

theorem of_visitEntries {entries : List (Form × Form)} (blocked : scope.frame = none) :
    Tracked (R frame) (visitEntries visit scope entries) := by
  induction entries with
  | nil => exact steady.of_pure
  | cons entry rest ih =>
    refine steady.bind (steady.of_inner_visit visits blocked) fun _ => ?_
    refine steady.bind (steady.of_inner_visit visits blocked) fun _ => ?_
    exact steady.bind ih fun _ => steady.of_pure

theorem of_analyzeMap {entries : Entries} :
    Tracked (R frame) (analyzeMap visit entries span scope) :=
  steady.bind (steady.of_visitEntries visits rfl) fun _ => steady.of_pure

theorem of_analyzeBody {forms : List Form} (current : scope.frame = frame) :
    Tracked (R frame) (analyzeBody visit forms span scope) := by
  subst current
  refine steady.bind (steady.of_inner_visitAll visits rfl) fun _ => ?_
  exact steady.bind (visits _ scope) fun _ => steady.of_pure

theorem of_inner_analyzeBody {forms : List Form} (blocked : scope.frame = none) :
    Tracked (R frame) (analyzeBody visit forms span scope) :=
  steady.of_inner (steady.of_analyzeBody visits blocked)

theorem of_analyzeChoice {test yes no : Form} :
    Tracked (R scope.frame) (analyzeChoice visit test yes no span scope) := by
  refine steady.bind (steady.of_inner_visit visits rfl) fun _ => ?_
  refine steady.bind (visits yes scope) fun _ => ?_
  exact steady.bind (visits no scope) fun _ => steady.of_pure

theorem of_analyzeBranch : Tracked (R scope.frame) (analyzeBranch visit args span scope) := by
  unfold analyzeBranch
  split
  · exact steady.of_analyzeChoice visits
  · exact steady.of_analyzeChoice visits
  · exact steady.of_fail

theorem of_analyzeThrow : Tracked (R frame) (analyzeThrow visit args span scope) := by
  unfold analyzeThrow
  split
  · exact steady.bind (steady.of_inner_visit visits rfl) fun _ => steady.of_pure
  · exact steady.of_fail

theorem of_analyzeApply : Tracked (R frame) (analyzeApply visit args span scope) := by
  unfold analyzeApply
  split
  · refine steady.bind (steady.of_inner_visit visits rfl) fun _ => ?_
    exact steady.bind (steady.of_inner_visitAll visits rfl) fun _ => steady.of_pure
  · exact steady.of_fail

theorem of_bindAll {pairs : List (Symbol × Form)} :
    Tracked (R frame) (Binder.bindAll visit pairs scope) := by
  induction pairs generalizing scope with
  | nil => exact steady.of_pure
  | cons pair rest ih =>
    refine steady.bind steady.of_draw fun _ => ?_
    refine steady.bind (steady.of_inner_visit visits rfl) fun _ => ?_
    exact steady.bind ih fun _ => steady.of_pure

theorem of_analyzeLet :
    Tracked (R scope.frame) (analyzeLet analyzer.settings visit args span scope) := by
  refine steady.bind steady.of_ofExcept fun ⟨pairs, body⟩ => ?_
  refine steady.bind (steady.of_temps temps_lowering.lowerPairs) fun flat => ?_
  refine steady.bind_given (steady.of_bindAll visits) ?_
  rintro s ⟨bindings, bodyScope⟩ t bound
  have current := (bindAll_frame bound).trans scope.returning_frame
  exact steady.bind (steady.of_analyzeBody visits current) (fun _ => steady.of_pure) t

theorem of_analyzeLoop : Tracked (R scope.frame) (analyzeLoop visit args span scope) := by
  refine steady.bind steady.of_ofExcept fun ⟨pairs, body⟩ => ?_
  dsimp only
  split
  · refine steady.bind_newFrame fun own => ?_
    refine steady.bind (steady.of_bindAll visits) fun ⟨bindings, bodyScope⟩ => ?_
    exact steady.bind (steady.of_analyzeBody visits rfl) fun _ => steady.of_pure
  · exact steady.bind (steady.of_temps temps_lowering.lowerLoop) fun lowered =>
      visits lowered scope

theorem of_analyzeLambda : Tracked (R frame) (analyzeLambda visit args span scope) := by
  unfold analyzeLambda
  split
  · exact steady.of_fail
  · refine steady.bind (steady.of_temps temps_lowering.lowerParameters) fun params => ?_
    refine steady.bind_newFrame fun own => ?_
    exact steady.bind (steady.of_analyzeBody visits rfl) fun _ => steady.of_pure
  · exact steady.of_failAt

theorem of_analyzeFn : Tracked (R frame) (analyzeFn visit args span scope) :=
  steady.bind (steady.of_analyzeLambda visits) fun _ => steady.of_pure

theorem of_analyzeRecur : Tracked (R scope.frame) (analyzeRecur visit args span scope) := by
  unfold analyzeRecur
  split
  · exact steady.of_fail
  next frame current =>
    rw [current]
    split
    · refine steady.bind steady.of_activate fun _ => ?_
      exact steady.bind (steady.of_inner_visitAll visits rfl) fun _ => steady.of_pure
    · exact steady.of_fail

theorem of_analyzeEach {key : Option Form} {value coll : Form} {body : List Form} :
    Tracked (R frame) (analyzeEach visit key value coll body span scope) := by
  refine steady.bind (steady.of_inner_visit visits rfl) fun _ => ?_
  refine steady.bind (steady.of_temps temps_lowering.nameFor) fun ⟨value, valueBindings⟩ => ?_
  refine steady.bind (steady.of_temps temps_lowering.nameForOption) fun ⟨key, keyBindings⟩ => ?_
  exact steady.bind (steady.of_inner_analyzeBody visits rfl) fun _ => steady.of_pure

theorem of_analyzeForeach : Tracked (R frame) (analyzeForeach visit args span scope) := by
  unfold analyzeForeach
  split
  · exact steady.of_fail
  · exact steady.of_analyzeEach visits
  · exact steady.of_analyzeEach visits
  · exact steady.of_fail
  · exact steady.of_failAt

omit visits in
theorem of_analyzeSymbol {symbol : Symbol} :
    Tracked (R frame) (analyzeSymbol analyzer.settings symbol scope) :=
  steady.bind steady.of_registry fun _ => steady.bind steady.of_ofExcept fun _ => steady.of_pure

theorem of_analyzeHandler {clause : Guarded.Clause} :
    Tracked (R frame) (Guarded.analyzeHandler analyzer.settings visit scope clause) := by
  unfold Guarded.analyzeHandler
  split
  · split
    · refine steady.bind steady.of_analyzeSymbol fun exception => ?_
      split
      · exact steady.bind (steady.of_inner_analyzeBody visits rfl) fun _ => steady.of_pure
      · exact steady.of_fail
    · exact steady.of_fail
  · exact steady.of_fail

theorem of_analyzeHandlers {clauses : List Guarded.Clause} :
    Tracked (R frame) (Guarded.analyzeHandlers analyzer.settings visit scope clauses) := by
  induction clauses with
  | nil => exact steady.of_pure
  | cons clause rest ih =>
    exact steady.bind (steady.of_analyzeHandler visits) fun _ =>
      steady.bind ih fun _ => steady.of_pure

theorem of_analyzeCleanup {clause : Option Guarded.Clause} (blocked : scope.frame = none) :
    Tracked (R frame) (Guarded.analyzeCleanup visit scope clause) := by
  cases clause with
  | none => exact steady.of_pure
  | some clause =>
    exact steady.bind (steady.of_inner_analyzeBody visits blocked) fun _ => steady.of_pure

theorem of_analyzeGuarded :
    Tracked (R scope.frame) (analyzeGuarded analyzer.settings visit args span scope) := by
  refine steady.bind steady.of_ofExcept fun parts => ?_
  split
  · exact steady.of_analyzeBody visits rfl
  · refine steady.bind (steady.of_inner_analyzeBody visits rfl) fun _ => ?_
    refine steady.bind (steady.of_analyzeHandlers visits) fun _ => ?_
    exact steady.bind (steady.of_analyzeCleanup visits rfl) fun _ => steady.of_pure

theorem of_visitBoth {first second : Form} (blocked : scope.frame = none) :
    Tracked (R frame) (visitBoth visit first second scope) := by
  refine steady.bind (steady.of_inner_visit visits blocked) fun _ => ?_
  exact steady.bind (steady.of_inner_visit visits blocked) fun _ => steady.of_pure

theorem of_analyzeAssign :
    Tracked (R frame) (analyzeAssign analyzer.settings visit args span scope) := by
  unfold analyzeAssign
  split
  · split
    · exact steady.of_fail
    · refine steady.bind steady.of_analyzeSymbol fun target => ?_
      split
      · exact steady.bind (steady.of_inner_visit visits rfl) fun _ => steady.of_pure
      · exact steady.of_fail
  · exact steady.of_fail

theorem of_analyzeMethods {definition : Definition} {declared : List String}
    {methods : List Struct.MethodForm} :
    Tracked (R frame) (Struct.analyzeMethods visit definition declared scope methods) := by
  induction methods with
  | nil => exact steady.of_pure
  | cons method rest ih =>
    refine steady.bind steady.of_ofExcept fun _ => ?_
    refine steady.bind (steady.of_analyzeLambda visits) fun _ => ?_
    exact steady.bind ih fun _ => steady.of_pure

theorem of_analyzeGroup {group : Struct.Group} :
    Tracked (R frame) (Struct.analyzeGroup analyzer.settings visit scope group) := by
  refine steady.bind steady.of_registry fun _ => ?_
  refine steady.bind steady.of_ofExcept fun ⟨definition, declared⟩ => ?_
  refine steady.bind (steady.of_analyzeMethods visits) fun methods => ?_
  split
  · exact steady.of_pure
  · exact steady.of_fail

theorem of_analyzeGroups {groups : List Struct.Group} :
    Tracked (R frame) (Struct.analyzeGroups analyzer.settings visit scope groups) := by
  induction groups with
  | nil => exact steady.of_pure
  | cons group rest ih =>
    exact steady.bind (steady.of_analyzeGroup visits) fun _ =>
      steady.bind ih fun _ => steady.of_pure

theorem of_analyzeHostNew : Tracked (R frame) (analyzeHostNew visit args span scope) := by
  unfold analyzeHostNew
  split
  · exact steady.of_fail
  · refine steady.bind (steady.of_inner_visit visits rfl) fun _ => ?_
    exact steady.bind (steady.of_inner_visitAll visits rfl) fun _ => steady.of_pure

theorem of_analyzeHostMember {form : SpecialForm} {static : Bool} :
    Tracked (R frame) (analyzeHostMember form static visit args span scope) := by
  unfold analyzeHostMember
  split
  · refine steady.bind (steady.of_inner_visit visits rfl) fun target => ?_
    split
    · split
      · exact steady.bind (steady.of_inner_visitAll visits rfl) fun _ => steady.of_pure
      · exact steady.of_failAt
    · split
      · exact steady.of_pure
      · exact steady.of_failAt
  · exact steady.of_fail

theorem of_analyzeHostPropertySet :
    Tracked (R frame) (analyzeHostPropertySet visit args span scope) := by
  unfold analyzeHostPropertySet
  split
  · refine steady.bind (steady.of_inner_visit visits rfl) fun target => ?_
    refine steady.bind (steady.of_inner_visit visits rfl) fun value => ?_
    split
    · exact steady.of_pure
    · exact steady.of_fail
  · exact steady.of_fail

theorem of_analyzeHostPair {form : SpecialForm} {shape : Node → Node → Shape Node} :
    Tracked (R frame) (analyzeHostPair form shape visit args span scope) := by
  unfold analyzeHostPair
  split
  · refine steady.bind (steady.of_inner_visit visits rfl) fun _ => ?_
    exact steady.bind (steady.of_inner_visit visits rfl) fun _ => steady.of_pure
  · exact steady.of_fail

theorem of_analyzeHostArraySet :
    Tracked (R frame) (analyzeHostArraySet visit args span scope) := by
  unfold analyzeHostArraySet
  split
  · refine steady.bind (steady.of_inner_visit visits rfl) fun _ => ?_
    refine steady.bind (steady.of_inner_visit visits rfl) fun _ => ?_
    exact steady.bind (steady.of_inner_visit visits rfl) fun _ => steady.of_pure
  · exact steady.of_fail

omit visits in
theorem of_analyzeQuote : Tracked (R frame) (analyzeQuote args span scope) := by
  unfold analyzeQuote
  split
  · exact steady.of_pure
  · exact steady.of_fail

theorem of_analyzeSpecial {form : SpecialForm} (quiet : form.changesRegistry = false) :
    Tracked (R scope.frame) (analyzer.analyzeSpecial visit form args span scope) := by
  cases form with
  | fn => exact steady.of_analyzeFn visits
  | letIn => exact steady.of_analyzeLet visits
  | loop => exact steady.of_analyzeLoop visits
  | block => exact steady.of_analyzeBody visits rfl
  | branch => exact steady.of_analyzeBranch visits
  | recur => exact steady.of_analyzeRecur visits
  | quote => exact steady.of_analyzeQuote
  | apply => exact steady.of_analyzeApply visits
  | guarded => exact steady.of_analyzeGuarded visits
  | throw => exact steady.of_analyzeThrow visits
  | assign => exact steady.of_analyzeAssign visits
  | foreach => exact steady.of_analyzeForeach visits
  | hostNew => exact steady.of_analyzeHostNew visits
  | hostMember => exact steady.of_analyzeHostMember visits
  | hostStaticMember => exact steady.of_analyzeHostMember visits
  | hostPropertySet => exact steady.of_analyzeHostPropertySet visits
  | hostArrayGet => exact steady.of_analyzeHostPair visits
  | hostArraySet => exact steady.of_analyzeHostArraySet visits
  | hostArrayPush => exact steady.of_analyzeHostPair visits
  | hostArrayUnset => exact steady.of_analyzeHostPair visits
  | _ => contradiction

end Rules

section Expansion

variable {reenter : Form → AnalyzeM Node} (reenters : ∀ form, Tracked (R none) (reenter form))
variable {args : List Form} {span : Option Span} {scope : Scope}

include reenters

theorem of_callHost {callable : Callable} :
    Tracked (R frame) (Call.callHost analyzer.host reenter callable args span) := by
  refine steady.bind steady.of_registry fun registry => ?_
  refine steady.bind ?_ fun result => ?_
  · exact fun s => steady.inner (steady.host reenters)
  · split
    · exact steady.of_pure
    · exact steady.of_throw

theorem of_expansionKind {definition : Definition} :
    Tracked (R frame) (Call.expansionKind? analyzer.host reenter definition args span) := by
  unfold Call.expansionKind?
  split
  · exact steady.of_pure
  split
  · exact steady.of_pure
  split
  · exact steady.of_pure
  · exact steady.bind (steady.of_callHost reenters) fun _ => steady.of_pure

theorem of_expansion {definition : Definition} :
    Tracked (R frame) (Call.expansion? analyzer.host reenter definition args span) := by
  refine steady.bind (steady.of_expansionKind reenters) fun kind => ?_
  split
  · exact steady.of_pure
  · exact steady.bind (steady.of_callHost reenters) fun _ => steady.of_pure

/-- Deciding on an expansion, and making it, happens outside of every frame. -/
theorem of_expanded {head : Form} :
    Tracked (R frame)
      (Call.expanded? analyzer.settings analyzer.host reenter head args span scope) := by
  unfold Call.expanded?
  split
  · exact steady.of_pure
  · refine steady.bind steady.of_registry fun registry => ?_
    refine steady.bind steady.of_ofExcept fun found => ?_
    split
    · exact steady.of_pure
    · exact steady.of_expansion reenters

end Expansion

variable {visit expand : Visit} (visits : Follows R visit) (expands : Follows R expand)

include visits expands

theorem of_analyzeCall {head : Form} {args : List Form} {span : Option Span} {scope : Scope} :
    Tracked (R scope.frame)
      (analyzeCall analyzer.settings analyzer.host visit expand head args span scope) := by
  refine steady.bind (steady.of_expanded fun form => expands form .top) fun expansion => ?_
  split
  · exact expands _ scope
  · refine steady.bind (steady.of_inner_visit visits rfl) fun _ => ?_
    exact steady.bind (steady.of_inner_visitAll visits rfl) fun _ => steady.of_pure

/-- How a list with a special head is followed is left open here. -/
theorem of_analyzeForm {form : Form} {scope : Scope}
    (specials : ∀ head args span metadata special, form = .list (head :: args) span metadata →
      Analyzer.special? head = some special →
      Tracked (R scope.frame) (analyzer.analyzeSpecial visit special args span scope)) :
    Tracked (R scope.frame) (analyzer.analyzeForm visit expand form scope) := by
  unfold Analyzer.analyzeForm
  split
  · exact steady.of_analyzeSymbol
  · split
    next found => exact specials _ _ _ _ _ rfl found
    next => exact steady.of_analyzeCall visits expands
  · exact steady.of_analyzeVector visits
  · exact steady.of_analyzeMap visits
  · exact steady.of_pure

end Steady

namespace Permits

variable {analyzer : Analyzer} {allows : Write → Prop}
variable {R : Option Frame → State → State → Prop}
variable (permits : Permits analyzer allows R) {frame : Option Frame}

include permits

theorem both {T : Option Frame → State → State → Prop} (other : Permits analyzer allows T) :
    Permits analyzer allows fun frame s t => R frame s t ∧ T frame s t where
  refl := ⟨permits.refl, other.refl⟩
  trans first second := ⟨permits.trans first.1 second.1, other.trans first.2 second.2⟩
  inner kept := ⟨permits.inner kept.1, other.inner kept.2⟩
  names drawn := ⟨permits.names drawn, other.names drawn⟩
  opens kept := ⟨permits.opens kept.1, other.opens kept.2⟩
  restarts := ⟨permits.restarts, other.restarts⟩
  host reenters := ⟨permits.host fun form s => (reenters form s).1,
    other.host fun form s => (reenters form s).2⟩
  change allowed change := ⟨permits.change allowed change, other.change allowed change⟩
  undo allowed added kept := ⟨permits.undo allowed added kept.1, other.undo allowed added kept.2⟩

section Rules

variable {args : List Form} {span : Option Span} {scope : Scope}

theorem of_define {name : Symbol} {metadata : Entries}
    (allowed : allows (.definition name.base)) :
    Tracked (R frame) (AnalyzeM.define name metadata) := by
  intro s
  match defined : AnalyzeM.define name metadata s with
  | (.ok previous, t) =>
    obtain ⟨registry, added, rfl⟩ := gives_define.mp defined
    exact permits.change allowed (.define added)
  | (.error error, t) =>
    obtain rfl := state_of_fails_define defined
    exact permits.refl

/-- A definition whose value fails is taken back from the state the failure left. -/
theorem define_onFailure {name : Symbol} {metadata : Entries}
    {step : Registry → Option Definition → AnalyzeM α} {f : Registry → α → AnalyzeM β}
    (allowed : allows (.definition name.base))
    (inside : ∀ registry previous, Tracked (R none) (step registry previous))
    (rest : ∀ registry a, Tracked (R frame) (f registry a)) :
    Tracked (R frame) (do
      let registry ← AnalyzeM.registry
      let previous ← AnalyzeM.define name metadata
      let a ← AnalyzeM.onFailure
        (Registry.restoreDefinition registry.current name.base previous) (step registry previous)
      f registry a) := by
  intro s
  rw [bind_of_ok (gives_registry.mpr ⟨rfl, rfl⟩)]
  match defined : AnalyzeM.define name metadata s with
  | (.error error, t) =>
    rw [bind_of_error defined]
    exact (permits.of_define allowed).of_run defined
  | (.ok previous, t) =>
    rw [bind_of_ok defined]
    obtain ⟨registry, added, rfl⟩ := gives_define.mp defined
    match run : step s.registry previous { s with registry } with
    | (.ok a, u) =>
      rw [bind_of_ok (gives_onFailure.mpr run)]
      have defined : R frame s { s with registry } := permits.change allowed (.define added)
      have visited : R frame { s with registry } u := permits.inner ((inside _ _).of_run run)
      exact permits.trans (permits.trans defined visited) (rest _ a u)
    | (.error error, u) =>
      rw [bind_of_error (AnalyzeM.onFailure_of_error run)]
      exact permits.undo allowed added ((inside _ _).of_run run)

theorem of_analyzeDefInterface
    (permitted : ∀ write ∈ SpecialForm.defInterface.write? args, allows write) :
    Tracked (R frame) (analyzeDefInterface args span scope) := by
  unfold analyzeDefInterface
  split
  · exact permits.of_fail
  · refine permits.bind_ofExcept fun name named => ?_
    refine permits.bind permits.of_ofExcept fun methods => ?_
    have allowed : allows (.interface name.base) :=
      permitted _ (by simp [SpecialForm.write?, definedName_eq_ok named])
    intro s
    rw [bind_of_ok (gives_registry.mpr ⟨rfl, rfl⟩)]
    -- The two changes are one move, so the definition alone is not followed here.
    match defined : AnalyzeM.define name ((Entries.flagged "interface").located span) s with
    | (.error error, t) =>
      rw [bind_of_error defined]
      obtain rfl := state_of_fails_define defined
      exact permits.refl
    | (.ok previous, t) =>
      rw [bind_of_ok defined]
      obtain ⟨registry, added, rfl⟩ := gives_define.mp defined
      exact permits.change allowed (.interface _ added)

theorem of_analyzeDefException
    (permitted : ∀ write ∈ SpecialForm.defException.write? args, allows write) :
    Tracked (R frame) (analyzeDefException args span scope) := by
  unfold analyzeDefException
  split
  · refine permits.bind_ofExcept fun name named => ?_
    refine permits.bind permits.of_registry fun registry => ?_
    have allowed : allows (.definition name.base) :=
      permitted _ (by simp [SpecialForm.write?, definedName_eq_ok named])
    exact permits.bind (permits.of_define allowed) fun _ => permits.of_pure
  · exact permits.of_fail

theorem of_analyzeNs (allowed : allows .switch) :
    Tracked (R frame) (analyzeNs analyzer.settings args span scope) := by
  intro s
  unfold analyzeNs
  match read : Declaration.ofArgs analyzer.settings args span with
  | .ok (ns, declaration) => exact permits.change allowed (.declare read)
  | .error error => exact permits.refl

theorem of_analyzeInNs (allowed : allows .switch) :
    Tracked (R frame) (analyzeInNs analyzer.settings args span scope) := by
  unfold analyzeInNs
  split
  next arg =>
    refine permits.bind permits.of_ofExcept fun ns => ?_
    intro s
    match valid : analyzer.settings.checkNamespace ns (arg.span.or span) with
    | .ok () => exact permits.change allowed (.switch valid)
    | .error error => exact permits.refl
  · exact permits.of_fail

variable {visit : Visit} (visits : Follows R visit)

include visits

theorem of_analyzeDefine
    (permitted : ∀ write ∈ SpecialForm.define.write? args, allows write) :
    Tracked (R frame) (analyzeDefine visit args span scope) := by
  unfold analyzeDefine
  split
  · refine permits.bind permits.of_ofExcept fun ⟨metadataForm, init⟩ => ?_
    refine permits.bind_ofExcept fun name named => ?_
    refine permits.bind permits.of_ofExcept fun metadata => ?_
    have allowed : allows (.definition name.base) :=
      permitted _ (by simp [SpecialForm.write?, definedName_eq_ok named])
    exact permits.define_onFailure allowed (fun _ _ => permits.of_visitBoth visits rfl) fun _ _ =>
      permits.of_pure
  · exact permits.of_fail

theorem of_analyzeDefStruct
    (permitted : ∀ write ∈ SpecialForm.defStruct.write? args, allows write) :
    Tracked (R frame) (analyzeDefStruct analyzer.settings visit args span scope) := by
  unfold analyzeDefStruct
  split
  · exact permits.of_fail
  · refine permits.bind_ofExcept fun name named => ?_
    refine permits.bind permits.of_ofExcept fun fields => ?_
    refine permits.bind permits.of_registry fun registry => ?_
    have allowed : allows (.definition name.base) :=
      permitted _ (by simp [SpecialForm.write?, definedName_eq_ok named])
    refine permits.bind (permits.of_define allowed) fun _ => ?_
    refine permits.bind permits.of_ofExcept fun groups => ?_
    exact permits.bind (permits.of_analyzeGroups visits) fun _ => permits.of_pure

theorem of_analyzeSpecial {form : SpecialForm}
    (permitted : ∀ write ∈ form.write? args, allows write) :
    Tracked (R scope.frame) (analyzer.analyzeSpecial visit form args span scope) := by
  cases changes : form.changesRegistry with
  | false => exact permits.toSteady.of_analyzeSpecial visits changes
  | true =>
    cases form with
    | define => exact permits.of_analyzeDefine visits permitted
    | ns => exact permits.of_analyzeNs (permitted _ rfl)
    | inNs => exact permits.of_analyzeInNs (permitted _ rfl)
    | defStruct => exact permits.of_analyzeDefStruct visits permitted
    | defInterface => exact permits.of_analyzeDefInterface permitted
    | defException => exact permits.of_analyzeDefException permitted
    | _ => contradiction

end Rules

end Permits

namespace Tracks

variable {analyzer : Analyzer} {R : Option Frame → State → State → Prop}
variable (tracks : Tracks analyzer R)
variable {expand : Visit} (expands : Follows R expand)

include tracks expands

theorem follows_analyzeForm {visit : Visit} (visits : Follows R visit) :
    Follows R (analyzer.analyzeForm visit expand) := fun _ _ =>
  tracks.of_analyzeForm visits expands fun _ _ _ _ _ _ _ =>
    tracks.of_analyzeSpecial visits fun _ _ => trivial

theorem follows_descend (depth : Nat) : Follows R (analyzer.descend expand depth) := by
  induction depth with
  | zero => exact fun _ _ => tracks.of_failAt
  | succ depth ih => exact tracks.follows_analyzeForm expands ih

omit expands in
theorem follows_analyzeWithin (expansions : Nat) :
    Follows R (analyzer.analyzeWithin expansions) := by
  induction expansions with
  | zero =>
    exact fun form scope =>
      tracks.follows_descend (fun _ _ => tracks.of_failAt) (Analyzer.stepsFor form) form scope
  | succ expansions ih =>
    exact fun form scope => tracks.follows_descend ih (Analyzer.stepsFor form) form scope

omit expands in
/-- What every move keeps holds between the states around an analysis. -/
theorem follows_analyze : Follows R analyzer.analyze :=
  tracks.follows_analyzeWithin analyzer.expansionLimit

end Tracks

end LispFront
