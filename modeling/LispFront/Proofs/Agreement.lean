import LispFront.Proofs.Effects
import LispFront.Proofs.Faults
import LispFront.Proofs.Prompts

/-! A rule reads its form, the state, and what the analysis of the forms it prompts gives it. If two
ways to visit agree on these forms and two states look the same (`S`), the rule gives the same
result in both, and the states look the same again (`Mirror.of_analyzeForm`). `E` is what is known
about errors. -/

namespace LispFront

variable {α β : Type} {S : State → State → Prop} {E : AnalysisError → Prop}

structure Same (S : State → State → Prop) (E : AnalysisError → Prop)
    (first second : Except AnalysisError α × State) : Prop where
  result : first.1 = second.1
  states : S first.2 second.2
  failure : ∀ error, first.1 = .error error → E error

def Agrees (S : State → State → Prop) (E : AnalysisError → Prop) (x y : AnalyzeM α) : Prop :=
  ∀ s t, S s t → Same S E (x s) (y t)

/-- The form is visited alike, in every scope. -/
def Alike (S : State → State → Prop) (E : AnalysisError → Prop) (first second : Visit)
    (form : Form) : Prop :=
  ∀ scope, Agrees S E (first form scope) (second form scope)

/-- The second step may rely on how the first one went. -/
theorem Agrees.bind_given {x y : AnalyzeM α} {f g : α → AnalyzeM β} (first : Agrees S E x y)
    (rest : ∀ s a u v, Gives x s a u → S u v → Same S E (f a u) (g a v)) :
    Agrees S E (x >>= f) (y >>= g) := by
  intro s t related
  have same := first s t related
  rcases left : x s with ⟨outcome, u⟩
  rcases right : y t with ⟨other, v⟩
  rw [left, right] at same
  obtain ⟨rfl, states, failure⟩ := same
  cases outcome with
  | ok a =>
    rw [bind_of_ok left, bind_of_ok right]
    exact rest s a u v left states
  | error error =>
    rw [bind_of_error left, bind_of_error right]
    exact ⟨rfl, states, fun _ raised => failure _ (congrArg _ (Except.error.inj raised))⟩

theorem Agrees.bind {x y : AnalyzeM α} {f g : α → AnalyzeM β} (first : Agrees S E x y)
    (rest : ∀ a, Agrees S E (f a) (g a)) : Agrees S E (x >>= f) (y >>= g) :=
  first.bind_given fun _ a u v _ related => rest a u v related

theorem Agrees.pure {a : α} : Agrees S E (pure a) (pure a) := fun _ _ related =>
  ⟨rfl, related, fun _ failed => by contradiction⟩

namespace Call

variable {settings : Settings} {reenter : Form → AnalyzeM Node} {head : Form}
variable {args : List Form} {span : Option Span} {scope : Scope} {s t : State}

theorem not_gives_callHost_none {callable : Callable} {form : Form} :
    ¬ Gives (callHost .none reenter callable args span) s form t := by
  intro run
  obtain ⟨error, fails⟩ : ∃ error, callHost .none reenter callable args span s =
      (.error error, s) := ⟨_, rfl⟩
  have impossible := (Prod.mk.inj (fails.symm.trans run)).1
  contradiction

/-- Without a host nothing is expanded. -/
theorem not_gives_expanded?_none {form : Form} :
    ¬ Gives (expanded? settings .none reenter head args span scope) s (some form) t := by
  intro run
  unfold expanded? at run
  split at run
  · have impossible := (gives_pure.mp run).1
    contradiction
  · simp only [gives_bind] at run
    obtain ⟨_, _, _, found, _, _, run⟩ := run
    cases found with
    | none =>
      have impossible := (gives_pure.mp run).1
      contradiction
    | some definition =>
      simp only [expansion?, gives_bind] at run
      obtain ⟨kind, _, _, run⟩ := run
      cases kind with
      | none =>
        have impossible := (gives_pure.mp run).1
        contradiction
      | some kind =>
        obtain ⟨_, _, made, _⟩ := gives_bind.mp run
        exact not_gives_callHost_none made

end Call

/-- Related states look the same to every rule, and what a rule does to both of them leaves
them related. Rules that declare or switch namespaces are left out. -/
structure Mirror (core : String) (S : State → State → Prop) (E : AnalysisError → Prop) :
    Prop where
  genuine : ∀ error : AnalysisError, error.Genuine → E error
  names : ∀ {s t}, S s t → s.names = t.names
  drawn : ∀ {s t}, S s t → ∀ names, S { s with names } { t with names }
  frames : ∀ {s t}, S s t → s.frames.length = t.frames.length
  opened : ∀ {s t}, S s t → S s.opened t.opened
  restarted : ∀ {s t}, S s t → ∀ frame : Frame, S (s.restarted frame) (t.restarted frame)
  current : ∀ {s t}, S s t → s.registry.current = t.registry.current
  classAlias : ∀ {s t}, S s t → ∀ symbol,
    Resolve.classAlias? s.registry symbol = Resolve.classAlias? t.registry symbol
  global : ∀ {s t}, S s t → ∀ symbol,
    Resolve.global? core s.registry symbol = Resolve.global? core t.registry symbol
  interface : ∀ {s t}, S s t → ∀ ns base,
    s.registry.interface? ns base = t.registry.interface? ns base
  define : ∀ {s t}, S s t → ∀ name metadata,
    Same S E (AnalyzeM.define name metadata s) (AnalyzeM.define name metadata t)
  undo : ∀ {s t}, S s t → ∀ ns base previous,
    S { s with registry := s.registry.restoreDefinition ns base previous }
      { t with registry := t.registry.restoreDefinition ns base previous }
  note : ∀ {s t}, S s t → ∀ ns base methods,
    S { s with registry := s.registry.addInterface ns base methods }
      { t with registry := t.registry.addInterface ns base methods }

namespace Mirror

variable {core : String} (mirror : Mirror core S E)

include mirror

theorem of_throw {error : AnalysisError} (genuine : error.Genuine) :
    Agrees S E (throw error : AnalyzeM α) (throw error) := fun _ _ related =>
  ⟨rfl, related, fun _ raised => Except.error.inj raised ▸ mirror.genuine error genuine⟩

theorem of_fail {fault : Fault} {span : Option Span} (genuine : fault ≠ .nestingLimit) :
    Agrees S E (AnalyzeM.fail fault span : AnalyzeM α) (AnalyzeM.fail fault span) :=
  mirror.of_throw genuine

theorem of_failAt {fault : Fault} {form : Form} (genuine : fault ≠ .nestingLimit) :
    Agrees S E (AnalyzeM.failAt fault form : AnalyzeM α) (AnalyzeM.failAt fault form) :=
  mirror.of_throw genuine

theorem of_ofExcept {result : Except AnalysisError α} (frank : Frank result) :
    Agrees S E (AnalyzeM.ofExcept result) (AnalyzeM.ofExcept result) := fun _ _ related =>
  ⟨rfl, related, fun error failed => mirror.genuine error (frank error failed)⟩

theorem of_ofNames {draw : NameM α} (frank : FrankNames draw) :
    Agrees S E (AnalyzeM.ofNames draw) (AnalyzeM.ofNames draw) := by
  intro s t related
  have names := mirror.names related
  refine ⟨congrArg (fun names => (draw names).1) names, ?_, fun error failed => ?_⟩
  · change S { s with names := (draw s.names).2 } { t with names := (draw t.names).2 }
    rw [← names]
    exact mirror.drawn related _
  · exact mirror.genuine error (frank s.names error failed)

theorem of_newFrame {params : List Symbol} :
    Agrees S E (AnalyzeM.newFrame params) (AnalyzeM.newFrame params) := fun s t related => by
  refine ⟨?_, mirror.opened related, fun _ failed => by contradiction⟩
  change Except.ok _ = Except.ok _
  rw [mirror.frames related]

theorem of_activate {frame : Frame} :
    Agrees S E (AnalyzeM.activate frame) (AnalyzeM.activate frame) := fun _ _ related =>
  ⟨rfl, mirror.restarted related frame, fun _ failed => by contradiction⟩

omit mirror in
theorem bind_registry {f g : Registry → AnalyzeM α}
    (rest : ∀ s t, S s t → Same S E (f s.registry s) (g t.registry t)) :
    Agrees S E (AnalyzeM.registry >>= f) (AnalyzeM.registry >>= g) := fun s t related => by
  rw [bind_of_ok (gives_registry.mpr ⟨rfl, rfl⟩), bind_of_ok (gives_registry.mpr ⟨rfl, rfl⟩)]
  exact rest s t related

theorem of_define {name : Symbol} {metadata : Entries} :
    Agrees S E (AnalyzeM.define name metadata) (AnalyzeM.define name metadata) :=
  fun _ _ related => mirror.define related name metadata

theorem of_onFailure {x y : AnalyzeM α} {ns base : String} {previous : Option Definition}
    (inside : Agrees S E x y) :
    Agrees S E (AnalyzeM.onFailure (Registry.restoreDefinition ns base previous) x)
      (AnalyzeM.onFailure (Registry.restoreDefinition ns base previous) y) := by
  intro s t related
  have same := inside s t related
  rcases left : x s with ⟨outcome, u⟩
  rcases right : y t with ⟨other, v⟩
  rw [left, right] at same
  obtain ⟨rfl, states, failure⟩ := same
  cases outcome with
  | ok a =>
    have first : Gives (AnalyzeM.onFailure (Registry.restoreDefinition ns base previous) x) s a u :=
      gives_onFailure.mpr left
    have second :
        Gives (AnalyzeM.onFailure (Registry.restoreDefinition ns base previous) y) t a v :=
      gives_onFailure.mpr right
    rw [first, second]
    exact ⟨rfl, states, failure⟩
  | error error =>
    rw [AnalyzeM.onFailure_of_error left, AnalyzeM.onFailure_of_error right]
    exact ⟨rfl, mirror.undo states ns base previous, failure⟩

theorem shape {s t : State} (related : S s t) {scope : Scope} {symbol : Symbol} :
    (Resolve.shape core s.registry scope symbol : Except _ (Shape Node)) =
      Resolve.shape core t.registry scope symbol := by
  unfold Resolve.shape
  rw [mirror.classAlias related, mirror.global related]

theorem expandable {s t : State} (related : S s t) {scope : Scope} {symbol : Symbol} :
    Resolve.expandable? core s.registry scope symbol =
      Resolve.expandable? core t.registry scope symbol := by
  unfold Resolve.expandable?
  rw [mirror.classAlias related, mirror.global related]

theorem implemented {s t : State} (related : S s t) {symbol : Symbol} :
    Struct.interface? core s.registry symbol = Struct.interface? core t.registry symbol := by
  unfold Struct.interface?
  simp only [mirror.global related, mirror.interface related]

theorem of_analyzeSymbol {settings : Settings} (own : settings.coreNamespace = core)
    {symbol : Symbol} {scope : Scope} :
    Agrees S E (analyzeSymbol settings symbol scope) (analyzeSymbol settings symbol scope) := by
  refine bind_registry fun s t related => ?_
  rw [own, mirror.shape related]
  refine Agrees.bind (mirror.of_ofExcept ?_) (fun _ => .pure) s t related
  exact Resolve.frank_shape

section Rules

variable {first second : Visit} {forms args : List Form} {span : Option Span} {scope : Scope}

section Sequences

omit mirror

theorem of_visitAll (alike : ∀ form ∈ forms, Alike S E first second form) :
    Agrees S E (visitAll first scope forms) (visitAll second scope forms) := by
  induction forms with
  | nil => exact .pure
  | cons form rest ih =>
    obtain ⟨own, others⟩ := List.forall_mem_cons.mp alike
    exact (own scope).bind fun _ => (ih others).bind fun _ => .pure

theorem of_visitEntries {entries : List (Form × Form)}
    (alike : Entries.All (Alike S E first second) entries) :
    Agrees S E (visitEntries first scope entries) (visitEntries second scope entries) := by
  induction entries with
  | nil => exact .pure
  | cons entry rest ih =>
    obtain ⟨own, others⟩ := List.forall_mem_cons.mp alike
    exact (own.1 scope).bind fun _ => (own.2 scope).bind fun _ => (ih others).bind fun _ => .pure

theorem of_analyzeBody (alike : ∀ form ∈ forms, Alike S E first second form)
    (empty : Alike S E first second .nil) :
    Agrees S E (analyzeBody first forms span scope) (analyzeBody second forms span scope) := by
  have statements : ∀ form ∈ forms.dropLast, Alike S E first second form := fun form member =>
    alike form ((List.dropLast_sublist forms).mem member)
  have last : Alike S E first second (forms.getLastD .nil) := by
    cases forms with
    | nil => exact empty
    | cons form rest =>
      rw [List.getLastD_cons]
      exact alike _ List.getLastD_mem_cons
  exact (of_visitAll statements).bind fun _ => (last scope).bind fun _ => .pure

theorem of_analyzeChoice {test yes no : Form} (testAlike : Alike S E first second test)
    (yesAlike : Alike S E first second yes) (noAlike : Alike S E first second no) :
    Agrees S E (analyzeChoice first test yes no span scope)
      (analyzeChoice second test yes no span scope) :=
  (testAlike _).bind fun _ => (yesAlike _).bind fun _ => (noAlike _).bind fun _ => .pure

end Sequences

theorem of_bindAll {pairs : List (Symbol × Form)}
    (alike : ∀ pair ∈ pairs, Alike S E first second pair.2) :
    Agrees S E (Binder.bindAll first pairs scope) (Binder.bindAll second pairs scope) := by
  induction pairs generalizing scope with
  | nil => exact .pure
  | cons pair rest ih =>
    obtain ⟨own, others⟩ := List.forall_mem_cons.mp alike
    refine (mirror.of_ofNames .draw).bind fun _ => ?_
    exact (own _).bind fun _ => (ih others).bind fun _ => .pure

omit mirror in
/-- The body of a function or an iteration, with its patterns bound around it. -/
theorem of_wrapped {items body bindings : List Form} {vectorSpan : Option Span}
    {vectorMetadata : Entries} (alike : ∀ form ∈ body, Alike S E first second form)
    (empty : Alike S E first second .nil)
    (wrapped : ∀ form, Form.Wraps (.vector items vectorSpan vectorMetadata :: body) span form →
      Alike S E first second form)
    (inside : ∀ form ∈ bindings, form.Given items) :
    Agrees S E (analyzeBody first (Pattern.bindAround bindings body span) span scope)
      (analyzeBody second (Pattern.bindAround bindings body span) span scope) := by
  refine of_analyzeBody ?_ empty
  unfold Pattern.bindAround
  split
  · exact alike
  · refine List.forall_mem_singleton.mpr (wrapped _ ?_)
    exact ⟨items, vectorSpan, vectorMetadata, body, bindings, rfl, inside, rfl⟩

theorem of_analyzeLambda (alike : ∀ arg ∈ args, Alike S E first second arg)
    (empty : Alike S E first second .nil)
    (wrapped : ∀ form, Form.Wraps args span form → Alike S E first second form) :
    Agrees S E (analyzeLambda first args span scope) (analyzeLambda second args span scope) := by
  unfold analyzeLambda
  split
  · exact mirror.of_fail (by simp)
  next items vectorSpan _ body =>
    obtain ⟨_, bodyAlike⟩ := List.forall_mem_cons.mp alike
    refine (mirror.of_ofNames frank_lowering.lowerParameters).bind_given
      fun s params u v run related => ?_
    obtain ⟨_, lowered, _⟩ := gives_ofNames.mp run
    have inside : ∀ form ∈ params.bindings, form.Given items :=
      Parameters.lower_all (fun symbol temp => .inr ⟨symbol, temp, rfl⟩)
        (fun _ listed => .inl listed) lowered
    refine (mirror.of_newFrame.bind fun _ => ?_) u v related
    exact (of_wrapped bodyAlike empty wrapped inside).bind fun _ => .pure
  · exact mirror.of_failAt (by simp)

end Rules

section Lists

variable {settings : Settings} (own : settings.coreNamespace = core)
variable {first second : Visit} {head : Form} {args : List Form} {span : Option Span}
variable {metadata : Entries} {scope : Scope}
variable (alike : ∀ inner, Form.Prompts core (.list (head :: args) span metadata) inner →
  Alike S E first second inner)

include alike

omit mirror in
theorem of_args : ∀ arg ∈ args, Alike S E first second arg := fun arg member =>
  alike arg (.item (List.mem_cons_of_mem head member))

omit mirror in
theorem of_block :
    Agrees S E (analyzeBody first args span scope) (analyzeBody second args span scope) :=
  of_analyzeBody (of_args alike) (alike _ .missing)

theorem of_analyzeBranch :
    Agrees S E (analyzeBranch first args span scope) (analyzeBranch second args span scope) := by
  have empty := alike _ .missing
  have args := of_args alike
  unfold analyzeBranch
  split
  · simp only [List.forall_mem_cons] at args
    exact of_analyzeChoice args.1 args.2.1 empty
  · simp only [List.forall_mem_cons] at args
    exact of_analyzeChoice args.1 args.2.1 args.2.2.1
  · exact mirror.of_fail (by simp)

theorem of_analyzeThrow :
    Agrees S E (analyzeThrow first args span scope) (analyzeThrow second args span scope) := by
  have args := of_args alike
  unfold analyzeThrow
  split
  · exact (args _ List.mem_cons_self _).bind fun _ => .pure
  · exact mirror.of_fail (by simp)

theorem of_analyzeApply :
    Agrees S E (analyzeApply first args span scope) (analyzeApply second args span scope) := by
  have args := of_args alike
  unfold analyzeApply
  split
  · obtain ⟨callee, others⟩ := List.forall_mem_cons.mp args
    exact (callee _).bind fun _ => (of_visitAll others).bind fun _ => .pure
  · exact mirror.of_fail (by simp)

omit mirror in
/-- The pairs of a header, their patterns included. -/
theorem of_header {form : SpecialForm} {pairs : List (Form × Form)} {body : List Form}
    (read : Binder.header form args span = .ok (pairs, body)) :
    Entries.All (Alike S E first second) pairs ∧
    (∀ pair ∈ pairs, ∀ inner, Pattern.IsPart core pair.1 inner → Alike S E first second inner) ∧
    ∀ form ∈ body, Alike S E first second form := by
  have args := of_args alike
  obtain ⟨items, vectorSpan, vectorMetadata, rfl, paired⟩ := Binder.header_eq_ok read
  have listed : Entries.All (fun form => form ∈ items) pairs :=
    Binder.pairs?_all (fun _ member => member) paired
  refine ⟨fun pair member => ⟨?_, ?_⟩, fun pair member inner part => ?_,
    (List.forall_mem_cons.mp args).2⟩
  · exact alike _ (.inside List.mem_cons_self (listed pair member).1)
  · exact alike _ (.inside List.mem_cons_self (listed pair member).2)
  · exact alike _ (.part List.mem_cons_self (listed pair member).1 part)

include own in
theorem of_analyzeLet :
    Agrees S E (analyzeLet settings first args span scope)
      (analyzeLet settings second args span scope) := by
  refine (mirror.of_ofExcept Binder.frank_header).bind_given fun s ⟨pairs, body⟩ u v read => ?_
  obtain ⟨pairsAlike, parts, bodyAlike⟩ := of_header alike (gives_ofExcept.mp read).1
  refine (mirror.of_ofNames frank_lowering.lowerPairs).bind_given (fun s flat u v run => ?_) u v
  obtain ⟨_, lowered, _⟩ := gives_ofNames.mp run
  have flatAlike := Pattern.lowerPairs_all (fun pair member => (pairsAlike pair member).2)
    (own ▸ parts) lowered
  refine ((mirror.of_bindAll flatAlike).bind fun ⟨bindings, bodyScope⟩ => ?_) u v
  exact (of_analyzeBody bodyAlike (alike _ .missing)).bind fun _ => .pure

theorem of_analyzeLoop (special : Analyzer.special? head = some .loop) :
    Agrees S E (analyzeLoop first args span scope) (analyzeLoop second args span scope) := by
  refine (mirror.of_ofExcept Binder.frank_header).bind_given fun s ⟨pairs, body⟩ u v read => ?_
  have read := (gives_ofExcept.mp read).1
  obtain ⟨pairsAlike, _, bodyAlike⟩ := of_header alike read
  dsimp only
  split
  · refine (mirror.of_newFrame.bind fun _ => ?_) u v
    refine (mirror.of_bindAll (Binder.simplePairs_all pairsAlike)).bind ?_
    rintro ⟨bindings, bodyScope⟩
    exact (of_analyzeBody bodyAlike (alike _ .missing)).bind fun _ => .pure
  next patterns =>
    refine (mirror.of_ofNames frank_lowering.lowerLoop).bind_given (fun s form u v run => ?_) u v
    obtain ⟨_, lowered, _⟩ := gives_ofNames.mp run
    exact alike form (.rounds special read (Bool.eq_false_iff.mpr patterns) lowered) scope u v

theorem of_analyzeFn (special : Analyzer.special? head = some .fn) :
    Agrees S E (analyzeFn first args span scope) (analyzeFn second args span scope) := by
  have wrapped (form : Form) (wraps : Form.Wraps args span form) := alike form
    (.wrapped (.inl special) wraps)
  exact (mirror.of_analyzeLambda (of_args alike) (alike _ .missing) wrapped).bind fun _ => .pure

theorem of_analyzeRecur :
    Agrees S E (analyzeRecur first args span scope) (analyzeRecur second args span scope) := by
  unfold analyzeRecur
  split
  · exact mirror.of_fail (by simp)
  · split
    · refine mirror.of_activate.bind fun _ => ?_
      exact (of_visitAll (of_args alike)).bind fun _ => .pure
    · exact mirror.of_fail (by simp)

omit alike in
theorem of_analyzeEach {key : Option Form} {value coll : Form} {body : List Form}
    {vectorSpan : Option Span} {vectorMetadata : Entries}
    (collAlike : Alike S E first second coll)
    (bodyAlike : ∀ form ∈ body, Alike S E first second form)
    (empty : Alike S E first second .nil)
    (wrapped : ∀ form, Form.Wraps
      (.vector (key.toList ++ [value, coll]) vectorSpan vectorMetadata :: body) span form →
      Alike S E first second form) :
    Agrees S E (analyzeEach first key value coll body span scope)
      (analyzeEach second key value coll body span scope) := by
  have fresh : ∀ symbol : Symbol, symbol.IsTemp →
      symbol.form.Given (key.toList ++ [value, coll]) := fun symbol temp => .inr ⟨symbol, temp, rfl⟩
  refine (collAlike _).bind fun _ => ?_
  refine (mirror.of_ofNames frank_lowering.nameFor).bind_given fun s ⟨symbol, here⟩ u v run => ?_
  obtain ⟨_, named, _⟩ := gives_ofNames.mp run
  have values := Pattern.nameFor_all fresh (.inl (by simp)) named
  refine (mirror.of_ofNames frank_lowering.nameForOption).bind_given
    (fun s ⟨keySymbol, there⟩ u v run => ?_) u v
  obtain ⟨_, keyed, _⟩ := gives_ofNames.mp run
  have keys := Pattern.nameForOption_all fresh
    (fun form given => .inl (List.mem_append_left _ (Option.mem_toList.mpr given))) keyed
  refine ((of_wrapped bodyAlike empty wrapped ?_).bind fun _ => .pure) u v
  exact List.forall_mem_append.mpr ⟨values, keys⟩

theorem of_analyzeForeach (special : Analyzer.special? head = some .foreach) :
    Agrees S E (analyzeForeach first args span scope)
      (analyzeForeach second args span scope) := by
  have argsAlike := of_args alike
  unfold analyzeForeach
  split
  · exact mirror.of_fail (by simp)
  · exact mirror.of_analyzeEach (alike _ (.inside List.mem_cons_self (by simp [Form.items])))
      (List.forall_mem_cons.mp argsAlike).2 (alike _ .missing)
      fun form wraps => alike form (.wrapped (.inr special) wraps)
  · exact mirror.of_analyzeEach (alike _ (.inside List.mem_cons_self (by simp [Form.items])))
      (List.forall_mem_cons.mp argsAlike).2 (alike _ .missing)
      fun form wraps => alike form (.wrapped (.inr special) wraps)
  · exact mirror.of_fail (by simp)
  · exact mirror.of_failAt (by simp)

include own in
theorem of_analyzeAssign :
    Agrees S E (analyzeAssign settings first args span scope)
      (analyzeAssign settings second args span scope) := by
  have args := of_args alike
  unfold analyzeAssign
  split
  · simp only [List.forall_mem_cons] at args
    split
    · exact mirror.of_fail (by simp)
    · refine (mirror.of_analyzeSymbol own).bind fun target => ?_
      split
      · exact (args.2.1 _).bind fun _ => .pure
      · exact mirror.of_fail (by simp)
  · exact mirror.of_fail (by simp)

theorem of_analyzeHostNew :
    Agrees S E (analyzeHostNew first args span scope)
      (analyzeHostNew second args span scope) := by
  have args := of_args alike
  unfold analyzeHostNew
  split
  · exact mirror.of_fail (by simp)
  · obtain ⟨cls, others⟩ := List.forall_mem_cons.mp args
    exact (cls _).bind fun _ => (of_visitAll others).bind fun _ => .pure

theorem of_analyzeHostMember {form : SpecialForm} {static : Bool} :
    Agrees S E (analyzeHostMember form static first args span scope)
      (analyzeHostMember form static second args span scope) := by
  have argsAlike := of_args alike
  unfold analyzeHostMember
  split
  next target member =>
    simp only [List.forall_mem_cons] at argsAlike
    refine (argsAlike.1 _).bind fun _ => ?_
    split
    next items _ _ =>
      have inside : ∀ item ∈ items.drop 1, Alike S E first second item := fun item listed =>
        alike item (.inside (List.mem_cons_of_mem _ List.mem_cons_self)
          (List.mem_of_mem_drop listed))
      split
      · exact (of_visitAll inside).bind fun _ => .pure
      · exact mirror.of_failAt (by simp)
    · split
      · exact .pure
      · exact mirror.of_failAt (by simp)
  · exact mirror.of_fail (by simp)

theorem of_analyzeHostPropertySet :
    Agrees S E (analyzeHostPropertySet first args span scope)
      (analyzeHostPropertySet second args span scope) := by
  have args := of_args alike
  unfold analyzeHostPropertySet
  split
  · simp only [List.forall_mem_cons] at args
    refine (args.1 _).bind fun _ => (args.2.1 _).bind fun _ => ?_
    split
    · exact .pure
    · exact mirror.of_fail (by simp)
  · exact mirror.of_fail (by simp)

theorem of_analyzeHostPair {form : SpecialForm} {shape : Node → Node → Shape Node} :
    Agrees S E (analyzeHostPair form shape first args span scope)
      (analyzeHostPair form shape second args span scope) := by
  have args := of_args alike
  unfold analyzeHostPair
  split
  · simp only [List.forall_mem_cons] at args
    exact (args.1 _).bind fun _ => (args.2.1 _).bind fun _ => .pure
  · exact mirror.of_fail (by simp)

theorem of_analyzeHostArraySet :
    Agrees S E (analyzeHostArraySet first args span scope)
      (analyzeHostArraySet second args span scope) := by
  have args := of_args alike
  unfold analyzeHostArraySet
  split
  · simp only [List.forall_mem_cons] at args
    exact (args.1 _).bind fun _ => (args.2.1 _).bind fun _ => (args.2.2.1 _).bind fun _ => .pure
  · exact mirror.of_fail (by simp)

omit alike in
include own in
theorem of_analyzeHandler {clause : Guarded.Clause}
    (items : ∀ item ∈ clause.items, Alike S E first second item)
    (empty : Alike S E first second .nil) :
    Agrees S E (Guarded.analyzeHandler settings first scope clause)
      (Guarded.analyzeHandler settings second scope clause) := by
  unfold Guarded.analyzeHandler
  split
  next cls name body given =>
    have bodyAlike : ∀ form ∈ body, Alike S E first second form := fun form member =>
      items form (given ▸ List.mem_cons_of_mem _ (List.mem_cons_of_mem _ member))
    split
    · refine (mirror.of_analyzeSymbol own).bind fun exception => ?_
      split
      · exact (of_analyzeBody bodyAlike empty).bind fun _ => .pure
      · exact mirror.of_fail (by simp)
    · exact mirror.of_fail (by simp)
  · exact mirror.of_fail (by simp)

omit alike in
include own in
theorem of_analyzeHandlers {clauses : List Guarded.Clause}
    (items : ∀ clause ∈ clauses, ∀ item ∈ clause.items, Alike S E first second item)
    (empty : Alike S E first second .nil) :
    Agrees S E (Guarded.analyzeHandlers settings first scope clauses)
      (Guarded.analyzeHandlers settings second scope clauses) := by
  induction clauses with
  | nil => exact .pure
  | cons clause rest ih =>
    obtain ⟨here, others⟩ := List.forall_mem_cons.mp items
    exact (mirror.of_analyzeHandler own here empty).bind fun _ => (ih others).bind fun _ => .pure

include own in
theorem of_analyzeGuarded :
    Agrees S E (analyzeGuarded settings first args span scope)
      (analyzeGuarded settings second args span scope) := by
  have empty := alike _ .missing
  refine (mirror.of_ofExcept Guarded.frank_parts).bind_given fun s parts u v read => ?_
  obtain ⟨body, handlers, cleanup⟩ :=
    Guarded.parts_all (fun _ member => member) (gives_ofExcept.mp read).1
  have bodyAlike : ∀ form ∈ parts.body, Alike S E first second form := fun form member =>
    of_args alike form (body form member)
  have items (clause : Guarded.Clause) (member : clause.form ∈ args) :
      ∀ item ∈ clause.items, Alike S E first second item := fun item listed =>
    alike item (.inside member (List.mem_cons_of_mem clause.head listed))
  split
  · exact of_analyzeBody bodyAlike empty u v
  · refine ((of_analyzeBody bodyAlike empty).bind fun _ => ?_) u v
    have listed (clause : Guarded.Clause) (member : clause ∈ parts.handlers) :=
      items clause (handlers clause member)
    refine (mirror.of_analyzeHandlers own listed empty).bind fun _ =>
      Agrees.bind ?_ fun _ => .pure
    cases given : parts.cleanup with
    | none => exact .pure
    | some clause =>
      exact (of_analyzeBody (items clause (cleanup clause given)) empty).bind fun _ => .pure

theorem of_analyzeDefine (special : Analyzer.special? head = some .define) :
    Agrees S E (analyzeDefine first args span scope) (analyzeDefine second args span scope) := by
  unfold analyzeDefine
  split
  · refine (mirror.of_ofExcept Definition.frank_parts).bind_given
      fun s ⟨given, init⟩ u v parts => ?_
    refine (mirror.of_ofExcept frank_definedName).bind_given (fun s name u v named => ?_) u v
    refine (mirror.of_ofExcept Definition.frank_collectMetadata).bind_given
      (fun s metadata u v collected => ?_) u v
    have parts := (gives_ofExcept.mp parts).1
    have metadataAlike := alike _ (.metadata special parts (gives_ofExcept.mp named).1
      (gives_ofExcept.mp collected).1)
    have initAlike := of_args alike init (Definition.mem_of_parts parts).2
    refine bind_registry (fun s t related => ?_) u v
    rw [mirror.current related]
    refine (mirror.of_define.bind fun previous => ?_) s t related
    refine Agrees.bind (mirror.of_onFailure ?_) fun _ => .pure
    exact (metadataAlike _).bind fun _ => (initAlike _).bind fun _ => .pure
  · exact mirror.of_fail (by simp)

omit alike in
theorem of_analyzeMethods {definition : Definition} {declared : List String}
    {methods : List Struct.MethodForm} (empty : Alike S E first second .nil)
    (items : ∀ method ∈ methods, ∀ item ∈ method.items, Alike S E first second item)
    (wrapped : ∀ method ∈ methods, ∀ form, Form.Wraps (method.items.drop 1) method.span form →
      Alike S E first second form) :
    Agrees S E (Struct.analyzeMethods first definition declared scope methods)
      (Struct.analyzeMethods second definition declared scope methods) := by
  induction methods with
  | nil => exact .pure
  | cons method rest ih =>
    obtain ⟨here, others⟩ := List.forall_mem_cons.mp items
    obtain ⟨own, later⟩ := List.forall_mem_cons.mp wrapped
    refine (mirror.of_ofExcept Struct.frank_methodName).bind fun _ => ?_
    have behind (item : Form) (listed : item ∈ method.items.drop 1) :=
      here item (List.mem_of_mem_drop listed)
    exact (mirror.of_analyzeLambda behind empty own).bind fun _ =>
      (ih others later).bind fun _ => .pure

omit alike in
include own in
theorem of_analyzeGroups {groups : List Struct.Group} (empty : Alike S E first second .nil)
    (items : ∀ group ∈ groups, ∀ method ∈ group.methods, ∀ item ∈ method.items,
      Alike S E first second item)
    (wrapped : ∀ group ∈ groups, ∀ method ∈ group.methods, ∀ form,
      Form.Wraps (method.items.drop 1) method.span form → Alike S E first second form) :
    Agrees S E (Struct.analyzeGroups settings first scope groups)
      (Struct.analyzeGroups settings second scope groups) := by
  induction groups with
  | nil => exact .pure
  | cons group rest ih =>
    obtain ⟨here, others⟩ := List.forall_mem_cons.mp items
    obtain ⟨around, later⟩ := List.forall_mem_cons.mp wrapped
    refine Agrees.bind ?_ fun _ => (ih others later).bind fun _ => .pure
    refine bind_registry fun s t related => ?_
    rw [own, mirror.implemented related]
    refine Agrees.bind (mirror.of_ofExcept Struct.frank_interface?) ?_ s t related
    rintro ⟨definition, declared⟩
    refine (mirror.of_analyzeMethods empty here around).bind fun methods => ?_
    split
    · exact .pure
    · exact mirror.of_fail (by simp)

include own in
theorem of_analyzeDefStruct :
    Agrees S E (analyzeDefStruct settings first args span scope)
      (analyzeDefStruct settings second args span scope) := by
  unfold analyzeDefStruct
  split
  · exact mirror.of_fail (by simp)
  · refine (mirror.of_ofExcept frank_definedName).bind fun name => ?_
    refine (mirror.of_ofExcept Struct.frank_fields).bind fun fields => ?_
    refine bind_registry fun s t related => ?_
    rw [mirror.current related]
    refine (mirror.of_define.bind fun _ => ?_) s t related
    refine (mirror.of_ofExcept Struct.frank_group).bind_given fun s groups u v read => ?_
    have listed : ∀ group ∈ groups, ∀ method ∈ group.methods, method.Listed args :=
      Struct.group_all (List.forall_mem_nil _)
        (fun _ ⟨own, member⟩ => ⟨own, List.mem_of_mem_drop member⟩) (gives_ofExcept.mp read).1
    refine (Agrees.bind (mirror.of_analyzeGroups own (alike _ .missing) ?_ ?_) fun _ => .pure) u v
    · intro group member method written item inside
      obtain ⟨_, arg⟩ := listed group member method written
      exact alike item (.inside arg inside)
    · intro group member method written form wraps
      obtain ⟨_, arg⟩ := listed group member method written
      exact alike form (.method arg wraps)

omit alike in
theorem of_analyzeDefInterface :
    Agrees S E (analyzeDefInterface args span scope) (analyzeDefInterface args span scope) := by
  unfold analyzeDefInterface
  split
  · exact mirror.of_fail (by simp)
  · refine (mirror.of_ofExcept frank_definedName).bind fun name => ?_
    refine (mirror.of_ofExcept InterfaceMethod.frank_ofForms).bind fun methods => ?_
    refine bind_registry fun s t related => ?_
    rw [mirror.current related]
    refine (mirror.of_define.bind fun _ => Agrees.bind ?_ fun _ => .pure) s t related
    exact fun _ _ related => ⟨rfl, mirror.note related _ _ _, fun _ failed => by contradiction⟩

omit alike in
theorem of_analyzeDefException :
    Agrees S E (analyzeDefException args span scope) (analyzeDefException args span scope) := by
  unfold analyzeDefException
  split
  · refine (mirror.of_ofExcept frank_definedName).bind fun name => ?_
    refine bind_registry fun s t related => ?_
    rw [mirror.current related]
    exact (mirror.of_define.bind fun _ => .pure) s t related
  · exact mirror.of_fail (by simp)

omit alike in
theorem of_analyzeQuote :
    Agrees S E (analyzeQuote args span scope) (analyzeQuote args span scope) := by
  unfold analyzeQuote
  split
  · exact .pure
  · exact mirror.of_fail (by simp)

/-- All rules but those that declare or switch namespaces. -/
theorem of_analyzeSpecial {analyzer : Analyzer} (own : analyzer.settings.coreNamespace = core)
    {form : SpecialForm} (special : Analyzer.special? head = some form)
    (spaces : form = .ns ∨ form = .inNs →
      Agrees S E (analyzer.analyzeSpecial first form args span scope)
        (analyzer.analyzeSpecial second form args span scope)) :
    Agrees S E (analyzer.analyzeSpecial first form args span scope)
      (analyzer.analyzeSpecial second form args span scope) := by
  cases form with
  | define => exact mirror.of_analyzeDefine alike special
  | fn => exact mirror.of_analyzeFn alike special
  | letIn => exact mirror.of_analyzeLet own alike
  | loop => exact mirror.of_analyzeLoop alike special
  | block => exact of_block alike
  | branch => exact mirror.of_analyzeBranch alike
  | recur => exact mirror.of_analyzeRecur alike
  | quote => exact mirror.of_analyzeQuote
  | apply => exact mirror.of_analyzeApply alike
  | guarded => exact mirror.of_analyzeGuarded own alike
  | throw => exact mirror.of_analyzeThrow alike
  | assign => exact mirror.of_analyzeAssign own alike
  | foreach => exact mirror.of_analyzeForeach alike special
  | ns => exact spaces (.inl rfl)
  | inNs => exact spaces (.inr rfl)
  | defStruct => exact mirror.of_analyzeDefStruct own alike
  | defInterface => exact mirror.of_analyzeDefInterface
  | defException => exact mirror.of_analyzeDefException
  | hostNew => exact mirror.of_analyzeHostNew alike
  | hostMember => exact mirror.of_analyzeHostMember alike
  | hostStaticMember => exact mirror.of_analyzeHostMember alike
  | hostPropertySet => exact mirror.of_analyzeHostPropertySet alike
  | hostArrayGet => exact mirror.of_analyzeHostPair alike
  | hostArraySet => exact mirror.of_analyzeHostArraySet alike
  | hostArrayPush => exact mirror.of_analyzeHostPair alike
  | hostArrayUnset => exact mirror.of_analyzeHostPair alike

end Lists

section Calls

variable {settings : Settings} (own : settings.coreNamespace = core)
variable {head : Form} {args : List Form} {span : Option Span} {scope : Scope}
variable {reenter other : Form → AnalyzeM Node}

/-- Without a host the call of one of its functions fails in the same way wherever it is made. -/
theorem of_callHost {callable : Callable} :
    Agrees S E (Call.callHost .none reenter callable args span)
      (Call.callHost .none other callable args span) := fun s t related => by
  have call (reenter : Form → AnalyzeM Node) (state : State) :
      Call.callHost .none reenter callable args span state =
        (throw { fault := .hostCall callable (.unbound callable), span,
                 cause := some (HostError.unbound callable).message } : AnalyzeM Form) state := rfl
  rw [call, call]
  exact mirror.of_throw (by simp) s t related

include own in
theorem of_expanded? :
    Agrees S E (Call.expanded? settings .none reenter head args span scope)
      (Call.expanded? settings .none other head args span scope) := by
  unfold Call.expanded?
  split
  · exact .pure
  · refine bind_registry fun s t related => ?_
    rw [own, mirror.expandable related]
    refine Agrees.bind (mirror.of_ofExcept Resolve.frank_expandable?) (fun found => ?_) s t related
    split
    · exact .pure
    · refine Agrees.bind ?_ fun kind => ?_
      · unfold Call.expansionKind?
        split
        · exact .pure
        split
        · exact .pure
        split
        · exact .pure
        · exact mirror.of_callHost.bind fun _ => .pure
      · split
        · exact .pure
        · exact mirror.of_callHost.bind fun _ => .pure

end Calls

/-- A form whose prompted forms are visited alike is analyzed alike. Without a host, what
stands behind an expansion plays no part. -/
theorem of_analyzeForm {analyzer : Analyzer} (own : analyzer.settings.coreNamespace = core)
    (unhosted : analyzer.host = .none) {first second expand other : Visit} {form : Form}
    (alike : ∀ inner, form.Prompts core inner → Alike S E first second inner)
    (spaces : ∀ special args span scope, form.special? = some special →
      special = .ns ∨ special = .inNs →
      Agrees S E (analyzer.analyzeSpecial first special args span scope)
        (analyzer.analyzeSpecial second special args span scope)) :
    Alike S E (analyzer.analyzeForm first expand) (analyzer.analyzeForm second other) form := by
  intro scope
  cases form with
  | symbol name span metadata => exact mirror.of_analyzeSymbol own
  | list items span metadata =>
    cases items with
    | nil => exact .pure
    | cons head args =>
      simp only [Analyzer.analyzeForm]
      cases found : Analyzer.special? head with
      | some special =>
        exact mirror.of_analyzeSpecial alike own found (spaces special args span scope found)
      | none =>
        rw [unhosted]
        refine (mirror.of_expanded? own).bind_given fun s expansion u v run related => ?_
        cases expansion with
        | some form => exact absurd run Call.not_gives_expanded?_none
        | none =>
          have callee := alike head (.item List.mem_cons_self) scope.argument
          exact (callee.bind fun _ => (of_visitAll (of_args alike)).bind fun _ => .pure)
            u v related
  | vector items span metadata =>
    exact (of_visitAll fun item member => alike item (.element member)).bind fun _ => .pure
  | map entries span metadata =>
    refine Agrees.bind (of_visitEntries fun entry member => ?_) fun _ => .pure
    exact ⟨alike _ (.key member), alike _ (.value member)⟩
  | _ => exact .pure

end Mirror

end LispFront
