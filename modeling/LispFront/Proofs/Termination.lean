import LispFront.Proofs.Locality

/-! Rules may have forms analyzed that are larger than the form itself, but every prompted form has
a smaller height (`Form.Prompts.height_lt`). So the bound on nested steps is never reached, and the
recursion equation of the analysis has one solution. -/

namespace LispFront

namespace Form

/-- Some pattern in the header of a loop is not a plain symbol. -/
def loopsOverPatterns : List Form → Bool
  | .vector items _ _ :: _ =>
    (Binder.pairs? items).any fun pairs => !pairs.all fun pair => Pattern.isSimple pair.1
  | _ => false

/-- The steps that the rule of a list adds by putting new forms around its items. -/
def overhead : List Form → Nat
  | [] => 1
  | head :: args =>
    match Analyzer.special? head with
    | some .define => 3
    | some .fn | some .foreach => 2
    | some .loop => if loopsOverPatterns args then 4 else 1
    | _ => 1

mutual
/-- How far steps may nest in the analysis of a form. -/
def height : Form → Nat
  | .symbol _ _ metadata => heightEntries metadata + 1
  | .list items _ _ => heightItems items + overhead items
  | .vector items _ _ => max 1 (heightItems items) + 1
  | .map entries _ _ => max 1 (heightEntries entries) + 1
  | _ => 1

def heightItems : List Form → Nat
  | [] => 0
  | item :: rest => max item.height (heightItems rest)

def heightEntries : List (Form × Form) → Nat
  | [] => 0
  | (key, value) :: rest => max (max key.height value.height) (heightEntries rest)
end

theorem overhead_bounds (items : List Form) : 1 ≤ overhead items ∧ overhead items ≤ 4 := by
  cases items with
  | nil => simp [overhead]
  | cons head args =>
    simp only [overhead]
    split
    · simp
    · simp
    · simp
    · split <;> simp
    · simp

theorem height_pos (form : Form) : 1 ≤ form.height := by
  cases form with
  | list items span metadata =>
    have bounds := overhead_bounds items
    simp only [height]
    omega
  | _ => simp [height]

theorem height_le_heightItems {items : List Form} {item : Form} (member : item ∈ items) :
    item.height ≤ heightItems items := by
  induction items with
  | nil => contradiction
  | cons first rest ih =>
    simp only [heightItems]
    rcases List.mem_cons.mp member with rfl | later
    · omega
    · have smaller := ih later
      omega

theorem heightItems_le {items : List Form} {bound : Nat}
    (all : ∀ item ∈ items, item.height ≤ bound) : heightItems items ≤ bound := by
  induction items with
  | nil => exact Nat.zero_le bound
  | cons first rest ih =>
    obtain ⟨own, others⟩ := List.forall_mem_cons.mp all
    exact Nat.max_le.mpr ⟨own, ih others⟩

theorem height_le_heightEntries {entries : Entries} :
    Entries.All (fun form => form.height ≤ heightEntries entries) entries := by
  induction entries with
  | nil => exact List.forall_mem_nil _
  | cons first rest ih =>
    simp only [heightEntries]
    refine List.forall_mem_cons.mpr ⟨⟨by omega, by omega⟩, fun entry member => ?_⟩
    have smaller := ih entry member
    exact ⟨by omega, by omega⟩

theorem heightEntries_le {entries : Entries} {bound : Nat}
    (all : Entries.All (fun form => form.height ≤ bound) entries) :
    heightEntries entries ≤ bound := by
  induction entries with
  | nil => exact Nat.zero_le bound
  | cons first rest ih =>
    obtain ⟨own, others⟩ := List.forall_mem_cons.mp all
    exact Nat.max_le.mpr ⟨Nat.max_le.mpr own, ih others⟩

mutual
/-- The bound on nested steps is large enough. -/
theorem height_le_depth : ∀ form : Form, form.height ≤ 4 * form.depth
  | .symbol _ _ metadata => by
    have entries := heightEntries_le_depth metadata
    simp only [height, depth]
    omega
  | .list [] _ _ => by simp [height, heightItems, overhead, depth, depthItems]
  | .list (head :: args) _ _ => by
    have items := heightItems_le_depth (head :: args)
    have bounds := overhead_bounds (head :: args)
    simp only [height, depth]
    omega
  | .vector items _ _ => by
    have items := heightItems_le_depth items
    simp only [height, depth]
    omega
  | .map entries _ _ => by
    have entries := heightEntries_le_depth entries
    simp only [height, depth]
    omega
  | .nil => by decide
  | .bool _ => by simp [height, depth]
  | .int _ => by simp [height, depth]
  | .float _ => by simp [height, depth]
  | .str _ => by simp [height, depth]
  | .keyword _ => by simp [height, depth]

theorem heightItems_le_depth : ∀ items : List Form, heightItems items ≤ 4 * depthItems items
  | [] => by decide
  | item :: rest => by
    have own := height_le_depth item
    have others := heightItems_le_depth rest
    simp only [heightItems, depthItems]
    omega

theorem heightEntries_le_depth : ∀ entries : List (Form × Form),
    heightEntries entries ≤ 4 * depthEntries entries
  | [] => by decide
  | (key, value) :: rest => by
    have keys := height_le_depth key
    have values := height_le_depth value
    have others := heightEntries_le_depth rest
    simp only [heightEntries, depthEntries]
    omega
end

theorem height_item_lt {form item : Form} (member : item ∈ form.items) :
    item.height < form.height := by
  have smaller := height_le_heightItems member
  cases form with
  | list items span metadata =>
    have bounds := overhead_bounds items
    simp only [Form.items] at smaller
    simp only [height]
    omega
  | vector items span metadata =>
    simp only [Form.items] at smaller
    simp only [height]
    omega
  | _ => contradiction

theorem Beneath.height_lt {inner pattern : Form} (inside : inner.Beneath pattern) :
    inner.height < pattern.height := by
  induction inside with
  | element member => exact height_item_lt member
  | key member =>
    have smaller := height_le_heightEntries _ member
    simp only [height]
    omega
  | value member =>
    have smaller := height_le_heightEntries _ member
    simp only [height]
    omega
  | trans _ _ first second => omega

theorem height_of_isTemp {symbol : Symbol} (temp : symbol.IsTemp) : symbol.form.height = 1 := by
  obtain ⟨_, _, bare⟩ := temp
  simp [Symbol.form, height, bare, heightEntries]

/-- Only plain names head lists whose rule adds steps. -/
theorem overhead_qualified {ns base : String} {span : Option Span} {metadata : Entries}
    {args : List Form} : overhead (.symbol (.qualified ns base) span metadata :: args) = 1 := by
  have plain (form : SpecialForm) (found : Analyzer.special?
      (.symbol (.qualified ns base) span metadata) = some form) : form.name.ns = some ns := by
    have named : SpecialForm.ofName? (.qualified ns base) = some form := found
    rw [SpecialForm.name_of_ofName? named]
    rfl
  simp only [overhead]
  split
  next found => exact absurd (plain _ found) (by simp [SpecialForm.name, Name.plain])
  next found => exact absurd (plain _ found) (by simp [SpecialForm.name, Name.plain])
  next found => exact absurd (plain _ found) (by simp [SpecialForm.name, Name.plain])
  next found => exact absurd (plain _ found) (by simp [SpecialForm.name, Name.plain])
  next => rfl

theorem height_accessor_le {core base : String} {args : List Form} {span : Option Span}
    {bound : Nat} (all : ∀ arg ∈ args, arg.height ≤ bound) (room : 1 ≤ bound) :
    (Pattern.accessor core base args span).height ≤ bound + 1 := by
  have smaller := heightItems_le all
  simp only [Pattern.accessor, height, heightItems, heightEntries, overhead_qualified]
  omega

/-- A part of a value is not much larger than the key it is taken by. -/
theorem height_isPart_le {core : String} {pattern form : Form}
    (part : Pattern.IsPart core pattern form) : form.height ≤ pattern.height + 1 := by
  have pos := pattern.height_pos
  obtain ⟨whole, span, temp, ⟨key, given, rfl⟩ | ⟨index, rfl⟩⟩ := part
  · have key : key.height ≤ pattern.height := by
      rcases given with inside | ⟨index, rfl⟩
      · exact Nat.le_of_lt inside.height_lt
      · simpa [height] using pos
    refine height_accessor_le ?_ pos
    simpa [height_of_isTemp temp] using ⟨pos, key⟩
  · refine height_accessor_le ?_ pos
    simpa [height_of_isTemp temp, height] using pos

section Wrapping

variable {bindings body : List Form} {span : Option Span} {bound : Nat}
variable (bindingsLow : ∀ form ∈ bindings, form.height ≤ bound)
variable (bodyLow : ∀ form ∈ body, form.height ≤ bound + 1) (room : 1 ≤ bound)

include bindingsLow bodyLow room

theorem height_binder_le {base : String}
    (own : overhead (.plainSymbol base :: .vector bindings none [] :: body) = 1) :
    (Form.list (.plainSymbol base :: .vector bindings none [] :: body) span []).height ≤
      bound + 2 := by
  have first := heightItems_le bindingsLow
  have second := heightItems_le bodyLow
  have head : (plainSymbol base).height = 1 := by simp [plainSymbol, height, heightEntries]
  simp only [height, own, heightItems, head]
  omega

theorem height_letForm_le : (Pattern.letForm bindings body span).height ≤ bound + 2 :=
  height_binder_le bindingsLow bodyLow room rfl

/-- A loop over plain symbols is not wrapped again. -/
theorem height_loopForm_le {pairs : List (Form × Form)}
    (paired : Binder.pairs? bindings = some pairs)
    (simple : ∀ pair ∈ pairs, Pattern.isSimple pair.1 = true) :
    (Pattern.loopForm bindings body span).height ≤ bound + 2 := by
  refine height_binder_le bindingsLow bodyLow room ?_
  have direct : loopsOverPatterns (.vector bindings none [] :: body) = false := by
    simpa [loopsOverPatterns, paired] using simple
  change (if loopsOverPatterns _ = true then 4 else 1) = 1
  rw [direct]
  rfl

end Wrapping

/-- A header and the body behind it, in one bound. -/
theorem heightItems_header (items body : List Form) (span : Option Span) (metadata : Entries) :
    ∃ bound, heightItems (.vector items span metadata :: body) = bound + 1 ∧ 1 ≤ bound ∧
      (∀ item ∈ items, item.height ≤ bound) ∧ ∀ form ∈ body, form.height ≤ bound + 1 := by
  refine ⟨max (max 1 (heightItems items)) (heightItems body - 1), ?_, by omega, ?_, ?_⟩
  · simp only [heightItems, height]
    omega
  · intro item member
    have smaller := height_le_heightItems member
    omega
  · intro form member
    have smaller := height_le_heightItems member
    omega

/-- The `let` around a body is one higher than the highest of the forms it is made of. -/
theorem Wraps.height_le {args : List Form} {span : Option Span} {form : Form}
    (wraps : Wraps args span form) : form.height ≤ heightItems args + 1 := by
  obtain ⟨items, vectorSpan, vectorMetadata, body, bindings, rfl, given, rfl⟩ := wraps
  obtain ⟨bound, total, room, itemsLow, bodyLow⟩ :=
    heightItems_header items body vectorSpan vectorMetadata
  rw [total]
  refine height_letForm_le (fun form member => ?_) bodyLow room
  rcases given form member with listed | ⟨symbol, temp, rfl⟩
  · exact itemsLow form listed
  · exact Nat.le_trans (Nat.le_of_eq (height_of_isTemp temp)) room

end Form

/-- The loop in the middle of a lowered one is over plain symbols. -/
theorem Pattern.loopHeader_names {pairs : List (Form × Form)} {header : LoopHeader}
    {n m : NameSupply} (run : Gives (loopHeader pairs) n header m) :
    ∃ names, Binder.pairs? header.names = some names ∧
      ∀ pair ∈ names, isSimple pair.1 = true := by
  induction pairs generalizing n header with
  | nil =>
    obtain ⟨rfl, _⟩ := gives_pure.mp run
    exact ⟨[], rfl, by simp⟩
  | cons pair rest ih =>
    unfold loopHeader at run
    split at run
    next simple =>
      simp only [gives_bind, gives_pure] at run
      obtain ⟨later, _, more, rfl, rfl⟩ := run
      obtain ⟨names, paired, others⟩ := ih more
      refine ⟨(pair.1, pair.1) :: names, ?_, List.forall_mem_cons.mpr ⟨simple, others⟩⟩
      simp only [Binder.pairs?, paired, Option.map_some]
    next =>
      simp only [gives_bind, gives_pure] at run
      obtain ⟨temp, _, drawn, later, _, more, rfl, rfl⟩ := run
      obtain ⟨names, paired, others⟩ := ih more
      have simple : isSimple temp.form = true := by
        obtain ⟨number, name, _⟩ := drawTemp_isTemp drawn
        simp [isSimple, Form.plainSymbol?, Form.symbol?, Symbol.form, Symbol.isQualified, name,
          NameSupply.numbered, Symbol.plain, Name.plain, Name.isQualified]
      refine ⟨(temp.form, temp.form) :: names, ?_, List.forall_mem_cons.mpr ⟨simple, others⟩⟩
      simp only [Binder.pairs?, paired, Option.map_some]

namespace Form

/-- A lowered loop is three higher than the highest of the forms it is made of. -/
theorem height_lowerLoop_le {pairs : List (Form × Form)} {body : List Form} {span : Option Span}
    {form : Form} {n m : NameSupply} {bound : Nat} (room : 1 ≤ bound)
    (pairsLow : Entries.All (fun form => form.height ≤ bound) pairs)
    (bodyLow : ∀ form ∈ body, form.height ≤ bound + 1)
    (run : Gives (Pattern.lowerLoop pairs body span) n form m) : form.height ≤ bound + 4 := by
  simp only [Pattern.lowerLoop, gives_bind, gives_pure] at run
  obtain ⟨header, _, read, rfl, _⟩ := run
  obtain ⟨outer, names, inner⟩ := Pattern.loopHeader_all
    (fun symbol temp => Nat.le_trans (Nat.le_of_eq (height_of_isTemp temp)) room) pairsLow read
  obtain ⟨plain, paired, simple⟩ := Pattern.loopHeader_names read
  have round : (Pattern.letForm header.inner body span).height ≤ bound + 2 :=
    height_letForm_le inner bodyLow room
  have names : ∀ form ∈ header.names, form.height ≤ bound + 1 := fun form member =>
    Nat.le_trans (names form member) (by omega)
  have loop : (Pattern.loopForm header.names [Pattern.letForm header.inner body span]
      span).height ≤ bound + 3 :=
    height_loopForm_le names (List.forall_mem_singleton.mpr round) (by omega) paired simple
  have outer : ∀ form ∈ header.outer, form.height ≤ bound + 2 := fun form member =>
    Nat.le_trans (outer form member) (by omega)
  exact height_letForm_le outer (List.forall_mem_singleton.mpr loop) (by omega)

theorem heightEntries_ofSpan (span : Span) : heightEntries (Entries.ofSpan span) ≤ 2 := by
  have position (line column : UInt64) (file : Option String) :
      (Entries.ofPosition line column file).height ≤ 2 := by
    have low : heightEntries (Entries.ofList
        ([(plainKeyword "line", .int line.toInt64.toInt),
          (plainKeyword "column", .int column.toInt64.toInt)] ++
          file.toList.map fun path => (plainKeyword "file", .str path))) ≤ 1 := by
      refine heightEntries_le fun entry member => ?_
      have listed := Ordered.mem_ofList member
      simp only [List.mem_append, List.mem_cons, List.not_mem_nil, or_false, List.mem_map] at listed
      rcases listed with (rfl | rfl) | ⟨path, _, rfl⟩ <;> simp [plainKeyword, height]
    simp only [Entries.ofPosition, height]
    omega
  refine heightEntries_le fun entry member => ?_
  have listed := Ordered.mem_ofList member
  simp only [List.mem_cons, List.not_mem_nil, or_false] at listed
  rcases listed with rfl | rfl
  · exact ⟨by simp [plainKeyword, height], position _ _ _⟩
  · exact ⟨by simp [plainKeyword, height], position _ _ _⟩

theorem heightEntries_ofMetadataForm {form : Form} {entries : Entries}
    (read : Entries.ofMetadataForm form = .ok entries) : heightEntries entries ≤ form.height := by
  unfold Entries.ofMetadataForm at read
  split at read
  · obtain rfl := Except.ok.inj read
    simp [Entries.single, heightEntries, plainKeyword, height]
  · obtain rfl := Except.ok.inj read
    simp [Entries.single, heightEntries, height]
  · obtain rfl := Except.ok.inj read
    simp only [height]
    omega
  · contradiction

/-- The place of a definition is told by entries of height two, and all others are lower than
an argument. -/
theorem heightEntries_collected_le {args : List Form} {span : Option Span} {given : Option Form}
    {init : Form} {name : Symbol} {entries : Entries}
    (parts : Definition.parts args span = .ok (given, init))
    (named : definedName .define args span = .ok name)
    (collected : Definition.collectMetadata name given span = .ok entries) :
    heightEntries entries ≤ heightItems args + 1 := by
  have own := height_le_heightItems (form_mem_of_definedName named)
  simp only [Symbol.form, height] at own
  refine heightEntries_le fun entry member => ?_
  rcases Definition.mem_collectMetadata collected member with
    ⟨form, written, _, read, listed⟩ | listed | ⟨place, _, listed⟩
  · have total := height_le_heightItems ((Definition.mem_of_parts parts).1 form written)
    have low := heightEntries_ofMetadataForm read
    have smaller := height_le_heightEntries entry listed
    exact ⟨by omega, by omega⟩
  · have smaller := height_le_heightEntries entry listed
    exact ⟨by omega, by omega⟩
  · have low := heightEntries_ofSpan place
    have smaller := height_le_heightEntries entry listed
    exact ⟨by omega, by omega⟩

/-- Every prompted form is lower. -/
theorem Prompts.height_lt {core : String} {outer inner : Form}
    (prompts : outer.Prompts core inner) : inner.height < outer.height := by
  cases prompts with
  | element member => exact height_item_lt member
  | key member =>
    have smaller := height_le_heightEntries _ member
    simp only [height]
    omega
  | value member =>
    have smaller := height_le_heightEntries _ member
    simp only [height]
    omega
  | item member => exact height_item_lt member
  | @missing head args =>
    have bounds := overhead_bounds (head :: args)
    have pos := head.height_pos
    simp only [height, heightItems]
    omega
  | @inside head arg _ args _ _ member listed =>
    have inner := height_item_lt listed
    have middle := height_le_heightItems (List.mem_cons_of_mem head member)
    have bounds := overhead_bounds (head :: args)
    simp only [height]
    omega
  | @part head arg pattern _ args _ _ member listed taken =>
    have part := height_isPart_le taken
    have inner := height_item_lt listed
    have middle := height_le_heightItems (List.mem_cons_of_mem head member)
    have bounds := overhead_bounds (head :: args)
    simp only [height]
    omega
  | @wrapped head _ args _ _ special wraps =>
    have wrapped := wraps.height_le
    have own : overhead (head :: args) = 2 := by
      rcases special with found | found <;> simp [overhead, found]
    simp only [height, heightItems, own]
    omega
  | @method head _ args items _ own ownMetadata _ member wraps =>
    have wrapped := wraps.height_le
    have behind : heightItems (items.drop 1) ≤ heightItems items :=
      heightItems_le fun item listed => height_le_heightItems (List.mem_of_mem_drop listed)
    have method := height_le_heightItems (List.mem_cons_of_mem head member)
    have own := overhead_bounds items
    have bounds := overhead_bounds (head :: args)
    simp only [height] at method ⊢
    omega
  | @rounds head form args body pairs span _ n m special read patterns lowered =>
    obtain ⟨items, vectorSpan, vectorMetadata, rfl, paired⟩ := Binder.header_eq_ok read
    have own : overhead (head :: .vector items vectorSpan vectorMetadata :: body) = 4 := by
      simp only [overhead, special, loopsOverPatterns, paired, Option.any_some, patterns,
        Bool.not_false, ↓reduceIte]
    obtain ⟨bound, total, room, itemsLow, bodyLow⟩ :=
      heightItems_header items body vectorSpan vectorMetadata
    have low := height_lowerLoop_le room (Binder.pairs?_all itemsLow paired) bodyLow lowered
    have larger : heightItems (.vector items vectorSpan vectorMetadata :: body) ≤
        heightItems (head :: .vector items vectorSpan vectorMetadata :: body) :=
      Nat.le_max_right _ _
    simp only [height, own]
    omega
  | @metadata head init args span _ entries given name special parts named collected =>
    have own : overhead (head :: args) = 3 := by simp [overhead, special]
    have low := heightEntries_collected_le parts named collected
    have larger : heightItems args ≤ heightItems (head :: args) := Nat.le_max_right _ _
    simp only [height, own]
    omega

/-- No chain of prompts goes on forever. -/
theorem prompts_wellFounded (core : String) :
    WellFounded fun inner outer : Form => outer.Prompts core inner :=
  Subrelation.wf (fun prompts => prompts.height_lt) (measure height).wf

end Form

namespace Analyzer

variable {analyzer : Analyzer} (unhosted : analyzer.host = .none)
variable {first second expand other : Visit} {form : Form}

include unhosted

theorem analyzeForm_congr (same : ∀ inner, form.Prompts analyzer.settings.coreNamespace inner →
      first inner = second inner) :
    analyzer.analyzeForm first expand form = analyzer.analyzeForm second other form := by
  have alike : Alike (fun s t => s = t) (fun _ => True) (analyzer.analyzeForm first expand)
      (analyzer.analyzeForm second other) form :=
    analyzer.alike_analyzeForm unhosted (fun _ _ => trivial) fun inner prompts scope =>
      agrees_eq.mpr ⟨congrFun (same inner prompts) scope, fun _ _ _ _ => trivial⟩
  exact funext fun scope => (agrees_eq.mp (alike scope)).1

/-- Any two bounds that are not below the height of a form do equally well, and neither is
reached. -/
theorem alike_descend {bound larger : Nat} (enough : form.height ≤ bound)
    (more : form.height ≤ larger) :
    Alike (fun s t => s = t) AnalysisError.Genuine (analyzer.descend expand bound)
      (analyzer.descend other larger) form := by
  induction bound generalizing form larger with
  | zero =>
    have pos := form.height_pos
    omega
  | succ bound ih =>
    cases larger with
    | zero =>
      have pos := form.height_pos
      omega
    | succ larger =>
      refine analyzer.alike_analyzeForm unhosted (fun _ genuine => genuine) fun inner prompts => ?_
      have lower := prompts.height_lt
      exact ih (by omega) (by omega)

omit unhosted in
theorem analyze_eq_descend (analyzer : Analyzer) : ∃ expand, ∀ form scope,
    analyzer.analyze form scope = analyzer.descend expand (stepsFor form) form scope := by
  unfold analyze
  cases analyzer.expansionLimit with
  | zero => exact ⟨_, fun _ _ => rfl⟩
  | succ expansions => exact ⟨analyzer.analyzeWithin expansions, fun _ _ => rfl⟩

/-- An analysis is one step, with the analysis itself for what that step prompts. -/
theorem alike_analyze_step :
    Alike (fun s t => s = t) AnalysisError.Genuine analyzer.analyze
      (analyzer.analyzeForm analyzer.analyze expand) form := by
  obtain ⟨own, analyzed⟩ := analyzer.analyze_eq_descend
  have enough (form : Form) : form.height ≤ stepsFor form := form.height_le_depth
  obtain ⟨bound, steps⟩ : ∃ bound, stepsFor form = bound + 1 :=
    ⟨stepsFor form - 1, by have pos := form.height_pos; have := enough form; omega⟩
  intro scope
  rw [analyzed, steps]
  refine analyzer.alike_analyzeForm unhosted (fun _ genuine => genuine)
    (fun inner prompts scope => ?_) scope
  have lower := prompts.height_lt
  have total := enough form
  rw [analyzed]
  exact alike_descend unhosted (by omega) (enough inner) scope

end Analyzer

/-- With no host, the prompts of a form are well-founded, a rule looks at nothing but what it
prompts, and so its recursion equation has one solution, which is the analysis. It gives a
node or an error about what is written, and never runs out of steps. -/
theorem analysis_terminates {analyzer : Analyzer} (unhosted : analyzer.host = .none) :
    (WellFounded fun inner outer : Form => outer.Prompts analyzer.settings.coreNamespace inner) ∧
    (∀ (first second expand other : Visit) (form : Form),
      (∀ inner, form.Prompts analyzer.settings.coreNamespace inner → first inner = second inner) →
      analyzer.analyzeForm first expand form = analyzer.analyzeForm second other form) ∧
    (∀ visit expand : Visit,
      (∀ form scope, visit form scope = analyzer.analyzeForm visit expand form scope) ↔
        visit = analyzer.analyze) ∧
    ∀ form scope s, (∃ node t, Gives (analyzer.analyze form scope) s node t) ∨
      ∃ error t, Fails (analyzer.analyze form scope) s error t ∧ error.fault ≠ .nestingLimit := by
  have step (expand : Visit) (form : Form) (scope : Scope) :
      analyzer.analyze form scope = analyzer.analyzeForm analyzer.analyze expand form scope ∧
      ∀ s error t, Fails (analyzer.analyze form scope) s error t → error.Genuine :=
    agrees_eq.mp (analyzer.alike_analyze_step unhosted scope)
  refine ⟨Form.prompts_wellFounded _, fun _ _ _ _ _ => Analyzer.analyzeForm_congr unhosted,
    fun visit expand => ⟨fun solves => ?_, ?_⟩, fun form scope s => ?_⟩
  · -- Along the prompts, so that the forms inside are visited alike already.
    funext form
    induction form using (Form.prompts_wellFounded analyzer.settings.coreNamespace).induction with
    | _ form ih =>
      funext scope
      rw [solves, (step expand form scope).1]
      exact congrFun (Analyzer.analyzeForm_congr unhosted ih) scope
  · rintro rfl form scope
    exact (step expand form scope).1
  · match run : analyzer.analyze form scope s with
    | (.ok node, t) => exact .inl ⟨node, t, run⟩
    | (.error error, t) => exact .inr ⟨error, t, run, (step outOfSteps form scope).2 s error t run⟩

/-- The form `(loop [{:k [a]} 1] a)`. -/
def Form.loopOverMap : Form :=
  .list [.plainSymbol "loop",
    .vector [.map [(.plainKeyword "k", .vector [.plainSymbol "a"] none [])] none [], .int 1]
      none [],
    .plainSymbol "a"] none []

/-- The loop prompts a form that is nested deeper than the loop itself. -/
theorem analysis_terminates_loopOverMap :
    (∃ inner, Form.loopOverMap.Prompts "core" inner ∧ Form.loopOverMap.depth < inner.depth) ∧
    ({} : Analyzer).host = .none ∧
    ((∃ node t, Gives (({} : Analyzer).analyze .loopOverMap .top) { registry := .ofSettings {} }
        node t) ∨
      ∃ error t, Fails (({} : Analyzer).analyze .loopOverMap .top) { registry := .ofSettings {} }
        error t ∧ error.fault ≠ .nestingLimit) := by
  refine ⟨⟨_, .rounds (n := {}) rfl rfl rfl rfl, by decide⟩, rfl, ?_⟩
  exact (analysis_terminates rfl).2.2.2 .loopOverMap .top { registry := .ofSettings {} }

end LispFront
