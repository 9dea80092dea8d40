import LispFront.Proofs.Coupling
import LispFront.Proofs.Locality

/-! Lowering draws as many names in one run as in the other and makes forms that correspond to each
other: patterns become the same bindings but for the numbers of intermediate values. -/

namespace LispFront.Renumbering

variable {α β : Type} {two : Renumbering} {log later : List Draw}
variable {known after : Nat → Prop} {V : List Draw → α → β → Prop}

section Drawing

theorem Names.issue {n m : NameSupply} {draw other : Draw} (names : two.Names log n m)
    (alike : draw.Alike other) : two.Names (log ++ [draw]) (n.issue draw).2 (m.issue other).2 := by
  obtain ⟨rfl, others, same, rfl⟩ := names
  refine ⟨?_, others ++ [other], List.rel_append same (.cons alike .nil), ?_⟩
  · rw [NameSupply.after_append]
    rfl
  · rw [NameSupply.after_append]
    rfl

theorem coupled_draw {first second : String} :
    Coupled two.Names (fun _ _ _ => True) log (NameSupply.draw (.shadow first))
      (NameSupply.draw (.shadow second)) := fun _ _ names =>
  .ok (List.prefix_append log [.shadow first]) (names.issue (.shadow first second)) trivial

/-- Both symbols were drawn for the same intermediate value. -/
def Temps (two : Renumbering) (span : Option Span) (log : List Draw) (first second : Symbol) :
    Prop :=
  ∃ index, log[index]? = some .temp ∧ first = two.first.temp index span ∧
    second = two.second.temp index span

theorem coupled_drawTemp {span : Option Span} :
    Coupled two.Names (two.Temps span) log (NameSupply.drawTemp span)
      (NameSupply.drawTemp span) := by
  rintro n m names
  refine .ok (List.prefix_append log [.temp]) (names.issue .temp) ⟨log.length, ?_, ?_, ?_⟩
  · exact List.getElem?_concat_length
  · rw [names.first]
    exact NameSupply.temp_after
  · obtain ⟨others, same, rfl⟩ := names.second
    rw [same.length_eq]
    exact NameSupply.temp_after

theorem coupled_ofNames {x : NameM α} {y : NameM β} (drawn : Coupled two.Names V log x y) :
    Coupled two.States V log (AnalyzeM.ofNames x) (AnalyzeM.ofNames y) := by
  intro s t states
  have outcomes := drawn s.names t.names states.names
  unfold AnalyzeM.ofNames
  rcases left : x s.names with ⟨outcome, n⟩
  rcases right : y t.names with ⟨other, m⟩
  rw [left, right] at outcomes
  cases outcomes with
  | ok grown names values => exact .ok grown ⟨names, states.registry⟩ values
  | error grown names => exact .error grown ⟨names, states.registry⟩

end Drawing

section Lowering

/-- Bindings that lowering gives in the two runs. -/
def Lowered (two : Renumbering) (known : Nat → Prop) (log : List Draw)
    (flat others : List (Symbol × Form)) : Prop :=
  ∃ after, two.Plain log known flat others after

theorem coupled_unlessIgnored {pattern : Form} {x y : NameM (List (Symbol × Form))}
    (inner : Coupled two.Names (two.Lowered known) log x y) :
    Coupled two.Names (two.Lowered known) log (Pattern.unlessIgnored pattern x)
      (Pattern.unlessIgnored pattern y) := by
  unfold Pattern.unlessIgnored
  split
  · exact .pure ⟨known, .nil⟩
  · exact inner

/-- What is bound next may use what was bound before. -/
theorem coupled_append {x y u v : NameM (List (Symbol × Form))}
    (first : Coupled two.Names (two.Lowered known) log x y)
    (second : ∀ {later after}, log <+: later → (∀ i, known i → after i) →
      Coupled two.Names (two.Lowered after) later u v) :
    Coupled two.Names (two.Lowered known) log (do return (← x) ++ (← u))
      (do return (← y) ++ (← v)) := by
  refine first.bind fun grown before => ?_
  obtain ⟨after, here⟩ := before
  refine (second grown here.wider).bind fun more behind => ?_
  obtain ⟨_, there⟩ := behind
  exact .pure ⟨_, (here.grow more).append there⟩

/-- The parts of an intermediate value are bound behind it. -/
theorem coupled_whole {span : Option Span} {value other : Form}
    {parts : Symbol → NameM (List (Symbol × Form))} (values : two.Value known value other)
    (lowered : ∀ {later : List Draw} {index : Nat}, log <+: later →
      Coupled two.Names (two.Lowered fun i => i = index ∨ known i) later
        (parts (two.first.temp index span)) (parts (two.second.temp index span))) :
    Coupled two.Names (two.Lowered known) log
      (do let whole ← NameSupply.drawTemp span; return (whole, value) :: (← parts whole))
      (do let whole ← NameSupply.drawTemp span; return (whole, other) :: (← parts whole)) := by
  refine coupled_drawTemp.bind fun grown temps => ?_
  obtain ⟨index, drawn, left, right⟩ := temps
  subst left right
  refine (lowered grown).bind fun more behind => ?_
  obtain ⟨_, rest⟩ := behind
  exact .pure ⟨_, .temp (getElem?_grow more drawn) values rest⟩

theorem value_element {index : Nat} {span place : Option Span} {key : Form} (isKnown : known index)
    (avoids : key.Avoids two.reserved) :
    two.Value known (Pattern.element two.core (two.first.temp index place) key span)
      (Pattern.element two.core (two.second.temp index place) key span) :=
  .accessor (SpecialForm.ofName?_accessor (.inl rfl))
    (.cons (.temp isKnown) (.cons (.own avoids) .nil))

theorem value_remainder {index : Nat} {span place : Option Span} {count : Nat}
    (isKnown : known index) :
    two.Value known (Pattern.remainder two.core (two.first.temp index place) count span)
      (Pattern.remainder two.core (two.second.temp index place) count span) :=
  .accessor (SpecialForm.ofName?_accessor (.inr rfl))
    (.cons (.own rfl) (.cons (.temp isKnown) .nil))

mutual
theorem coupled_lower : ∀ (pattern : Form), pattern.Avoids two.reserved →
    ∀ {log : List Draw} {known : Nat → Prop} {value other : Form},
    two.Value known value other →
    Coupled two.Names (two.Lowered known) log (Pattern.lower two.core pattern value)
      (Pattern.lower two.core pattern other)
  | .symbol name span metadata, avoids, log, known, value, other, values => by
    unfold Pattern.lower
    split
    · exact .throw
    · exact .pure ⟨known, .own (Form.avoids_symbol.mp avoids).1 values .nil⟩
  | .vector items span metadata, avoids, log, known, value, other, values => by
    unfold Pattern.lower
    exact coupled_whole values fun _ =>
      coupled_lowerItems items (Form.avoids_vector.mp avoids).1 (.inl rfl)
  | .map entries span metadata, avoids, log, known, value, other, values => by
    unfold Pattern.lower
    exact coupled_whole values fun _ =>
      coupled_lowerEntries entries (Form.avoids_map.mp avoids).1 (.inl rfl)
  | .nil, _, _, _, _, _, _ => .throw
  | .bool _, _, _, _, _, _, _ => .throw
  | .int _, _, _, _, _, _, _ => .throw
  | .float _, _, _, _, _, _, _ => .throw
  | .str _, _, _, _, _, _, _ => .throw
  | .keyword _, _, _, _, _, _, _ => .throw
  | .list .., _, _, _, _, _, _ => .throw

theorem coupled_lowerItems : ∀ (items : List Form), (∀ item ∈ items, item.Avoids two.reserved) →
    ∀ {log : List Draw} {known : Nat → Prop} {index : Nat} {place span : Option Span} {count : Nat},
    known index →
    Coupled two.Names (two.Lowered known) log
      (Pattern.lowerItems two.core (two.first.temp index place) span count items)
      (Pattern.lowerItems two.core (two.second.temp index place) span count items)
  | [], _, _, known, _, _, _, _, _ => .pure ⟨known, .nil⟩
  | item :: rest, avoid, log, known, index, place, span, count, isKnown => by
    obtain ⟨avoids, others⟩ := List.forall_mem_cons.mp avoid
    unfold Pattern.lowerItems
    split
    · exact coupled_lowerRest rest others isKnown
    · have number : (Form.int count).Avoids two.reserved := rfl
      refine coupled_append (coupled_unlessIgnored ?_) fun _ wider => ?_
      · exact coupled_lower item avoids (value_element isKnown number)
      · exact coupled_lowerItems rest others (wider _ isKnown)

theorem coupled_lowerRest : ∀ (items : List Form), (∀ item ∈ items, item.Avoids two.reserved) →
    ∀ {log : List Draw} {known : Nat → Prop} {index : Nat} {place span : Option Span} {count : Nat},
    known index →
    Coupled two.Names (two.Lowered known) log
      (Pattern.lowerRest two.core (two.first.temp index place) span count items)
      (Pattern.lowerRest two.core (two.second.temp index place) span count items)
  | [], _, _, known, _, _, _, _, _ => .pure ⟨known, .nil⟩
  | [pattern], avoid, _, _, _, _, _, _, isKnown =>
    coupled_unlessIgnored
      (coupled_lower pattern (avoid _ List.mem_cons_self) (value_remainder isKnown))
  | _ :: _ :: _, _, _, _, _, _, _, _, _ => .throw

theorem coupled_lowerEntries : ∀ (entries : List (Form × Form)),
    Entries.Avoids two.reserved entries →
    ∀ {log : List Draw} {known : Nat → Prop} {index : Nat} {place span : Option Span},
    known index →
    Coupled two.Names (two.Lowered known) log
      (Pattern.lowerEntries two.core (two.first.temp index place) span entries)
      (Pattern.lowerEntries two.core (two.second.temp index place) span entries)
  | [], _, _, known, _, _, _, _ => .pure ⟨known, .nil⟩
  | (key, pattern) :: rest, avoid, log, known, index, place, span, isKnown => by
    obtain ⟨⟨keyAvoids, avoids⟩, others⟩ := List.forall_mem_cons.mp avoid
    unfold Pattern.lowerEntries
    refine coupled_append (coupled_unlessIgnored ?_) fun _ wider => ?_
    · exact coupled_lower pattern avoids (value_element isKnown keyAvoids)
    · exact coupled_lowerEntries rest others (wider _ isKnown)
end

theorem lower_temp {supply : NameSupply} {index : Nat} {span : Option Span} {value : Form} :
    Pattern.lower two.core (supply.temp index span).form value =
      pure [(supply.temp index span, value)] := by
  unfold Pattern.lower
  rfl

theorem coupled_lowerPairs {pairs others : List (Form × Form)}
    (header : two.Patterns log known pairs others after) :
    Coupled two.Names
      (fun later flat lowered => ∃ behind, two.Plain later known flat lowered behind ∧
        ∀ i, after i → behind i)
      log (Pattern.lowerPairs two.core pairs) (Pattern.lowerPairs two.core others) := by
  induction pairs generalizing log known others after with
  | nil =>
    cases header
    exact .pure ⟨known, .nil, fun _ isKnown => isKnown⟩
  | cons pair rest ih =>
    cases header with
    | own isOwn values rest =>
      refine (coupled_lower _ isOwn values).bind fun grown lowered => ?_
      obtain ⟨_, here⟩ := lowered
      obtain ⟨_, rest, wider⟩ := (rest.grow grown).mono here.wider
      refine (ih rest).bind fun more others => ?_
      obtain ⟨_, there, widest⟩ := others
      exact .pure ⟨_, (here.grow more).append there, fun i isKnown => widest i (wider i isKnown)⟩
    | temp drawn values rest =>
      simp only [Pattern.lowerPairs, lower_temp, pure_bind]
      refine (ih rest).bind fun more others => ?_
      obtain ⟨_, there, wider⟩ := others
      exact .pure ⟨_, .temp (getElem?_grow more drawn) values there, wider⟩

/-- Names for patterns, and the bindings of the patterns that are no names themselves to
intermediate values. -/
def Renamed (two : Renumbering) (log : List Draw) (symbols others : List Symbol)
    (bindings lowered : List Form) : Prop :=
  ∃ fresh pairs rest, two.Binders log fresh symbols others ∧
    bindings = Binder.flatten pairs ∧ lowered = Binder.flatten rest ∧
    ∀ known : Nat → Prop, (∀ i ∈ fresh, known i) → two.Patterns log known pairs rest known

theorem Renamed.append {symbols others tail rest : List Symbol}
    {bindings lowered behind last : List Form} (grown : log <+: later)
    (first : two.Renamed log symbols others bindings lowered)
    (second : two.Renamed later tail rest behind last) :
    two.Renamed later (symbols ++ tail) (others ++ rest) (bindings ++ behind)
      (lowered ++ last) := by
  obtain ⟨fresh, _, _, binders, rfl, rfl, header⟩ := first
  obtain ⟨more, _, _, moreBinders, rfl, rfl, moreHeader⟩ := second
  refine ⟨fresh ++ more, _, _, (binders.grow grown).append moreBinders,
    (Binder.flatten_append _ _).symm, (Binder.flatten_append _ _).symm, fun known isKnown => ?_⟩
  obtain ⟨here, there⟩ := List.forall_mem_append.mp isKnown
  exact ((header known here).grow grown).append (moreHeader known there)

theorem Renamed.nil : two.Renamed log [] [] [] [] :=
  ⟨[], [], [], .nil, rfl, rfl, fun _ _ => .nil⟩

theorem coupled_nameFor {pattern : Form} (avoids : pattern.Avoids two.reserved) :
    Coupled two.Names (fun later a b => two.Renamed later [a.1] [b.1] a.2 b.2) log
      (Pattern.nameFor pattern) (Pattern.nameFor pattern) := by
  unfold Pattern.nameFor
  split
  next symbol found =>
    rw [Form.plainSymbol?_eq_some found] at avoids
    have isOwn := (Form.avoids_symbol.mp avoids).1
    exact .pure ⟨[], [], [], .own isOwn .nil, rfl, rfl, fun _ _ => .nil⟩
  · refine coupled_drawTemp.bind fun _ temps => ?_
    obtain ⟨index, drawn, left, right⟩ := temps
    subst left right
    refine .pure ⟨[index], [(pattern, _)], [(pattern, _)], .temp drawn .nil, rfl, rfl, ?_⟩
    intro known isKnown
    exact .own avoids (.atom (.temp (isKnown index List.mem_cons_self))) .nil

theorem coupled_nameForOption {pattern : Option Form}
    (avoids : ∀ form, pattern = some form → form.Avoids two.reserved) :
    Coupled two.Names
      (fun later a b => two.Renamed later a.1.toList b.1.toList a.2 b.2) log
      (Pattern.nameForOption pattern) (Pattern.nameForOption pattern) := by
  cases pattern with
  | none => exact .pure .nil
  | some pattern => exact (coupled_nameFor (avoids pattern rfl)).bind fun _ renamed => .pure renamed

theorem coupled_nameAll {items : List Form} (avoid : ∀ item ∈ items, item.Avoids two.reserved) :
    Coupled two.Names (fun later a b => two.Renamed later a.1 b.1 a.2 b.2) log
      (Parameters.nameAll items)
      (Parameters.nameAll items) := by
  induction items generalizing log with
  | nil => exact .pure .nil
  | cons pattern rest ih =>
    obtain ⟨avoids, others⟩ := List.forall_mem_cons.mp avoid
    refine (coupled_nameFor avoids).bind fun _ here => ?_
    exact (ih others).bind fun more there => .pure (here.append more there)

theorem coupled_nameRest {items : List Form} {span : Option Span}
    (avoid : ∀ item ∈ items, item.Avoids two.reserved) :
    Coupled two.Names (fun later a b => two.Renamed later [a.1] [b.1] a.2 b.2) log
      (Parameters.nameRest items span) (Parameters.nameRest items span) := by
  have kept : ∀ item ∈ items.filter fun item => !Parameters.isMark item,
      item.Avoids two.reserved := fun item member => avoid item (List.mem_filter.mp member).1
  unfold Parameters.nameRest
  split
  · refine coupled_drawTemp.bind fun _ temps => ?_
    obtain ⟨index, drawn, left, right⟩ := temps
    subst left right
    exact .pure ⟨[index], [], [], .temp drawn .nil, rfl, rfl, fun _ _ => .nil⟩
  next pattern single => exact coupled_nameFor (kept pattern (single ▸ List.mem_cons_self))
  next pattern _ _ several =>
    exact (coupled_nameFor (kept pattern (several ▸ List.mem_cons_self))).bind fun _ _ => .throw

theorem coupled_lowerParameters {items : List Form} {span : Option Span}
    (avoid : ∀ item ∈ items, item.Avoids two.reserved) :
    Coupled two.Names
      (fun later a b => two.Renamed later a.symbols b.symbols a.bindings b.bindings) log
      (Parameters.lower items span) (Parameters.lower items span) := by
  have before : ∀ item ∈ items.takeWhile fun item => !Parameters.isMark item,
      item.Avoids two.reserved := fun item member =>
    avoid item ((List.takeWhile_prefix _).subset member)
  refine (coupled_nameAll before).bind fun _ here => ?_
  dsimp only
  split
  · exact .pure here
  next behind found =>
    have behindAvoid : ∀ item ∈ behind, item.Avoids two.reserved := fun item member =>
      avoid item ((List.dropWhile_suffix _).subset (found ▸ List.mem_cons_of_mem _ member))
    refine (coupled_nameRest behindAvoid).bind fun more there => .pure (here.append more there)

/-- The three binding vectors of a lowered loop: the names of the loop are plain, and what
stands in the other two is known behind the first. -/
inductive Rounds (two : Renumbering) (known : Nat → Prop) (log : List Draw) :
    Pattern.LoopHeader → Pattern.LoopHeader → Prop where
  | mk {outer outer' names names' inner inner' : List (Form × Form)}
      {middle last behind : Nat → Prop}
      (outerTwin : two.Patterns log known outer outer' middle)
      (plain : (names.all fun pair => Pattern.isSimple pair.1) = true)
      (namesTwin : two.Patterns log middle names names' last)
      (innerTwin : two.Patterns log middle inner inner' behind) :
      Rounds two known log ⟨Binder.flatten outer, Binder.flatten names, Binder.flatten inner⟩
        ⟨Binder.flatten outer', Binder.flatten names', Binder.flatten inner'⟩

namespace Rounds

variable {known : Nat → Prop} {pattern init : Form} {one other : Pattern.LoopHeader}

theorem nil : two.Rounds known log {} {} :=
  @mk two known log [] [] [] [] [] [] known known known .nil rfl .nil .nil

/-- A binding with a plain name. -/
theorem own (simple : Pattern.isSimple pattern = true) (avoids : pattern.Avoids two.reserved)
    (initAvoids : init.Avoids two.reserved) (rounds : two.Rounds known log one other) :
    two.Rounds known log
      ⟨pattern :: init :: one.outer, pattern :: pattern :: one.names, one.inner⟩
      ⟨pattern :: init :: other.outer, pattern :: pattern :: other.names, other.inner⟩ := by
  cases rounds with
  | @mk _ _ names _ _ _ _ _ _ outerTwin plain namesTwin innerTwin =>
    have allPlain : ((pattern, pattern) :: names).all fun pair => Pattern.isSimple pair.1 := by
      rw [List.all_cons, simple, plain]
      rfl
    exact mk (.own avoids (.atom (.own initAvoids)) outerTwin) allPlain
      (.own avoids (.atom (.own avoids)) namesTwin) innerTwin

/-- A binding whose value is taken apart: the loop goes on with an intermediate value. -/
theorem temp {index : Nat} {span : Option Span} (drawn : log[index]? = some .temp)
    (avoids : pattern.Avoids two.reserved) (initAvoids : init.Avoids two.reserved)
    (rounds : two.Rounds (fun i => i = index ∨ known i) log one other) :
    two.Rounds known log
      ⟨(two.first.temp index span).form :: init ::
          pattern :: (two.first.temp index span).form :: one.outer,
        (two.first.temp index span).form :: (two.first.temp index span).form :: one.names,
        pattern :: (two.first.temp index span).form :: one.inner⟩
      ⟨(two.second.temp index span).form :: init ::
          pattern :: (two.second.temp index span).form :: other.outer,
        (two.second.temp index span).form :: (two.second.temp index span).form :: other.names,
        pattern :: (two.second.temp index span).form :: other.inner⟩ := by
  cases rounds with
  | @mk _ _ names _ _ _ middle _ _ outerTwin plain namesTwin innerTwin =>
    let form := (two.first.temp index span).form
    have allPlain : ((form, form) :: names).all fun pair => Pattern.isSimple pair.1 := plain
    have isKnown : middle index := outerTwin.wider index (.inl rfl)
    -- The loop binds the name a second time, behind the binding around it.
    have wider : ∀ i, middle i → i = index ∨ middle i := fun _ isKnown => .inr isKnown
    obtain ⟨_, namesTwin, _⟩ := namesTwin.mono wider
    exact mk
      (.temp drawn (.atom (.own initAvoids)) (.own avoids (.atom (.temp (.inl rfl))) outerTwin))
      allPlain (.temp drawn (.atom (.temp isKnown)) namesTwin)
      (.own avoids (.atom (.temp isKnown)) innerTwin)

end Rounds

theorem coupled_loopHeader (known : Nat → Prop) {pairs : List (Form × Form)}
    (avoid : Entries.Avoids two.reserved pairs) :
    Coupled two.Names (two.Rounds known) log (Pattern.loopHeader pairs)
      (Pattern.loopHeader pairs) := by
  induction pairs generalizing log known with
  | nil => exact .pure .nil
  | cons pair rest ih =>
    obtain ⟨pattern, init⟩ := pair
    obtain ⟨⟨avoids, initAvoids⟩, others⟩ := List.forall_mem_cons.mp avoid
    unfold Pattern.loopHeader
    split
    next simple =>
      refine (ih known others).bind fun _ rounds => ?_
      exact .pure (rounds.own simple avoids initAvoids)
    · refine coupled_drawTemp.bind fun _ temps => ?_
      obtain ⟨index, drawn, left, right⟩ := temps
      subst left right
      refine (ih (fun i => i = index ∨ known i) others).bind fun more rounds => ?_
      exact .pure (rounds.temp (getElem?_grow more drawn) avoids initAvoids)

theorem coupled_lowerLoop (known : Nat → Prop) {pairs : List (Form × Form)} {body : List Form}
    {span : Option Span} (avoid : Entries.Avoids two.reserved pairs)
    (bodyAvoids : ∀ form ∈ body, form.Avoids two.reserved) :
    Coupled two.Names (fun later => two.Twin later known) log
      (Pattern.lowerLoop pairs body span) (Pattern.lowerLoop pairs body span) := by
  refine (coupled_loopHeader known avoid).bind fun _ rounds => ?_
  cases rounds with
  | mk outerTwin plain namesTwin innerTwin =>
    obtain ⟨_, innerTwin, _⟩ := innerTwin.mono namesTwin.wider
    apply Coupled.pure
    exact .nest (.inl rfl) outerTwin
      (.nest (.inr ⟨rfl, plain⟩) namesTwin (.around (.inl rfl) innerTwin bodyAvoids))

end Lowering

end LispFront.Renumbering
