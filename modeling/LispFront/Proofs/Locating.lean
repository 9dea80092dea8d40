import LispFront.Form.Locate
import LispFront.Proofs.FormEquality
import LispFront.Proofs.SubForms

/-! A place in a form is a path through its contents, metadata left out. Locating a form keeps all
of its places. Each of them holds what it held before, with the same metadata, and with a span
unless a scalar stands there (`locating_fills_gaps`). A map is made anew from its located keys. They
are in order again, because the order does not see spans. -/

namespace LispFront

namespace Form

/-- The forms directly inside, metadata left out. A map has each key with its value behind it. -/
def contents : Form → List Form
  | .list items _ _ | .vector items _ _ => items
  | .map entries _ _ => Entries.forms entries
  | _ => []

def mapContents (change : Form → Form) : Form → Form
  | .list items span metadata => .list (items.map change) span metadata
  | .vector items span metadata => .vector (items.map change) span metadata
  | .map entries span metadata => .map (entries.map (Prod.map change change)) span metadata
  | form => form

/-- The form at a place. -/
def at? : List Nat → Form → Option Form
  | [], form => some form
  | index :: path, form => form.contents[index]?.bind (at? path)

/-- Every place holds such a form. -/
def Everywhere (good : Form → Prop) (form : Form) : Prop :=
  ∀ path inner, form.at? path = some inner → good inner

/-- All maps have their keys in order, as maps are built (`ascends_map_ofList`). -/
def Ascends : Form → Prop := Everywhere fun inner => Ordered.Ascending cmp inner.orderEntries

/-- All symbols, lists, vectors and maps have a span. -/
def Placed : Form → Prop := Everywhere fun inner => inner.isScalar = true ∨ inner.span.isSome = true

section Contents

variable {form inner : Form} {change : Form → Form} {good : Form → Prop}

theorem everywhere_iff :
    form.Everywhere good ↔ good form ∧ ∀ inner ∈ form.contents, inner.Everywhere good := by
  constructor
  · intro all
    refine ⟨all [] form rfl, fun inner member path deeper found => ?_⟩
    obtain ⟨index, here⟩ := List.mem_iff_getElem?.mp member
    exact all (index :: path) deeper (by rw [at?, here, Option.bind_some, found])
  · rintro ⟨here, later⟩ path inner found
    cases path with
    | nil => exact Option.some.inj found ▸ here
    | cons index path =>
      obtain ⟨middle, atIndex, found⟩ := Option.bind_eq_some_iff.mp found
      exact later middle (List.mem_of_getElem? atIndex) path inner found

theorem everywhere_of_at? {path : List Nat} (all : form.Everywhere good)
    (found : form.at? path = some inner) : inner.Everywhere good := by
  induction path generalizing form with
  | nil => exact Option.some.inj found ▸ all
  | cons index path ih =>
    obtain ⟨middle, atIndex, found⟩ := Option.bind_eq_some_iff.mp found
    have inside := (everywhere_iff.mp all).2 middle (List.mem_of_getElem? atIndex)
    exact ih inside found

theorem depth_lt_of_mem_contents (member : inner ∈ form.contents) : inner.depth < form.depth := by
  cases form with
  | list items | vector items =>
    rw [depth]
    exact Nat.lt_add_one_of_le (depth_le_depthItems member)
  | map entries =>
    obtain ⟨entry, listed, own⟩ := Entries.mem_forms.mp member
    obtain ⟨key, value⟩ := depth_le_depthEntries listed
    rw [depth]
    rcases own with rfl | rfl
    · exact Nat.lt_add_one_of_le key
    · exact Nat.lt_add_one_of_le value
  | _ => contradiction

/-- What holds of a form as soon as it holds of its contents holds of every form. -/
theorem contents_induction {P : Form → Prop}
    (step : ∀ form, (∀ inner ∈ form.contents, P inner) → P form) (form : Form) : P form := by
  induction level : form.depth using Nat.strongRecOn generalizing form with
  | ind _ ih =>
    subst level
    exact step form fun inner member => ih _ (depth_lt_of_mem_contents member) inner rfl

theorem contents_mapContents : (form.mapContents change).contents = form.contents.map change := by
  cases form with
  | map entries => simp [mapContents, contents, Entries.forms, List.flatMap_map, List.map_flatMap]
  | _ => rfl

theorem mapContents_of_fixed (fixed : ∀ inner ∈ form.contents, change inner = inner) :
    form.mapContents change = form := by
  cases form with
  | list items | vector items =>
    have same : items.map change = items := (List.map_congr_left fixed).trans (List.map_id' items)
    rw [mapContents, same]
  | map entries =>
    have all := Entries.forall_mem_forms.mp fixed
    have same : entries.map (Prod.map change change) = entries :=
      (List.map_congr_left fun entry member =>
        Prod.ext (all entry member).1 (all entry member).2).trans (List.map_id' entries)
    rw [mapContents, same]
  | _ => rfl

theorem bare_mapContents (same : ∀ inner ∈ form.contents, (change inner).bare = inner.bare) :
    (form.mapContents change).bare = form.bare := by
  unfold bare at same ⊢
  cases form with
  | list items | vector items =>
    have stripped : (items.map change).map (strip id) = items.map (strip id) :=
      List.map_map.trans (List.map_congr_left same)
    rw [mapContents, strip, strip, stripItems_eq_map, stripItems_eq_map, stripped]
  | map entries =>
    have all := Entries.forall_mem_forms.mp same
    have stripped : (entries.map (Prod.map change change)).map (Prod.map (strip id) (strip id)) =
        entries.map (Prod.map (strip id) (strip id)) :=
      List.map_map.trans (List.map_congr_left fun entry member =>
        Prod.ext (all entry member).1 (all entry member).2)
    rw [mapContents, strip, strip, stripEntries_eq_map, stripEntries_eq_map, stripped]
  | _ => rfl

end Contents

section Spans

variable {form : Form} {span : Option Span}

theorem contents_withSpan : (form.withSpan span).contents = form.contents := by
  cases form <;> rfl

theorem bare_withSpan : (form.withSpan span).bare = form.bare := by
  cases form <;> rfl

theorem withSpan_self : form.withSpan form.span = form := by
  cases form <;> rfl

theorem withSpan_of_isScalar (scalar : form.isScalar = true) : form.withSpan span = form := by
  cases form with
  | symbol | list | vector | map => contradiction
  | _ => rfl

end Spans

variable {form : Form} {site : Span}

theorem locateItems_eq_map (items : List Form) :
    locateItems site items = items.map (locate site) := by
  induction items with
  | nil => rfl
  | cons item rest ih => rw [locateItems, ih, List.map_cons]

theorem locateEntries_eq_map (entries : List (Form × Form)) :
    locateEntries site entries = entries.map (Prod.map (locate site) (locate site)) := by
  induction entries with
  | nil => rfl
  | cons entry rest ih =>
    rw [locateEntries, ih, List.map_cons]
    rfl

/-- One level of locating. The entries of a map stay in their places if its keys are in order and
remain the same forms. -/
theorem locate_step (ascending : Ordered.Ascending cmp form.orderEntries)
    (same : ∀ inner ∈ form.contents, (inner.locate site).bare = inner.bare) :
    form.locate site =
      (form.mapContents (locate site)).withSpan (form.span.or (some site)) := by
  cases form with
  | list items | vector items =>
    rw [locate, locateItems_eq_map]
    rfl
  | map entries =>
    have keys : ∀ entry ∈ entries, (entry.1.locate site).cmp entry.1 = .eq := by
      intro entry member
      rw [cmp_eq_iff_content, ← content_bare,
        (Entries.forall_mem_forms.mp same entry member).1, content_bare]
    have located : Ordered.Ascending cmp (entries.map (Prod.map (locate site) (locate site))) :=
      ascending.map keys
    rw [locate, locateEntries_eq_map, Entries.ofList, Ordered.ofList_eq_self_iff.mpr located]
    rfl
  | _ => rfl

theorem bare_locate (ascends : form.Ascends) : (form.locate site).bare = form.bare := by
  induction form using contents_induction with
  | step form ih =>
    -- A map sorts its located keys, so the step needs what the induction says of them.
    obtain ⟨own, inside⟩ := everywhere_iff.mp ascends
    have same : ∀ inner ∈ form.contents, (inner.locate site).bare = inner.bare :=
      fun inner member => ih inner member (inside inner member)
    rw [locate_step own same, bare_withSpan, bare_mapContents same]

theorem locate_eq (ascends : form.Ascends) :
    form.locate site =
      (form.mapContents (locate site)).withSpan (form.span.or (some site)) := by
  obtain ⟨own, inside⟩ := everywhere_iff.mp ascends
  exact locate_step own fun inner member => bare_locate (inside inner member)

theorem at?_locate (ascends : form.Ascends) (path : List Nat) :
    (form.locate site).at? path = (form.at? path).map (locate site) := by
  induction path generalizing form with
  | nil => rfl
  | cons index path ih =>
    have inside := (everywhere_iff.mp ascends).2
    rw [at?, at?, locate_eq ascends, contents_withSpan, contents_mapContents, List.getElem?_map,
      Option.bind_map]
    cases found : form.contents[index]? with
    | none => rfl
    | some inner => exact ih (inside inner (List.mem_of_getElem? found))

/-- A form without gaps stays as it is. -/
theorem locate_of_placed (ascends : form.Ascends) (placed : form.Placed) :
    form.locate site = form := by
  induction form using contents_induction with
  | step form ih =>
    have inside := (everywhere_iff.mp ascends).2
    obtain ⟨own, others⟩ := everywhere_iff.mp placed
    have fixed : ∀ inner ∈ form.contents, inner.locate site = inner := fun inner member =>
      ih inner member (inside inner member) (others inner member)
    rw [locate_eq ascends, mapContents_of_fixed fixed]
    rcases own with scalar | known
    · exact withSpan_of_isScalar scalar
    · obtain ⟨span, known⟩ := Option.isSome_iff_exists.mp known
      rw [known, Option.some_or, ← known, withSpan_self]

theorem everywhere_locate {good : Form → Prop} (ascends : form.Ascends)
    (all : ∀ inner : Form, good (inner.locate site)) : (form.locate site).Everywhere good := by
  intro path located found
  rw [at?_locate ascends] at found
  obtain ⟨inner, _, rfl⟩ := Option.map_eq_some_iff.mp found
  exact all inner

theorem ascends_locate (ascends : form.Ascends) : (form.locate site).Ascends := by
  refine everywhere_locate ascends fun inner => ?_
  cases inner with
  | map entries => exact Ordered.ascending_ofList (locateEntries site entries)
  | _ => exact .nil

theorem span_locate :
    (form.locate site).span = if form.isScalar then none else some (form.span.getD site) := by
  cases form with
  | symbol _ span | list _ span | vector _ span | map _ span => cases span <;> rfl
  | _ => rfl

theorem metadata?_locate : (form.locate site).metadata? = form.metadata? := by
  cases form <;> rfl

theorem placed_locate (ascends : form.Ascends) : (form.locate site).Placed := by
  refine everywhere_locate ascends fun inner => ?_
  rw [isScalar, metadata?_locate, ← isScalar, span_locate]
  cases inner.isScalar <;> simp

/-- What locating makes of a form at its place: it is the same but for spans, keeps its metadata,
and has its own span or else the one that is given. -/
structure Fills (site : Span) (inner located : Form) : Prop where
  bare : located.bare = inner.bare
  metadata : located.metadata? = inner.metadata?
  span : located.span = if inner.isScalar then none else some (inner.span.getD site)

/-- A map is built in order, in whatever order its entries come. -/
theorem ascends_map_ofList {pairs : List (Form × Form)} {span : Option Span} {metadata : Entries}
    (all : Entries.All Ascends pairs) : (map (Entries.ofList pairs) span metadata).Ascends := by
  refine everywhere_iff.mpr ⟨Ordered.ascending_ofList pairs, Entries.forall_mem_forms.mpr ?_⟩
  exact fun entry member => all entry (Ordered.mem_ofList member)

theorem ascends_of_isScalar (scalar : form.isScalar = true) : form.Ascends := by
  rw [Ascends, everywhere_iff]
  cases form with
  | symbol | list | vector | map => contradiction
  | _ => exact ⟨.nil, List.forall_mem_nil _⟩

end Form

/-- A form as forms are built: each of its maps, metadata left out, has its keys in order and
once. -/
structure OrderedForm where
  form : Form
  ascends : form.Ascends

namespace OrderedForm

def symbol (name : Name) (span : Option Span) (metadata : Entries) : OrderedForm where
  form := .symbol name span metadata
  ascends := Form.everywhere_iff.mpr ⟨.nil, List.forall_mem_nil _⟩

def scalar (form : Form) (scalar : form.isScalar = true) : OrderedForm where
  form := form
  ascends := Form.ascends_of_isScalar scalar

def list (items : List OrderedForm) (span : Option Span) (metadata : Entries) : OrderedForm where
  form := .list (items.map form) span metadata
  ascends := Form.everywhere_iff.mpr ⟨.nil, List.forall_mem_map.mpr fun item _ => item.ascends⟩

def vector (items : List OrderedForm) (span : Option Span) (metadata : Entries) : OrderedForm where
  form := .vector (items.map form) span metadata
  ascends := Form.everywhere_iff.mpr ⟨.nil, List.forall_mem_map.mpr fun item _ => item.ascends⟩

def map (pairs : List (OrderedForm × OrderedForm)) (span : Option Span) (metadata : Entries) :
    OrderedForm where
  form := .map (Entries.ofList (pairs.map (Prod.map form form))) span metadata
  ascends := Form.ascends_map_ofList
    (List.forall_mem_map.mpr fun pair _ => ⟨pair.1.ascends, pair.2.ascends⟩)

end OrderedForm

/-- Locating a form at a span gives an equal form with its maps in order and with the same places.
Each of them holds what was there before, with the same metadata. Symbols, lists, vectors and maps
keep their spans, and those that have none get this one. After that, no span changes anything. -/
theorem locating_fills_gaps (ordered : OrderedForm) (site : Span) :
    (ordered.form.locateAt (some site)).same ordered.form = true ∧
    (ordered.form.locateAt (some site)).Ascends ∧
    (∀ path, ((ordered.form.locateAt (some site)).at? path).isSome =
      (ordered.form.at? path).isSome) ∧
    (∀ path inner, ordered.form.at? path = some inner → ∃ located,
      (ordered.form.locateAt (some site)).at? path = some located ∧
      Form.Fills site inner located) ∧
    (∀ other, (ordered.form.locateAt (some site)).locateAt other =
      ordered.form.locateAt (some site)) := by
  obtain ⟨form, ascends⟩ := ordered
  simp only [Form.locateAt, Form.at?_locate ascends]
  refine ⟨?_, Form.ascends_locate ascends, fun path => Option.isSome_map, ?_, fun other => ?_⟩
  · rw [Form.same_iff_content, ← Form.content_bare, Form.bare_locate ascends, Form.content_bare]
  · intro path inner found
    have inside : inner.Ascends := Form.everywhere_of_at? ascends found
    refine ⟨inner.locate site, by rw [found, Option.map_some], ?_⟩
    exact ⟨Form.bare_locate inside, Form.metadata?_locate, Form.span_locate⟩
  · cases other with
    | none => rfl
    | some _ =>
      exact Form.locate_of_placed (Form.ascends_locate ascends) (Form.placed_locate ascends)

/-- A map of two entries, `[x] 1` and `(f) ^{:tag t} y`, in which only the vector has a span. The
list becomes the first key. -/
def OrderedForm.mixedKeys : OrderedForm :=
  map [
    (vector [symbol (.plain "x") none []] (some ⟨2, 3, 2, 9, none⟩) [], scalar (.int 1) rfl),
    (list [symbol (.plain "f") none []] none [],
      symbol (.plain "y") none [(.plainKeyword "tag", .plainSymbol "t")])] none []

theorem locating_fills_gaps_mixedKeys :
    let located := OrderedForm.mixedKeys.form.locateAt (some ⟨10, 1, 10, 20, none⟩)
    located.same OrderedForm.mixedKeys.form = true ∧
    (∃ vector, located.at? [2] = some vector ∧ vector.span = some ⟨2, 3, 2, 9, none⟩) ∧
    (∃ value, located.at? [1] = some value ∧ value.span = some ⟨10, 1, 10, 20, none⟩ ∧
      value.metadata? = some [(.plainKeyword "tag", .plainSymbol "t")]) := by
  obtain ⟨same, _, _, places, _⟩ := locating_fills_gaps .mixedKeys ⟨10, 1, 10, 20, none⟩
  obtain ⟨vector, atVector, filledVector⟩ := places [2] _ rfl
  obtain ⟨value, atValue, filledValue⟩ := places [1] _ rfl
  exact ⟨same, ⟨vector, atVector, filledVector.span⟩,
    value, atValue, filledValue.span, filledValue.metadata⟩

end LispFront
