import SdkLoom.Definition.Basic
import SdkLoom.Proofs.Maps

/-!
# Which types are required

Marking goes over the references of a catalog one by one and changes a model and a set of names together. What the two are
after any number of references is the invariant `Tracked.Marks`, from which the required names follow exactly, for every
order of the references. In the definition of a schema the flags and the set agree, since no definition is described as
required before the marking.
-/

namespace SdkLoom

/-! ## Models and definitions -/

namespace Model

/-- The model of an index has the descriptor of each definition under its name. -/
theorem types_get?_ofIndex (idx : Index) (ignored : IgnoreList) (n : String) :
    (Model.ofIndex idx ignored).types.get? n = (idx.get? n).map fun t => (idx.describeDef t).withName n :=
  SortedMap.get?_mapWithKey _ idx n

theorem contains_types_ofIndex (idx : Index) (ignored : IgnoreList) (n : String) :
    (Model.ofIndex idx ignored).types.contains n = idx.contains n := by
  rw [SortedMap.contains, types_get?_ofIndex, Option.isSome_map, SortedMap.contains]

/-- The names of an index that pass a test make a set. -/
theorem contains_filter_map (idx : Index) (p : String → Bool) (n : String) :
    ((idx.filter fun name _ => p name).map fun _ => ()).contains n = (p n && idx.contains n) := by
  rw [SortedMap.contains, SortedMap.map, SortedMap.get?_mapWithKey, SortedMap.get?_filter, SortedMap.contains,
    Option.isSome_map]
  cases p n <;> rfl

/-- The models of an index are its names that are names of models. -/
theorem contains_models_ofIndex (idx : Index) (ignored : IgnoreList) (n : String) :
    (Model.ofIndex idx ignored).models.contains n = (isModelName ignored n && idx.contains n) :=
  contains_filter_map idx _ n

/-- The inputs of an index are its names that are names of inputs. -/
theorem contains_inputs_ofIndex (idx : Index) (ignored : IgnoreList) (n : String) :
    (Model.ofIndex idx ignored).inputs.contains n = (isInputName n && idx.contains n) :=
  contains_filter_map idx _ n

/-- The selection of some names has the types of those names. -/
theorem mem_select_iff (m : Model) (names : NameSet) (e : String × Descriptor) :
    e ∈ m.select names ↔ names.contains e.1 = true ∧ m.types.get? e.1 = some e.2 := by
  simp only [select, List.mem_filterMap, SortedMap.mem_keys_iff, Option.map_eq_some_iff]
  constructor
  · rintro ⟨n, hn, ty, hty, rfl⟩
    exact ⟨hn, hty⟩
  · rintro ⟨hn, hty⟩
    exact ⟨e.1, hn, e.2, hty, rfl⟩

/-- The names of selected types are those that are names of types. -/
theorem keys_select (m : Model) (names : NameSet) :
    (m.select names).map Prod.fst = names.keys.filter m.types.contains := by
  rw [select, List.map_filterMap, ← List.filterMap_eq_filter]
  refine List.filterMap_congr fun n _ => ?_
  cases hty : m.types.get? n <;> simp [Option.guard, SortedMap.contains, hty]

end Model

/-- A definition is described as it stands by itself, so it is not required. -/
theorem Index.describeDef_required (idx : Index) (t : TypeDef) : (idx.describeDef t).required = false := by
  obtain ⟨kind, name, description, fields, inputFields, enumValues⟩ := t
  cases kind <;> rfl

/-- A schema has a definition exactly if it has its root fields; then the catalog is made of these, and the model and the
required names are what marking the references of the catalog leaves. -/
theorem Definition.ofSchema_eq_ok {s : Schema} {ignored : IgnoreList} {d : Definition}
    (h : Definition.ofSchema s ignored = .ok d) :
    ∃ fs, s.rootFields = .ok fs ∧ d.catalog = Catalog.ofFields s.index (Model.ofIndex s.index ignored) fs ∧
      d.model = ((Model.ofIndex s.index ignored).track d.catalog).model ∧
      d.required = ((Model.ofIndex s.index ignored).track d.catalog).required := by
  unfold Definition.ofSchema at h
  cases hroot : s.rootFields with
  | error e =>
    rw [hroot] at h
    cases h
  | ok fs =>
    rw [hroot] at h
    cases h
    exact ⟨fs, rfl, rfl, rfl, rfl⟩

/-! ## Uses of types -/

/-- A reference uses a name if it refers to a type of that name that is no scalar. -/
def Reference.Uses (r : Reference) (n : String) : Prop := r.type.isPrimitive = false ∧ r.type.gqlType = n

/-- A method uses a name if it takes or returns a type of that name that is no scalar. -/
def Method.Uses (m : Method) (n : String) : Prop :=
  ∃ t ∈ OrderedMap.values m.args ++ [m.returnType], t.isPrimitive = false ∧ t.gqlType = n

/-- A catalog uses a name if some method of it does. -/
def Catalog.Uses (c : Catalog) (n : String) : Prop := ∃ m ∈ OrderedMap.values c.methods, m.Uses n

/-- The names that a catalog uses are those that its references use. -/
theorem Catalog.uses_iff (c : Catalog) (n : String) : c.Uses n ↔ ∃ r ∈ c.references, r.Uses n := by
  simp only [Catalog.Uses, Catalog.references, Method.references, List.mem_flatMap, List.mem_map]
  constructor
  · rintro ⟨m, hm, t, ht, huse⟩
    exact ⟨_, ⟨m, hm, t, ht, rfl⟩, huse⟩
  · rintro ⟨_, ⟨m, hm, t, ht, rfl⟩, huse⟩
    exact ⟨m, hm, t, ht, huse⟩

/-- The same method with its arguments in another order. -/
def Method.Reorders (m m' : Method) : Prop := m' = { m with args := m'.args } ∧ List.Perm m.args m'.args

/-- A catalog with the same methods in another order, and with the arguments of each method in another order. -/
def Catalog.Reorders (c c' : Catalog) : Prop :=
  ∃ ms : OrderedMap Method, List.Perm c.methods ms ∧
    List.Forall₂ (fun a b => b.1 = a.1 ∧ a.2.Reorders b.2) ms c'.methods

/-- A method in another order uses the same names. -/
theorem Method.Reorders.uses_iff {m m' : Method} (h : m.Reorders m') (n : String) : m.Uses n ↔ m'.Uses n := by
  obtain ⟨heq, hperm⟩ := h
  have hargs : ∀ t, t ∈ OrderedMap.values m.args ↔ t ∈ OrderedMap.values m'.args := fun t =>
    (hperm.map Prod.snd).mem_iff
  rw [heq]
  simp only [Method.Uses, List.mem_append, hargs]

/-- A catalog in another order uses the same names. -/
theorem Catalog.Reorders.uses_iff {c c' : Catalog} (h : c.Reorders c') (n : String) : c.Uses n ↔ c'.Uses n := by
  obtain ⟨ms, hperm, hall⟩ := h
  have huses : ∀ ms : OrderedMap Method, (∃ m ∈ OrderedMap.values ms, m.Uses n) ↔ ∃ e ∈ ms, e.2.Uses n := by
    intro ms
    simp only [OrderedMap.values, List.mem_map, exists_exists_and_eq_and]
  rw [Catalog.Uses, Catalog.Uses, huses, huses]
  simp only [hperm.mem_iff]
  exact exists_mem_iff_of_forall₂ (fun _ _ hab => hab.2.uses_iff n) hall

/-! ## Marking -/

/-- What marking the types of the used names leaves of a model: the names that the model has and that are used are
required, and a descriptor differs from the one of the model at most in its flag `required`. -/
structure Tracked.Marks (m : Model) (used : String → Prop) (t : Tracked) : Prop where
  models : t.model.models = m.models
  inputs : t.model.inputs = m.inputs
  ignored : t.model.ignored = m.ignored
  keys : t.model.types.keys = m.types.keys
  required : ∀ n, t.required.contains n = true ↔ m.types.contains n = true ∧ used n
  types : ∀ n, t.model.types.get? n =
    (m.types.get? n).map fun d => { d with required := d.required || t.required.contains n }

namespace Tracked

/-- Before the first reference nothing is marked. -/
theorem marks_start (m : Model) : Marks m (fun _ => False) { model := m, required := ∅ } where
  models := rfl
  inputs := rfl
  ignored := rfl
  keys := rfl
  required n := by simp
  types n := by
    simp only [SortedMap.contains_empty, Bool.or_false]
    cases m.types.get? n with
    | none => rfl
    | some d => cases d; rfl

/-- The model keeps its names while types are marked. -/
theorem Marks.contains {m : Model} {used : String → Prop} {t : Tracked} (h : t.Marks m used) (n : String) :
    t.model.types.contains n = m.types.contains n := by
  unfold SortedMap.contains
  rw [h.types n, Option.isSome_map]

/-- A reference adds the name that it uses to the used names. -/
theorem Marks.mark {m : Model} {used : String → Prop} {t : Tracked} (h : t.Marks m used) (r : Reference) :
    (t.mark r).Marks m (fun n => used n ∨ r.Uses n) := by
  unfold Tracked.mark
  split
  next hskip =>
    -- the name is not used, or it is marked already, or the model does not have it
    have hold : ∀ n, m.types.contains n = true → r.Uses n → used n := by
      rintro n hn ⟨hprim, rfl⟩
      rw [h.contains] at hskip
      simp only [hprim, hn, Bool.false_or, Bool.not_true, Bool.or_false] at hskip
      exact ((h.required _).1 hskip).2
    refine { models := h.models, inputs := h.inputs, ignored := h.ignored, keys := h.keys, types := h.types, required := ?_ }
    intro n
    rw [h.required n]
    constructor
    · rintro ⟨hn, huse⟩
      exact ⟨hn, .inl huse⟩
    · rintro ⟨hn, huse | huse⟩
      · exact ⟨hn, huse⟩
      · exact ⟨hn, hold n hn huse⟩
  next hmark =>
    simp only [Bool.or_eq_true, Bool.not_eq_true', not_or, Bool.not_eq_true, Bool.not_eq_false] at hmark
    obtain ⟨⟨hprim, hnew⟩, hmem⟩ := hmark
    rw [h.contains] at hmem
    refine { models := h.models, inputs := h.inputs, ignored := h.ignored, keys := ?_, required := ?_, types := ?_ }
    · exact (SortedMap.keys_modify _ _ _).trans h.keys
    · intro n
      rw [SortedMap.contains_insert, Bool.or_eq_true, decide_eq_true_iff, h.required n]
      constructor
      · rintro (rfl | ⟨hn, huse⟩)
        · exact ⟨hmem, .inr ⟨hprim, rfl⟩⟩
        · exact ⟨hn, .inl huse⟩
      · rintro ⟨hn, huse | ⟨-, rfl⟩⟩
        · exact .inr ⟨hn, huse⟩
        · exact .inl rfl
    · intro n
      rw [SortedMap.get?_modify, h.types n, SortedMap.contains_insert]
      by_cases hn : n = r.type.gqlType
      · simp [hn, Option.map_map, Function.comp_def]
      · simp [hn]

/-- Over a list of references the used names are those that some reference uses. -/
theorem Marks.foldl {m : Model} (rs : List Reference) {used : String → Prop} {t : Tracked} (h : t.Marks m used) :
    (rs.foldl Tracked.mark t).Marks m (fun n => used n ∨ ∃ r ∈ rs, r.Uses n) := by
  induction rs generalizing used t with
  | nil => simpa using h
  | cons r rest ih =>
    have hrest := ih (h.mark r)
    simpa only [List.foldl_cons, List.mem_cons, exists_eq_or_imp, or_assoc] using hrest

/-- The used names alone decide what marking leaves. -/
theorem Marks.unique {m : Model} {used used' : String → Prop} {t t' : Tracked} (h : t.Marks m used)
    (h' : t'.Marks m used') (hused : ∀ n, used n ↔ used' n) : t = t' := by
  have hcontains : ∀ n, t.required.contains n = t'.required.contains n := by
    intro n
    rw [Bool.eq_iff_iff, h.required, h'.required, hused]
  have hrequired : t.required = t'.required := NameSet.ext_contains hcontains
  have htypes : t.model.types = t'.model.types := by
    apply SortedMap.ext_get?
    intro n
    rw [h.types, h'.types, hcontains]
  obtain ⟨⟨types, models, inputs, ignored⟩, required⟩ := t
  obtain ⟨⟨types', models', inputs', ignored'⟩, required'⟩ := t'
  have hmodels := h.models.trans h'.models.symm
  have hinputs := h.inputs.trans h'.inputs.symm
  have hignored := h.ignored.trans h'.ignored.symm
  simp only at hrequired htypes hmodels hinputs hignored
  rw [hrequired, htypes, hmodels, hinputs, hignored]

end Tracked

/-- Marking the references of a catalog marks exactly the names that the catalog uses. -/
theorem Model.track_marks (m : Model) (c : Catalog) : (m.track c).Marks m c.Uses := by
  have h := (Tracked.marks_start m).foldl c.references
  simp only [false_or, ← c.uses_iff] at h
  exact h

namespace Definition

variable {s : Schema} {ignored : IgnoreList} {d : Definition} (h : Definition.ofSchema s ignored = .ok d)
include h

/-- The model and the required names of a definition are what marking leaves of the model of its schema. -/
theorem marks : Tracked.Marks (Model.ofIndex s.index ignored) d.catalog.Uses ⟨d.model, d.required⟩ := by
  obtain ⟨fs, -, -, hmodel, hrequired⟩ := ofSchema_eq_ok h
  rw [hmodel, hrequired]
  exact (Model.ofIndex s.index ignored).track_marks d.catalog

/-- The model of a definition has the names of the schema. -/
theorem contains_types (n : String) : d.model.types.contains n = s.index.contains n := by
  rw [(marks h).contains, Model.contains_types_ofIndex]

theorem contains_models (n : String) :
    d.model.models.contains n = (Model.isModelName ignored n && s.index.contains n) := by
  rw [(marks h).models, Model.contains_models_ofIndex]

theorem contains_inputs (n : String) : d.model.inputs.contains n = (Model.isInputName n && s.index.contains n) := by
  rw [(marks h).inputs, Model.contains_inputs_ofIndex]

theorem ignored_eq : d.model.ignored = ignored := (marks h).ignored

end Definition

/-- The required types are exactly the types of the model that an operation takes or returns, scalars apart. Marking
changes nothing else in the model, and what it leaves does not depend on the order of the methods or of their arguments.
In the definition of a schema, a type is flagged as required exactly if its name is in the set of required names, and that
set has only names of the model. -/
theorem required_exactly_used :
    (∀ (m : Model) (c : Catalog),
      (∀ n, (m.track c).required.contains n = true ↔ m.types.contains n = true ∧ c.Uses n) ∧
      (m.track c).model.types.keys = m.types.keys ∧
      (m.track c).model.models = m.models ∧
      (m.track c).model.inputs = m.inputs ∧
      (m.track c).model.ignored = m.ignored ∧
      (∀ n, (m.track c).model.types.get? n =
        (m.types.get? n).map fun d => { d with required := d.required || (m.track c).required.contains n }) ∧
      ∀ c', c.Reorders c' → m.track c' = m.track c) ∧
    ∀ (s : Schema) (ignored : IgnoreList) (d : Definition), Definition.ofSchema s ignored = .ok d →
      (∀ n t, d.model.types.get? n = some t → (t.required = true ↔ d.required.contains n = true)) ∧
      ∀ n, d.required.contains n = true → d.model.types.contains n = true := by
  constructor
  · intro m c
    have h := m.track_marks c
    refine ⟨h.required, h.keys, h.models, h.inputs, h.ignored, h.types, ?_⟩
    intro c' hc
    exact (m.track_marks c').unique h fun n => (hc.uses_iff n).symm
  · intro s ignored d hd
    obtain ⟨fs, -, -, hmodel, hrequired⟩ := Definition.ofSchema_eq_ok hd
    have h := (Model.ofIndex s.index ignored).track_marks d.catalog
    rw [hmodel, hrequired]
    constructor
    · intro n ty ht
      rw [h.types, Model.types_get?_ofIndex, Option.map_map] at ht
      obtain ⟨t, -, rfl⟩ := Option.map_eq_some_iff.1 ht
      simp [Descriptor.withName, s.index.describeDef_required]
    · intro n hn
      rw [h.contains]
      exact ((h.required n).1 hn).1

/-- A schema of books: an operation takes an input and a scalar and returns books, and books refer to books, authors and
genres, which no operation mentions. -/
def librarySchema : Schema where
  queryType := none
  mutationType := none
  subscriptionType := none
  types :=
    [⟨.object, "Query", none, some
        [⟨"books", none, [⟨"filter", none, .named .inputObject "BookInput", none⟩, ⟨"limit", none, .named .scalar "Int", none⟩],
          .list (.nonNull (.named .object "Book"))⟩,
        ⟨"size", none, [], .named .scalar "Int"⟩], none, none⟩,
      ⟨.object, "Book", none, some
        [⟨"sequel", none, [], .named .object "Book"⟩, ⟨"authors", none, [], .list (.named .object "Author")⟩,
          ⟨"genre", none, [], .named .enum "Genre"⟩], none, none⟩,
      ⟨.object, "Author", none, some [⟨"books", none, [], .list (.named .object "Book")⟩], none, none⟩,
      ⟨.enum, "Genre", none, none, none, some [⟨"NOVEL", none⟩, ⟨"ESSAY", none⟩]⟩,
      ⟨.inputObject, "BookInput", none, none, some [⟨"genre", none, .named .enum "Genre", none⟩], none⟩,
      ⟨.scalar, "Int", none, none, none, none⟩]

/-- The catalog with its methods, and the arguments of each of them, from the last to the first. -/
def Catalog.reversed (c : Catalog) : Catalog :=
  { c with methods := (List.reverse c.methods).map fun e => (e.1, { e.2 with args := List.reverse e.2.args }) }

/-- Of the books only what the operations mention is required, in either order of the methods. -/
theorem required_exactly_used_library :
    ∃ d, Definition.ofSchema librarySchema ∅ = .ok d ∧ d.required.keys = ["Book", "BookInput"] ∧
      (∀ n t, d.model.types.get? n = some t → (t.required = true ↔ d.required.contains n = true)) ∧
      d.catalog.Reorders d.catalog.reversed ∧ d.model.track d.catalog.reversed = d.model.track d.catalog := by
  refine ⟨_, rfl, by decide, (required_exactly_used.2 librarySchema ∅ _ rfl).1, ?_⟩
  generalize (Catalog.ofFields librarySchema.index _ _) = c
  have hreorders : c.Reorders c.reversed := by
    refine ⟨List.reverse c.methods, (List.reverse_perm _).symm, List.forall₂_map_right_iff.2 (List.forall₂_same.2 ?_)⟩
    intro e _
    exact ⟨rfl, rfl, (List.reverse_perm _).symm⟩
  exact ⟨hreorders, (required_exactly_used.1 _ c).2.2.2.2.2.2 c.reversed hreorders⟩

end SdkLoom
