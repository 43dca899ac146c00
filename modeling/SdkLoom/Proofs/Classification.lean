import SdkLoom.Proofs.Essence
import SdkLoom.Proofs.GoReferences
import SdkLoom.Target.Basic

/-!
# What the ignore list decides

The ignore list takes part in the making of a definition from the first step on, since it is part of the model, but all
that any step does with it is to say which names are no models. The argument compares two runs over one schema: models that
coincide in their types and inputs (`Model.Coincides`) give the same catalog, are marked alike reference by reference, and
make the same files.
-/

namespace SdkLoom

/-! ## Two runs over one schema -/

/-- Two models with the same types and the same inputs; they may differ in their models and in the names they ignore. -/
structure Model.Coincides (m m' : Model) : Prop where
  types : m'.types = m.types
  inputs : m'.inputs = m.inputs

/-- Two states of the marking with the same required names over models that coincide. -/
structure Tracked.Coincides (t t' : Tracked) : Prop where
  model : t.model.Coincides t'.model
  required : t'.required = t.required

/-- Two definitions with the same operations and the same required names over models that coincide. -/
structure Definition.Coincides (d d' : Definition) : Prop where
  model : d.model.Coincides d'.model
  catalog : d'.catalog = d.catalog
  required : d'.required = d.required

/-- The types and the inputs of an index are the same for all ignore lists. -/
theorem Model.coincides_ofIndex (idx : Index) (ignored ignored' : IgnoreList) :
    (Model.ofIndex idx ignored).Coincides (Model.ofIndex idx ignored') where
  types := rfl
  inputs := rfl

section Steps

variable {m m' : Model} (h : m.Coincides m')
include h

/-- An operation takes its result fields from the types of the model. -/
theorem Model.Coincides.addField (idx : Index) (c : Catalog) (f : RootField) :
    Catalog.addField idx m' c f = Catalog.addField idx m c f := by
  simp only [Catalog.addField, Model.get?, h.types]

theorem Model.Coincides.ofFields (idx : Index) (fs : List RootField) :
    Catalog.ofFields idx m' fs = Catalog.ofFields idx m fs := by
  have hstep : Catalog.addField idx m' = Catalog.addField idx m := by
    funext c f
    exact h.addField idx c f
  rw [Catalog.ofFields, hstep, Catalog.ofFields]

theorem Model.Coincides.trackNotes (c : Catalog) : m'.trackNotes c = m.trackNotes c := by
  rw [Model.trackNotes, h.types, Model.trackNotes]

end Steps

/-- A reference marks the same type in both runs, or no type in either of them. -/
theorem Tracked.Coincides.mark {t t' : Tracked} (h : t.Coincides t') (r : Reference) : (t.mark r).Coincides (t'.mark r) := by
  unfold Tracked.mark
  rw [h.required, h.model.types]
  split
  · exact h
  · exact ⟨⟨rfl, h.model.inputs⟩, rfl⟩

theorem Tracked.Coincides.foldl (rs : List Reference) {t t' : Tracked} (h : t.Coincides t') :
    (rs.foldl Tracked.mark t).Coincides (rs.foldl Tracked.mark t') := by
  induction rs generalizing t t' with
  | nil => exact h
  | cons r rest ih => exact ih (h.mark r)

/-- Models that coincide still do so after the references of a catalog are marked. -/
theorem Model.Coincides.track {m m' : Model} (h : m.Coincides m') (c : Catalog) : (m.track c).Coincides (m'.track c) :=
  Tracked.Coincides.foldl c.references ⟨h, rfl⟩

/-- Over the same root fields all ignore lists give definitions that coincide. -/
theorem Definition.coincides_ofFields (idx : Index) (ignored ignored' : IgnoreList) (fs : List RootField) :
    (Definition.ofFields idx ignored fs).Coincides (Definition.ofFields idx ignored' fs) := by
  have hmodel := Model.coincides_ofIndex idx ignored ignored'
  have hcatalog := hmodel.ofFields idx fs
  have htrack := hmodel.track (Catalog.ofFields idx (Model.ofIndex idx ignored) fs)
  refine ⟨?_, hcatalog, ?_⟩
  · simpa only [Definition.ofFields, hcatalog] using htrack.model
  · simpa only [Definition.ofFields, hcatalog] using htrack.required

/-- All ignore lists get the same remarks. -/
theorem Definition.notes_ignored (s : Schema) (ignored ignored' : IgnoreList) :
    Definition.notes s ignored' = Definition.notes s ignored := by
  have hmodel := Model.coincides_ofIndex s.index ignored ignored'
  simp only [Definition.notes, hmodel.ofFields, hmodel.trackNotes]

namespace Definition.Coincides

variable {d d' : Definition} (h : d.Coincides d')
include h

/-- The types to declare are found from the required names by way of the types alone. -/
theorem emitted : d'.emitted = d.emitted := by
  apply NameSet.ext_contains
  intro n
  rw [Bool.eq_iff_iff, d'.emitted_iff, d.emitted_iff, h.required]
  have htypes : ∀ k, d'.model.types.get? k = d.model.types.get? k := fun k => by rw [h.model.types]
  exact Model.reached_congr (fun k _ => htypes k) (fun _ k _ _ => htypes k) n

/-- Definitions that coincide have one Go package. -/
theorem package (ps : Primitives) : Go.Package.ofDefinition d' ps = Go.Package.ofDefinition d ps := by
  refine Go.Package.ofDefinition_congr h.catalog h.emitted ?_ ?_ ps
  · intro n _
    rw [h.model.types]
  · intro n _
    rw [h.model.inputs]

end Definition.Coincides

/-! ## Classes of names -/

/-- The name of an input ends with `Input`, with something before that. -/
theorem Model.isInputName_iff (n : String) : isInputName n = true ↔ ∃ stem, stem ≠ "" ∧ n = stem ++ "Input" := by
  have hlength : inputEnding.length = inputEnding.toList.length := rfl
  simp only [isInputName, Text.endsWith, Bool.and_eq_true, decide_eq_true_eq, List.isPrefixOf_iff_prefix,
    List.reverse_prefix, hlength, ← String.length_toList]
  constructor
  · rintro ⟨hlonger, front, hfront⟩
    have hname : n = String.ofList front ++ inputEnding := by
      rw [← String.toList_inj, String.toList_append, String.toList_ofList, hfront]
    refine ⟨String.ofList front, ?_, hname⟩
    intro hempty
    rw [hname, hempty, String.empty_append] at hlonger
    exact Nat.lt_irrefl _ hlonger
  · rintro ⟨stem, hstem, rfl⟩
    have hpos : 0 < stem.toList.length := by
      rw [String.length_toList]
      exact Nat.pos_of_ne_zero fun h0 => hstem (String.length_eq_zero_iff.1 h0)
    refine ⟨?_, stem.toList, String.toList_append.symm⟩
    rw [String.toList_append, List.length_append]
    exact Nat.lt_add_of_pos_left hpos

/-- The name of a meta type starts with two underscores. -/
theorem Model.isMetaName_iff (n : String) : isMetaName n = true ↔ ∃ rest, n = "__" ++ rest := by
  simp only [isMetaName, Text.startsWith, List.isPrefixOf_iff_prefix]
  constructor
  · rintro ⟨rest, hrest⟩
    refine ⟨String.ofList rest, ?_⟩
    simp only [← String.toList_inj, ← hrest, String.toList_append, String.toList_ofList]
  · rintro ⟨rest, rfl⟩
    exact ⟨rest.toList, String.toList_append.symm⟩

/-- The models of a definition are its names of models, as its ignore list has it. -/
theorem Definition.contains_models_iff {s : Schema} {ignored : IgnoreList} {d : Definition}
    (h : Definition.ofSchema s ignored = .ok d) (n : String) :
    d.model.models.contains n = true ↔ d.model.types.contains n = true ∧ Model.isModelName ignored n = true := by
  rw [contains_models h, contains_types h, Bool.and_eq_true, and_comm]

/-- The ignore list only says which names are models. With any two lists a schema gets the same remarks, and it has no
definition, for the same reason, or two definitions that differ in nothing but their models and the lists themselves: of the
names that both have, each takes as models those of its own list. Both are written as the same Go files for every target and
module. -/
theorem ignore_list_only_classifies (s : Schema) (ignored ignored' : IgnoreList) :
    Definition.notes s ignored' = Definition.notes s ignored ∧
    ((∃ e, Definition.ofSchema s ignored = .error e ∧ Definition.ofSchema s ignored' = .error e) ∨
      ∃ d d', Definition.ofSchema s ignored = .ok d ∧ Definition.ofSchema s ignored' = .ok d' ∧
        d'.model.types = d.model.types ∧ d'.model.inputs = d.model.inputs ∧
        d'.catalog.queries = d.catalog.queries ∧ d'.catalog.methods = d.catalog.methods ∧ d'.required = d.required ∧
        d.model.ignored = ignored ∧ d'.model.ignored = ignored' ∧
        (∀ n, d.model.models.contains n = true ↔ d.model.types.contains n = true ∧ Model.isModelName ignored n = true) ∧
        (∀ n, d'.model.models.contains n = true ↔ d.model.types.contains n = true ∧ Model.isModelName ignored' n = true) ∧
        ∀ (target : Target) (module : String),
          (Go.Package.ofDefinition d' target.primitives).files module =
            (Go.Package.ofDefinition d target.primitives).files module) := by
  refine ⟨Definition.notes_ignored s ignored ignored', ?_⟩
  have hd := Definition.ofSchema_eq s ignored
  have hd' := Definition.ofSchema_eq s ignored'
  cases hroot : s.rootFields with
  | error e =>
    rw [hroot] at hd hd'
    exact .inl ⟨e, hd, hd'⟩
  | ok fs =>
    rw [hroot] at hd hd'
    have h := Definition.coincides_ofFields s.index ignored ignored' fs
    have hmodels' := Definition.contains_models_iff hd'
    rw [h.model.types] at hmodels'
    refine .inr ⟨_, _, hd, hd', h.model.types, h.model.inputs, congrArg Catalog.queries h.catalog,
      congrArg Catalog.methods h.catalog, h.required, Definition.ignored_eq hd, Definition.ignored_eq hd',
      Definition.contains_models_iff hd, hmodels', ?_⟩
    intro target module
    rw [h.package]

end SdkLoom
