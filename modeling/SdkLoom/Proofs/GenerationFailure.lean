import SdkLoom.Generation
import SdkLoom.Proofs.Essence
import SdkLoom.Proofs.Registry

/-!
# When generating fails

A run looks for the generator, then for the roots of the schema, and only then for anything in the file tree. Of all that a
configuration, a schema, the templates and the files may be, only the language and the two roots can make it fail, in this
order (`Config.FailsWith`). What is amiss with a template or a file is told in the report of a run that succeeds.
-/

namespace SdkLoom

/-! ## Roots -/

namespace Schema

/-- A name that cannot be used as a root: it has no definition, or the last one is not that of an object. -/
def LacksRoot (s : Schema) (root : String) : Prop := ∀ t, s.lastDef? root = some t → t.kind ≠ .object

variable (s : Schema)

theorem index_rootFields_eq_error_iff (kind : OperationKind) (root : String) (e : Error) :
    s.index.rootFields kind root = .error e ↔ s.LacksRoot root ∧ e = .missingRoot root := by
  rw [Index.rootFields, s.index_get?_eq_lastDef?, LacksRoot]
  cases s.lastDef? root with
  | none => simp [eq_comm]
  | some t => by_cases hkind : t.kind = .object <;> simp [hkind, @eq_comm _ e]

theorem exists_rootFields_iff (kind : OperationKind) (root : String) :
    (∃ fs, s.index.rootFields kind root = .ok fs) ↔ ¬s.LacksRoot root := by
  have herror := s.index_rootFields_eq_error_iff kind root
  cases hroot : s.index.rootFields kind root with
  | ok fs =>
    have hfound : ¬s.LacksRoot root := fun hlacks => by
      have h := (herror _).2 ⟨hlacks, rfl⟩
      rw [hroot] at h
      cases h
    simp [hfound]
  | error e => simp [((herror e).1 hroot).1]

/-- The query root is looked for first, and the mutation root only if the schema names one. -/
theorem rootFields_eq_error_iff (e : Error) :
    s.rootFields = .error e ↔
      s.LacksRoot s.queryRoot ∧ e = .missingRoot s.queryRoot ∨
        ¬s.LacksRoot s.queryRoot ∧ ∃ root, s.mutationType = some root ∧ s.LacksRoot root ∧ e = .missingRoot root := by
  cases hquery : s.index.rootFields .query s.queryRoot with
  | error e' =>
    obtain ⟨hlacks, rfl⟩ := (s.index_rootFields_eq_error_iff _ _ _).1 hquery
    have herror : s.rootFields = .error (.missingRoot s.queryRoot) := by
      rw [queryRoot] at hquery
      rw [rootFields, hquery]
      rfl
    simp [herror, hlacks, eq_comm]
  | ok queries =>
    have hfound := (s.exists_rootFields_iff _ _).1 ⟨queries, hquery⟩
    rw [queryRoot] at hquery
    cases hmutation : s.mutationType with
    | none =>
      have hok : s.rootFields = .ok queries := by
        rw [rootFields, hquery, hmutation]
        rfl
      simp [hok, hfound]
    | some root =>
      have hmap : s.rootFields = (s.index.rootFields .mutation root).map (queries ++ ·) := by
        rw [rootFields, hquery, hmutation]
        rfl
      rw [hmap]
      cases hroot : s.index.rootFields .mutation root with
      | error e' =>
        obtain ⟨hlacks, rfl⟩ := (s.index_rootFields_eq_error_iff _ _ _).1 hroot
        simp [Except.map, hfound, hlacks, eq_comm]
      | ok mutations =>
        have hfound' := (s.exists_rootFields_iff _ _).1 ⟨mutations, hroot⟩
        simp [Except.map, hfound, hfound']

end Schema

/-- A schema has no definition exactly if it lacks a root. -/
theorem Definition.ofSchema_eq_error_iff (s : Schema) (ignored : IgnoreList) (e : Error) :
    Definition.ofSchema s ignored = .error e ↔ s.rootFields = .error e := by
  rw [Definition.ofSchema_eq]
  cases s.rootFields <;> simp [Except.map]

/-! ## Runs -/

namespace Config

/-- What a run makes of the files depends on the generator and the definition; without these it leaves them as they are. -/
theorem generation_eq (c : Config) (s : Schema) (registry : Registry) (templates : Option String) (tree : FileTree) :
    c.generation s registry templates tree =
      match registry.resolve c.templateName c.languageName, Definition.ofSchema s c.ignoreList with
      | .error e, _ => .error e tree
      | .ok _, .error e => .error e tree
      | .ok target, .ok d =>
        let files := d.synthesize target (c.templateData d target tree)
        let (tree, report) := files.materialize c.targetDir (TemplateStore.ofTarget templates target) tree
        .ok ⟨target, d, report⟩ tree := by
  unfold generation
  cases registry.resolve c.templateName c.languageName with
  | error e => rfl
  | ok target =>
    cases Definition.ofSchema s c.ignoreList with
    | error e => rfl
    | ok d => rfl

/-- Why a run fails: its language is not that of any target, or else the query root is missing, or else the schema names a
mutation root that is missing. -/
inductive FailsWith (c : Config) (s : Schema) : Error → Prop where
  | language (hlanguage : ∀ t ∈ Target.all, t.language ≠ c.languageName) :
      FailsWith c s (.unknownGenerator c.templateName c.languageName)
  | query (hlanguage : ∃ t ∈ Target.all, t.language = c.languageName) (hquery : s.LacksRoot s.queryRoot) :
      FailsWith c s (.missingRoot s.queryRoot)
  | mutation {root : String} (hlanguage : ∃ t ∈ Target.all, t.language = c.languageName)
      (hquery : ¬s.LacksRoot s.queryRoot) (hnamed : s.mutationType = some root) (hmutation : s.LacksRoot root) :
      FailsWith c s (.missingRoot root)

theorem failsWith_iff_of_unknown {c : Config} (h : Target.ofLanguage? c.languageName = none) (s : Schema) (e : Error) :
    c.FailsWith s e ↔ e = .unknownGenerator c.templateName c.languageName := by
  have hnone := Target.language_ne_of_ofLanguage?_none h
  constructor
  · rintro (- | ⟨⟨t, ht, hlanguage⟩, -⟩ | ⟨⟨t, ht, hlanguage⟩, -⟩)
    · rfl
    · exact absurd hlanguage (hnone t ht)
    · exact absurd hlanguage (hnone t ht)
  · rintro rfl
    exact .language hnone

theorem failsWith_iff_of_known {c : Config} {target : Target} (h : Target.ofLanguage? c.languageName = some target)
    (s : Schema) (e : Error) : c.FailsWith s e ↔ s.rootFields = .error e := by
  have hknown : ∃ t ∈ Target.all, t.language = c.languageName := ⟨target, Target.of_ofLanguage?_some h⟩
  rw [s.rootFields_eq_error_iff]
  constructor
  · rintro (hnone | ⟨-, hquery⟩ | ⟨-, hquery, hnamed, hmutation⟩)
    · obtain ⟨t, ht, hlanguage⟩ := hknown
      exact absurd hlanguage (hnone t ht)
    · exact .inl ⟨hquery, rfl⟩
    · exact .inr ⟨hquery, _, hnamed, hmutation, rfl⟩
  · rintro (⟨hquery, rfl⟩ | ⟨hquery, root, hnamed, hmutation, rfl⟩)
    · exact .query hknown hquery
    · exact .mutation hknown hquery hnamed hmutation

/-- A run fails for the one reason there is and leaves the files as they are, or there is none and it succeeds. -/
theorem generation_cases (c : Config) (s : Schema) (templates : Option String) (tree : FileTree) :
    (∃ e, c.generation s .builtin templates tree = .error e tree ∧ ∀ e', c.FailsWith s e' ↔ e' = e) ∨
      ∃ g tree', c.generation s .builtin templates tree = .ok g tree' ∧ g.target.language = c.languageName ∧
        ∀ e, ¬c.FailsWith s e := by
  rw [generation_eq]
  cases hlanguage : Target.ofLanguage? c.languageName with
  | none =>
    rw [Registry.resolve_of_unknown hlanguage]
    exact .inl ⟨_, rfl, failsWith_iff_of_unknown hlanguage s⟩
  | some target =>
    rw [Registry.resolve_of_known hlanguage]
    have hfails : ∀ e, c.FailsWith s e ↔ Definition.ofSchema s c.ignoreList = .error e := fun e => by
      rw [failsWith_iff_of_known hlanguage, Definition.ofSchema_eq_error_iff]
    cases hd : Definition.ofSchema s c.ignoreList with
    | error e =>
      refine .inl ⟨e, rfl, fun e' => ?_⟩
      rw [hfails, hd, Except.error.injEq, eq_comm]
    | ok d =>
      refine .inr ⟨_, _, rfl, (Target.of_ofLanguage?_some hlanguage).2, fun e => ?_⟩
      rw [hfails, hd]
      exact nofun

end Config

/-- A run fails exactly for the reasons of `Config.FailsWith`, of which the first in order is the one that is reported, and
then it leaves the files as they were; if there is none, it succeeds, for the language it was asked for. All this holds for
whatever templates and files there are. -/
theorem generation_fails_exactly (c : Config) (s : Schema) (templates : Option String) (tree : FileTree) :
    (∀ e tree', c.generation s .builtin templates tree = .error e tree' ↔ c.FailsWith s e ∧ tree' = tree) ∧
    (∀ e, c.generate s .builtin templates tree = .error e ↔ c.FailsWith s e) ∧
    ((∃ g tree', c.generation s .builtin templates tree = .ok g tree' ∧
      c.generate s .builtin templates tree = .ok (tree', g) ∧ g.target.language = c.languageName) ↔
        ∀ e, ¬c.FailsWith s e) := by
  rcases c.generation_cases s templates tree with ⟨e, hrun, hreason⟩ | ⟨g, tree', hrun, hlanguage, hreason⟩
  · have hgenerate : c.generate s .builtin templates tree = .error e := by rw [Config.generate, hrun]
    rw [hrun, hgenerate]
    refine ⟨fun e' tree' => ?_, fun e' => ?_, ?_⟩
    · rw [hreason, EStateM.Result.error.injEq, eq_comm, @eq_comm _ tree']
    · rw [hreason, Except.error.injEq, eq_comm]
    · constructor
      · rintro ⟨g, tree', hok, -⟩
        cases hok
      · intro hnone
        exact absurd ((hreason e).2 rfl) (hnone e)
  · have hgenerate : c.generate s .builtin templates tree = .ok (tree', g) := by rw [Config.generate, hrun]
    rw [hrun, hgenerate]
    refine ⟨fun e tree'' => ?_, fun e => ?_, ?_⟩
    · simp [hreason e]
    · simp [hreason e]
    · exact ⟨fun _ => hreason, fun _ => ⟨g, tree', rfl, rfl, hlanguage⟩⟩

end SdkLoom
