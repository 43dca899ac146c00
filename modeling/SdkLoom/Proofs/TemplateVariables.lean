import SdkLoom.Config.Variables
import SdkLoom.Proofs.Maps
import SdkLoom.Target.Table

/-!
# The rules for template variables

A template variable is told by six rules, of which the first that applies to its name decides: the manifest of an npm
package, the kind of repository, the definition, the variables of the configuration, the settings of the package, and the
general settings (`VarRule.all`). So what a configuration sets as a variable may take the place of a setting, but not of the
definition or of what no one may change (`template_variables_by_rule`).
-/

namespace SdkLoom

/-- The members of a definition. -/
def Definition.memberNames : List String :=
  ["types", "models", "inputs", "ignoredModels", "queries", "methods", "requiredModels"]

/-- The JSON form of a definition has these members, in this order. -/
theorem Definition.toJson_eq_obj (d : Definition) :
    ∃ members, d.toJson = .obj members ∧ members.map Prod.fst = Definition.memberNames :=
  ⟨_, rfl, rfl⟩

theorem Definition.exists_member? (d : Definition) {k : String} (hk : k ∈ Definition.memberNames) :
    ∃ v, d.toJson.member? k = some v := by
  obtain ⟨members, hd, hnames⟩ := d.toJson_eq_obj
  rw [hd, Json.member?, ← Option.ne_none_iff_exists']
  exact fun hnone => SortedMap.findEntry_eq_none_iff.1 hnone (hnames ▸ hk)

/-- The rules for template variables. -/
inductive VarRule where
  | manifest
  | repoType
  | definition
  | user
  | package
  | general
  deriving DecidableEq

namespace VarRule

/-- All rules, those that count first at the front. -/
def all : List VarRule := [.manifest, .repoType, .definition, .user, .package, .general]

theorem findSome?_all (f : VarRule → Option Json) :
    all.findSome? f =
      (f .manifest).or ((f .repoType).or ((f .definition).or ((f .user).or ((f .package).or (f .general))))) := by
  have hfirst : ∀ r rest, (r :: rest).findSome? f = (f r).or (rest.findSome? f) := by
    intro r rest
    rw [List.findSome?_cons]
    cases f r <;> rfl
  simp only [all, hfirst, List.findSome?_nil, Option.or_none]

/-- What the setting of a package gives to a variable, if it is made. -/
def packageSetting? (c : Config) : String → Option Json
  | "packageName" => c.packageName.map .str
  | "packageDescription" => c.packageDescription.map .str
  | "repository" => c.repository
  | "publishConfig" => c.publishConfig
  | "dependencies" => c.dependencies.map Json.ofMap
  | "peerDependencies" => c.peerDependencies.map Json.ofMap
  | "devDependencies" => c.devDependencies.map Json.ofMap
  | _ => none

/-- What a general setting gives to a variable. -/
def generalSetting? (c : Config) (target : Target) (version : String) : String → Option Json
  | "defaultEnv" => some (.str "prod")
  | "envs" => some (Env.mapToJson c.envs).sorted
  | "language" => some (.str target.language)
  | "primitives" => some (Config.primitivesJson target.primitives)
  | "packageVersion" => some (.str version)
  | _ => none

/-- What a rule gives to a variable, if it applies. -/
def value? (c : Config) (d : Definition) (target : Target) (version k : String) : VarRule → Option Json
  | .manifest => if k = "packageJson" then target.npm.map fun layout => Npm.manifest layout c version else none
  | .repoType => if k = "repoType" then some (.str (c.repoType.getD "default")) else none
  | .definition => if k ∈ Definition.memberNames then (d.toJson.member? k).map Json.sorted else none
  | .user => c.vars.get? k
  | .package => packageSetting? c k
  | .general => generalSetting? c target version k

end VarRule

namespace Config

section Layers

variable (c : Config) (d : Definition) (target : Target) (version k : String)

/-! ## The layers -/

theorem get?_optionalMember (name : String) (value : Option Json) :
    (SortedMap.ofList (Npm.optionalMember name value)).get? k = if name = k then value else none := by
  cases value with
  | none => exact (ite_self none).symm
  | some v => exact (SortedMap.get?_ofList_cons _ _ k).trans (Option.none_or ..)

theorem get?_fixedVars :
    (SortedMap.ofList (c.fixedVars target version)).get? k =
      (VarRule.value? c d target version k .manifest).or (VarRule.value? c d target version k .repoType) := by
  rw [fixedVars, SortedMap.get?_ofList_cons, get?_optionalMember]
  simp only [VarRule.value?, eq_comm]

theorem get?_packageVars : (SortedMap.ofList c.packageVars).get? k = VarRule.packageSetting? c k := by
  simp only [packageVars, SortedMap.get?_ofList_append, get?_optionalMember]
  fun_cases VarRule.packageSetting? c k <;> simp_all [eq_comm]

theorem get?_generalVars :
    (SortedMap.ofList (c.generalVars target version)).get? k = VarRule.generalSetting? c target version k := by
  simp only [generalVars, SortedMap.get?_ofList_cons, SortedMap.get?_ofList_nil]
  fun_cases VarRule.generalSetting? c target version k <;> simp_all [eq_comm, defaultSource]

theorem sortedMembers_eq (members : List (String × Json)) :
    Json.sortedMembers members = members.map fun m => (m.1, Json.sorted m.2) := by
  induction members with
  | nil => rfl
  | cons m members ih => rw [Json.sortedMembers, ih, List.map_cons]

theorem get?_definitionVars :
    (SortedMap.ofList (definitionVars d)).get? k = VarRule.value? c d target version k .definition := by
  obtain ⟨members, hd, hnames⟩ := d.toJson_eq_obj
  have hvars : definitionVars d = (SortedMap.ofList (members.map fun m => (m.1, Json.sorted m.2))).toList := by
    rw [definitionVars, hd, Json.sorted, sortedMembers_eq, SortedMap.toList_ofList]
    rfl
  have hnodup : ((members.map fun m => (m.1, Json.sorted m.2)).map Prod.fst).Nodup := by
    rw [List.map_map]
    exact hnames ▸ (by decide : Definition.memberNames.Nodup)
  rw [hvars, SortedMap.ofList_toList, SortedMap.get?_ofList_of_nodup hnodup, SortedMap.findEntry_map (fun _ v => Json.sorted v),
    VarRule.value?, hd, Json.member?]
  split
  · rfl
  next hk =>
    rw [← hnames] at hk
    rw [SortedMap.findEntry_eq_none_iff.2 hk]
    rfl

/-- A variable has the value that the first rule that applies gives to it. -/
theorem get?_templateVars (tree : FileTree) :
    (c.templateVars d target tree).get? k =
      VarRule.all.findSome? (VarRule.value? c d target (c.versionFor target tree) k) := by
  simp only [templateVars, SortedMap.get?_ofList_append, SortedMap.ofList_toList, get?_generalVars, get?_packageVars,
    get?_definitionVars c d target (c.versionFor target tree), get?_fixedVars c d target (c.versionFor target tree)]
  simp only [VarRule.findSome?_all, Option.or_assoc]
  rfl

theorem member?_templateData (tree : FileTree) :
    (c.templateData d target tree).member? k =
      VarRule.all.findSome? (VarRule.value? c d target (c.versionFor target tree) k) :=
  get?_templateVars c d target k tree

end Layers

/-! ## What no variable of the configuration can change -/

/-- The variables that the configuration's own variables give way to. -/
def Reserved (target : Target) (k : String) : Prop :=
  k ∈ Definition.memberNames ∨ k = "repoType" ∨ k = "packageJson" ∧ target.npm.isSome = true

instance (target : Target) (k : String) : Decidable (Reserved target k) := inferInstanceAs (Decidable (_ ∨ _))

/-- A rule before that of the configuration's variables applies to a reserved name, and decides. -/
theorem member?_of_reserved (c : Config) (d : Definition) {target : Target} (tree : FileTree) {k : String}
    (hk : Reserved target k) :
    (c.templateData d target tree).member? k =
      [.manifest, .repoType, .definition].findSome? (VarRule.value? c d target (c.versionFor target tree) k) := by
  have hsome : ([VarRule.manifest, .repoType, .definition].findSome?
      (VarRule.value? c d target (c.versionFor target tree) k)).isSome = true := by
    rw [List.findSome?_isSome_iff]
    rcases hk with hk | rfl | ⟨rfl, hnpm⟩
    · obtain ⟨v, hv⟩ := d.exists_member? hk
      refine ⟨.definition, by simp, ?_⟩
      simp [VarRule.value?, hk, hv]
    · exact ⟨.repoType, by simp, rfl⟩
    · refine ⟨.manifest, by simp, ?_⟩
      simpa [VarRule.value?] using hnpm
  have hsplit : VarRule.all = [.manifest, .repoType, .definition] ++ [.user, .package, .general] := rfl
  rw [member?_templateData, hsplit, List.findSome?_append]
  exact Option.or_of_isSome hsome

/-- The template variables are an object without repeated names, in which a name has a value exactly if the first rule that
applies to the name gives it that value. The members of the definition are all there, as they are written. Configurations
that differ in their variables only have the same reserved ones: those of the definition, the kind of repository, and the
manifest of an npm package. -/
theorem template_variables_by_rule (c : Config) (d : Definition) (target : Target) (tree : FileTree) :
    (∃ members, c.templateData d target tree = .obj members ∧ (members.map Prod.fst).Nodup ∧
      ∀ k v, (k, v) ∈ members ↔
        VarRule.all.findSome? (VarRule.value? c d target (c.versionFor target tree) k) = some v) ∧
    (∀ k ∈ Definition.memberNames, ∃ v, d.toJson.member? k = some v ∧
      (c.templateData d target tree).member? k = some v.sorted) ∧
    ∀ c' : Config, { c' with vars := c.vars } = c → ∀ k, Reserved target k →
      (c'.templateData d target tree).member? k = (c.templateData d target tree).member? k := by
  refine ⟨⟨_, rfl, (c.templateVars d target tree).nodup_keys, fun k v => ?_⟩, fun k hk => ?_, fun c' hc k hk => ?_⟩
  · rw [← get?_templateVars]
    exact (SortedMap.get?_eq_some_iff _).symm
  · obtain ⟨v, hv⟩ := d.exists_member? hk
    have hmanifest : k ≠ "packageJson" := fun h => absurd hk (h ▸ by decide)
    have hrepoType : k ≠ "repoType" := fun h => absurd hk (h ▸ by decide)
    refine ⟨v, hv, ?_⟩
    rw [member?_of_reserved c d tree (.inl hk)]
    simp [VarRule.value?, hmanifest, hrepoType, hk, hv]
  · -- the rules for reserved names do not look at the variables
    rw [member?_of_reserved c d tree hk, member?_of_reserved c' d tree hk, ← hc]
    rfl

/-- A definition of nothing. -/
def blankDefinition : Definition := ⟨⟨∅, ∅, ∅, ∅⟩, ⟨[], []⟩, ∅⟩

/-- A configuration that sets variables for a member of the definition, for the kind of repository, for the manifest and for
the default environment. -/
def pushyConfig : Config :=
  (((Config.empty.setVar "types" .null).setVar "repoType" .null).setVar "packageJson" .null).setVar "defaultEnv" (.str "dev")

/-- For an npm package, three of these variables have no effect, and the fourth takes the place of a setting. -/
theorem pushy_variables :
    (∀ k ∈ ["types", "repoType", "packageJson"],
      (pushyConfig.templateData blankDefinition Target.typescriptTarget .empty).member? k =
        (Config.empty.templateData blankDefinition Target.typescriptTarget .empty).member? k) ∧
    ∃ members, pushyConfig.templateData blankDefinition Target.typescriptTarget .empty = .obj members ∧
      ("types", .obj []) ∈ members ∧ ("defaultEnv", .str "dev") ∈ members := by
  have hrules := template_variables_by_rule pushyConfig blankDefinition Target.typescriptTarget .empty
  have hreserved : ∀ k ∈ ["types", "repoType", "packageJson"], Reserved Target.typescriptTarget k := by decide
  constructor
  · intro k hk
    exact (hrules.2.2 Config.empty rfl k (hreserved k hk)).symm
  · obtain ⟨members, hmembers, -, hrule⟩ := hrules.1
    exact ⟨members, hmembers, (hrule _ _).2 rfl, (hrule _ _).2 rfl⟩

end Config

end SdkLoom
