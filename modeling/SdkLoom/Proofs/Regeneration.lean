import SdkLoom.Proofs.ErrorResponses
import SdkLoom.Proofs.FileTrees
import SdkLoom.Proofs.NumberText
import SdkLoom.Proofs.TemplateVariables
import SdkLoom.Template.Helper

/-!
# Generating a package again

Without a configured version an npm package keeps the version of the manifest in the target directory. So one run is enough:
once the manifest among the template variables has been written there, the variables are the same in every later run
(`Config.regeneration_keeps_variables`). What is written has to be read again for this, with the numbers that the settings of
the package may have anywhere in them, though only the version of it is looked at.
-/

namespace SdkLoom

namespace Json

/-- All numbers in a value are integers of 64 bits or finite numbers of double precision. -/
def ValidNumbers (j : Json) : Prop := ∀ n ∈ j.numbers, n.Valid

/-- The pretty text of a value is read as the value with its numbers as they are read, and sorted. -/
theorem readValue_pretty {j : Json} (hnumbers : j.ValidNumbers) (hdepth : j.depth ≤ maxDepth) :
    readValue j.pretty = some (j.mapNumbers Number.reread).sorted := by
  have hscans : Token.Scans j.pretty.toList (j.mapNumbers Number.reread).tokens :=
    scans_pretty 0 j fun n hn => Number.scans_text (hnumbers n hn)
  have hread : read j.pretty = some (j.mapNumbers Number.reread).lift :=
    read_of_scans hscans (by rwa [depth_mapNumbers])
  rw [readValue, hread, Option.bind_some, Tree.value?_eq_map_sorted, Tree.faultless?_lift, Option.map_some]

/-- The members of an object that is read again are where they were. -/
theorem member?_sorted_mapNumbers (m : SortedMap String Json) (f : Number → Number) (k : String) :
    ((ofMap m).mapNumbers f).sorted.member? k = ((ofMap m).member? k).map fun v => (v.mapNumbers f).sorted := by
  have hkeys : ((m.toList.map fun e => (e.1, (e.2.mapNumbers f).sorted)).map Prod.fst).Nodup := by
    rw [List.map_map]
    exact m.nodup_keys
  rw [ofMap, mapNumbers, sorted, mapMemberNumbers_eq, Config.sortedMembers_eq, List.map_map, Tree.sortMembers, member?,
    member?, ← SortedMap.toList_ofList]
  exact (SortedMap.get?_ofList_of_nodup hkeys k).trans (SortedMap.findEntry_map (fun _ v => (mapNumbers f v).sorted) k _)

theorem eq_str_of_string? {j : Json} {s : String} (h : j.string? = some s) : j = .str s := by
  cases j <;> cases h
  rfl

/-! ## Values with valid numbers -/

theorem validNumbers_str (s : String) : ValidNumbers (.str s) := nofun

theorem validNumbers_ofStrings (ss : List String) : ValidNumbers (ofStrings ss) := by
  have hitems : itemNumbers (ss.map .str) = [] := by
    induction ss with
    | nil => rfl
    | cons s ss ih => exact ih
  intro n hn
  rw [ofStrings, numbers, hitems] at hn
  cases hn

theorem validNumbers_ofMap {m : SortedMap String Json} (h : ∀ v ∈ m.values, ValidNumbers v) : ValidNumbers (ofMap m) := by
  intro n hn
  obtain ⟨e, he, hne⟩ := mem_memberNumbers_iff.1 hn
  exact h e.2 (List.mem_map_of_mem he) n hne

theorem validNumbers_ofList {es : List (String × Json)} (h : ∀ e ∈ es, ValidNumbers e.2) :
    ValidNumbers (ofMap (.ofList es)) := by
  refine validNumbers_ofMap fun v hv => ?_
  obtain ⟨e, he, rfl⟩ := List.mem_map.1 hv
  exact h e (SortedMap.mem_of_mem_ofList he)

end Json

/-- The values that the manifest of a package takes from the configuration as they stand. -/
def Config.manifestSettings (c : Config) : List Json :=
  c.repository.toList ++ c.publishConfig.toList ++
    [c.dependencies, c.peerDependencies, c.devDependencies].flatMap fun m => (m.getD ∅).values

namespace Npm

open Json

theorem member?_manifest_version (layout : NpmLayout) (c : Config) (version : String) :
    (manifest layout c version).member? "version" = some (.str version) := by
  change (SortedMap.ofList _).get? "version" = _
  simp only [SortedMap.get?_ofList_append, SortedMap.get?_ofList_cons, SortedMap.get?_ofList_nil, Config.get?_optionalMember]
  simp

theorem validNumbers_optionalMember {name : String} {value : Option Json} (h : ∀ v ∈ value, ValidNumbers v) :
    ∀ e ∈ optionalMember name value, ValidNumbers e.2 := by
  intro e he
  obtain ⟨v, hv, rfl⟩ := List.mem_map.1 he
  exact h v (Option.mem_toList.1 hv)

theorem validNumbers_optionalText {name : String} (text : Option String) :
    ∀ e ∈ optionalMember name (text.map .str), ValidNumbers e.2 := by
  refine validNumbers_optionalMember fun v hv => ?_
  obtain ⟨s, -, rfl⟩ := Option.map_eq_some_iff.1 hv
  exact validNumbers_str s

theorem validNumbers_publishing? {j v : Json} (hj : ValidNumbers j) (hv : publishing? j = some v) : ValidNumbers v := by
  unfold publishing? at hv
  split at hv
  next name =>
    split at hv <;> cases hv
    exact nofun
  next =>
    cases hv
    exact hj

theorem validNumbers_scripts (repoType : Option String) (build : String) :
    ∀ e ∈ scripts repoType build, ValidNumbers e.2 := by
  unfold scripts
  split <;> simp [validNumbers_str]

theorem validNumbers_dependencies (base : List Dependency) {more : Option (SortedMap String Json)}
    (h : ∀ v ∈ (more.getD ∅).values, ValidNumbers v) : ValidNumbers (ofMap (dependencies base more)) := by
  refine validNumbers_ofMap fun v hv => ?_
  obtain ⟨k, hk⟩ := (SortedMap.mem_values_iff _ v).1 hv
  rw [dependencies, SortedMap.get?_overlay, Option.or_eq_some_iff] at hk
  rcases hk with hmore | ⟨-, hbase⟩
  · exact h v ((SortedMap.mem_values_iff _ v).2 ⟨k, hmore⟩)
  · have hmem := SortedMap.mem_of_mem_ofList ((SortedMap.get?_eq_some_iff _).1 hbase)
    obtain ⟨e, -, he⟩ := List.mem_map.1 hmem
    obtain rfl := (Prod.mk.inj he).2
    exact validNumbers_str e.2

/-- There are no numbers in a manifest but those of the settings. -/
theorem validNumbers_manifest (layout : NpmLayout) {c : Config} (version : String)
    (h : ∀ j ∈ c.manifestSettings, ValidNumbers j) : ValidNumbers (manifest layout c version) := by
  simp only [Config.manifestSettings, List.forall_mem_append, List.forall_mem_flatMap, List.forall_mem_cons] at h
  obtain ⟨⟨hrepository, hpublish⟩, hdependencies, hpeer, hdev, -⟩ := h
  have hrepositoryMember : ∀ e ∈ optionalMember "repository" c.repository, ValidNumbers e.2 :=
    validNumbers_optionalMember fun v hv => hrepository v (Option.mem_toList.2 hv)
  have hpublishMember : ∀ e ∈ optionalMember "publishConfig" (c.publishConfig.bind publishing?), ValidNumbers e.2 := by
    refine validNumbers_optionalMember fun v hv => ?_
    obtain ⟨j, hj, hpublishing⟩ := Option.bind_eq_some_iff.1 hv
    exact validNumbers_publishing? (hpublish j (Option.mem_toList.2 hj)) hpublishing
  refine validNumbers_ofList ?_
  simp only [List.forall_mem_append, List.forall_mem_singleton, List.forall_mem_cons]
  exact ⟨⟨⟨⟨⟨⟨⟨⟨validNumbers_optionalText _, validNumbers_str _⟩, validNumbers_optionalText _⟩,
    validNumbers_str _, validNumbers_str _⟩, validNumbers_optionalText _⟩,
    validNumbers_ofList (by simp [validNumbers_str]), validNumbers_ofStrings _⟩, hrepositoryMember⟩, hpublishMember⟩,
    validNumbers_ofList (validNumbers_scripts _ _), validNumbers_dependencies _ hdependencies,
    validNumbers_dependencies _ hpeer, validNumbers_dependencies _ hdev⟩

/-! ## Versions -/

/-- The file of the manifest in a directory can be read, and is an object with a version. -/
def HasVersion (tree : FileTree) (dir version : String) : Prop :=
  ∃ text j, tree.read (Path.join dir "package.json") = .ok text ∧ readValue text = some j ∧
    j.member? "version" = some (.str version)

theorem previousVersion_eq_some_iff {tree : FileTree} {dir version : String} :
    previousVersion tree dir = some version ↔ HasVersion tree dir version := by
  unfold previousVersion HasVersion
  constructor
  · intro h
    obtain ⟨text, htext, h⟩ := Option.bind_eq_some_iff.1 h
    obtain ⟨j, hj, h⟩ := Option.bind_eq_some_iff.1 h
    obtain ⟨v, hv, h⟩ := Option.bind_eq_some_iff.1 h
    obtain rfl := eq_str_of_string? h
    refine ⟨text, j, ?_, hj, hv⟩
    cases hread : tree.read (Path.join dir manifestFile) with
    | ok s =>
      rw [hread] at htext
      exact hread.trans (congrArg Except.ok (Option.some.inj htext))
    | error f =>
      rw [hread] at htext
      cases htext
  · rintro ⟨text, j, hread, hj, hv⟩
    change (tree.read (Path.join dir manifestFile)).toOption.bind _ = _
    rw [show tree.read (Path.join dir manifestFile) = .ok text from hread]
    simp [hj, hv, Tree.string?, Except.toOption]

/-- A manifest that is written is read with its version. -/
theorem hasVersion_of_pretty {layout : NpmLayout} {c : Config} {version : String} {tree : FileTree} {dir : String}
    (hnumbers : ∀ j ∈ c.manifestSettings, ValidNumbers j) (hdepth : (manifest layout c version).depth ≤ maxDepth)
    (hread : tree.read (Path.join dir "package.json") = .ok (manifest layout c version).pretty) :
    HasVersion tree dir version := by
  refine ⟨_, _, hread, readValue_pretty (validNumbers_manifest layout version hnumbers) hdepth, ?_⟩
  have hversion := member?_manifest_version layout c version
  unfold manifest at hversion ⊢
  rw [member?_sorted_mapNumbers, hversion]
  rfl

end Npm

namespace Config

open Npm

variable (c : Config) (d : Definition) {target : Target}

theorem value?_json (j : Json) : Template.Helper.value? .json [j] = .ok (some (.str j.pretty)) := rfl

theorem versionFor_spec (hnpm : target.npm.isSome = true) (tree : FileTree) :
    c.packageVersion = some (c.versionFor target tree) ∨ c.packageVersion = none ∧
      (HasVersion tree c.targetDir (c.versionFor target tree) ∨
        c.versionFor target tree = "0.0.0" ∧ ∀ v, ¬ HasVersion tree c.targetDir v) := by
  obtain ⟨layout, hlayout⟩ := Option.isSome_iff_exists.1 hnpm
  simp only [← previousVersion_eq_some_iff]
  rw [versionFor, hlayout, Option.bind_some]
  cases c.packageVersion with
  | some v => exact .inl rfl
  | none =>
    refine .inr ⟨rfl, ?_⟩
    cases previousVersion tree c.targetDir with
    | some v => exact .inl rfl
    | none => exact .inr ⟨rfl, nofun⟩

/-- The version of a later run is that of an earlier one if this can be read from the manifest. -/
theorem versionFor_eq (hnpm : target.npm.isSome = true) {tree later : FileTree}
    (h : HasVersion later c.targetDir (c.versionFor target tree)) :
    c.versionFor target later = c.versionFor target tree := by
  obtain ⟨layout, hlayout⟩ := Option.isSome_iff_exists.1 hnpm
  rw [← previousVersion_eq_some_iff] at h
  rw [versionFor, hlayout, Option.bind_some, h, versionFor]
  cases c.packageVersion <;> rfl

/-- The files that are there tell nothing about the variables but the version. -/
theorem templateData_congr {tree later : FileTree} (h : c.versionFor target later = c.versionFor target tree) :
    c.templateData d target later = c.templateData d target tree := by
  rw [templateData, templateData, templateVars, templateVars, h]

theorem member?_packageJson {layout : NpmLayout} (hnpm : target.npm = some layout) (tree : FileTree) :
    (c.templateData d target tree).member? "packageJson" = some (Npm.manifest layout c (c.versionFor target tree)) := by
  rw [member?_templateData, VarRule.findSome?_all, VarRule.value?, if_pos rfl, hnpm]
  rfl

/-- The manifest of an npm package has the configured version, or that of the manifest in the target directory, or the first
one. Once the manifest has been written to its file as the helper `json` prints it, whatever was there before, the template
variables are the same as before, as long as the file is read as it was written. The numbers of the settings have to be
those that JSON values have, and the manifest must not be nested too deep to be read. -/
theorem regeneration_keeps_variables (hnpm : target.npm.isSome = true) (tree : FileTree) :
    ∃ manifest version,
      (c.templateData d target tree).member? "packageJson" = some manifest ∧
      manifest.member? "version" = some (.str version) ∧
      (c.packageVersion = some version ∨ c.packageVersion = none ∧
        (HasVersion tree c.targetDir version ∨ version = "0.0.0" ∧ ∀ v, ¬ HasVersion tree c.targetDir v)) ∧
      ((∀ j ∈ c.manifestSettings, j.ValidNumbers) → manifest.depth ≤ Json.maxDepth →
        ∀ text before after later, Template.Helper.value? .json [manifest] = .ok (some (.str text)) →
          FileTree.write before (Path.join c.targetDir "package.json") (.text text) = .ok after →
          FileTree.read later (Path.join c.targetDir "package.json") = after.read (Path.join c.targetDir "package.json") →
          c.templateData d target later = c.templateData d target tree) := by
  obtain ⟨layout, hlayout⟩ := Option.isSome_iff_exists.1 hnpm
  refine ⟨_, c.versionFor target tree, member?_packageJson c d hlayout tree, member?_manifest_version _ _ _,
    versionFor_spec c hnpm tree, ?_⟩
  intro hnumbers hdepth text before after later htext hwrite hread
  rw [value?_json] at htext
  obtain rfl : (Npm.manifest layout c (c.versionFor target tree)).pretty = text :=
    Json.Tree.str.inj (Option.some.inj (Except.ok.inj htext))
  rw [FileTree.read_of_write hwrite] at hread
  exact templateData_congr c d (versionFor_eq c hnpm (hasVersion_of_pretty hnumbers hdepth hread))

/-- A configuration with numbers from the ends of both ranges among its settings. -/
def meteredConfig : Config :=
  { Config.empty with
    target := some "meter"
    publishConfig := some (.obj
      [("quota", .num (.float (.finite true (pow2 53 - 1) Binary64.maxExponent))), ("tag", .num (.int (2 ^ 64 - 1)))]) }

/-- A directory with a manifest that has nothing but a version. -/
def meteredTree : FileTree :=
  (FileTree.empty.put ["meter"] .directory).put ["meter", "package.json"] (.file (.text "\x7b\"version\": \"1.2.3\"\x7d"))

theorem write_meteredTree (text : String) :
    ∃ after, meteredTree.write (Path.join "meter" "package.json") (.text text) = .ok after := by
  refine ⟨_, (FileTree.write_eq (by decide +kernel) (by decide +kernel) ?_ _).trans (if_neg ?_)⟩
  · decide +kernel
  · decide +kernel

/-- The package keeps its version, and all its variables. -/
theorem metered_variables_kept :
    Target.typescriptTarget.npm.isSome = true ∧ (∀ j ∈ meteredConfig.manifestSettings, j.ValidNumbers) ∧
    ∃ manifest text after,
      (meteredConfig.templateData blankDefinition Target.typescriptTarget meteredTree).member? "packageJson" = some manifest ∧
      manifest.member? "version" = some (.str "1.2.3") ∧
      Template.Helper.value? .json [manifest] = .ok (some (.str text)) ∧
      meteredTree.write (Path.join "meter" "package.json") (.text text) = .ok after ∧
      meteredConfig.templateData blankDefinition Target.typescriptTarget after =
        meteredConfig.templateData blankDefinition Target.typescriptTarget meteredTree := by
  have hprevious : Npm.previousVersion meteredTree "meter" = some "1.2.3" := by decide +kernel
  obtain ⟨manifest, version, hmanifest, hversion, hsource, hkeeps⟩ :=
    @regeneration_keeps_variables meteredConfig blankDefinition Target.typescriptTarget rfl meteredTree
  obtain rfl : version = "1.2.3" := by
    rcases hsource with hconfigured | ⟨-, hfile | ⟨-, hnone⟩⟩
    · cases hconfigured
    · exact Option.some.inj ((previousVersion_eq_some_iff.2 hfile).symm.trans hprevious)
    · exact absurd (previousVersion_eq_some_iff.1 hprevious) (hnone _)
  have hdepth : manifest.depth ≤ Json.maxDepth := by
    obtain rfl := Option.some.inj ((member?_packageJson meteredConfig blankDefinition rfl meteredTree).symm.trans hmanifest)
    decide +kernel
  have hnumbers : ∀ j ∈ meteredConfig.manifestSettings, ∀ n ∈ j.numbers, n.Valid := by decide +kernel
  obtain ⟨after, hafter⟩ := write_meteredTree manifest.pretty
  exact ⟨rfl, hnumbers, manifest, manifest.pretty, after, hmanifest, hversion, rfl, hafter,
    hkeeps hnumbers hdepth _ _ _ _ rfl hafter rfl⟩

end Config

end SdkLoom
