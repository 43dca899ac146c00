import SdkLoom.CommandLine.Run
import SdkLoom.Proofs.Maps

/-!
# Configurations in layers

A configuration is told by its settings, one of which is each entry of a map, and by the names that it ignores
(`Config.ext_lookup`). Laying one configuration over another asks the upper one for each setting first and joins the ignored
names. So it does not matter in which order layers are joined, and of any number of layers the last one that makes a setting
decides it (`overlay_last_layer_wins`).
-/

namespace SdkLoom

/-- What a configuration may set: thirteen values, the entries of the template variables, and the environments. -/
inductive Setting where
  | template
  | source
  | target
  | language
  | packageName
  | packageVersion
  | packageDescription
  | repository
  | publishConfig
  | dependencies
  | peerDependencies
  | devDependencies
  | repoType
  | var (key : String)
  | env (name : String)

/-- What a setting is set to. -/
def Setting.Value : Setting → Type
  | .repository => Json
  | .publishConfig => Json
  | .dependencies => SortedMap String Json
  | .peerDependencies => SortedMap String Json
  | .devDependencies => SortedMap String Json
  | .var _ => Json
  | .env _ => Env
  | _ => String

namespace Config

/-- What a configuration sets a setting to, if it does. -/
def lookup (c : Config) : (s : Setting) → Option s.Value
  | .template => c.template
  | .source => c.source
  | .target => c.target
  | .language => c.language
  | .packageName => c.packageName
  | .packageVersion => c.packageVersion
  | .packageDescription => c.packageDescription
  | .repository => c.repository
  | .publishConfig => c.publishConfig
  | .dependencies => c.dependencies
  | .peerDependencies => c.peerDependencies
  | .devDependencies => c.devDependencies
  | .repoType => c.repoType
  | .var key => c.vars.get? key
  | .env name => c.envs.get? name

/-- A configuration is told by its settings and by the names that it ignores. -/
theorem ext_lookup {a b : Config} (hsettings : ∀ s, a.lookup s = b.lookup s) (hignored : a.ignoredModels = b.ignoredModels) :
    a = b := by
  have hvars : a.vars = b.vars := SortedMap.ext_get? fun key => hsettings (.var key)
  have henvs : a.envs = b.envs := SortedMap.ext_get? fun name => hsettings (.env name)
  obtain ⟨⟩ := a
  obtain ⟨⟩ := b
  simp only [mk.injEq]
  exact ⟨hsettings .template, hsettings .source, hsettings .target, hsettings .language, hvars, henvs,
    hsettings .packageName, hsettings .packageVersion, hsettings .packageDescription, hsettings .repository,
    hsettings .publishConfig, hsettings .dependencies, hsettings .peerDependencies, hsettings .devDependencies,
    hsettings .repoType, hignored⟩

/-! ## Two layers -/

/-- For every setting the upper configuration is asked first. -/
theorem lookup_overlay (a b : Config) (s : Setting) : (a.overlay b).lookup s = (b.lookup s).or (a.lookup s) := by
  cases s with
  | var key => exact a.vars.get?_overlay b.vars key
  | env name => exact a.envs.get?_overlay b.envs name
  | _ => rfl

theorem lookup_empty (s : Setting) : empty.lookup s = none := by
  cases s <;> rfl

theorem overlay_assoc (a b c : Config) : (a.overlay b).overlay c = a.overlay (b.overlay c) := by
  refine ext_lookup (fun s => ?_) (List.append_assoc _ _ _)
  simp only [lookup_overlay, Option.or_assoc]

theorem empty_overlay (a : Config) : empty.overlay a = a := by
  refine ext_lookup (fun s => ?_) (List.nil_append _)
  rw [lookup_overlay, lookup_empty, Option.or_none]

theorem overlay_empty (a : Config) : a.overlay empty = a := by
  refine ext_lookup (fun s => ?_) (List.append_nil _)
  rw [lookup_overlay, lookup_empty, Option.none_or]

/-! ## Any number of layers -/

/-- The configuration of some layers, each laid over those before it. -/
def layered (layers : List Config) : Config := layers.foldl overlay empty

/-- A value is that of the last layer that makes a setting: a layer sets it, and none above that layer sets another. -/
def SetLast (layers : List Config) (s : Setting) (v : s.Value) : Prop :=
  ∃ lower c upper, layers = lower ++ c :: upper ∧ c.lookup s = some v ∧ ∀ c' ∈ upper, c'.lookup s = none

theorem layered_concat (layers : List Config) (c : Config) : layered (layers ++ [c]) = (layered layers).overlay c := by
  rw [layered, List.foldl_append]
  rfl

/-- Layers may be laid over a configuration as over one more layer below them. -/
theorem foldl_overlay (base : Config) (layers : List Config) : layers.foldl overlay base = layered (base :: layers) := by
  rw [layered, List.foldl_cons, empty_overlay]

/-- Layers are asked from the last to the first. -/
theorem lookup_layered (layers : List Config) (s : Setting) :
    (layered layers).lookup s = layers.reverse.findSome? fun c => c.lookup s := by
  induction layers using List.reverseRecOn with
  | nil => exact lookup_empty s
  | append_singleton layers c ih =>
    rw [layered_concat, lookup_overlay, ih, List.reverse_append, List.reverse_singleton, List.singleton_append,
      List.findSome?_cons]
    cases c.lookup s <;> rfl

/-- Layers set what the last of them that makes a setting sets. -/
theorem lookup_layered_eq_some_iff (layers : List Config) (s : Setting) (v : s.Value) :
    (layered layers).lookup s = some v ↔ SetLast layers s v := by
  rw [lookup_layered, List.findSome?_eq_some_iff]
  constructor
  · rintro ⟨upper, c, lower, hlayers, hc, hupper⟩
    refine ⟨lower.reverse, c, upper.reverse, ?_, hc, fun c' hc' => hupper c' (List.mem_reverse.1 hc')⟩
    rw [← List.reverse_inj, hlayers]
    simp
  · rintro ⟨lower, c, upper, rfl, hc, hupper⟩
    exact ⟨upper.reverse, c, lower.reverse, by simp, hc, fun c' hc' => hupper c' (List.mem_reverse.1 hc')⟩

theorem ignoredModels_layered (layers : List Config) : (layered layers).ignoredModels = layers.flatMap ignoredModels := by
  induction layers using List.reverseRecOn with
  | nil => rfl
  | append_singleton layers c ih =>
    rw [layered_concat, List.flatMap_append, List.flatMap_singleton, ← ih]
    rfl

/-- The names to leave out are the built-in ones and those of the configuration. -/
theorem contains_ignoreList (c : Config) (n : String) :
    c.ignoreList.contains n = true ↔ n ∈ IgnoreList.wellKnown ∨ n ∈ c.ignoredModels := by
  rw [ignoreList, NameSet.contains_addNames, IgnoreList.builtin, NameSet.contains_ofNames]

end Config

/-- The lower layer of a run: its configuration file, or nothing if it has none. -/
def CommandLine.Options.fileLayer (o : CommandLine.Options) (tree : FileTree) : Except Error Config :=
  match o.configPath? tree with
  | some path => Config.load tree path
  | none => .ok .empty

/-- The configuration of a run has two layers: the options are laid over the file. -/
theorem CommandLine.Options.loadConfig_eq (o : CommandLine.Options) (tree : FileTree) :
    o.loadConfig tree = (o.fileLayer tree).map fun file => Config.layered [file, o.toConfig] := by
  have hlayers : ∀ file : Config, Config.layered [file, o.toConfig] = file.overlay o.toConfig := fun file =>
    (Config.foldl_overlay file [o.toConfig]).symm
  simp only [hlayers]
  unfold loadConfig fileLayer
  cases o.configPath? tree with
  | none => rfl
  | some path => cases hload : Config.load tree path <;> simp [hload, Except.map, bind, Except.bind]

namespace Config

/-- Configurations are a monoid: laying them over each other is associative, and the one that sets nothing does not count on
either side. In two layers each setting is that of the upper one if this makes it, and that of the lower one otherwise, and
the ignored names are those of the lower one and then those of the upper one. So in any number of layers, laid over each
other from a base or from nothing, each setting is that of the last layer that makes it, and the names to leave out are the
built-in ones and those of all layers. A run has two layers: its file, and then its options. -/
theorem overlay_last_layer_wins :
    (∀ a b c : Config, (a.overlay b).overlay c = a.overlay (b.overlay c)) ∧
    (∀ a : Config, empty.overlay a = a ∧ a.overlay empty = a) ∧
    (∀ (a b : Config) (s : Setting),
      (a.overlay b).lookup s = if (b.lookup s).isSome then b.lookup s else a.lookup s) ∧
    (∀ a b : Config, (a.overlay b).ignoredModels = a.ignoredModels ++ b.ignoredModels) ∧
    (∀ (base : Config) (layers : List Config), layers.foldl overlay base = layered (base :: layers)) ∧
    (∀ (layers : List Config) (s : Setting) (v : s.Value), (layered layers).lookup s = some v ↔ SetLast layers s v) ∧
    (∀ (layers : List Config) (n : String), (layered layers).ignoreList.contains n = true ↔
      n ∈ IgnoreList.wellKnown ∨ ∃ c ∈ layers, n ∈ c.ignoredModels) ∧
    ∀ (o : CommandLine.Options) (tree : FileTree),
      o.loadConfig tree = (o.fileLayer tree).map fun file => layered [file, o.toConfig] := by
  refine ⟨overlay_assoc, fun a => ⟨empty_overlay a, overlay_empty a⟩, fun a b s => ?_, fun _ _ => rfl, foldl_overlay,
    lookup_layered_eq_some_iff, fun layers n => ?_, CommandLine.Options.loadConfig_eq⟩
  · rw [lookup_overlay]
    cases b.lookup s <;> rfl
  · rw [contains_ignoreList, ignoredModels_layered, List.mem_flatMap]

end Config

end SdkLoom
