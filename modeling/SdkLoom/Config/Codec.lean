import SdkLoom.Config.Basic
import SdkLoom.Config.Format
import SdkLoom.Files.Tree

/-!
# Configuration files

A configuration is read from a JSON or YAML file, by the extension of its name. All members may be left out; null is a value
only for settings that may stay open. An environment is an object whose members other than the endpoint are kept as they are.
-/

namespace SdkLoom

open Json (Record)

variable {τ : Type}

/-! ## Reading -/

/-- The member of an environment that has its endpoint. -/
def Env.endpointMember : String := "graphql"

/-- An environment. -/
def Env.decode? (f : Format τ) (t : τ) : Option Env := do
  let members ← f.members? t
  let record ← Record.ofMembers? [endpointMember] members
  let graphql ← record.defaulted endpointMember (f.nullable? f.string?) none
  let others := members.filter fun m => m.1 != endpointMember
  let extra ← others.mapM fun (m : String × τ) => (f.heldValue? 3 m.2).map (m.1, ·)
  some ⟨graphql, .ofList extra⟩

namespace Config

/-- The members of a configuration in order. -/
def fieldNames : List String :=
  ["template", "source", "target", "language", "vars", "envs", "packageName", "packageVersion", "packageDescription",
    "repository", "publishConfig", "dependencies", "peerDependencies", "devDependencies", "repoType", "ignoredModels"]

/-- A configuration. -/
def decode? (f : Format τ) (t : τ) : Option Config := do
  let r ← f.record? fieldNames t
  let string (name : String) : Option (Option String) := r.defaulted name (f.nullable? f.string?) none
  let value (name : String) : Option (Option Json) := r.defaulted name (f.nullable? (f.value? 1)) none
  let values (name : String) : Option (Option (SortedMap String Json)) :=
    r.defaulted name (f.nullable? (f.map? (f.value? 2))) none
  return {
    template := ← string "template"
    source := ← string "source"
    target := ← string "target"
    language := ← string "language"
    vars := ← r.defaulted "vars" (f.map? (f.value? 2)) ∅
    envs := ← r.defaulted "envs" (f.map? (Env.decode? f)) ∅
    packageName := ← string "packageName"
    packageVersion := ← string "packageVersion"
    packageDescription := ← string "packageDescription"
    repository := ← value "repository"
    publishConfig := ← value "publishConfig"
    dependencies := ← values "dependencies"
    peerDependencies := ← values "peerDependencies"
    devDependencies := ← values "devDependencies"
    repoType := ← string "repoType"
    ignoredModels := ← r.defaulted "ignoredModels" f.strings? [] }

/-- The configuration of a JSON text. -/
def ofJson (text : String) : Except Error Config :=
  match (Json.read text).bind (decode? .json) with
  | some c => .ok c
  | none => .error .json

/-- The configuration of a YAML document, which may not repeat itself beyond measure. -/
def ofDocument? (d : Yaml.Document) : Option Config :=
  if d.isModest fieldNames then decode? .yaml d.view else none

/-- The configuration of a YAML text; an empty text sets nothing. -/
def ofYaml (text : String) : Except Error Config :=
  match (Yaml.Document.ofText? text).bind ofDocument? with
  | some c => .ok c
  | none => .error .yaml

/-- The configuration of a file. -/
def load (tree : FileTree) (path : String) : Except Error Config := do
  let text ← (tree.read path).mapError (.file path)
  match Path.format path with
  | "json" => ofJson text
  | "yaml" => ofYaml text
  | "yml" => ofYaml text
  | other => .error (.unknownConfigFormat other)

/-- Where the configuration of a target directory is looked for. -/
def defaultPath (target : String) : String := Path.join target defaultFile

end Config

/-! ## Writing -/

/-- The JSON form of an environment. -/
def Env.toJson (e : Env) : Json :=
  .obj ((e.graphql.toList.map fun g => (endpointMember, .str g)) ++ e.extra.toList)

/-- The JSON form of environments. -/
def Env.mapToJson (envs : SortedMap String Env) : Json := .obj (envs.toList.map fun (k, e) => (k, e.toJson))

namespace Config

/-- The JSON form of a configuration, null for what it leaves open. -/
def toJson (c : Config) : Json :=
  let map (m : Option (SortedMap String Json)) : Json := (m.map Json.ofMap).getD .null
  .obj [
    ("template", Json.ofString? c.template),
    ("source", Json.ofString? c.source),
    ("target", Json.ofString? c.target),
    ("language", Json.ofString? c.language),
    ("vars", Json.ofMap c.vars),
    ("envs", Env.mapToJson c.envs),
    ("packageName", Json.ofString? c.packageName),
    ("packageVersion", Json.ofString? c.packageVersion),
    ("packageDescription", Json.ofString? c.packageDescription),
    ("repository", c.repository.getD .null),
    ("publishConfig", c.publishConfig.getD .null),
    ("dependencies", map c.dependencies),
    ("peerDependencies", map c.peerDependencies),
    ("devDependencies", map c.devDependencies),
    ("repoType", Json.ofString? c.repoType),
    ("ignoredModels", Json.ofStrings c.ignoredModels)]

end Config

end SdkLoom
