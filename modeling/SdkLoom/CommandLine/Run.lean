import SdkLoom.CommandLine.Options
import SdkLoom.Config.Endpoint
import SdkLoom.Generation
import SdkLoom.Schema.Source

/-!
# Runs of the command line

What a run prints, how it ends, and what it leaves in the file tree. Settings come from a configuration file and are
overlaid by the options. A run that fails before it writes leaves the files as they are.
-/

namespace SdkLoom.CommandLine

open Introspection

/-- What a run shows to its caller. -/
structure Result where
  code : Nat
  stdout : String
  stderr : String
  tree : FileTree

/-- The name of the program. -/
def programName : String := "gql-sdkgen"

/-- The line that tells the version. -/
def versionLine : String := programName ++ " 0.1.0\n"

/-- The configuration that the options make. -/
def Options.toConfig (o : Options) : Config :=
  { Config.empty with
    target := o.target
    template := o.template
    source := o.source
    language := o.language
    packageName := o.packageName
    vars := .ofList (o.vars.map fun (k, v) => (k, .str v)) }

/-- The configuration file of a run: the one that is named, or the one in the target directory if there is one. -/
def Options.configPath? (o : Options) (tree : FileTree) : Option String :=
  match o.config with
  | some path => some path
  | none =>
    let path := Config.defaultPath (o.target.getD ".")
    if tree.isFile path then some path else none

/-- The configuration of a run. -/
def Options.loadConfig (o : Options) (tree : FileTree) : Except Error Config := do
  let base ← match o.configPath? tree with
    | some path => Config.load tree path
    | none => .ok .empty
  .ok (base.overlay o.toConfig)

/-- Where the schema of a run comes from. -/
def Options.schemaSource (o : Options) (c : Config) : Except Error SchemaSource :=
  match o.schema, o.endpoint with
  | some path, _ => .ok (.file path)
  | none, some url => .ok (.endpoint url)
  | none, none => c.endpoint.map .endpoint

/-- Whether a path stands for the standard output. -/
def isStdout (path : String) : Bool := Path.steps path == ["-"] && Text.startsWith path "-"

/-- Writes the dump of a definition: what it prints, and the files after it. -/
def writeDump (d : Definition) (path : Option String) (tree : FileTree) : Except Error (String × FileTree) :=
  match path with
  | none => .ok ("", tree)
  | some path =>
    if isStdout path then .ok (d.dump ++ "\n", tree)
    else match tree.write path (.text (d.dump ++ "\n")) with
      | .ok tree => .ok ("", tree)
      | .error f => .error (.file path f)

/-- The line that sums up a run. -/
def summary (g : Generation) : String :=
  g.target.language ++ ": " ++ toString g.report.written.length ++ " written, "
    ++ toString g.report.skipped.length ++ " skipped, " ++ toString g.report.failed.length ++ " failed ("
    ++ toString g.definition.required.size ++ " models, " ++ toString g.definition.catalog.size ++ " operations)\n"

/-- A run that ends with an error. -/
def failed (e : Error) (tree : FileTree) : Result := ⟨1, "", programName ++ ": " ++ e.message ++ "\n", tree⟩

/-- A run up to the files it generates. An unknown generator is reported before any schema is asked for. -/
def Options.generation (o : Options) (send : Request → Except Error Reply) : EStateM Error FileTree Generation := do
  let config ← ofExcept (o.loadConfig (← get))
  let _ ← ofExcept (Registry.builtin.resolve config.templateName config.languageName)
  let source ← ofExcept (o.schemaSource config)
  let schema ← ofExcept (source.load (← get) o.headers send)
  config.generation schema .builtin o.templates

/-- The end of a run whose files are generated. -/
def conclude (o : Options) (tree : FileTree) (g : Generation) : Result :=
  match writeDump g.definition o.dumpModel tree with
  | .error e => failed e tree
  | .ok (dump, tree) =>
    let out := dump ++ summary g
    if g.report.success then ⟨0, out, "", tree⟩
    else ⟨2, out, String.join (g.report.failed.map fun path => "failed: " ++ path ++ "\n"), tree⟩

/-- A run. -/
def Options.run (o : Options) (tree : FileTree) (send : Request → Except Error Reply) : Result :=
  if o.listTargets then ⟨0, Text.unlines Registry.builtin.keys, "", tree⟩
  else match o.generation send tree with
    | .error e tree => failed e tree
    | .ok g tree => conclude o tree g

end SdkLoom.CommandLine
