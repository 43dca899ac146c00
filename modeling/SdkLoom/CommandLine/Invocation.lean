import SdkLoom.CommandLine.Run
import SdkLoom.CommandLine.Usage

/-!
# Invocations

A command line from its arguments to its result. Faults in the arguments end with code 2, before anything else is done.
-/

namespace SdkLoom.CommandLine

open Introspection

/-- The result of reading that ended early. -/
def Stop.result (tree : FileTree) : Stop → Result
  | .fault f => ⟨2, "", f.message ++ "\n", tree⟩
  | .help => ⟨0, helpText, "", tree⟩
  | .version => ⟨0, versionLine, "", tree⟩

/-- Whether reading ended by a fault in the arguments. -/
def Stop.isFault : Stop → Bool
  | .fault _ => true
  | _ => false

/-- Whether arguments have a fault. -/
def isMisused (args : List String) : Bool :=
  match Options.read args with
  | .error s => s.isFault
  | .ok _ => false

/-- Runs a command line. -/
def invoke (args : List String) (tree : FileTree) (send : Request → Except Error Reply) : Result :=
  match Options.read args with
  | .error s => s.result tree
  | .ok o => o.run tree send

/-! ## Files that a run reads -/

/-- The templates of a target that are read from a directory. -/
def templateReads (templates : Option String) (target : Target) : List String :=
  match TemplateStore.ofTarget templates target with
  | .builtin _ _ => []
  | .directory root => (target.copied ++ target.rendered.map (· ++ ".hbs")).map (Path.join root)

/-- The files that may hold the configuration of a run. -/
def Options.configReads (o : Options) : List String := [o.config.getD (Config.defaultPath (o.target.getD "."))]

/-- The further files that a run reads, once its configuration is known. -/
def Options.reads (o : Options) (tree : FileTree) : List String :=
  match o.loadConfig tree with
  | .error _ => []
  | .ok config =>
    match Registry.builtin.resolve config.templateName config.languageName with
    | .error _ => []
    | .ok target =>
      o.schema.toList ++ Path.join config.targetDir Npm.manifestFile :: templateReads o.templates target

end SdkLoom.CommandLine
