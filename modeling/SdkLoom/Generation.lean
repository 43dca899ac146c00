import SdkLoom.Config.Variables
import SdkLoom.Synthesis
import SdkLoom.Target.Registry

/-!
# Generating a package

From a configuration and a schema to files in the target directory. All that can fail comes before the first write.
-/

namespace SdkLoom

/-- The names to leave out: the built-in ones and those of the configuration. -/
def Config.ignoreList (c : Config) : IgnoreList := IgnoreList.builtin.addNames c.ignoredModels

/-- What a run has made. -/
structure Generation where
  target : Target
  definition : Definition
  report : Report

/-- A run that generates a package into the target directory of a configuration. Its state is the file tree, so a run that
fails leaves one too. -/
def Config.generation (c : Config) (s : Schema) (registry : Registry) (templates : Option String) :
    EStateM Error FileTree Generation := do
  let target ← ofExcept (registry.resolve c.templateName c.languageName)
  let definition ← ofExcept (Definition.ofSchema s c.ignoreList)
  let vars := c.templateData definition target (← get)
  let store := TemplateStore.ofTarget templates target
  let (tree, report) := (definition.synthesize target vars).materialize c.targetDir store (← get)
  set tree
  return ⟨target, definition, report⟩

/-- What a run over given files makes, with the files after it. -/
def Config.generate (c : Config) (s : Schema) (registry : Registry) (templates : Option String) (tree : FileTree) :
    Except Error (FileTree × Generation) :=
  match c.generation s registry templates tree with
  | .ok g tree => .ok (tree, g)
  | .error e _ => .error e

end SdkLoom
