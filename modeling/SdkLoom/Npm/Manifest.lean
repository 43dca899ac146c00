import SdkLoom.Config.Basic
import SdkLoom.Files.Tree
import SdkLoom.Json.Decode
import SdkLoom.Json.Reader

/-!
# Manifests of npm packages

The manifest that the templates of npm targets are given. A package that has been generated before keeps its version, which
is read from the manifest in the target directory.
-/

namespace SdkLoom

namespace Npm

/-- The name of a manifest. -/
def manifestFile : String := "package.json"

/-- The version of the manifest in a directory, if there is one that can be read. -/
def previousVersion (tree : FileTree) (dir : String) : Option String := do
  let text ← (tree.read (Path.join dir manifestFile)).toOption
  let manifest ← Json.readValue text
  let version ← manifest.member? "version"
  version.string?

/-- The registry of packages for GitHub. -/
def githubRegistry : String := "https://npm.pkg.github.com/"

/-- Where a package is published: the word `github` names that registry, and other words mean nothing. -/
def publishing? : Json → Option Json
  | .str name =>
    if name == "github" then some (.obj [("access", .str "restricted"), ("registry", .str githubRegistry)]) else none
  | j => some j

/-- The scripts of a package: one in a repository of its own is released from there, any other is tested from the root of the
repository that it is part of. -/
def scripts (repoType : Option String) (build : String) : List (String × Json) :=
  if repoType == some "standalone" then [
    ("build", .str build),
    ("postversion", .str "git push && git push --tags"),
    ("preversion", .str "yarn test"),
    ("test", .str "jest --config jest.config.js"),
    ("version", .str "yarn --silent build && git add -A .")]
  else [
    ("build", .str build),
    ("test", .str "../../node_modules/.bin/jest -c ../../jest.config.js --rootDir=`pwd`")]

/-- Dependencies of every package, overwritten by those that are configured. -/
def dependencies (base : List Dependency) (more : Option (SortedMap String Json)) : SortedMap String Json :=
  (SortedMap.ofList (base.map fun (name, version) => (name, Json.Tree.str version))).overlay (more.getD ∅)

/-- The member for a value that may be missing. -/
def optionalMember (name : String) (value : Option Json) : List (String × Json) := value.toList.map (name, ·)

/-- The manifest of a package. -/
def manifest (layout : NpmLayout) (c : Config) (version : String) : Json :=
  Json.ofMap (.ofList (
    optionalMember "name" (c.packageName.map .str)
    ++ [("version", .str version)]
    ++ optionalMember "description" (c.packageDescription.map .str)
    ++ [("license", .str "ISC"), ("main", .str layout.main)]
    ++ optionalMember "types" (layout.types.map .str)
    ++ [("directories", Json.ofMap (.ofList [(layout.dir, .str layout.dir), ("test", .str "__tests__")])),
      ("files", Json.ofStrings [layout.dir])]
    ++ optionalMember "repository" c.repository
    ++ optionalMember "publishConfig" (c.publishConfig.bind publishing?)
    ++ [("scripts", Json.ofMap (.ofList (scripts c.repoType layout.build))),
      ("dependencies", Json.ofMap (dependencies layout.dependencies c.dependencies)),
      ("peerDependencies", Json.ofMap (dependencies layout.peerDependencies c.peerDependencies)),
      ("devDependencies", Json.ofMap (dependencies layout.devDependencies c.devDependencies))]))

end Npm

end SdkLoom
