import SdkLoom.Target.Basic
import SdkLoom.Text.Lines

/-!
# Built-in templates

The templates that come with the generator, by language. A directory of templates given by the caller takes their place.
-/

namespace SdkLoom.BuiltinTemplates

/-! ## Shared -/

/-- The terms of a generated package. -/
def license : String := Text.unlines [
  "MIT License",
  "",
  "Permission is hereby granted, free of charge, to any person obtaining a copy",
  "of this software and associated documentation files (the \"Software\"), to deal",
  "in the Software without restriction, including without limitation the rights",
  "to use, copy, modify, merge, publish, distribute, sublicense, and/or sell",
  "copies of the Software, and to permit persons to whom the Software is",
  "furnished to do so, subject to the following conditions:",
  "",
  "The above copyright notice and this permission notice shall be included in all",
  "copies or substantial portions of the Software.",
  "",
  "THE SOFTWARE IS PROVIDED \"AS IS\", WITHOUT WARRANTY OF ANY KIND, EXPRESS OR",
  "IMPLIED, INCLUDING BUT NOT LIMITED TO THE WARRANTIES OF MERCHANTABILITY,",
  "FITNESS FOR A PARTICULAR PURPOSE AND NONINFRINGEMENT. IN NO EVENT SHALL THE",
  "AUTHORS OR COPYRIGHT HOLDERS BE LIABLE FOR ANY CLAIM, DAMAGES OR OTHER",
  "LIABILITY, WHETHER IN AN ACTION OF CONTRACT, TORT OR OTHERWISE, ARISING FROM,",
  "OUT OF OR IN CONNECTION WITH THE SOFTWARE OR THE USE OR OTHER DEALINGS IN THE",
  "SOFTWARE."]

/-! ## Go -/

/-- Files of a Go package that stay out of version control. -/
def goIgnore : String := Text.unlines [
  "/bin/",
  "*.test",
  "*.out",
  ".idea/",
  ".vscode/"]

/-- The front page of a Go package. -/
def goReadme : String := Text.unlines [
  "# \x7b\x7b#if packageName\x7d\x7d\x7b\x7bpackageName\x7d\x7d\x7b\x7belse\x7d\x7dsdk\x7b\x7b/if\x7d\x7d",
  "",
  "\x7b\x7b#if packageDescription\x7d\x7d\x7b\x7bpackageDescription\x7d\x7d\x7b\x7belse\x7d\x7dGo client for the GraphQL API.\x7b\x7b/if\x7d\x7d",
  "",
  "Version \x7b\x7bpackageVersion\x7d\x7d.",
  "",
  "## Usage",
  "",
  "```go",
  "s := sdk.NewSdk(\"\x7b\x7bdefaultEnv\x7d\x7d\", executor)",
  "```",
  "",
  "`executor` implements `sdk.Executor` and performs the HTTP round-trip.",
  "Every method accepts optional selections; without them the primitive fields",
  "of the returned model are requested.",
  "",
  "## Environments",
  "",
  "\x7b\x7b#each envs\x7d\x7d",
  "- `\x7b\x7b@key\x7d\x7d`\x7b\x7b#if this.graphql\x7d\x7d: \x7b\x7bthis.graphql\x7d\x7d\x7b\x7b/if\x7d\x7d",
  "\x7b\x7b/each\x7d\x7d",
  "",
  "## Operations",
  "",
  "\x7b\x7b#each methods\x7d\x7d",
  "- `\x7b\x7b@key\x7d\x7d` (\x7b\x7bthis.kind\x7d\x7d) returns `\x7b\x7bthis.returnType.gqlType\x7d\x7d`",
  "\x7b\x7b/each\x7d\x7d"]

/-- The module file of a Go package. -/
def goModule : String := Text.unlines [
  "module \x7b\x7b#if packageName\x7d\x7d\x7b\x7bpackageName\x7d\x7d\x7b\x7belse\x7d\x7dsdk\x7b\x7b/if\x7d\x7d",
  "",
  "go 1.21"]

/-! ## Rust -/

/-- The manifest of a Rust package. -/
def rustManifest : String := Text.unlines [
  "[package]",
  "name = \"\x7b\x7b#if packageName\x7d\x7d\x7b\x7bpackageName\x7d\x7d\x7b\x7belse\x7d\x7dsdk\x7b\x7b/if\x7d\x7d\"",
  "version = \"\x7b\x7bpackageVersion\x7d\x7d\"",
  "edition = \"2021\"",
  "license = \"MIT\"",
  "\x7b\x7b#if packageDescription\x7d\x7d",
  "description = \"\x7b\x7bpackageDescription\x7d\x7d\"",
  "\x7b\x7b/if\x7d\x7d",
  "",
  "[dependencies]",
  "serde = \x7b version = \"1\", features = [\"derive\"] \x7d",
  "serde_json = \"1\"",
  "\x7b\x7b#each dependencies\x7d\x7d",
  "\x7b\x7b@key\x7d\x7d = \"\x7b\x7bthis\x7d\x7d\"",
  "\x7b\x7b/each\x7d\x7d"]

/-- The front page of a Rust package. -/
def rustReadme : String := Text.unlines [
  "# \x7b\x7b#if packageName\x7d\x7d\x7b\x7bpackageName\x7d\x7d\x7b\x7belse\x7d\x7dsdk\x7b\x7b/if\x7d\x7d",
  "",
  "\x7b\x7b#if packageDescription\x7d\x7d\x7b\x7bpackageDescription\x7d\x7d\x7b\x7belse\x7d\x7dRust client for the GraphQL API.\x7b\x7b/if\x7d\x7d",
  "",
  "## Models",
  "",
  "\x7b\x7b#each requiredModels\x7d\x7d",
  "- `\x7b\x7b@key\x7d\x7d`",
  "\x7b\x7b/each\x7d\x7d",
  "",
  "## Operations",
  "",
  "\x7b\x7b#each methods\x7d\x7d",
  "- `\x7b\x7b@key\x7d\x7d` (\x7b\x7bthis.kind\x7d\x7d)",
  "\x7b\x7b/each\x7d\x7d"]

/-! ## By language -/

/-- The languages with built-in templates. -/
def languages : List String := ["go", "rust"]

/-- The built-in templates of a language by name. -/
def files : String → List (String × String)
  | "go" => [
    (".gitignore.hbs", goIgnore),
    ("LICENSE.md.hbs", license),
    ("README.md.hbs", goReadme),
    ("go.mod.hbs", goModule)]
  | "rust" => [
    ("Cargo.toml.hbs", rustManifest),
    ("LICENSE.md.hbs", license),
    ("README.md.hbs", rustReadme)]
  | _ => []

end SdkLoom.BuiltinTemplates
