import SdkLoom.Target.Basic

/-!
# The table of targets

All targets, in the order of their languages.
-/

namespace SdkLoom.Target

/-- The layout of a TypeScript package. -/
def typescriptPackage : NpmLayout :=
  { main := "lib/index.js"
    types := some "lib/index.d.ts"
    dir := "lib"
    build := "tsc"
    dependencies := [("jwt-decode", "^3.1.2"), ("@genstackio/retry", "^0.1.1")]
    peerDependencies := [("cross-fetch", "^3.1.5")]
    devDependencies :=
      [("@babel/core", "^7.18.10"), ("@babel/preset-env", "^7.18.10"), ("@babel/preset-typescript", "^7.18.6"),
        ("babel-loader", "^8.2.5"), ("cross-fetch", "^3.1.5"), ("source-map-loader", "^4.0.0"), ("jest", "^28.1.3"),
        ("typescript", "^4.7.4"), ("@types/node", "^16.11.51"), ("@types/jest", "^28.1.7"), ("ts-jest", "^28.0.8"),
        ("webpack", "^5.74.0")] }

/-- The layout of a JavaScript package. -/
def javascriptPackage : NpmLayout :=
  { main := "src/index.js"
    types := none
    dir := "src"
    build := "true"
    dependencies := [("jwt-decode", "^3.1.2")]
    peerDependencies := [("cross-fetch", "^3.1.5")]
    devDependencies :=
      [("@babel/core", "^7.18.10"), ("@babel/preset-env", "^7.18.10"), ("babel-loader", "^8.2.5"),
        ("cross-fetch", "^3.1.5"), ("source-map-loader", "^4.0.0"), ("jest", "^28.1.3"), ("webpack", "^5.74.0")] }

/-- The files of documentation. -/
def docs : List String := ["LICENSE.md", "README.md"]

/-- A target all of whose files are rendered from templates. -/
def ofTemplates (language : String) (primitives : Primitives) (rendered : List String) : Target :=
  { language, primitives, rendered, copied := [], strategy := .templates, npm := none }

/-- The Go target. -/
def goTarget : Target :=
  { language := "go"
    primitives := ⟨"int", "float64", "string", "bool", "interface\x7b\x7d"⟩
    rendered := ["LICENSE.md", "README.md", ".gitignore", "go.mod"]
    copied := []
    strategy := .go
    npm := none }

/-- The JavaScript target. -/
def javascriptTarget : Target :=
  { language := "javascript"
    primitives := ⟨"number", "number", "string", "boolean", "any"⟩
    rendered := ["src/index.js", "src/Sdk.js", "src/BaseSdk.js", "src/config.js", "src/queries.js", "LICENSE.md",
      "package.json", "README.md", ".nvmrc"]
    copied := ["__tests__/index.test.js"]
    strategy := .templates
    npm := some javascriptPackage }

/-- The TypeScript target. -/
def typescriptTarget : Target :=
  { language := "typescript"
    primitives := ⟨"number", "number", "string", "boolean", "unknown"⟩
    rendered := ["src/index.ts", "src/Sdk.ts", "src/BaseSdk.ts", "src/types/input.ts", "src/types/model.ts",
      "src/config.ts", "src/queries.ts", "LICENSE.md", "package.json", "README.md", "tsconfig.json", ".nvmrc"]
    copied := ["src/types/index.ts", "__tests__/index.spec.ts"]
    strategy := .templates
    npm := some typescriptPackage }

/-- All targets, sorted by language. -/
def all : List Target :=
  [ofTemplates "cpp" ⟨"int", "double", "std::string", "bool", "void*"⟩ docs,
    ofTemplates "csharp" ⟨"int", "double", "string", "bool", "object"⟩ docs,
    ofTemplates "dart" ⟨"int", "double", "String", "bool", "dynamic"⟩ docs,
    ofTemplates "elixir" ⟨"integer()", "float()", "String.t()", "boolean()", "any()"⟩ docs,
    ofTemplates "erlang" ⟨"integer()", "float()", "binary()", "boolean()", "term()"⟩ docs,
    goTarget,
    ofTemplates "haskell" ⟨"Int", "Double", "Text", "Bool", "Value"⟩ docs,
    ofTemplates "java" ⟨"Integer", "Double", "String", "Boolean", "Object"⟩ docs,
    javascriptTarget,
    ofTemplates "kotlin" ⟨"Int", "Double", "String", "Boolean", "Any"⟩ docs,
    ofTemplates "lua" ⟨"number", "number", "string", "boolean", "any"⟩ docs,
    ofTemplates "objc" ⟨"NSInteger", "double", "NSString*", "BOOL", "id"⟩ docs,
    ofTemplates "php" ⟨"int", "float", "string", "bool", "mixed"⟩ (docs ++ ["composer.json"]),
    ofTemplates "r" ⟨"integer", "numeric", "character", "logical", "ANY"⟩ docs,
    ofTemplates "ruby" ⟨"Integer", "Float", "String", "Boolean", "Object"⟩ (docs ++ ["Gemfile"]),
    ofTemplates "rust" ⟨"i64", "f64", "String", "bool", "serde_json::Value"⟩ (docs ++ ["Cargo.toml"]),
    ofTemplates "scala" ⟨"Int", "Double", "String", "Boolean", "Any"⟩ docs,
    ofTemplates "swift" ⟨"Int", "Double", "String", "Bool", "Any"⟩ (docs ++ ["Package.swift"]),
    typescriptTarget]

end SdkLoom.Target
