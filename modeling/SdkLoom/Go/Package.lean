import SdkLoom.Definition.Emitted
import SdkLoom.Go.MethodDecl

/-!
# Go packages

The Go sources of a definition: the queries, the types of inputs and of models, and the methods of the client.
-/

namespace SdkLoom.Go

/-- The declarations of a client. -/
structure Package where
  operations : List Operation
  inputs : List TypeDecl
  models : List TypeDecl
  methods : List MethodDecl

namespace Package

/-- The declarations of some of the types of a model. -/
def typeDecls (m : Model) (ps : Primitives) (names : List String) : List TypeDecl :=
  (m.select (NameSet.ofNames names)).map fun (n, d) => .ofDescriptor ps n d

/-- The declarations of a definition's client. -/
def ofDefinition (d : Definition) (ps : Primitives) : Package :=
  let operations := d.catalog.operations
  let emitted := d.emitted.keys
  { operations
    inputs := typeDecls d.model ps (emitted.filter d.model.inputs.contains)
    models := typeDecls d.model ps (emitted.filter fun n => !d.model.inputs.contains n)
    methods := operations.map (MethodDecl.ofOperation ps) }

/-- What every file starts with. -/
def header : String := "// Code generated by gql-sdkgen. DO NOT EDIT.\n\n"

/-- The declarations that come before the queries. -/
def queriesPreamble : String :=
  "package sdk\n\nimport \"strings\"\n\n" ++
  "// QueryAndFields pairs an operation with its default selection.\n" ++
  "type QueryAndFields struct \x7b\n" ++
  columns [["Query", "string"], ["Fields", "[]string"]] ++
  "\x7d\n\n" ++
  "// Render fills the selection placeholder, using Fields when none are given.\n" ++
  "func (q QueryAndFields) Render(selections ...string) string \x7b\n" ++
  "\tif len(selections) == 0 \x7b\n\t\tselections = q.Fields\n\t\x7d\n" ++
  "\treturn strings.Replace(q.Query, " ++ stringLiteral selectionPlaceholder ++
  ", strings.Join(selections, \" \"), 1)\n" ++
  "\x7d\n"

/-- The file of the queries. -/
def queriesFile (p : Package) : String :=
  header ++ queriesPreamble ++ String.join (p.operations.map fun op => "\n" ++ queryDecl op)

/-- A file of types. -/
def typesFile (decls : List TypeDecl) : String :=
  header ++ "package types\n" ++ String.join (decls.map fun t => "\n" ++ t.text)

/-- The declarations of all methods. -/
def methodsText (p : Package) : String := String.join (p.methods.map fun m => "\n" ++ m.text)

/-- The path by which the package of types is imported. -/
def typesImport (module : String) : String := module ++ "/cmd/main/types"

/-- The imports of the client; the package of types is among them if the methods mention it. -/
def imports (p : Package) (module : String) : String :=
  "import (\n\t\"context\"\n" ++
  (if Text.contains p.methodsText typesQualifier then "\n\t" ++ stringLiteral (typesImport module) ++ "\n" else "") ++
  ")\n\n"

/-- The declarations that come before the methods. -/
def clientPreamble : String :=
  "// CallMeta describes one sdk call to the executor.\n" ++
  "type CallMeta struct \x7b\n" ++
  columns [["Name", "string"], ["Type", "string"], ["Model", "string"], ["Key", "string"],
    ["Value", "interface\x7b\x7d"], ["By", "string"]] ++
  "\x7d\n\n" ++
  "// Executor sends a rendered operation and decodes the response data into out.\n" ++
  "type Executor interface \x7b\n" ++
  "\tQuery(ctx context.Context, query string, variables interface\x7b\x7d, meta CallMeta, out interface\x7b\x7d) error\n" ++
  "\tMutate(ctx context.Context, query string, variables interface\x7b\x7d, meta CallMeta, out interface\x7b\x7d) error\n" ++
  "\x7d\n\n" ++
  "type Sdk struct \x7b\n" ++
  columns [["Env", "string"], ["Executor", "Executor"]] ++
  "\x7d\n\n" ++
  "func NewSdk(env string, executor Executor) *Sdk \x7b\n" ++
  "\treturn &Sdk\x7bEnv: env, Executor: executor\x7d\n\x7d\n"

/-- The file of the client. -/
def clientFile (p : Package) (module : String) : String :=
  header ++ "package sdk\n\n" ++ p.imports module ++ clientPreamble ++ p.methodsText

/-- The files of a client in a module, by path. -/
def files (p : Package) (module : String) : List (String × String) :=
  [("cmd/main/queries.go", p.queriesFile), ("cmd/main/types/inputs.go", typesFile p.inputs),
    ("cmd/main/types/models.go", typesFile p.models), ("cmd/main/sdk.go", p.clientFile module)]

end Package

/-- The module of a client that has no package name. -/
def defaultModule : String := "sdk"

end SdkLoom.Go
