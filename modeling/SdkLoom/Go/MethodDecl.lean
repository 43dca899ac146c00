import SdkLoom.Go.Query
import SdkLoom.Go.TypeDecl

/-!
# Go methods of operations

Every operation has a request structure with its arguments, a response structure with its result, and a method that sends
the one and returns what the other holds.
-/

namespace SdkLoom.Go

/-- An argument of a method. -/
structure MethodArg where
  name : String
  type : TypeExpr
  deriving DecidableEq, Repr, Inhabited

/-- The declarations of an operation. -/
structure MethodDecl where
  name : String
  args : List MethodArg
  result : TypeExpr
  plan : CallPlan
  deriving Repr, Inhabited

namespace MethodDecl

/-- The declarations of an operation, whose types are those of the package of types. -/
def ofOperation (ps : Primitives) (op : Operation) : MethodDecl :=
  { name := op.method.name
    args := List.map (fun (a : String × Descriptor) =>
      { name := a.1, type := .ofDescriptor ps typesQualifier none a.2 }) op.method.args
    result := .ofDescriptor ps typesQualifier none op.method.returnType
    plan := op.plan }

/-- The name of the method. -/
def ident (m : MethodDecl) : String := exported m.name

/-- The name of the request structure. -/
def requestIdent (m : MethodDecl) : String := m.ident ++ "Request"

/-- The name of the response structure. -/
def responseIdent (m : MethodDecl) : String := m.ident ++ "Response"

/-- The fields of the request structure. -/
def requestFields (m : MethodDecl) : List StructField :=
  m.args.map fun a => { ident := exported a.name, type := a.type, json := a.name }

/-- The fields of the response structure. -/
def responseFields (m : MethodDecl) : List StructField := [{ ident := m.ident, type := m.result, json := m.name }]

/-- The parameters of the method. -/
def params (m : MethodDecl) : List String :=
  ["ctx context.Context"] ++ m.args.map (fun a => param a.name ++ " " ++ a.type.text) ++ ["selections ...string"]

/-- What tells the executor about the call. -/
def metaText (m : MethodDecl) : String :=
  let common := ["Name: " ++ stringLiteral m.name, "Type: " ++ stringLiteral m.plan.style.tag,
    "Model: " ++ stringLiteral m.plan.model]
  let key := match m.plan.key with
    | some k => ["Key: " ++ stringLiteral k, "Value: " ++ param k]
    | none => []
  let filter := match m.plan.filter with
    | some b => ["By: " ++ stringLiteral b]
    | none => []
  "CallMeta\x7b" ++ String.intercalate ", " (common ++ key ++ filter) ++ "\x7d"

/-- The fields of the request with the parameters that fill them. -/
def assignments (m : MethodDecl) : String :=
  String.intercalate ", " (m.args.map fun a => exported a.name ++ ": " ++ param a.name)

/-- The executor's method for the call. -/
def executorCall (m : MethodDecl) : String := if m.plan.style.isMutation then "Mutate" else "Query"

/-- The text of the method. -/
def functionText (m : MethodDecl) : String :=
  "func (s *Sdk) " ++ m.ident ++ "(" ++ String.intercalate ", " m.params ++ ") (" ++ m.result.text ++ ", error) \x7b\n" ++
    "\trequest := " ++ m.requestIdent ++ "\x7b" ++ m.assignments ++ "\x7d\n" ++
    "\tmeta := " ++ m.metaText ++ "\n" ++
    "\tvar response " ++ m.responseIdent ++ "\n" ++
    "\terr := s.Executor." ++ m.executorCall ++ "(ctx, " ++ queryVariable m.name ++
    ".Render(selections...), request, meta, &response)\n" ++
    "\treturn response." ++ m.ident ++ ", err\n" ++
    "\x7d\n"

/-- The text of the declarations. -/
def text (m : MethodDecl) : String :=
  structText m.requestIdent m.requestFields ++ "\n" ++ structText m.responseIdent m.responseFields ++ "\n" ++
    m.functionText

end MethodDecl

end SdkLoom.Go
