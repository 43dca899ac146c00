import SdkLoom.Go.Identifier
import SdkLoom.Operation.Order

/-!
# Query texts

The GraphQL text of an operation, with a placeholder for the selection where the result has fields, and the selection that
is used by default.
-/

namespace SdkLoom

/-- What stands for the selection in a query. -/
def selectionPlaceholder : String := "@selections@"

/-- The field that every type with a selection has. -/
def typenameField : String := "__typename"

/-- Whether a result is selected from: it is neither a scalar nor an enumeration. -/
def Descriptor.hasSelection (d : Descriptor) : Bool := !d.isPrimitive && !d.isEnum

namespace Operation

/-- Texts between parentheses, or nothing if there are none. -/
def parenthesized (items : List String) : String :=
  if items.isEmpty then "" else "(" ++ String.intercalate ", " items ++ ")"

/-- The definitions of an operation's variables. -/
def variableDefinitions (op : Operation) : List String :=
  List.map (fun (a : String × Descriptor) => "$" ++ a.1 ++ ": " ++ a.2.signature) op.query.args

/-- The arguments of an operation's root field. -/
def rootArguments (op : Operation) : List String :=
  (OrderedMap.keys op.query.args).map fun name => name ++ ": $" ++ name

/-- The text of an operation. -/
def queryText (op : Operation) : String :=
  op.query.kind.code ++ parenthesized op.variableDefinitions ++ " \x7b " ++ op.query.name ++
    parenthesized op.rootArguments ++
    (if op.method.returnType.hasSelection then " \x7b " ++ selectionPlaceholder ++ " \x7d" else "") ++ " \x7d"

/-- The scalar fields of the result. -/
def scalarFields (op : Operation) : List String :=
  (List.filter (fun (f : String × Descriptor) => f.2.isPrimitive) op.query.fields).map Prod.fst

/-- The selection of an operation by default: the scalar fields, or the type name if a selection has none. -/
def defaultSelection (op : Operation) : List String :=
  if op.scalarFields.isEmpty && op.method.returnType.hasSelection then [typenameField] else op.scalarFields

end Operation

namespace Go

/-- The declaration of an operation's query with its default selection. -/
def queryDecl (op : Operation) : String :=
  "var " ++ queryVariable op.query.name ++ " = QueryAndFields\x7b" ++ stringLiteral op.queryText ++ ", []string\x7b" ++
    String.intercalate ", " (op.defaultSelection.map stringLiteral) ++ "\x7d\x7d\n"

end Go

end SdkLoom
