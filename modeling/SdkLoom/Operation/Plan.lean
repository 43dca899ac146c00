import SdkLoom.Catalog.Basic

/-!
# Call plans

How an operation is called is read off its name: the verb at its front and its kind give its style, and the style gives
the tag and the hints that go with every call.
-/

namespace SdkLoom

/-- The style of a call. -/
inductive CallStyle where
  | retrieve
  | find
  | query
  | create
  | update
  | delete
  | mutation
  deriving DecidableEq, Repr, Inhabited

namespace CallStyle

/-- The spelling of a style. -/
def code : CallStyle → String
  | .retrieve => "retrieve"
  | .find => "find"
  | .query => "query"
  | .create => "create"
  | .update => "update"
  | .delete => "delete"
  | .mutation => "mutation"

/-- The style of an operation, by the front of its name. -/
def ofName (name : String) : OperationKind → CallStyle
  | .query =>
    if Text.startsWith name "get" then .retrieve
    else if Text.startsWith name "find" then .find
    else .query
  | .mutation =>
    if Text.startsWith name "delete" then .delete
    else if Text.startsWith name "create" then .create
    else if Text.startsWith name "update" then .update
    else .mutation

/-- The tag of a style. -/
def tag : CallStyle → String
  | .retrieve => "document_retrieve"
  | .query => "document_retrieve"
  | .find => "documents_find"
  | .create => "document_creation"
  | .update => "document_update"
  | .mutation => "document_update"
  | .delete => "document_delete"

/-- Whether a style writes. -/
def isMutation : CallStyle → Bool
  | .create => true
  | .update => true
  | .delete => true
  | .mutation => true
  | _ => false

end CallStyle

/-- What goes with a call: its style, the type of the result, and the arguments to look things up by. -/
structure CallPlan where
  style : CallStyle
  model : String
  key : Option String
  filter : Option String
  deriving DecidableEq, Repr, Inhabited

namespace CallPlan

/-- The name of the items of a page: a type name without `Page` at its end, unless nothing is left. -/
def pageItem (name : String) : String :=
  match Text.stripTail name "Page" with
  | some item => if item.isEmpty then name else item
  | none => name

/-- The plan of a method. -/
def ofMethod (m : Method) : CallPlan :=
  let style := CallStyle.ofName m.name m.kind
  let model := m.returnType.gqlType
  let names := OrderedMap.keys m.args
  match style with
  | .retrieve => { style, model, key := names.head?, filter := none }
  | .find => { style, model := pageItem model, key := none, filter := names.find? fun n => n != "offset" }
  | _ => { style, model, key := none, filter := none }

end CallPlan

end SdkLoom
