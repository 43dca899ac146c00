import SdkLoom.Operation.Plan

/-!
# Operations in order

The operations of a catalog with both of their sides, queries before mutations and then by name.
-/

namespace SdkLoom

/-- An operation that has both a query entry and a method. -/
structure Operation where
  query : QueryEntry
  method : Method
  deriving Inhabited

namespace Operation

/-- The plan of an operation's calls. -/
def plan (op : Operation) : CallPlan := .ofMethod op.method

/-- The rank of a kind: queries come first. -/
def rank : OperationKind → Nat
  | .query => 0
  | .mutation => 1

/-- Whether an operation may stand before another: by kind, then by name. -/
def precedes (a b : Operation) : Bool :=
  rank a.query.kind < rank b.query.kind ||
    rank a.query.kind == rank b.query.kind && compare a.query.name b.query.name != .gt

end Operation

/-- The operations of a catalog in order; equal ones keep the order of the catalog. -/
def Catalog.operations (c : Catalog) : List Operation :=
  let paired := (OrderedMap.values c.queries).filterMap fun query =>
    (OrderedMap.get? c.methods query.name).map fun method => { query, method : Operation }
  paired.mergeSort Operation.precedes

end SdkLoom
