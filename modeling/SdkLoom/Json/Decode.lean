import SdkLoom.Decimal.Power
import SdkLoom.Json.Basic

/-!
# Decoding JSON trees

Readers of strings, numbers, lists and records. A record is an object, or a list that gives its fields by position. An
object that writes a known field twice is no record, and fields that are not known are passed over unread, faults and all.
-/

namespace SdkLoom.Json

namespace Tree

variable {ε α β : Type}

/-- A string. -/
def string? : Tree ε → Option String
  | .str s => some s
  | _ => none

/-- A truth value. -/
def bool? : Tree ε → Option Bool
  | .bool b => some b
  | _ => none

/-- A signed integer of 64 bits. -/
def int64? : Tree ε → Option Int
  | .num (.int i) => if fitsSigned 64 i then some i else none
  | _ => none

/-- Null, or a value of its own reader. -/
def nullable? (f : Tree ε → Option α) : Tree ε → Option (Option α)
  | .null => some none
  | t => (f t).map some

/-- A list whose items have one reader. -/
def list? (f : Tree ε → Option α) : Tree ε → Option (List α)
  | .arr items => items.mapM f
  | _ => none

/-- The members of an object. -/
def members? : Tree ε → Option (List (String × Tree ε))
  | .obj members => some members
  | _ => none

/-- The members of an object whose values have one reader. -/
def entries? (f : Tree ε → Option α) (t : Tree ε) : Option (List (String × α)) :=
  t.members?.bind fun ms => ms.mapM fun (k, v) => (f v).map fun a => (k, a)

/-- The name of a choice without content: a string, or an object of one member that is null. -/
def choice? : Tree ε → Option String
  | .str s => some s
  | .obj [(name, .null)] => some name
  | _ => none

/-- The name of a choice without content among members that are held back until the others are read: there an empty object
counts as null. -/
def heldChoice? : Tree ε → Option String
  | .obj [(name, .obj [])] => some name
  | t => t.choice?

end Tree

/-- The known fields that a tree gives, and whether it gave them by position. -/
structure Record (β : Type) where
  fields : List (String × β)
  positional : Bool

namespace Record

variable {α β : Type}

/-- A record of named members: only known names count, and each at most once. -/
def ofMembers? (names : List String) (members : List (String × β)) : Option (Record β) :=
  let known := members.filter fun m => names.contains m.1
  if (known.map Prod.fst).Nodup then some ⟨known, false⟩ else none

/-- A record of items by position: there are no more of them than names. -/
def ofItems? (names : List String) (items : List β) : Option (Record β) :=
  if items.length ≤ names.length then some ⟨names.zip items, true⟩ else none

/-- The value given for a field. -/
def get? (r : Record β) (name : String) : Option β := r.fields.lookup name

/-- A field that has to be given. -/
def required (r : Record β) (name : String) (f : β → Option α) : Option α := (r.get? name).bind f

/-- A field with a value for its absence. -/
def defaulted (r : Record β) (name : String) (f : β → Option α) (default : α) : Option α :=
  match r.get? name with
  | some v => f v
  | none => some default

/-- A field that may be left out by name, though not by position. -/
def optional (r : Record β) (name : String) (f : β → Option (Option α)) : Option (Option α) :=
  match r.get? name with
  | some v => f v
  | none => if r.positional then none else some none

end Record

/-- The record that a tree gives for some field names. -/
def Tree.record? {ε : Type} (names : List String) : Tree ε → Option (Record (Tree ε))
  | .obj members => Record.ofMembers? names members
  | .arr items => Record.ofItems? names items
  | _ => none

end SdkLoom.Json
