import SdkLoom.Json.Decode
import SdkLoom.Json.Reader
import SdkLoom.Yaml.View

/-!
# Formats of configuration files

A `Format` is what a decoder needs of a document's nodes. Decoders written against it read JSON and YAML alike.
-/

namespace SdkLoom

open Json (Record)

/-- How the nodes of a document are read. `value?` and `heldValue?` give the JSON value of a node that has some number of
collections around it; the second is for entries that are held back until all others are read. -/
structure Format (τ : Type) where
  string? : τ → Option String
  isNull? : τ → Option Bool
  items? : τ → Option (List τ)
  members? : τ → Option (List (String × τ))
  record? : List String → τ → Option (Record τ)
  value? : Nat → τ → Option Json
  heldValue? : Nat → τ → Option Json

namespace Format

variable {τ α : Type}

/-- Null, or a value of its own reader. -/
def nullable? (f : Format τ) (g : τ → Option α) (t : τ) : Option (Option α) := do
  if ← f.isNull? t then some none else (g t).map some

/-- A list of strings. -/
def strings? (f : Format τ) (t : τ) : Option (List String) := (f.items? t).bind (·.mapM f.string?)

/-- The entries of a map whose values have one reader. -/
def map? (f : Format τ) (g : τ → Option α) (t : τ) : Option (SortedMap String α) := do
  let members ← f.members? t
  let entries ← members.mapM fun (m : String × τ) => (g m.2).map (m.1, ·)
  some (.ofList entries)

/-- JSON. -/
def json {ε : Type} : Format (Json.Tree ε) where
  string? := Json.Tree.string?
  isNull? t := some (match t with | .null => true | _ => false)
  items? t := t.list? some
  members? := Json.Tree.members?
  record? := Json.Tree.record?
  value? _ := Json.Tree.value?
  heldValue? _ := Json.Tree.value?

/-- YAML. -/
def yaml : Format Yaml.View where
  string? := Yaml.View.string?
  isNull? := Yaml.View.isNull?
  items? := Yaml.View.items?
  members? := Yaml.View.members?
  record? := Yaml.View.record?
  value? outer := Yaml.View.valueIn? false (Yaml.depthLimit - outer)
  heldValue? outer := Yaml.View.valueIn? true (Yaml.depthLimit - outer)

end Format

end SdkLoom
