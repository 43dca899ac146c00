import SdkLoom.Error
import SdkLoom.Target.Table
import SdkLoom.Text.Search

/-!
# The registry of generators

Targets by template and language. A template that is not known gives way to the default one.
-/

namespace SdkLoom

/-- Targets by key. -/
abbrev Registry := SortedMap String Target

namespace Registry

/-- The template that stands in for those that are not known. -/
def defaultTemplate : String := "default"

/-- The key of a template and a language; a dash is the same as an underscore. -/
def key (template language : String) : String := Text.replaceAll (template ++ "__" ++ language) "-" "_"

/-- All targets under both of their templates. -/
def builtin : Registry :=
  SortedMap.ofList (Target.all.flatMap fun t =>
    [(key templateFamily t.language, t), (key defaultTemplate t.language, t)])

/-- The target of a template and a language. -/
def resolve (r : Registry) (template language : String) : Except Error Target :=
  match (r.get? (key template language)).or (r.get? (key defaultTemplate language)) with
  | some t => .ok t
  | none => .error (.unknownGenerator template language)

end Registry

end SdkLoom
