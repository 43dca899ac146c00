/-!
# Maps in insertion order

An `OrderedMap` lists its entries in the order in which their keys were first written; writing a key again changes its
value in place.
-/

namespace SdkLoom

/-- Entries in the order in which their keys were first written. -/
abbrev OrderedMap (α : Type) := List (String × α)

namespace OrderedMap

variable {α β : Type}

/-- Writes a value under a key: in place if the key is there, at the end otherwise. -/
def insert : OrderedMap α → String → α → OrderedMap α
  | [], k, v => [(k, v)]
  | e :: rest, k, v => if e.1 = k then (k, v) :: rest else e :: insert rest k v

/-- The value under a key. -/
def get? : OrderedMap α → String → Option α
  | [], _ => none
  | e :: rest, k => if e.1 = k then some e.2 else get? rest k

/-- The keys in order of their first writing. -/
def keys (m : OrderedMap α) : List String := List.map Prod.fst m

/-- The values in the order of their keys. -/
def values (m : OrderedMap α) : List α := List.map Prod.snd m

/-- The map that a list of entries builds when written one after the other. -/
def ofEntries (es : List (String × α)) : OrderedMap α := es.foldl (fun m e => insert m e.1 e.2) []

/-- Every key has one entry. -/
def Distinct (m : OrderedMap α) : Prop := (keys m).Nodup

theorem get?_insert (m : OrderedMap α) (k j : String) (v : α) :
    get? (insert m k v) j = if j = k then some v else get? m j := by
  induction m with
  | nil => grind [insert, get?]
  | cons e rest ih =>
    simp only [insert]
    by_cases he : e.1 = k
    · by_cases hj : j = k
      · simp [he, get?, hj]
      · simp [he, get?, hj, Ne.symm hj]
    · by_cases hj : e.1 = j
      · subst hj
        simp [he, get?]
      · simp [he, get?, hj, ih]

end OrderedMap

end SdkLoom
