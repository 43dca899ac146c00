/-!
# Searching and cutting texts

Occurrences of one text in another, replacement of all of them, and cuts at a character.
-/

namespace SdkLoom.Text

/-- Whether `part` occurs in a text. -/
def occursIn (part : List Char) : List Char → Bool
  | [] => part.isEmpty
  | c :: rest => part.isPrefixOf (c :: rest) || occursIn part rest

/-- Whether a text contains another. -/
def contains (s part : String) : Bool := occursIn part.toList s.toList

/-- Replaces occurrences from left to right; `skip` characters of the last occurrence are still to be dropped. -/
def replaceFrom (part new : List Char) : Nat → List Char → List Char
  | _, [] => []
  | skip + 1, _ :: rest => replaceFrom part new skip rest
  | 0, c :: rest =>
    if part.isPrefixOf (c :: rest) then new ++ replaceFrom part new (part.length - 1) rest
    else c :: replaceFrom part new 0 rest

/-- Replaces every occurrence of a text that is not empty. -/
def replaceAll (s part new : String) : String :=
  String.ofList (replaceFrom part.toList new.toList 0 s.toList)

/-- Cuts a list at the first element that passes a test, which is dropped. -/
def cutAt {α : Type} (p : α → Bool) : List α → Option (List α × List α)
  | [] => none
  | c :: rest => if p c then some ([], rest) else (cutAt p rest).map fun (a, b) => (c :: a, b)

/-- Cuts a text at the first occurrence of a character. -/
def splitOnce (s : String) (c : Char) : Option (String × String) :=
  (cutAt (· == c) s.toList).map fun (a, b) => (String.ofList a, String.ofList b)

/-- Cuts a list at every element that passes a test; the pieces may be empty. -/
def splitAll {α : Type} (p : α → Bool) : List α → List (List α)
  | [] => [[]]
  | c :: rest =>
    if p c then [] :: splitAll p rest
    else match splitAll p rest with
      | [] => [[c]]
      | piece :: pieces => (c :: piece) :: pieces

/-- What follows `head` in a text that starts with it. -/
def afterHead : List Char → List Char → Option (List Char)
  | [], cs => some cs
  | _ :: _, [] => none
  | h :: hs, c :: cs => if h = c then afterHead hs cs else none

/-- What follows `head` in a text that starts with it. -/
def stripHead (s head : String) : Option String := (afterHead head.toList s.toList).map String.ofList

/-- Whether a text starts with another. -/
def startsWith (s head : String) : Bool := head.toList.isPrefixOf s.toList

/-- Whether a text ends with another. -/
def endsWith (s tail : String) : Bool := tail.toList.reverse.isPrefixOf s.toList.reverse

/-- What precedes `tail` in a text that ends with it. -/
def stripTail (s tail : String) : Option String :=
  (afterHead tail.toList.reverse s.toList.reverse).map fun cs => String.ofList cs.reverse

end SdkLoom.Text
