import SdkLoom.Text.Search

/-!
# Lines of a text

A line ends at a line feed; a carriage return right before it belongs to the ending, and an empty last line is no line.
-/

namespace SdkLoom.Text

/-- A line without a carriage return at its end. -/
def dropReturn (line : List Char) : List Char :=
  match line.reverse with
  | '\r' :: rest => rest.reverse
  | _ => line

/-- The lines of a text. -/
def lines (cs : List Char) : List (List Char) :=
  let pieces := splitAll (· == '\n') cs
  match pieces.reverse with
  | [] => []
  | last :: before =>
    let ended := before.reverse.map dropReturn
    if last.isEmpty then ended else ended ++ [last]

/-- The text of some lines, each ended by a line feed. -/
def unlines (ls : List String) : String := String.join (ls.map (· ++ "\n"))

end SdkLoom.Text
