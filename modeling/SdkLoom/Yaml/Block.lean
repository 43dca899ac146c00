import SdkLoom.Yaml.Cursor

/-!
# Block scalars

Texts set off by indentation, either line by line or folded, with a choice of what becomes of the line breaks at the end.
-/

namespace SdkLoom.Yaml

/-- What becomes of the line breaks at the end of a block scalar. -/
inductive Chomping where
  | strip
  | clip
  | keep
  deriving DecidableEq

/-- The chomping that a character asks for. -/
def Chomping.ofChar? : Char → Option Chomping
  | '-' => some .strip
  | '+' => some .keep
  | _ => none

/-- The indentation that a character asks for. -/
def increment? (c : Char) : Option Nat :=
  if c.isDigit && c ≠ '0' then some (c.toNat - '0'.toNat) else none

/-- Chomping, indentation and the number of characters that give them. -/
def blockHeader : List Char → Chomping × Option Nat × Nat
  | c :: d :: _ =>
    match Chomping.ofChar? c, increment? c with
    | some chomping, _ =>
      match increment? d with
      | some n => (chomping, some n, 2)
      | none => (chomping, none, 1)
    | none, some n =>
      match Chomping.ofChar? d with
      | some chomping => (chomping, some n, 2)
      | none => (.clip, some n, 1)
    | none, none => (.clip, none, 0)
  | [c] =>
    match Chomping.ofChar? c, increment? c with
    | some chomping, _ => (chomping, none, 1)
    | none, some n => (.clip, some n, 1)
    | none, none => (.clip, none, 0)
  | [] => (.clip, none, 0)

/-- The place of the first line after a header: blanks and a comment may stand before the line break. -/
def headerEnd? (c : Cursor) : Option Cursor :=
  let c := c.skipWhile isGapChar
  let c := if c.sees '#' then c.skipWhile (!isBreak ·) else c
  if c.atEnd || c.atBreak then some c.nextLine else none

/-- The indentation of the line here, as far as `indent` goes if it is known. -/
def skipIndent (indent : Option Nat) (c : Cursor) : Cursor :=
  let spaces := (c.rest.takeWhile (· == ' ')).length
  match indent with
  | some n => c.advance (min spaces (n - c.column))
  | none => c.advance spaces

/-- The empty lines from here on: the greatest column reached, their line breaks, and the place of the first line with text.
A tab in place of indentation is refused. -/
def emptyLines (indent : Option Nat) : Nat → Cursor → Nat → List Char → Option (Nat × List Char × Cursor)
  | 0, c, widest, breaks => some (widest, breaks, c)
  | fuel + 1, c, widest, breaks =>
    let c := skipIndent indent c
    let widest := max widest c.column
    if c.sees '\t' && indent.all (c.column < ·) then none
    else if c.atBreak then emptyLines indent fuel c.nextLine widest (breaks ++ c.lineBreak)
    else some (widest, breaks, c)

/-- The text of the lines from here on, the last line break and the breaks of the empty lines after it. `lead` and `breaks`
stand before the next line, and `indented` tells whether the last line started with a blank. -/
def blockLines? (folded : Bool) (indent : Nat) :
    Nat → Cursor → List Char → List Char → Bool → Option (List Char × List Char × List Char × Cursor)
  | 0, _, _, _, _ => none
  | fuel + 1, c, lead, breaks, indented =>
    if c.column ≠ indent || c.atEnd then some ([], lead, breaks, c)
    else do
      let fold := folded && lead == ['\n'] && !indented && !c.atGapChar
      let joint := if fold then if breaks.isEmpty then [' '] else [] else lead
      let line := c.rest.takeWhile (!isBreak ·)
      let stop := c.advance line.length
      let (_, more, next) ← emptyLines (some indent) (stop.rest.length + 1) stop.nextLine 0 []
      (blockLines? folded indent fuel next stop.lineBreak more c.atGapChar).map fun (cs, last, tail, c) =>
        (joint ++ breaks ++ line ++ cs, last, tail, c)

/-- The block scalar whose indicator stands here; `outer` is the indentation around it. -/
def Cursor.block? (folded : Bool) (outer : Int) (c : Cursor) : Option (List Char × Cursor) := do
  let c := c.advance 1
  let (chomping, increment, length) := blockHeader c.rest
  let c ← headerEnd? (c.advance length)
  let known := increment.map fun n => (if outer < 0 then 0 else outer.toNat) + n
  let (widest, breaks, c) ← emptyLines known (c.rest.length + 1) c 0 []
  let indent := known.getD (max (max widest (outer + 1).toNat) 1)
  let (text, last, tail, c) ← blockLines? folded indent (c.rest.length + 2) c [] breaks false
  let ending := match chomping with
    | .strip => []
    | .clip => last
    | .keep => last ++ tail
  some (text ++ ending, c)

end SdkLoom.Yaml
