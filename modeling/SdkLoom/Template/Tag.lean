import SdkLoom.Template.Expression
import SdkLoom.Text.Blank

/-!
# Tags of templates

A template's text is cut into tags and the texts before and after them. A tilde in a tag takes away all space on that
side, and a tag of a block that has a line to itself takes away that line.
-/

namespace SdkLoom.Template

/-- What a tag means. -/
inductive Tag where
  | value (arg : Argument)
  | call (call : Call)
  | comment
  | inclusion (inclusion : Inclusion)
  | declaration (call : Call)
  | blockStart (call : Call) (params : List String)
  | inclusionStart (inclusion : Inclusion)
  | declarationStart (call : Call)
  | orElse (next : Option (Call × List String))
  | blockEnd (name : String)
  deriving Inhabited

/-- Whether a tag that has a line to itself takes the end of the line away. -/
def Tag.ownsLine : Tag → Bool
  | .value _ => false
  | .call _ => false
  | _ => true

/-- Whether a tag that has a line to itself also takes away the space before it; an inclusion is set in by it. -/
def Tag.ownsIndent : Tag → Bool
  | .inclusion _ => false
  | t => t.ownsLine

/-- A tag with the tildes at its ends. -/
structure Fenced where
  tag : Tag
  before : Bool
  after : Bool
  deriving Inhabited

namespace Tag

open Expression (exactly token skip identifier blockLine)
open Rule (optional)

/-! ## Rules -/

/-- An opening, the inside of a tag, and a closing, with a tilde inside each end. -/
def fenced (opening closing : String) (inside : Rule Tag) : Rule Fenced := fun cs => do
  let (_, cs) ← exactly opening cs
  let (before, rest) ← optional (token "~") cs
  let (tag, cs) ← inside (skip (if before.isSome then rest else cs))
  let (after, rest) ← optional (token "~") cs
  let (_, cs) ← token closing (if after.isSome then rest else cs)
  return ({ tag, before := before.isSome, after := after.isSome }, cs)

/-- The inside of a tag after a mark. -/
def after (mark : String) (inside : Rule Tag) : Rule Tag := fun cs => do
  let (_, cs) ← exactly mark cs
  inside (skip cs)

/-- A value. -/
def valueTag : Rule Tag := fun cs => (Expression.value cs).map fun (v, rest) => (.value v, rest)

/-- A call with arguments, or else a value. -/
def expressionTag : Rule Tag :=
  Rule.orElse (fun cs => (Expression.call cs).map fun (c, rest) => (.call c, rest)) valueTag

/-- The word or mark that starts the other branch of a block. -/
def elseMark : Rule Unit := (exactly "else").orElse (exactly "^")

/-- The start of the other branch. -/
def elseTag : Rule Tag := fun cs => do
  let (_, cs) ← elseMark cs
  return (.orElse none, cs)

/-- The start of the other branch, which is a block by itself. -/
def elseBlockTag : Rule Tag := fun cs => do
  let (_, cs) ← elseMark cs
  let (line, cs) ← blockLine (skip cs)
  return (.orElse (some line), cs)

/-- The start of a block. -/
def blockStartTag : Rule Tag := fun cs => (blockLine cs).map fun ((c, params), rest) => (.blockStart c params, rest)

/-- Whether a character can stand in the name of a template. -/
def isNameChar (c : Char) : Bool := Expression.isSymbol c || c == '/' || c == '.'

/-- Reads past the inside of a name in single quotes, in which a quote after a backslash does not end it. -/
def quotedNameEnd : List Char → Option (List Char)
  | [] => none
  | '\x27' :: rest => some rest
  | '\\' :: '\x27' :: rest => quotedNameEnd rest
  | _ :: rest => quotedNameEnd rest

/-- The name of a template: symbols with slashes and points, or a text in single quotes, which belong to the name. -/
def writtenName : Rule String := fun cs =>
  match cs with
  | '\x27' :: '\x27' :: _ => .error .elsewhere
  | '\x27' :: inside =>
    match quotedNameEnd inside with
    | some rest => .ok (Expression.consumed cs rest, rest)
    | none => .error .elsewhere
  | c :: _ =>
    if isNameChar c then .ok (String.ofList (cs.takeWhile isNameChar), cs.dropWhile isNameChar) else .error .elsewhere
  | [] => .error .elsewhere

/-- The end of a block. -/
def blockEndTag : Rule Tag := fun cs => (writtenName cs).map fun (n, rest) => (.blockEnd n, rest)

/-- The name of a template to include, which may also be a path, as it is written, or the value of a call. -/
def includedName : Rule Name :=
  Rule.orElse (fun cs => (writtenName cs).map fun (n, rest) => (.written n, rest)) fun cs =>
    (Expression.value cs).map fun (a, rest) =>
      match a with
      | .path spelling _ => (.written spelling, rest)
      | a => (.computed a, rest)

/-- A template to include with what it is given. -/
def inclusionLine : Rule Inclusion := fun cs => do
  let (name, cs) ← includedName cs
  let (xs, cs) ← Expression.many Expression.argument cs.length cs
  return ({ name, args := Expression.positional xs, named := Expression.named xs, indent := none }, cs)

/-- An inclusion. -/
def inclusionTag : Rule Tag := fun cs => (inclusionLine cs).map fun (i, rest) => (.inclusion i, rest)

/-- The start of an inclusion with a body. -/
def inclusionStartTag : Rule Tag := fun cs => (inclusionLine cs).map fun (i, rest) => (.inclusionStart i, rest)

/-- A declaration without a body. -/
def declarationTag : Rule Tag := fun cs => (blockLine cs).map fun ((c, _), rest) => (.declaration c, rest)

/-- The start of a declaration. -/
def declarationStartTag : Rule Tag := fun cs => (blockLine cs).map fun ((c, _), rest) => (.declarationStart c, rest)

/-- Two opening braces. -/
def opening : String := "\x7b\x7b"

/-- Two closing braces. -/
def closing : String := "\x7d\x7d"

/-- What follows the first occurrence of a text. -/
def afterText (s : List Char) : List Char → Option (List Char)
  | [] => if s.isEmpty then some [] else none
  | c :: rest => (Text.afterHead s (c :: rest)).or (afterText s rest)

/-- A comment that ends with a mark. -/
def commentUpTo (start finish : String) : Rule Fenced := fun cs => do
  let (_, cs) ← exactly (opening ++ "!") cs
  let (_, cs) ← token start cs
  match afterText finish.toList cs with
  | some rest => return ({ tag := .comment, before := false, after := false }, rest)
  | none => .error .elsewhere

/-- An expression in a further pair of braces. -/
def bracedTag : Rule Tag := fun cs => do
  let (_, cs) ← exactly "\x7b" cs
  let (t, cs) ← expressionTag (skip cs)
  let (_, cs) ← token "\x7d" cs
  return (t, cs)

/-- A tag, whichever rule matches first. -/
def tag : Rule Fenced :=
  (fenced opening closing elseTag).orElse <|
  (fenced opening closing elseBlockTag).orElse <|
  (fenced opening closing expressionTag).orElse <|
  (fenced "\x7b\x7b\x7b" "\x7d\x7d\x7d" expressionTag).orElse <|
  (fenced opening closing bracedTag).orElse <|
  (fenced opening closing (after "&" valueTag)).orElse <|
  (fenced opening closing (after "#" blockStartTag)).orElse <|
  (commentUpTo "--" "--\x7d\x7d").orElse <|
  (commentUpTo "" closing).orElse <|
  (fenced opening closing (after "*" declarationTag)).orElse <|
  (fenced opening closing (after "#" (after "*" declarationStartTag))).orElse <|
  (fenced opening closing (after ">" inclusionTag)).orElse <|
  (fenced opening closing (after "#" (after ">" inclusionStartTag))).orElse <|
  fenced opening closing (after "/" blockEndTag)

/-! ## Texts -/

/-- A text in which tags are escaped by backslashes, up to a mark: what it shows and what follows. A backslash before an
opening, or one of several, is not shown. -/
def textUpTo (mark : List Char) : Nat → List Char → List Char × List Char
  | 0, cs => ([], cs)
  | _ + 1, [] => ([], [])
  | fuel + 1, c :: rest =>
    if mark.isPrefixOf (c :: rest) then ([], c :: rest)
    else if c == '\\' then
      match Text.afterHead opening.toList rest with
      | some inner =>
        let (more, inner) := match Text.afterHead opening.toList inner with
          | some deeper => (opening.toList, deeper)
          | none => ([], inner)
        let (shown, left) := textUpTo mark fuel inner
        (opening.toList ++ more ++ shown, left)
      | none =>
        let slashes := rest.takeWhile (· == '\\')
        let left := rest.dropWhile (· == '\\')
        if !slashes.isEmpty && opening.toList.isPrefixOf left then
          let (shown, left) := textUpTo mark fuel left
          (slashes ++ shown, left)
        else
          let (shown, left) := textUpTo mark fuel rest
          (c :: shown, left)
    else
      let (shown, left) := textUpTo mark fuel rest
      (c :: shown, left)

/-- A tag with the text before it. -/
structure Piece where
  /-- The text as it stands in the template. -/
  written : List Char
  /-- The text as it is shown. -/
  shown : List Char
  fenced : Fenced
  /-- Whether nothing but space follows the tag on its line. -/
  endsLine : Bool
  deriving Inhabited

/-- Whether a character is a space within a line. -/
def isSpace (c : Char) : Bool := c == ' ' || c == '\t'

/-- Whether a text goes on with a line break after at most some space. -/
def atLineEnd (cs : List Char) : Bool :=
  match cs.dropWhile isSpace with
  | '\n' :: _ => true
  | '\r' :: _ => true
  | _ => false

/-- The space at the end of a text. -/
def spaceAtEnd (cs : List Char) : Option String :=
  let space := (cs.reverse.takeWhile isSpace).reverse
  if space.isEmpty then none else some (String.ofList space)

/-- A tag after a text: an inclusion is set in by the space before it. -/
def setIn (written : List Char) : Tag → Tag
  | .inclusion i => .inclusion { i with indent := spaceAtEnd written }
  | t => t

/-- The piece of a tag after a text. -/
def pieceOf (cs left : List Char) (shown : List Char) (f : Fenced) (rest : List Char) : Piece :=
  let written := cs.take (cs.length - left.length)
  { written, shown, fenced := { f with tag := setIn written f.tag }, endsLine := atLineEnd rest }

/-- A block whose body is taken as text: its start, its text with its end, and what follows. -/
def rawBlock (cs left shown : List Char) : Except Stop (List Piece × List Char) := do
  let (start, rest) ← fenced (opening ++ opening) (closing ++ closing) blockStartTag left
  let body := skip rest
  let (bodyShown, stop) := textUpTo (opening ++ opening).toList body.length body
  let (finish, last) ← fenced (opening ++ opening) (closing ++ closing) (after "/" blockEndTag) stop
  return ([pieceOf cs left shown start rest, pieceOf rest stop bodyShown finish last], last)

/-- The pieces of a template and the text after them. -/
def pieces : Nat → List Char → Except Stop (List Piece × List Char)
  | 0, cs => .ok ([], cs)
  | fuel + 1, cs => do
    let (shown, left) := textUpTo opening.toList cs.length cs
    if left.isEmpty then .ok ([], shown)
    else
      let (found, rest) ← match tag left with
        | .ok (f, rest) => .ok ([pieceOf cs left shown f rest], rest)
        | .error .elsewhere => rawBlock cs left shown
        | .error .malformed => .error .malformed
      let (more, tail) ← pieces fuel rest
      .ok (found ++ more, tail)

end Tag

end SdkLoom.Template
