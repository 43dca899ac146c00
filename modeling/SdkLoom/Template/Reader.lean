import SdkLoom.Template.Tag

/-!
# Reading templates

Takes away the space that tags ask for, and builds the tree of blocks.
-/

namespace SdkLoom.Template

/-! ## Space -/

/-- A text or a tag. -/
inductive Item where
  | text (s : String)
  | tag (t : Tag)
  deriving Inhabited

/-- What the last tag asks of the text after it: to drop all space in front, or the rest of the tag's line. -/
structure Trim where
  space : Bool
  line : Bool
  deriving Inhabited

namespace Trim

/-- Drops space and one line break. -/
def dropLine (cs : List Char) : List Char :=
  match cs.dropWhile Tag.isSpace with
  | '\r' :: '\n' :: rest => rest
  | '\n' :: rest => rest
  | rest => rest

/-- The front of a text after a tag. -/
def front (t : Trim) (cs : List Char) : List Char :=
  if t.space then cs.dropWhile Text.isBlank else if t.line then dropLine cs else cs

/-- What is still asked after a text: a line is dropped once, though not where the text is mere space and dropped too. -/
def next (t : Trim) (written : List Char) : Trim :=
  if written.isEmpty || (t.space && written.all Expression.isGap) then t else { t with line := false }

end Trim

/-- Whether nothing but space precedes the end of a text on its line. -/
def blankBefore (first : Bool) (written : List Char) : Bool :=
  match (Text.dropEndWhile Tag.isSpace written).getLast? with
  | some c => c == '\n' || c == '\r'
  | none => first

/-- The texts and tags of pieces, of which the first stands at the start of the template or not. -/
def itemsOf (first : Bool) (t : Trim) : List Tag.Piece → List Char → List Item
  | [], tail => [.text (String.ofList (t.front tail))]
  | p :: rest, tail =>
    let ownLine := p.fenced.tag.ownsLine && p.endsLine && blankBefore first p.written
    let shown := t.front p.shown
    let shown := if p.fenced.before then Text.dropEndWhile Text.isBlank shown else shown
    let shown := if ownLine && p.fenced.tag.ownsIndent then Text.dropEndWhile Tag.isSpace shown else shown
    let t := t.next p.written
    let t := match p.fenced.tag with
      | .comment => t
      | _ => { t with space := p.fenced.after }
    let t := if p.fenced.tag.ownsLine then { t with line := ownLine } else t
    .text (String.ofList shown) :: .tag p.fenced.tag :: itemsOf false t rest tail

/-! ## Blocks -/

/-- A branch of a block that is read to its end. -/
structure Branch where
  call : Call
  params : List String
  body : List Node
  deriving Inhabited

/-- What a block that is open is: a helper's, with its branches so far, last first, and the one that is being read, unless
that is the last; or one that has a body only. -/
inductive Opened where
  | helper (done : List Branch) (current : Option (Call × List String))
  | inclusion (inclusion : Inclusion)
  | declaration (call : Call)
  deriving Inhabited

/-- A block that is open and its nodes so far, last first. -/
structure Frame where
  opened : Opened
  nodes : List Node
  deriving Inhabited

/-- The block of branches: each is the inverse of the one before. -/
def blockOf : List Branch → Option (List Node) → Option Node
  | [], _ => none
  | [b], last => some (.block b.call b.params b.body last)
  | b :: rest, last => some (.block b.call b.params b.body ((blockOf rest last).map fun n => [n]))

/-- The open blocks, innermost first, and the nodes outside of all. -/
structure Builder where
  frames : List Frame
  nodes : List Node
  deriving Inhabited

namespace Builder

/-- Adds a node to the innermost open block. -/
def add (b : Builder) (n : Node) : Builder :=
  match b.frames with
  | f :: rest => { b with frames := { f with nodes := n :: f.nodes } :: rest }
  | [] => { b with nodes := n :: b.nodes }

/-- Opens a block. -/
def enter (b : Builder) (opened : Opened) : Builder := { b with frames := { opened, nodes := [] } :: b.frames }

/-- Whether a name can end the block of a helper or a declaration: it has only symbols. -/
def isIdentifier (name : String) : Bool := !name.isEmpty && name.toList.all Expression.isSymbol

/-- The node of a block, which has to end with its own name. -/
def nodeOf (f : Frame) (name : String) : Option Node :=
  let body := f.nodes.reverse
  match f.opened with
  | .helper done current =>
    let (branches, last) : List Branch × Option (List Node) := match current with
      | some (call, params) => ((⟨call, params, body⟩ :: done).reverse, none)
      | none => (done.reverse, some body)
    if branches.head?.any fun b => b.call.name == name && isIdentifier name then blockOf branches last else none
  | .inclusion i =>
    match i.name with
    | .written n => if n = name then some (.inclusion i (some body)) else none
    | .computed _ => none
  | .declaration c => if c.name == name && isIdentifier name then some (.declaration c (some body)) else none

/-- Ends the innermost block. -/
def close (b : Builder) (name : String) : Option Builder :=
  match b.frames with
  | [] => none
  | f :: rest => (nodeOf f name).map fun n => add { b with frames := rest } n

/-- Starts the next branch of the innermost block, which has to be a helper's and not in its last branch. -/
def branch (b : Builder) (next : Option (Call × List String)) : Option Builder :=
  match b.frames with
  | ⟨.helper done (some (call, params)), nodes⟩ :: rest =>
    some { b with frames := ⟨.helper (⟨call, params, nodes.reverse⟩ :: done) next, []⟩ :: rest }
  | _ => none

/-- Takes in a text or a tag. -/
def step (b : Builder) : Item → Option Builder
  | .text s => some (b.add (.text s))
  | .tag (.value a) => some (b.add (.value a))
  | .tag (.call c) => some (b.add (.call c))
  | .tag .comment => some b
  | .tag (.inclusion i) => some (b.add (.inclusion i none))
  | .tag (.declaration c) => some (b.add (.declaration c none))
  | .tag (.blockStart call params) => some (b.enter (.helper [] (some (call, params))))
  | .tag (.inclusionStart i) => some (b.enter (.inclusion i))
  | .tag (.declarationStart c) => some (b.enter (.declaration c))
  | .tag (.orElse next) => b.branch next
  | .tag (.blockEnd name) => b.close name

end Builder

/-- The nodes of a template's text. -/
def read (s : String) : Option (List Node) := do
  let (pieces, tail) ← (Tag.pieces (s.toList.length + 1) s.toList).toOption
  let b ← (itemsOf true { space := false, line := false } pieces tail).foldlM Builder.step { frames := [], nodes := [] }
  if b.frames.isEmpty then some b.nodes.reverse else none

end SdkLoom.Template
