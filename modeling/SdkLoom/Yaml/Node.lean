import SdkLoom.Yaml.Token

/-!
# YAML trees

A `Node` is the content of a document, in which an alias gives the number of the anchor it refers to; a `Document` holds the
root and the nodes of the anchors. `Document.ofText?` reads a text that holds one document, or none.
-/

namespace SdkLoom.Yaml

/-- A scalar, a sequence or a mapping, each with a tag if one was given, or the alias of an anchored node. -/
inductive Node where
  | scalar (tag : Option String) (plain : Bool) (text : String)
  | sequence (tag : Option String) (items : List Node)
  | mapping (tag : Option String) (entries : List (Node × Node))
  | alias (id : Nat)
  deriving Inhabited

/-- The node that stands where nothing is written. -/
def Node.blank : Node := .scalar none true ""

/-- The number of an anchor and its node, once that has been read. -/
structure Anchor where
  id : Nat
  node : Option Node

/-- The state of reading: the tokens left, the tag handles, the anchors so far, last first, and the number that each anchor's
name stands for. -/
structure Reading where
  tokens : List Token
  handles : List (String × String)
  anchors : List Anchor
  names : List (String × Nat)

namespace Reading

/-- The next token. -/
def next (r : Reading) : Token := r.tokens.headD .streamEnd

/-- Drops the next token. -/
def skip (r : Reading) : Reading := { r with tokens := r.tokens.drop 1 }

/-- The tag that a handle and a suffix stand for. -/
def tag? (r : Reading) (handle suffix : String) : Option String :=
  if handle == "" then some suffix else (r.handles.lookup handle).map (· ++ suffix)

/-- The anchor and the tag written before a node, each at most once. -/
structure Properties where
  anchor : Option String
  tag : Option String

/-- The properties from here on; of each kind there may be one. -/
def properties? (r : Reading) : Option (Properties × Reading) :=
  match r.tokens with
  | .anchor a :: .tag h s :: rest => (r.tag? h s).map fun t => (⟨some a, some t⟩, { r with tokens := rest })
  | .tag h s :: .anchor a :: rest => (r.tag? h s).map fun t => (⟨some a, some t⟩, { r with tokens := rest })
  | .anchor a :: rest => some (⟨some a, none⟩, { r with tokens := rest })
  | .tag h s :: rest => (r.tag? h s).map fun t => (⟨none, some t⟩, { r with tokens := rest })
  | _ => some (⟨none, none⟩, r)

/-- Notes that the node of an anchor begins. Its number is how many names there are before it, so a name that comes again
shares its new number with the next new name. -/
def begin (r : Reading) (p : Properties) : Reading :=
  match p.anchor with
  | some name =>
    let id := r.names.length
    { r with anchors := ⟨id, none⟩ :: r.anchors, names := (name, id) :: r.names.filter (·.1 != name) }
  | none => r

/-- Notes the node of the anchor that began when `count` anchors were known. -/
def finish (r : Reading) (p : Properties) (count : Nat) (node : Node) : Node × Reading :=
  match p.anchor with
  | some _ =>
    let later := r.anchors.length - (count + 1)
    (node, { r with anchors := r.anchors.modify later fun a => { a with node := some node } })
  | none => (node, r)

/-- Whether a token can follow in place of a block node, so that the node is blank. -/
def isBlockStop : Token → Bool
  | .key => true
  | .value => true
  | .blockEnd => true
  | _ => false

mutual

/-- The node that starts here. `block` admits block collections, and `indentless` a sequence that is not indented. -/
def node? : Nat → Bool → Bool → Reading → Option (Node × Reading)
  | 0, _, _, _ => none
  | fuel + 1, block, indentless, r => do
    match r.next with
    | .alias name => (r.names.lookup name).map fun id => (.alias id, r.skip)
    | _ =>
      let (p, r) ← r.properties?
      let count := r.anchors.length
      let finish (x : Node × Reading) := x.2.finish p count x.1
      let inner := (r.begin p).skip
      let bare := if p.anchor.isSome || p.tag.isSome then some (Node.scalar p.tag true "") else none
      match r.next with
      | .scalar plain text => some (finish (.scalar p.tag plain text, inner))
      | .flowSequence => (flowItems? fuel true inner).map fun (ns, r) => finish (.sequence p.tag ns, r)
      | .flowMapping => (flowEntries? fuel true inner).map fun (es, r) => finish (.mapping p.tag es, r)
      | .blockSequence =>
        if block then (blockItems? fuel inner).map fun (ns, r) => finish (.sequence p.tag ns, r) else none
      | .blockMapping =>
        if block then (blockEntries? fuel inner).map fun (es, r) => finish (.mapping p.tag es, r) else none
      | .blockEntry =>
        if indentless then (indentlessItems? fuel (r.begin p)).map fun (ns, r) => finish (.sequence p.tag ns, r)
        else bare.map fun n => finish (n, r.begin p)
      | _ => bare.map fun n => finish (n, r.begin p)

/-- The items of an indented sequence. -/
def blockItems? : Nat → Reading → Option (List Node × Reading)
  | 0, _ => none
  | fuel + 1, r =>
    match r.next with
    | .blockEnd => some ([], r.skip)
    | .blockEntry => do
      let r := r.skip
      let (n, r) ← if r.next = .blockEntry ∨ r.next = .blockEnd then some (.blank, r) else node? fuel true false r
      let (ns, r) ← blockItems? fuel r
      some (n :: ns, r)
    | _ => none

/-- The items of a sequence that is not indented, which ends where its entries do. -/
def indentlessItems? : Nat → Reading → Option (List Node × Reading)
  | 0, _ => none
  | fuel + 1, r =>
    match r.next with
    | .blockEntry => do
      let r := r.skip
      let (n, r) ← if r.next = .blockEntry ∨ isBlockStop r.next then some (.blank, r) else node? fuel true false r
      let (ns, r) ← indentlessItems? fuel r
      some (n :: ns, r)
    | _ => some ([], r)

/-- The entries of a block mapping. -/
def blockEntries? : Nat → Reading → Option (List (Node × Node) × Reading)
  | 0, _ => none
  | fuel + 1, r =>
    match r.next with
    | .blockEnd => some ([], r.skip)
    | .key => do
      let r := r.skip
      let (k, r) ← if isBlockStop r.next then some (.blank, r) else node? fuel true true r
      let (v, r) ← if r.next = .value then
          if isBlockStop r.skip.next then some (.blank, r.skip) else node? fuel true true r.skip
        else some (.blank, r)
      let (es, r) ← blockEntries? fuel r
      some ((k, v) :: es, r)
    | _ => none

/-- The value of a flow entry, which may be left out. -/
def flowValue? : Nat → Token → Reading → Option (Node × Reading)
  | 0, _, _ => none
  | fuel + 1, close, r =>
    if r.next = .value then
      if r.skip.next = .flowEntry ∨ r.skip.next = close then some (.blank, r.skip) else node? fuel false false r.skip
    else some (.blank, r)

/-- The key of a flow entry that is marked as one, which may be left out, and its value. -/
def flowPair? : Nat → Token → Reading → Option ((Node × Node) × Reading)
  | 0, _, _ => none
  | fuel + 1, close, r => do
    let (k, r) ← if r.next = .value ∨ r.next = .flowEntry ∨ r.next = close then some (.blank, r)
      else node? fuel false false r
    let (v, r) ← flowValue? fuel close r
    some ((k, v), r)

/-- The items of a flow sequence; a key among them makes a mapping of one entry. -/
def flowItems? : Nat → Bool → Reading → Option (List Node × Reading)
  | 0, _, _ => none
  | fuel + 1, first, r =>
    if r.next = .flowSequenceEnd then some ([], r.skip)
    else if !first && r.next ≠ .flowEntry then none
    else
      let r := if first then r else r.skip
      if r.next = .flowSequenceEnd then some ([], r.skip)
      else do
        let (n, r) ← if r.next = .key then
            (flowPair? fuel .flowSequenceEnd r.skip).map fun (e, r) => (.mapping none [e], r)
          else node? fuel false false r
        let (ns, r) ← flowItems? fuel false r
        some (n :: ns, r)

/-- The entries of a flow mapping; a node alone is a key without a value. -/
def flowEntries? : Nat → Bool → Reading → Option (List (Node × Node) × Reading)
  | 0, _, _ => none
  | fuel + 1, first, r =>
    if r.next = .flowMappingEnd then some ([], r.skip)
    else if !first && r.next ≠ .flowEntry then none
    else
      let r := if first then r else r.skip
      if r.next = .flowMappingEnd then some ([], r.skip)
      else do
        let (e, r) ← if r.next = .key then flowPair? fuel .flowMappingEnd r.skip
          else (node? fuel false false r).map fun (n, r) => ((n, .blank), r)
        let (es, r) ← flowEntries? fuel false r
        some (e :: es, r)

end

/-- The tag handles of the directives from here on, of which there may be one version, and whether there were any. -/
def directives? : List Token → Bool → Bool → List (String × String) → Option (Bool × List (String × String) × List Token)
  | .version :: rest, seenVersion, _, hs => if seenVersion then none else directives? rest true true hs
  | .tagHandle h lead :: rest, seenVersion, _, hs =>
    if (hs.lookup h).isSome then none else directives? rest seenVersion true (hs ++ [(h, lead)])
  | ts, _, any, hs => some (any, hs, ts)

/-- The handles that every document has, unless it gives them anew. -/
def defaultHandles : List (String × String) := [("!", "!"), ("!!", "tag:yaml.org,2002:")]

end Reading

/-- A root with the nodes of the anchors, the one that begins last first. -/
structure Document where
  root : Node
  anchors : List (Nat × Node)

namespace Document

/-- The document of a node that has been read. -/
def ofReading (n : Node) (r : Reading) : Document := ⟨n, r.anchors.filterMap fun a => a.node.map (a.id, ·)⟩

/-- The document without content. -/
def blank : Document := ⟨.blank, []⟩

/-- The one document of a stream; an empty stream is blank. -/
def ofTokens? (tokens : List Token) : Option Document := do
  let (any, handles, tokens) ← Reading.directives? tokens false false []
  let read (ts : List Token) : Option (Document × List Token) :=
    (Reading.node? (4 * ts.length + 4) true false ⟨ts, handles ++ Reading.defaultHandles, [], []⟩).map fun (n, r) =>
      (ofReading n r, r.tokens)
  let (document, rest) ← match tokens with
    | [.streamEnd] => if any then none else some (blank, [.streamEnd])
    | .documentStart :: rest =>
      if rest.head?.all fun t => t = .documentStart ∨ t = .documentEnd ∨ t = .streamEnd ∨ t = .version then
        some (blank, rest)
      else read rest
    | ts => if any then none else read ts
  if rest.dropWhile (· = .documentEnd) = [.streamEnd] then some document else none

/-- The document of a text. -/
def ofText? (s : String) : Option Document := (Token.scan? s).bind ofTokens?

end Document

end SdkLoom.Yaml
