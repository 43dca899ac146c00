import SdkLoom.Json.Token

/-!
# Reading JSON

A text is read by a machine that takes one token at a time and keeps the containers that are still open. What is nested
deeper than `maxDepth` is a fault, and so is an object with a key that is no text.
-/

namespace SdkLoom.Json

/-- The greatest number of containers around a value, the value included. -/
def maxDepth : Nat := 127

namespace Reader

/-- A container that is still open: its finished items or members, last first. -/
inductive Frame where
  | arr (items : List Document)
  | obj (members : List (String × Document)) (faulty : Bool) (key : String)

/-- What may come next. -/
inductive Expect where
  | value
  | valueOrClose
  | keyOrClose
  | key
  | colon
  | separator
  | done

/-- The machine: what may come next, the open containers, innermost first, and the finished value. -/
structure State where
  expect : Expect
  frames : List Frame
  result : Document

/-- Takes a finished value into the innermost open container. -/
def finish (frames : List Frame) (t : Document) : State :=
  match frames with
  | [] => ⟨.done, [], t⟩
  | .arr items :: rest => ⟨.separator, .arr (t :: items) :: rest, .null⟩
  | .obj members faulty key :: rest => ⟨.separator, .obj ((key, t) :: members) faulty key :: rest, .null⟩

/-- The value of a container that closes inside of `outer` others. -/
def limit (outer : List Frame) (t : Document) : Document :=
  if outer.length ≥ maxDepth then .fault .tooDeep else t

/-- Closes a list. -/
def closeArr (frames : List Frame) : Option State :=
  match frames with
  | .arr items :: rest => some (finish rest (limit rest (.arr items.reverse)))
  | _ => none

/-- Closes an object. -/
def closeObj (frames : List Frame) : Option State :=
  match frames with
  | .obj members faulty _ :: rest =>
    some (finish rest (limit rest (if faulty then .fault .loneSurrogate else .obj members.reverse)))
  | _ => none

/-- Starts a value. -/
def startValue (frames : List Frame) : Token → Option State
  | .openArr => some ⟨.valueOrClose, .arr [] :: frames, .null⟩
  | .openObj => some ⟨.keyOrClose, .obj [] false "" :: frames, .null⟩
  | .str (some s) => some (finish frames (.str s))
  | .str none => some (finish frames (.fault .loneSurrogate))
  | .leaf t => some (finish frames t)
  | _ => none

/-- Takes the key of the next member. -/
def takeKey (frames : List Frame) (text : Option String) : Option State :=
  match frames with
  | .obj members faulty _ :: rest =>
    some ⟨.colon, .obj members (faulty || text.isNone) (text.getD "") :: rest, .null⟩
  | _ => none

/-- Takes one token. -/
def step (st : State) (t : Token) : Option State :=
  match st.expect, t with
  | .valueOrClose, .closeArr => closeArr st.frames
  | .valueOrClose, t => startValue st.frames t
  | .value, t => startValue st.frames t
  | .keyOrClose, .closeObj => closeObj st.frames
  | .keyOrClose, .str s => takeKey st.frames s
  | .key, .str s => takeKey st.frames s
  | .colon, .colon => some { st with expect := .value }
  | .separator, .closeArr => closeArr st.frames
  | .separator, .closeObj => closeObj st.frames
  | .separator, .comma =>
    match st.frames with
    | .arr _ :: _ => some { st with expect := .value }
    | .obj .. :: _ => some { st with expect := .key }
    | [] => none
  | _, _ => none

/-- The value of a list of tokens. -/
def run (tokens : List Token) : Option Document := do
  let st ← tokens.foldlM step ⟨.value, [], .null⟩
  match st.expect with
  | .done => some st.result
  | _ => none

end Reader

/-- The structure of a JSON text; none if it is not one. -/
def read (s : String) : Option Document := (Token.scan s.toList).bind Reader.run

/-- The value of a JSON text; none if it is not one or has a fault. -/
def readValue (s : String) : Option Json := (read s).bind Tree.value?

end SdkLoom.Json
