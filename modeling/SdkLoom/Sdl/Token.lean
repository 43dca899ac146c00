import SdkLoom.Decimal.Power
import SdkLoom.Sdl.Quoted

/-!
# Tokens of schema documents

The tokens of a document, found by a machine that reads one character at a time. Commas and comments are blanks, and
brackets nest to a limited depth.
-/

namespace SdkLoom.Sdl

/-- A token. -/
inductive Token where
  | mark (c : Char)
  | name (text : String)
  | int (value : Int)
  | float (value : Binary64)
  | string (text : String)
  deriving DecidableEq, Repr

namespace Token

/-- The greatest depth of brackets. -/
def maxDepth : Nat := 50

/-- What the machine is inside of; texts are kept with their last character first. -/
inductive Mode where
  | between
  | comment
  | name (chars : List Char)
  | number (chars : List Char)
  | oneQuote
  | twoQuotes
  | string (chars : List Char) (escaped : Bool)
  | block (chars : List Char) (quotes : Nat)

/-- The machine: what it is inside of, the depth of brackets, and the tokens so far, last first. -/
structure State where
  mode : Mode
  depth : Nat
  tokens : List Token

/-! ## Numbers -/

/-- Decimal digits. -/
def digitsOnly (cs : List Char) : Bool := cs.all Char.isDigit

/-- A whole number: no leading zero, except in zero itself. -/
def isWhole (cs : List Char) : Bool :=
  let ds := match cs with
    | '-' :: rest => rest
    | cs => cs
  !ds.isEmpty && digitsOnly ds && (ds == ['0'] || ds.head? != some '0')

/-- The value of digits. -/
def digitsValue (cs : List Char) : Nat := cs.foldl (fun n c => n * 10 + (c.toNat - '0'.toNat)) 0

/-- A number split at its last exponent mark. -/
def splitExponent (cs : List Char) : List Char × Option (List Char) :=
  match Text.cutAt (fun c => c == 'e' || c == 'E') cs.reverse with
  | some (after, before) => (before.reverse, some after.reverse)
  | none => (cs, none)

/-- The value of an exponent. One without a sign starts with a digit from 1 to 8. -/
def readExponent (cs : List Char) : Option Int :=
  match cs with
  | '-' :: ds => if !ds.isEmpty && digitsOnly ds then some (-(digitsValue ds : Int)) else none
  | '+' :: ds => if !ds.isEmpty && digitsOnly ds then some (digitsValue ds) else none
  | d :: ds => if '0' < d && d < '9' && digitsOnly ds then some (digitsValue (d :: ds)) else none
  | [] => none

/-- A number with a fraction or an exponent. -/
def readFloat (cs : List Char) : Option Binary64 := do
  let (mantissa, exponent) := splitExponent cs
  let e ← match exponent with
    | some ds => readExponent ds
    | none => some 0
  let (whole, fraction) ← match Text.cutAt (· == '.') mantissa with
    | some (whole, fraction) => if fraction.isEmpty || !digitsOnly fraction then none else some (whole, fraction)
    | none => some (mantissa, [])
  if isWhole whole then
    let negative := whole.head? == some '-'
    let digits := if negative then whole.drop 1 else whole
    some (.ofDecimal negative (digitsValue (digits ++ fraction)) (e - fraction.length))
  else none

/-- The token of a number. -/
def ofNumber? (cs : List Char) : Option Token :=
  if cs.any fun c => c == '.' || c == 'e' || c == 'E' then (readFloat cs).map .float
  else if isWhole cs then
    let i : Int := match cs with
      | '-' :: ds => -(digitsValue ds : Int)
      | ds => digitsValue ds
    if fitsSigned 64 i then some (.int i) else none
  else none

/-! ## The machine -/

/-- Whether a character can start a name. -/
def isNameStart (c : Char) : Bool := c.isAlpha || c == '_'

/-- Whether a character can stand in a name. -/
def isNameChar (c : Char) : Bool := c.isAlphanum || c == '_'

/-- Whether a character is passed over. -/
def isSkipped (c : Char) : Bool := c == ' ' || c == '\t' || c == '\n' || c == '\r' || c == ',' || c == '\ufeff'

/-- Whether a character is an opening bracket. -/
def isOpening (c : Char) : Bool := c == '(' || c == '[' || c == '\x7b'

/-- Whether a character is a closing bracket. -/
def isClosing (c : Char) : Bool := c == ')' || c == ']' || c == '\x7d'

/-- Whether a character is a mark of its own that is no bracket. -/
def isMark (c : Char) : Bool := c == '!' || c == '$' || c == ':' || c == '=' || c == '@' || c == '|' || c == '&'

/-- Whether a character ends a number. -/
def endsNumber (c : Char) : Bool :=
  c == ' ' || c == '\n' || c == '\r' || c == '\t' || c == ',' || c == '#' || isMark c || isOpening c || isClosing c

/-- Reads a character between tokens. -/
def start (depth : Nat) (tokens : List Token) (c : Char) : Option State :=
  if isSkipped c then some ⟨.between, depth, tokens⟩
  else if c == '#' then some ⟨.comment, depth, tokens⟩
  else if isOpening c then
    if depth < maxDepth then some ⟨.between, depth + 1, .mark c :: tokens⟩ else none
  else if isClosing c then some ⟨.between, depth - 1, .mark c :: tokens⟩
  else if isMark c then some ⟨.between, depth, .mark c :: tokens⟩
  else if isNameStart c then some ⟨.name [c], depth, tokens⟩
  else if c.isDigit || c == '-' then some ⟨.number [c], depth, tokens⟩
  else if c == '"' then some ⟨.oneQuote, depth, tokens⟩
  else none

/-- Ends a token that a character or the end of the document follows. -/
def State.settle (st : State) : Option State :=
  match st.mode with
  | .comment => some { st with mode := .between }
  | .name cs => some { st with mode := .between, tokens := .name (String.ofList cs.reverse) :: st.tokens }
  | .number cs => (ofNumber? cs.reverse).map fun t => { st with mode := .between, tokens := t :: st.tokens }
  | .twoQuotes => some { st with mode := .between, tokens := .string "" :: st.tokens }
  | _ => some st

/-- Ends a token and reads the character after it. -/
def State.restart (st : State) (c : Char) : Option State := st.settle.bind fun st => start st.depth st.tokens c

/-- Reads a character of a quoted string. -/
def readString (st : State) (chars : List Char) (escaped : Bool) (c : Char) : Option State :=
  if c == '"' && !escaped then
    (unquote chars.reverse).map fun s => { st with mode := .between, tokens := .string (String.ofList s) :: st.tokens }
  else if c == '\n' then none
  else some { st with mode := .string (c :: chars) (!escaped && c == '\\') }

/-- Reads one character. -/
def step (st : State) (c : Char) : Option State :=
  match st.mode with
  | .between => start st.depth st.tokens c
  | .comment => some (if c == '\n' || c == '\r' then { st with mode := .between } else st)
  | .name cs => if isNameChar c then some { st with mode := .name (c :: cs) } else st.restart c
  | .number cs => if endsNumber c then st.restart c else some { st with mode := .number (c :: cs) }
  | .oneQuote => if c == '"' then some { st with mode := .twoQuotes } else readString st [] false c
  | .twoQuotes => if c == '"' then some { st with mode := .block [] 0 } else st.restart c
  | .string cs escaped => readString st cs escaped c
  | .block cs quotes =>
    if c == '"' then
      if quotes < 2 then some { st with mode := .block cs (quotes + 1) }
      else if cs.head? == some '\\' then some { st with mode := .block ('"' :: '"' :: '"' :: cs) 0 }
      else
        some { st with mode := .between, tokens := .string (String.ofList (blockText cs.reverse)) :: st.tokens }
    else some { st with mode := .block (c :: List.replicate quotes '"' ++ cs) 0 }

/-- The tokens of a document. -/
def scan (cs : List Char) : Option (List Token) := do
  let st ← cs.foldlM step ⟨.between, 0, []⟩
  let st ← st.settle
  match st.mode with
  | .between => some st.tokens.reverse
  | _ => none

end Token

end SdkLoom.Sdl
