import SdkLoom.Json.Reader
import SdkLoom.Template.Node
import SdkLoom.Text.Search

/-!
# Expressions of templates

A reader of paths, literals and calls. A rule that does not match leaves the place to the next rule (`elsewhere`); a
literal that has the form of one and no value makes the whole template malformed.
-/

namespace SdkLoom.Template

/-- Why a rule gives nothing. -/
inductive Stop where
  | elsewhere
  | malformed
  deriving DecidableEq, Repr, Inhabited

/-- A rule reads something from the front of a text. -/
abbrev Rule (α : Type) := List Char → Except Stop (α × List Char)

namespace Rule

variable {α β : Type}

/-- The first rule, or the second where the first does not match. -/
def orElse (p q : Rule α) : Rule α := fun cs =>
  match p cs with
  | .error .elsewhere => q cs
  | r => r

/-- What a rule reads, or nothing where it does not match. -/
def optional (p : Rule α) : Rule (Option α) := fun cs =>
  match p cs with
  | .ok (a, rest) => .ok (some a, rest)
  | .error .elsewhere => .ok (none, cs)
  | .error .malformed => .error .malformed

end Rule

namespace Expression

open Rule (optional)

/-! ## Characters -/

/-- Whether a character only divides what stands in a tag. -/
def isGap (c : Char) : Bool := c == ' ' || c == '\t' || c == '\n' || c == '\r'

/-- What follows the gap at the front of a text. -/
def skip (cs : List Char) : List Char := cs.dropWhile isGap

/-- Whether a character can stand in an identifier. -/
def isSymbol (c : Char) : Bool := c.isAlphanum || c == '_' || c == '-' || c == '$' || c.toNat ≥ 0x80

/-- Whether a text starts with a character of identifiers. -/
def atSymbol (cs : List Char) : Bool := (cs.head?.map isSymbol).getD false

/-- A certain text. -/
def exactly (s : String) : Rule Unit := fun cs =>
  match Text.afterHead s.toList cs with
  | some rest => .ok ((), rest)
  | none => .error .elsewhere

/-- A certain text, after a gap. -/
def token (s : String) : Rule Unit := fun cs => exactly s (skip cs)

/-- An identifier. -/
def identifier : Rule String := fun cs =>
  if atSymbol cs then .ok (String.ofList (cs.takeWhile isSymbol), cs.dropWhile isSymbol) else .error .elsewhere

/-! ## Paths -/

/-- What divides the names of a path. -/
def separator : Rule Unit := (exactly "/").orElse (exactly ".")

/-- A name of a path, which may stand in square brackets. -/
def pathName : Rule String := identifier.orElse fun cs => do
  let (_, cs) ← exactly "[" cs
  let (_, rest) ← exactly "]" (cs.dropWhile (· != ']'))
  return (String.ofList (cs.takeWhile (· != ']')), rest)

/-- More names of a path. -/
def moreNames : Nat → Rule (List String)
  | 0, cs => .ok ([], cs)
  | fuel + 1, cs =>
    match separator cs with
    | .error _ => .ok ([], cs)
    | .ok (_, rest) =>
      match pathName rest with
      | .error _ => .ok ([], cs)
      | .ok (name, rest) => do
        let (names, rest) ← moreNames fuel rest
        return (name :: names, rest)

/-- The number of steps up at the front of a path. -/
def stepsUp : Nat → Rule Nat
  | 0, cs => .ok (0, cs)
  | fuel + 1, cs =>
    match exactly ".." cs with
    | .error _ => .ok (0, cs)
    | .ok (_, rest) =>
      match separator rest with
      | .error _ => .ok (0, cs)
      | .ok (_, rest) => do
        let (n, rest) ← stepsUp fuel rest
        return (n + 1, rest)

/-- Something with a separator after it, as far as it is there. -/
def leading (s : String) (cs : List Char) : Bool × List Char :=
  match exactly s cs with
  | .error _ => (false, cs)
  | .ok (_, rest) =>
    match separator rest with
    | .error _ => (false, cs)
    | .ok (_, rest) => (true, rest)

/-- A path from its parts; `this` names nothing of its own. -/
def pathOf (fromRoot marked : Bool) (ups : Nat) (names : List String) : Path :=
  let names := names.filter (· != "this")
  if fromRoot then .root names
  else if marked then
    match names with
    | name :: _ => .blockVariable ups name
    | [] => .context 0 []
  else .context ups names

/-- A path without its spelling. -/
def barePath : Rule Path := fun cs => do
  let (current, rest) := leading "this" cs
  let rest := if current then rest else
    match exactly "./" cs with
    | .ok (_, rest) => rest
    | .error _ => cs
  let (fromRoot, rest) := leading "@root" rest
  let (mark, rest) ← optional (exactly "@") rest
  let (ups, rest) ← stepsUp rest.length rest
  let (name, rest) ← pathName rest
  let (names, rest) ← moreNames rest.length rest
  return (pathOf fromRoot mark.isSome ups (name :: names), rest)

/-- The part of a text before its rest. -/
def consumed (cs rest : List Char) : String := String.ofList (cs.take (cs.length - rest.length))

/-- A path. -/
def path : Rule Argument := fun cs => do
  let (p, rest) ← barePath cs
  return (.path (consumed cs rest) p, rest)

/-! ## Literals -/

/-- Reads past the inside of a string up to its quote. -/
def stringEnd (quote : Char) : List Char → Except Stop (List Char)
  | [] => .error .elsewhere
  | '\\' :: 'u' :: a :: b :: c :: d :: rest =>
    if [a, b, c, d].all fun x => x.isDigit || ('a' ≤ x.toLower && x.toLower ≤ 'f') then stringEnd quote rest
    else .error .elsewhere
  | '\\' :: c :: rest =>
    if c == quote || ['\\', '/', 'b', 'f', 'n', 'r', 't'].contains c then stringEnd quote rest else .error .elsewhere
  | c :: rest => if c == quote then .ok rest else if c == '\\' then .error .elsewhere else stringEnd quote rest

/-- Reads past a string in one kind of quotes. -/
def quotedEnd (quote : Char) : Rule Unit := fun cs =>
  match cs with
  | c :: rest => if c == quote then (stringEnd quote rest).map fun rest => ((), rest) else .error .elsewhere
  | [] => .error .elsewhere

/-- Reads past a string. -/
def stringLiteral : Rule Unit := (quotedEnd '"').orElse (quotedEnd '\'')

/-- Reads past digits, of which there is at least one. -/
def digits : Rule Unit := fun cs =>
  if (cs.head?.map Char.isDigit).getD false then .ok ((), cs.dropWhile Char.isDigit) else .error .elsewhere

/-- Reads past an exponent. -/
def exponentPart : Rule Unit := fun cs => do
  let (_, cs) ← exactly "E" cs
  let (_, cs) ← optional (exactly "-") cs
  digits cs

/-- Reads past a number that no symbol follows. -/
def numberLiteral : Rule Unit := fun cs => do
  let (_, cs) ← optional (exactly "-") cs
  let (_, cs) ← digits cs
  let (_, cs) ← optional (exactly ".") cs
  let (_, cs) ← optional digits cs
  let (_, cs) ← optional exponentPart cs
  if atSymbol cs then .error .elsewhere else .ok ((), cs)

/-- Reads past a word that no symbol follows. -/
def wordLiteral (s : String) : Rule Unit := fun cs => do
  let (_, cs) ← exactly s cs
  if atSymbol cs then .error .elsewhere else .ok ((), cs)

/-- Reads past more items, each after a comma. -/
def moreItems (item : Rule Unit) : Nat → Rule Unit
  | 0, cs => .ok ((), cs)
  | fuel + 1, cs =>
    match token "," cs with
    | .error _ => .ok ((), cs)
    | .ok (_, rest) =>
      match item (skip rest) with
      | .error _ => .ok ((), cs)
      | .ok (_, rest) => moreItems item fuel rest

/-- Reads past items between brackets. -/
def itemsBetween (opening closing : String) (item : Rule Unit) : Rule Unit := fun cs => do
  let (_, cs) ← exactly opening cs
  let cs := match item (skip cs) with
    | .ok (_, rest) => rest
    | .error _ => cs
  let (_, cs) ← moreItems item cs.length cs
  token closing cs

/-- Reads past a member of an object. -/
def memberOf (value : Rule Unit) : Rule Unit := fun cs => do
  let (_, cs) ← stringLiteral cs
  let (_, cs) ← token ":" cs
  value (skip cs)

/-- Reads past a literal within a nesting bound. -/
def literalEnd : Nat → Rule Unit
  | 0, _ => .error .elsewhere
  | fuel + 1, cs =>
    (stringLiteral.orElse <| (itemsBetween "[" "]" (literalEnd fuel)).orElse <|
      (itemsBetween "\x7b" "\x7d" (memberOf (literalEnd fuel))).orElse <| numberLiteral.orElse <|
      (wordLiteral "null").orElse <| (wordLiteral "true").orElse (wordLiteral "false")) cs

/-- The JSON text of a literal: a string in single quotes is put into double ones. -/
def jsonText (literal : String) : String :=
  match literal.toList with
  | '\'' :: rest =>
    let inner := String.ofList (rest.take (rest.length - 1))
    "\"" ++ Text.replaceAll (Text.replaceAll inner "\\'" "'") "\"" "\\\"" ++ "\""
  | _ => literal

/-- A literal. -/
def literal : Rule Argument := fun cs => do
  let (_, rest) ← literalEnd cs.length cs
  match Json.readValue (jsonText (consumed cs rest)) with
  | some j => return (.literal j, rest)
  | none => .error .malformed

/-! ## Arguments -/

/-- Whether a keyword stands at the front: `as` or `else` where no symbol follows, over a gap or not. -/
def atKeyword (cs : List Char) : Bool :=
  ["as", "else"].any fun w =>
    match Text.afterHead w.toList cs with
    | some rest => !atSymbol (skip rest)
    | none => false

/-- An argument with its name, if it has one. -/
abbrev NamedArgument := Option String × Argument

/-- More of what a rule reads, over gaps, as long as it matches. -/
def many {α : Type} (p : Rule α) : Nat → Rule (List α)
  | 0, cs => .ok ([], cs)
  | fuel + 1, cs => do
    match ← optional p (skip cs) with
    | (some a, rest) =>
      let (more, rest) ← many p fuel rest
      return (a :: more, rest)
    | (none, _) => return ([], cs)

/-- The arguments of a list without names. -/
def positional (xs : List NamedArgument) : List Argument :=
  xs.filterMap fun x => if x.1.isNone then some x.2 else none

/-- The arguments of a list with names. -/
def named (xs : List NamedArgument) : List (String × Argument) :=
  xs.filterMap fun x => x.1.map fun n => (n, x.2)

/-- A name with at least one argument. -/
def callOf (arg : Rule NamedArgument) : Rule Call := fun cs => do
  let (name, cs) ← identifier cs
  let (xs, rest) ← many arg cs.length cs
  if xs.isEmpty then .error .elsewhere
  else return ({ name, args := positional xs, named := named xs }, rest)

/-- A call between parentheses; a path alone is the name of a helper without arguments. -/
def subexpressionOf (arg : Rule NamedArgument) : Rule Argument := fun cs => do
  let (_, cs) ← exactly "(" cs
  match ← optional (callOf arg) (skip cs) with
  | (some c, rest) =>
    let (_, rest) ← token ")" rest
    return (.call c.name c.args c.named, rest)
  | (none, _) =>
    let (_, rest) ← barePath (skip cs)
    let name := consumed (skip cs) rest
    let (_, rest) ← token ")" rest
    return (.call name [] [], rest)

/-- An argument without a name, given how the arguments of calls in it are read. -/
def valueOf (arg : Rule NamedArgument) : Rule Argument := fun cs =>
  if atKeyword cs then .error .elsewhere else (literal.orElse <| path.orElse <| subexpressionOf arg) cs

/-- A name, an equals sign and an argument. -/
def namedOf (arg : Rule NamedArgument) : Rule NamedArgument := fun cs => do
  let (name, cs) ← identifier cs
  let (_, cs) ← token "=" cs
  let (v, cs) ← valueOf arg (skip cs)
  return ((some name, v), cs)

/-- An argument within a nesting bound. -/
def argumentIn : Nat → Rule NamedArgument
  | 0, _ => .error .elsewhere
  | fuel + 1, cs =>
    match namedOf (argumentIn fuel) cs with
    | .error .elsewhere => (valueOf (argumentIn fuel) cs).map fun (v, rest) => ((none, v), rest)
    | r => r

/-- An argument. -/
def argument : Rule NamedArgument := fun cs => argumentIn cs.length cs

/-- A call with at least one argument. -/
def call : Rule Call := callOf argument

/-- A value: a call between parentheses, or a path. -/
def value : Rule Argument := (subexpressionOf argument).orElse path

/-- The names of block parameters: one or two between bars. -/
def blockParams : Rule (List String) := fun cs => do
  let (_, cs) ← exactly "as" cs
  let (_, cs) ← token "|" cs
  let (a, cs) ← identifier (skip cs)
  let (b, rest) ← optional identifier (skip cs)
  let (_, cs) ← token "|" (if b.isSome then rest else cs)
  return (a :: b.toList, cs)

/-- The line of a block: a name, any number of arguments, and parameters. -/
def blockLine : Rule (Call × List String) := fun cs => do
  let (name, cs) ← identifier cs
  let (xs, cs) ← many argument cs.length cs
  let (params, rest) ← optional blockParams (skip cs)
  let call : Call := { name, args := positional xs, named := named xs }
  return ((call, params.getD []), if params.isSome then rest else cs)

end Expression

end SdkLoom.Template
