import SdkLoom.Url.Host

/-!
# URLs

A `Url` holds the parts of a URL in normal form. `Url.parse` reads absolute URLs; `Url.text` writes them.
-/

namespace SdkLoom

/-- Who is asked, and as whom. -/
structure Authority where
  username : String
  password : Option String
  host : String
  port : Option Nat
  deriving DecidableEq

/-- An absolute URL. -/
structure Url where
  scheme : String
  authority : Option Authority
  path : String
  query : Option String
  fragment : Option String
  deriving DecidableEq

/-! ## Writing -/

/-- The authority without who asks. -/
def Authority.address (a : Authority) : String :=
  a.host ++ (match a.port with | some p => ":" ++ toString p | none => "")

/-- The authority as it is written. -/
def Authority.text (a : Authority) : String :=
  let password := match a.password with
    | some p => ":" ++ p
    | none => ""
  if a.username == "" && a.password.isNone then a.address else a.username ++ password ++ "@" ++ a.address

namespace Url

/-- A URL as it is written. Without an authority, a path that starts with two slashes gets a dot before them. -/
def text (u : Url) : String :=
  let authority := match u.authority with
    | some a => "//" ++ a.text
    | none => if Text.startsWith u.path "//" then "/." else ""
  let query := match u.query with
    | some q => "?" ++ q
    | none => ""
  let fragment := match u.fragment with
    | some f => "#" ++ f
    | none => ""
  u.scheme ++ ":" ++ authority ++ u.path ++ query ++ fragment

/-- A URL that does not say who asks. -/
def anonymous (u : Url) : Url :=
  { u with authority := u.authority.map fun a => { a with username := "", password := none } }

/-! ## Reading -/

/-- The schemes with hosts and their usual ports. -/
def defaultPort? : String → Option Nat
  | "http" => some 80
  | "https" => some 443
  | "ws" => some 80
  | "wss" => some 443
  | "ftp" => some 21
  | _ => none

/-- Whether a scheme is special: it has a usual port, or names files. -/
def isSpecial (scheme : String) : Bool := (defaultPort? scheme).isSome || scheme == "file"

/-- Whether a character ends an authority. -/
def endsAuthority (special : Bool) (c : Char) : Bool := c == '/' || c == '?' || c == '#' || (special && c == '\\')

/-- Whether a character separates segments of a path. -/
def isSlash (special : Bool) (c : Char) : Bool := c == '/' || (special && c == '\\')

/-- The scheme in lower case and what follows its colon. -/
def scheme? (cs : List Char) : Option (String × List Char) :=
  match Text.cutAt (· == ':') cs with
  | some (name, rest) =>
    let legal := name.head?.any Char.isAlpha && name.all fun c => c.isAlphanum || c == '+' || c == '-' || c == '.'
    if legal then some (String.ofList (name.map Char.toLower), rest) else none
  | none => none

/-- Cuts a list at the last element that passes a test. -/
def cutAtLast (p : Char → Bool) (cs : List Char) : Option (List Char × List Char) :=
  (Text.cutAt p cs.reverse).map fun (after, before) => (before.reverse, after.reverse)

/-- The host part of an authority and what follows it: a colon ends it outside brackets. -/
def hostPart (special : Bool) : Bool → List Char → List Char × List Char
  | _, [] => ([], [])
  | inside, c :: rest =>
    if endsAuthority special c || (c == ':' && !inside) then ([], c :: rest)
    else
      let (host, after) := hostPart special (if c == '[' then true else if c == ']' then false else inside) rest
      (c :: host, after)

/-- The port after a host, if there is one, and what follows it; the usual port is left out. -/
def port (scheme : String) : List Char → Except UrlFault (Option Nat × List Char)
  | ':' :: rest =>
    let digits := rest.takeWhile Char.isDigit
    let after := rest.drop digits.length
    let n := (digitsIn? 10 digits).getD 0
    if n > 65535 || !(after.head?.all fun c => endsAuthority true c) then .error .port
    else .ok (if digits.isEmpty || defaultPort? scheme == some n then none else some n, after)
  | cs => .ok (none, cs)

/-- The user name and password before an at sign. -/
def userinfo (cs : List Char) : String × Option String :=
  let encode (cs : List Char) := String.ofList (percentEncode inUserinfo cs)
  match Text.cutAt (· == ':') cs with
  | some (name, password) => (encode name, if password.isEmpty then none else some (encode password))
  | none => (encode cs, none)

/-- The user part before the last at sign of an authority, if there is one, and what follows the sign. -/
def userPart (special : Bool) (cs : List Char) : Option (List Char) × List Char :=
  let front := cs.takeWhile (!endsAuthority special ·)
  match cutAtLast (· == '@') front with
  | some (user, _) => (some user, cs.drop (user.length + 1))
  | none => (none, cs)

/-- The authority of a URL and what follows it. The host may be empty only where nothing else is said. -/
def readAuthority (scheme : String) (cs : List Char) : Except UrlFault (Authority × List Char) := do
  let special := isSpecial scheme
  let (user, rest) := userPart special cs
  if user == some [] && rest.head?.any (endsAuthority special) then .error .emptyHost
  else
    let (hostText, after) := hostPart special false rest
    if hostText.isEmpty && (special || after.head? == some ':') then .error .emptyHost
    else
      let host ← if special then host hostText else plainHost hostText
      let (port, after) ← port scheme after
      let (username, password) := userinfo (user.getD [])
      if hostText.isEmpty && (username != "" || password.isSome) then .error .emptyHost
      else .ok (⟨username, password, String.ofList host, port⟩, after)

/-! ### Paths -/

/-- Whether a segment means the directory itself. -/
def isSingleDot (segment : List Char) : Bool :=
  [".", "%2e"].contains (String.ofList (segment.map Char.toLower))

/-- Whether a segment means the directory above. -/
def isDoubleDot (segment : List Char) : Bool :=
  ["..", ".%2e", "%2e.", "%2e%2e"].contains (String.ofList (segment.map Char.toLower))

/-- Whether a text starts with a drive letter: a letter and a colon or bar, at the end or before what ends a segment. -/
def startsWithDrive : List Char → Bool
  | [a, b] => a.isAlpha && (b == ':' || b == '|')
  | a :: b :: c :: _ => a.isAlpha && (b == ':' || b == '|') && endsAuthority true c
  | _ => false

/-- Whether a segment is a drive letter. -/
def isDrive (segment : List Char) : Bool := segment.length == 2 && startsWithDrive segment

/-- A path that is being read: its segments before the last slash, last first, and whether a drive letter started it. -/
structure Trail where
  segments : List (List Char)
  drive : Bool

namespace Trail

/-- Goes to the directory above; neither the root nor a drive letter is left. -/
def up (t : Trail) : Trail :=
  match t.segments with
  | last :: rest@(_ :: _) => if startsWithDrive (last ++ ['/']) then t else { t with segments := rest }
  | _ => t

/-- A drive letter in normal form: with a colon. -/
def normalDrive : List Char → List Char
  | a :: _ => [a, ':']
  | [] => []

/-- Whether a segment is the drive letter of a path of files: the first below the root. -/
def isFirstDrive (t : Trail) (file : Bool) (segment : List Char) : Bool := file && t.segments == [[]] && isDrive segment

/-- Reads the segments of a path; the last one has no slash after it. -/
def read (file : Bool) (t : Trail) : List (List Char) → Trail
  | [] => t
  | segment :: rest =>
    let last := rest.isEmpty
    if isDoubleDot segment then
      let t := t.up
      read file (if last then { t with segments := [] :: t.segments } else t) rest
    else if isSingleDot segment then read file (if last then { t with segments := [] :: t.segments } else t) rest
    else if t.isFirstDrive file segment then read file ⟨normalDrive segment :: t.segments, true⟩ rest
    else read file { t with segments := segment :: t.segments } rest

/-- The text of a path. -/
def text (t : Trail) : List Char := List.intercalate ['/'] t.segments.reverse

end Trail

/-- The trail of a path, given whether a slash was already taken and what follows. -/
def trail (scheme : String) (rooted : Bool) (cs : List Char) : Trail :=
  let raw := (Text.splitAll (isSlash (isSpecial scheme)) cs).map (percentEncode inPath)
  Trail.read (scheme == "file") ⟨if rooted then [[]] else [], false⟩ raw

/-- The normal form of a path with segments, given whether a slash was already taken and what follows. -/
def hierarchicalPath (scheme : String) (rooted : Bool) (cs : List Char) : String :=
  String.ofList (trail scheme rooted cs).text

/-- The path, query and fragment that a text is cut into. -/
structure Tail where
  path : List Char
  query : Option (List Char)
  fragment : Option (List Char)

/-- Cuts off the fragment, then the query. -/
def cutTail (cs : List Char) : Tail :=
  let (front, fragment) := match Text.cutAt (· == '#') cs with
    | some (front, f) => (front, some f)
    | none => (cs, none)
  match Text.cutAt (· == '?') front with
  | some (path, q) => ⟨path, some q, fragment⟩
  | none => ⟨front, none, fragment⟩

/-- Puts a URL together from its parts. -/
def assemble (scheme : String) (authority : Option Authority) (path : String) (tail : Tail) : Url where
  scheme := scheme
  authority := authority
  path := path
  query := tail.query.map fun q => String.ofList (percentEncode (inQuery (isSpecial scheme)) q)
  fragment := tail.fragment.map fun f => String.ofList (percentEncode inFragment f)

/-- A URL with an authority, given what follows the slashes. -/
def withAuthority (scheme : String) (cs : List Char) : Except UrlFault Url := do
  let special := isSpecial scheme
  let (authority, rest) ← readAuthority scheme cs
  let tail := cutTail rest
  let path := match tail.path with
    | [] => if special then "/" else ""
    | c :: inner => hierarchicalPath scheme true (if isSlash special c then inner else tail.path)
  .ok (assemble scheme (some authority) path tail)

/-- A URL of files from its host and the trail of its path: a drive letter takes the host away, and of several slashes at
the start of the path one is kept. -/
def assembleFile (host : String) (t : Trail) (tail : Tail) : Url :=
  let path := "/" ++ String.ofList (t.text.dropWhile (· == '/'))
  assemble "file" (some ⟨"", none, if t.drive then "" else host, none⟩) path tail

/-- A URL of files, whose host may be empty. -/
def ofFile (cs : List Char) : Except UrlFault Url := do
  match cs with
  | a :: b :: rest =>
    if isSlash true a && isSlash true b then
      let front := rest.takeWhile (!endsAuthority true ·)
      if isDrive front then
        let tail := cutTail rest
        .ok (assembleFile "" (trail "file" true tail.path) tail)
      else
        let tail := cutTail (rest.drop front.length)
        let name ← if front.isEmpty then .ok [] else host front
        if name.isEmpty || String.ofList name == "localhost" then
          .ok (assembleFile "" (trail "file" true tail.path) tail)
        else
          let inner := match tail.path with
            | c :: inner => if isSlash true c then inner else tail.path
            | [] => []
          .ok (assembleFile (String.ofList name) (trail "file" true inner) tail)
    else
      let tail := cutTail cs
      .ok (assembleFile "" (trail "file" (!isSlash true a) tail.path) tail)
  | _ =>
    let tail := cutTail cs
    .ok (assembleFile "" (trail "file" (!(cs.head?.any (isSlash true))) tail.path) tail)

/-- A URL of a scheme that is not special. -/
def ofPlain (scheme : String) (cs : List Char) : Except UrlFault Url :=
  match cs with
  | '/' :: '/' :: rest => withAuthority scheme rest
  | '/' :: _ =>
    let tail := cutTail cs
    .ok (assemble scheme none (hierarchicalPath scheme true (tail.path.drop 1)) tail)
  | _ =>
    let tail := cutTail cs
    .ok (assemble scheme none (String.ofList (percentEncode isControl tail.path)) tail)

/-- The text that is read: without control characters and spaces at its ends, and without tabs and line breaks. -/
def cleaned (s : String) : List Char :=
  let edge (c : Char) := c.toNat ≤ 0x20
  let inner := ((s.toList.dropWhile edge).reverse.dropWhile edge).reverse
  inner.filter fun c => !(c == '\t' || c == '\n' || c == '\r')

/-- Reads an absolute URL. -/
def parse (s : String) : Except UrlFault Url :=
  match scheme? (cleaned s) with
  | none => .error .relative
  | some (scheme, rest) =>
    if scheme == "file" then ofFile rest
    else if isSpecial scheme then withAuthority scheme (rest.dropWhile (isSlash true))
    else ofPlain scheme rest

end Url

end SdkLoom
