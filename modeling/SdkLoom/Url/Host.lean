import SdkLoom.Decimal.Power
import SdkLoom.Error
import SdkLoom.Text.Search
import SdkLoom.Url.Percent

/-!
# Hosts

The host of a URL in its normal form: a domain in lower case, an IPv4 address in four decimal parts whatever way it was
written, or an IPv6 address with its longest run of zeros left out.
-/

namespace SdkLoom.Url

/-! ## IPv4 -/

/-- The value of digits of a base, all of which have to be digits of it. -/
def digitsIn? (base : Nat) (cs : List Char) : Option Nat :=
  cs.foldlM (fun n c => (hexValue? c).bind fun d => if d < base then some (n * base + d) else none) 0

/-- A part of an IPv4 address: decimal, octal after a zero, or hexadecimal after `0x`. -/
def ipv4Number? : List Char → Option Nat
  | [] => none
  | '0' :: 'x' :: rest => digitsIn? 16 rest
  | '0' :: 'X' :: rest => digitsIn? 16 rest
  | ['0'] => some 0
  | '0' :: rest => digitsIn? 8 rest
  | cs => digitsIn? 10 cs

/-- The parts between the dots, without an empty last one. -/
def dottedParts (host : List Char) : List (List Char) :=
  let parts := Text.splitAll (· == '.') host
  match parts.reverse with
  | [] :: before@(_ :: _) => before.reverse
  | _ => parts

/-- Whether a domain has to be read as an IPv4 address, since its last part is a number. -/
def endsInNumber (host : List Char) : Bool :=
  match (dottedParts host).getLast? with
  | some last => (!last.isEmpty && last.all Char.isDigit) || (ipv4Number? last).isSome
  | none => false

/-- The four parts of an IPv4 address. -/
def showIpv4 (n : Nat) : List Char :=
  let part (k : Nat) := toString (n / pow2 (8 * k) % 256)
  (String.intercalate "." [part 3, part 2, part 1, part 0]).toList

/-- An IPv4 address of up to four parts, the last of which fills what the others leave. -/
def ipv4? (host : List Char) : Option (List Char) := do
  let parts := dottedParts host
  if parts.length > 4 then none
  else
    let numbers ← parts.mapM ipv4Number?
    let last ← numbers.getLast?
    let heads := numbers.dropLast
    if heads.any (255 < ·) || pow2 (8 * (4 - heads.length)) ≤ last then none
    else
      let (total, _) := heads.foldl (fun (n, k) x => (n + x * pow2 (8 * k), k - 1)) (last, 3)
      some (showIpv4 total)

/-! ## IPv6 -/

/-- The two halves of an IPv6 address around its double colon; the second is absent if there is none. -/
structure Ipv6Parts where
  before : List Nat
  after : Option (List Nat)

/-- Adds a piece at the end. -/
def Ipv6Parts.push (p : Ipv6Parts) (n : Nat) : Ipv6Parts :=
  match p.after with
  | some ns => { p with after := some (ns ++ [n]) }
  | none => { p with before := p.before ++ [n] }

/-- The number of pieces. -/
def Ipv6Parts.count (p : Ipv6Parts) : Nat := p.before.length + (p.after.getD []).length

/-- A decimal part of an address at the end of an IPv6 address: at most 255, without a leading zero. -/
def octet? (cs : List Char) : Option Nat :=
  if cs.isEmpty || !cs.all Char.isDigit || (cs.length > 1 && cs.head? == some '0') then none
  else (digitsIn? 10 cs).filter (· ≤ 255)

/-- The two pieces of an IPv4 address at the end of an IPv6 address. -/
def trailingIpv4? (cs : List Char) : Option (Nat × Nat) := do
  match ← (Text.splitAll (· == '.') cs).mapM octet? with
  | [a, b, c, d] => some (a * 256 + b, c * 256 + d)
  | _ => none

/-- The pieces from here on; `fresh` tells that a colon was just read. -/
def ipv6From? : Nat → Ipv6Parts → Bool → List Char → Option Ipv6Parts
  | 0, _, _, _ => none
  | _ + 1, p, fresh, [] => if fresh && !(p.after == some []) then none else some p
  | fuel + 1, p, _, ':' :: rest =>
    if p.after.isSome || p.count ≥ 8 then none else ipv6From? fuel { p with after := some [] } true rest
  | fuel + 1, p, _, cs =>
    if p.count ≥ 8 then none
    else
      let digits := (cs.takeWhile (hexValue? · |>.isSome)).take 4
      let rest := cs.drop digits.length
      match rest with
      | '.' :: _ =>
        if digits.isEmpty || p.count > 6 then none
        else (trailingIpv4? cs).map fun (a, b) => (p.push a).push b
      | [] => (digitsIn? 16 digits).map p.push
      | ':' :: more =>
        if more.isEmpty || digits.isEmpty then none
        else do
          let n ← digitsIn? 16 digits
          ipv6From? fuel (p.push n) true more
      | _ => none

/-- The eight pieces of an IPv6 address. -/
def ipv6Pieces? (cs : List Char) : Option (List Nat) := do
  let parts ← match cs with
    | ':' :: ':' :: rest => ipv6From? (cs.length + 1) ⟨[], some []⟩ true rest
    | ':' :: _ => none
    | [] => none
    | _ => ipv6From? (cs.length + 1) ⟨[], none⟩ false cs
  match parts.after with
  | none => if parts.count = 8 then some parts.before else none
  | some after => if parts.count < 8 then some (parts.before ++ List.replicate (8 - parts.count) 0 ++ after) else none

/-- The length of the run of zeros at the start. -/
def zeroRun (ns : List Nat) : Nat := (ns.takeWhile (· == 0)).length

/-- Where the first longest run of at least two zeros starts, and its length. -/
def longestZeros (ns : List Nat) : Option (Nat × Nat) :=
  let runs := (List.range ns.length).map fun i => (i, zeroRun (ns.drop i))
  let best := runs.foldl (fun b r => if b.2 < r.2 then r else b) (0, 0)
  if best.2 < 2 then none else some best

/-- Pieces with colons between them. -/
def showPieces (ns : List Nat) : List Char :=
  (String.intercalate ":" (ns.map fun n => String.ofList (Nat.toDigits 16 n))).toList

/-- An IPv6 address. -/
def showIpv6 (ns : List Nat) : List Char :=
  match longestZeros ns with
  | none => showPieces ns
  | some (i, n) => showPieces (ns.take i) ++ [':', ':'] ++ showPieces (ns.drop (i + n))

/-! ## Hosts -/

/-- The characters that no domain holds. -/
def isForbidden (c : Char) : Bool :=
  c.toNat ≤ 0x20 || c.toNat == 0x7f || ['#', '/', ':', '<', '>', '?', '@', '[', '\\', ']', '^', '|', '%'].contains c

/-- The normal form of the host of a special URL. -/
def host (cs : List Char) : Except UrlFault (List Char) :=
  match cs with
  | '[' :: rest =>
    match rest.reverse with
    | ']' :: inner =>
      match ipv6Pieces? inner.reverse with
      | some ns => .ok ('[' :: showIpv6 ns ++ [']'])
      | none => .error .ipv6
    | _ => .error .ipv6
  | _ =>
    match Text.ofBytes? (percentDecode cs) with
    | none => .error .hostName
    | some decoded =>
      let domain := decoded.toList.map Char.toLower
      if domain.any isForbidden then .error .hostName
      else if domain.isEmpty then .error .emptyHost
      else if endsInNumber domain then
        match ipv4? domain with
        | some address => .ok address
        | none => .error .ipv4
      else .ok domain

/-- The host of a URL whose scheme is not special: its characters stay as they are, and few are refused. -/
def plainHost (cs : List Char) : Except UrlFault (List Char) :=
  match cs with
  | '[' :: _ => host cs
  | _ =>
    let refused (c : Char) := c == '\x00' || [' ', '\t', '\n', '\r', '#', '/', ':', '<', '>', '?', '@', '[', '\\', ']', '^', '|'].contains c
    if cs.any refused then .error .domainCharacter else .ok (percentEncode isControl cs)

end SdkLoom.Url
