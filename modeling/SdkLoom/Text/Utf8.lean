/-!
# Texts from bytes

UTF-8 read strictly, or with a replacement character for every longest start of a sequence that does not continue.
-/

namespace SdkLoom.Text

/-- A range of bytes. -/
structure ByteRange where
  low : Nat
  high : Nat

/-- Whether a byte is in a range. -/
def ByteRange.has (r : ByteRange) (b : UInt8) : Bool := r.low ≤ b.toNat && b.toNat ≤ r.high

/-- The ranges of the bytes that continue a sequence, given its first byte. -/
def continuation? (first : UInt8) : Option (List ByteRange) :=
  let n := first.toNat
  let any : ByteRange := ⟨0x80, 0xBF⟩
  if n < 0x80 then some []
  else if n < 0xC2 then none
  else if n < 0xE0 then some [any]
  else if n == 0xE0 then some [⟨0xA0, 0xBF⟩, any]
  else if n == 0xED then some [⟨0x80, 0x9F⟩, any]
  else if n < 0xF0 then some [any, any]
  else if n == 0xF0 then some [⟨0x90, 0xBF⟩, any, any]
  else if n < 0xF4 then some [any, any, any]
  else if n == 0xF4 then some [⟨0x80, 0x8F⟩, any, any]
  else none

/-- The bytes that a first byte of a sequence of `length` bytes contributes to the character. -/
def leadBits (first : UInt8) (length : Nat) : Nat :=
  match length with
  | 1 => first.toNat
  | 2 => first.toNat % 0x20
  | 3 => first.toNat % 0x10
  | _ => first.toNat % 0x08

/-- The bytes at the start of a list that fall into ranges one by one. -/
def follow : List ByteRange → List UInt8 → List UInt8
  | r :: rs, b :: bs => if r.has b then b :: follow rs bs else []
  | _, _ => []

/-- The first character of some bytes, if they start with one, and the number of bytes it or the malformed start takes. -/
def decodeHead (first : UInt8) (rest : List UInt8) : Option Char × Nat :=
  match continuation? first with
  | none => (none, 1)
  | some ranges =>
    let tail := follow ranges rest
    if tail.length = ranges.length then
      let code := tail.foldl (fun n b => n * 0x40 + b.toNat % 0x40) (leadBits first (tail.length + 1))
      (some (Char.ofNat code), tail.length + 1)
    else (none, tail.length + 1)

/-- The characters of bytes, `none` for each malformed start; `skip` bytes have been read already. -/
def decodeFrom : Nat → List UInt8 → List (Option Char)
  | _, [] => []
  | skip + 1, _ :: rest => decodeFrom skip rest
  | 0, b :: rest =>
    let (c, n) := decodeHead b rest
    c :: decodeFrom (n - 1) rest

/-- The text of bytes that are well formed. -/
def ofBytes? (bytes : List UInt8) : Option String := ((decodeFrom 0 bytes).mapM id).map String.ofList

/-- The text of bytes with a replacement character for what is malformed. -/
def ofBytesLossy (bytes : List UInt8) : String :=
  String.ofList ((decodeFrom 0 bytes).map (·.getD '\ufffd'))

end SdkLoom.Text
