import SurfaceStudio.Json.Reader
/-!
JSON given as bytes. The encoding is told from a byte order mark, or else from where the zero bytes
are among the first four, since a JSON text starts with two characters of the basic Latin script.
-/

namespace SurfaceStudio.Json

/-- The encodings of a JSON text. -/
inductive Encoding where
  | utf8
  | utf8Marked
  | utf16 (bigEndian : Bool)
  | utf16Marked (bigEndian : Bool)
  | utf32 (bigEndian : Bool)
  | utf32Marked (bigEndian : Bool)
  deriving Repr, DecidableEq

/-- The encoding that a byte order mark stands for. -/
def Encoding.marked? (bs : List UInt8) : Option Encoding :=
  if [0x00, 0x00, 0xFE, 0xFF].isPrefixOf bs then some (.utf32Marked true)
  else if [0xFF, 0xFE, 0x00, 0x00].isPrefixOf bs then some (.utf32Marked false)
  else if [0xFE, 0xFF].isPrefixOf bs then some (.utf16Marked true)
  else if [0xFF, 0xFE].isPrefixOf bs then some (.utf16Marked false)
  else if [0xEF, 0xBB, 0xBF].isPrefixOf bs then some .utf8Marked
  else none

/-- The encoding of a text without a byte order mark, by the zero bytes in front. -/
def Encoding.unmarked : List UInt8 → Encoding
  | a :: b :: c :: d :: _ =>
    if a = 0 then if b = 0 then .utf32 true else .utf16 true
    else if b = 0 then if c = 0 && d = 0 then .utf32 false else .utf16 false
    else .utf8
  | [a, b] => if a = 0 then .utf16 true else if b = 0 then .utf16 false else .utf8
  | _ => .utf8

/-- The encoding of a text by its first bytes. -/
def Encoding.detect (bs : List UInt8) : Encoding := (marked? bs).getD (unmarked bs)

/-- Bytes in pairs as numbers; none if one is left over. -/
def units16 (bigEndian : Bool) : List UInt8 → Option (List Nat)
  | [] => some []
  | a :: b :: rest => do
    let n := if bigEndian then a.toNat * 256 + b.toNat else b.toNat * 256 + a.toNat
    return n :: (← units16 bigEndian rest)
  | _ => none

/-- The characters of UTF-16 units. A half of a pair without the other half is a character of its
own. -/
def charsOfUnits : List Nat → List Char
  | [] => []
  | high :: low :: rest =>
    if isHighSurrogate high && isLowSurrogate low then
      joinSurrogates high low :: charsOfUnits rest
    else unitChar high :: charsOfUnits (low :: rest)
  | [n] => [unitChar n]

/-- Bytes in fours as characters; none if some are left over or a number is no code point. -/
def chars32 (bigEndian : Bool) : List UInt8 → Option (List Char)
  | [] => some []
  | a :: b :: c :: d :: rest => do
    let n := if bigEndian then ((a.toNat * 256 + b.toNat) * 256 + c.toNat) * 256 + d.toNat
      else ((d.toNat * 256 + c.toNat) * 256 + b.toNat) * 256 + a.toNat
    if n < 0x110000 then return unitChar n :: (← chars32 bigEndian rest) else none
  | _ => none

/-- Bytes in which the replacement character takes the place of each half of a surrogate pair that
is spelt in three bytes, as characters are. -/
def withoutHalves : List UInt8 → List UInt8
  | 0xED :: b :: c :: rest =>
    if 0xA0 ≤ b && b ≤ 0xBF && 0x80 ≤ c && c ≤ 0xBF then
      0xEF :: 0xBF :: 0xBD :: withoutHalves rest
    else 0xED :: withoutHalves (b :: c :: rest)
  | b :: rest => b :: withoutHalves rest
  | [] => []

/-- The text of bytes in UTF-8; none if they are no UTF-8. Halves of surrogate pairs are let
pass. -/
def utf8Text? (bytes : List UInt8) : Option String :=
  String.fromUTF8? ⟨(withoutHalves bytes).toArray⟩

/-- The text of bytes in an encoding; none if they do not follow it. -/
def Encoding.decode (bytes : List UInt8) : Encoding → Option String
  | .utf8 => utf8Text? bytes
  | .utf8Marked => utf8Text? (bytes.drop 3)
  | .utf16 big => (units16 big bytes).map fun units => String.ofList (charsOfUnits units)
  | .utf16Marked big =>
    (units16 big (bytes.drop 2)).map fun units => String.ofList (charsOfUnits units)
  | .utf32 big => (chars32 big bytes).map String.ofList
  | .utf32Marked big => (chars32 big (bytes.drop 4)).map String.ofList

/-- The text of the bytes of a JSON document; none if they do not follow their encoding. -/
def textOfBytes? (bytes : List UInt8) : Option String := (Encoding.detect bytes).decode bytes

end SurfaceStudio.Json
