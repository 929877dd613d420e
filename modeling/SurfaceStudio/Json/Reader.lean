import SurfaceStudio.Failure
import SurfaceStudio.Decimal.Numeral
/-!
Reading JSON text. Beyond the standard, the numbers `NaN`, `Infinity` and `-Infinity` are read, and
a key given twice keeps its last value. Every function takes the characters that are left and
returns the rest with a proof that it is shorter; a refusal names its cause and the characters left
at the place of the fault. An integer of too many digits ends the reading with a fault, whatever
comes after it.
-/

namespace SurfaceStudio.Json

/-- Why a text is not JSON. -/
inductive Cause where
  | byteOrderMark
  | value
  | propertyName
  | colon
  | comma
  | extraData
  | unterminatedString
  | controlCharacter
  | escape
  | unicodeEscape
  deriving Repr, DecidableEq

/-- The wording of a cause. -/
def Cause.message : Cause → String
  | .byteOrderMark => "Unexpected UTF-8 BOM (decode using utf-8-sig)"
  | .value => "Expecting value"
  | .propertyName => "Expecting property name enclosed in double quotes"
  | .colon => "Expecting ':' delimiter"
  | .comma => "Expecting ',' delimiter"
  | .extraData => "Extra data"
  | .unterminatedString => "Unterminated string starting at"
  | .controlCharacter => "Invalid control character at"
  | .escape => "Invalid \\escape"
  | .unicodeEscape => "Invalid \\uXXXX escape"

/-- The end of a reading: a refusal at the place where `left` characters of the text were left, or a
fault. -/
inductive Refusal where
  | malformed (cause : Cause) (left : Nat)
  | fault (f : Fault)

/-- What was read from `cs`, and the shorter rest. -/
structure Read (α : Type) (cs : List Char) where
  value : α
  rest : List Char
  shorter : rest.length < cs.length

/-- The white space of JSON. -/
def isSpace (c : Char) : Bool := c = ' ' || c = '\t' || c = '\n' || c = '\r'

/-- The characters after white space. -/
def skip (cs : List Char) : List Char := cs.dropWhile isSpace

theorem length_skip_le (cs : List Char) : (skip cs).length ≤ cs.length :=
  (List.dropWhile_sublist isSpace).length_le

/-- The value of a hexadecimal digit. -/
def hexValue? (c : Char) : Option Nat :=
  if '0' ≤ c && c ≤ '9' then some (c.toNat - 48)
  else if 'a' ≤ c && c ≤ 'f' then some (c.toNat - 87)
  else if 'A' ≤ c && c ≤ 'F' then some (c.toNat - 55)
  else none

/-- The value of four hexadecimal digits. -/
def hexUnit? (a b c d : Char) : Option Nat := do
  return (((← hexValue? a) * 16 + (← hexValue? b)) * 16 + (← hexValue? c)) * 16 + (← hexValue? d)

/-- The character of an escape of one letter. -/
def simpleEscape? : Char → Option Char
  | '"' => some '"'
  | '\\' => some '\\'
  | '/' => some '/'
  | 'b' => some '\x08'
  | 'f' => some '\x0c'
  | 'n' => some '\n'
  | 'r' => some '\r'
  | 't' => some '\t'
  | _ => none

/-- The leading unit of a pair. -/
def isHighSurrogate (n : Nat) : Bool := 0xD800 ≤ n && n ≤ 0xDBFF

/-- The trailing unit of a pair. -/
def isLowSurrogate (n : Nat) : Bool := 0xDC00 ≤ n && n ≤ 0xDFFF

/-- The character of a pair of units. -/
def joinSurrogates (high low : Nat) : Char :=
  Char.ofNat (0x10000 + (high - 0xD800) * 0x400 + (low - 0xDC00))

/-- The character of a single unit. Half a pair on its own is no character, and no text can keep it:
U+FFFD takes its place, so that texts which differ only in such halves are read alike. -/
def unitChar (n : Nat) : Char :=
  if isHighSurrogate n || isLowSurrogate n then '\uFFFD' else Char.ofNat n

/-- A rest shorter than the end of a text is shorter than the text. -/
theorem lt_length_append {n : Nat} (front : List Char) {rest : List Char} (h : n < rest.length) :
    n < (front ++ rest).length :=
  Nat.lt_of_lt_of_le h (by rw [List.length_append]; exact Nat.le_add_left _ _)

/-- Reads the characters after an opening quotation mark up to the closing one. `start` is the
number of characters left at the opening mark. -/
def stringBody (start : Nat) : (cs : List Char) → Except Refusal (Read (List Char) cs)
  | [] => .error (.malformed .unterminatedString start)
  | '"' :: rest => .ok ⟨[], rest, Nat.lt_succ_self _⟩
  | '\\' :: 'u' :: a :: b :: c :: d :: e :: rest =>
    match hexUnit? a b c d with
    | none => .error (.malformed .unicodeEscape (rest.length + 6))
    | some high =>
      match isHighSurrogate high, e, rest with
      | true, '\\', 'u' :: f :: g :: i :: j :: k :: after =>
        match hexUnit? f g i j with
        | none => .error (.malformed .unicodeEscape (after.length + 6))
        | some low =>
          if isLowSurrogate low then
            match stringBody start (k :: after) with
            | .error r => .error r
            | .ok ⟨s, left, h⟩ =>
              .ok ⟨joinSurrogates high low :: s, left,
                lt_length_append ['\\', 'u', a, b, c, d, '\\', 'u', f, g, i, j] h⟩
          else
            match stringBody start ('\\' :: 'u' :: f :: g :: i :: j :: k :: after) with
            | .error r => .error r
            | .ok ⟨s, left, h⟩ =>
              .ok ⟨unitChar high :: s, left, lt_length_append ['\\', 'u', a, b, c, d] h⟩
      | _, e, rest =>
        match stringBody start (e :: rest) with
        | .error r => .error r
        | .ok ⟨s, left, h⟩ =>
          .ok ⟨unitChar high :: s, left, lt_length_append ['\\', 'u', a, b, c, d] h⟩
  | '\\' :: 'u' :: rest => .error (.malformed .unicodeEscape (rest.length + 1))
  | '\\' :: c :: rest =>
    match simpleEscape? c with
    | none => .error (.malformed .escape (rest.length + 2))
    | some d =>
      match stringBody start rest with
      | .error r => .error r
      | .ok ⟨s, left, h⟩ => .ok ⟨d :: s, left, lt_length_append ['\\', c] h⟩
  | ['\\'] => .error (.malformed .unterminatedString start)
  | c :: rest =>
    if c.toNat ≤ 0x1F then .error (.malformed .controlCharacter (rest.length + 1))
    else match stringBody start rest with
      | .error r => .error r
      | .ok ⟨s, left, h⟩ => .ok ⟨c :: s, left, lt_length_append [c] h⟩
termination_by cs => cs.length

/-- The digits of a whole number without a needless zero in front. -/
def wholeDigits : List Char → List Char
  | '0' :: _ => ['0']
  | cs => cs.takeWhile Decimal.isDigit

/-- The point and the digits after it, if there is a digit. -/
def fractionDigits : List Char → List Char
  | '.' :: rest => if (rest.takeWhile Decimal.isDigit).isEmpty then []
      else '.' :: rest.takeWhile Decimal.isDigit
  | _ => []

/-- The power of ten, if there is a digit in it. -/
def powerDigits : List Char → List Char
  | e :: rest =>
    if e = 'e' || e = 'E' then
      match rest with
      | s :: more =>
        if s = '+' || s = '-' then
          if (more.takeWhile Decimal.isDigit).isEmpty then []
          else e :: s :: more.takeWhile Decimal.isDigit
        else if (rest.takeWhile Decimal.isDigit).isEmpty then []
        else e :: rest.takeWhile Decimal.isDigit
      | [] => []
    else []
  | [] => []

/-- The integer of some digits, unless they are too many. -/
def integerOfDigits (negative : Bool) (digits : List Char) : Except Fault Json :=
  let n : Int := (Decimal.digitsValue digits : Nat)
  if Settings.maxIntegerDigits < digits.length then .error .integerTooLong
  else .ok (.int (if negative then -n else n))

/-- The number in front of `cs` and how many characters it takes: an integer, or a double if it has
a point or a power of ten. -/
def number? (cs : List Char) : Option (Except Fault Json × Nat) :=
  let (negative, body) := match cs with
    | '-' :: rest => (true, rest)
    | _ => (false, cs)
  let whole := wholeDigits body
  if whole.isEmpty then none
  else
    let part := fractionDigits (body.drop whole.length)
    let power := powerDigits (body.drop (whole.length + part.length))
    let sign := if negative then 1 else 0
    let taken := sign + whole.length + part.length + power.length
    if part.isEmpty && power.isEmpty then some (integerOfDigits negative whole, taken)
    else
      let value := Decimal.numeralValue (whole ++ part ++ power)
      some (.ok (.float (Decimal.withSign negative value)), taken)

/-- The words that stand for values. -/
def words : List (List Char × Json) :=
  [("null".toList, .null), ("true".toList, .bool true), ("false".toList, .bool false),
   ("NaN".toList, .float (0 / 0)), ("Infinity".toList, .float (1 / 0)),
   ("-Infinity".toList, .float (-1 / 0))]

/-- A word or a number in front of `cs`, and how many characters it takes. -/
def atom? (cs : List Char) : Option (Except Fault Json × Nat) :=
  match words.find? fun w => w.1.isPrefixOf cs with
  | some (word, value) => some (.ok value, word.length)
  | none => number? cs

mutual

/-- Reads one value. -/
def value (cs : List Char) : Except Refusal (Read Json cs) :=
  match cs with
  | '"' :: rest =>
    match stringBody (rest.length + 1) rest with
    | .error r => .error r
    | .ok ⟨s, left, h⟩ =>
      .ok ⟨.str (String.ofList s), left, by simp only [List.length_cons]; omega⟩
  | '\x7b' :: rest =>
    have := length_skip_le rest
    match h : skip rest with
    | '\x7d' :: left => .ok ⟨.object [], left, by simp [h] at this ⊢; omega⟩
    | body =>
      match members [] body with
      | .error r => .error r
      | .ok ⟨ms, left, h'⟩ => .ok ⟨.object ms, left, by simp [h] at this ⊢; omega⟩
  | '[' :: rest =>
    have := length_skip_le rest
    match h : skip rest with
    | ']' :: left => .ok ⟨.list [], left, by simp [h] at this ⊢; omega⟩
    | body =>
      match items body with
      | .error r => .error r
      | .ok ⟨vs, left, h'⟩ => .ok ⟨.list vs, left, by simp [h] at this ⊢; omega⟩
  | cs =>
    match atom? cs with
    | some (.error f, _) => .error (.fault f)
    | some (.ok v, n + 1) =>
      if h : n < cs.length then .ok ⟨v, cs.drop (n + 1), by simp only [List.length_drop]; omega⟩
      else .error (.malformed .value cs.length)
    | _ => .error (.malformed .value cs.length)
termination_by (cs.length, 1)
decreasing_by all_goals exact Prod.Lex.left _ _ (by simp [h] at this ⊢; omega)

/-- Reads the items of a list up to its closing bracket. -/
def items (cs : List Char) : Except Refusal (Read (List Json) cs) :=
  match value cs with
  | .error r => .error r
  | .ok ⟨v, rest, h⟩ =>
    have := length_skip_le rest
    match h' : skip rest with
    | ']' :: left => .ok ⟨[v], left, by simp [h'] at this; omega⟩
    | ',' :: more =>
      have := length_skip_le more
      match items (skip more) with
      | .error r => .error r
      | .ok ⟨vs, left, h''⟩ => .ok ⟨v :: vs, left, by simp_all; omega⟩
    | body => .error (.malformed .comma body.length)
termination_by (cs.length, 2)
decreasing_by
  · exact Prod.Lex.right _ (by decide)
  · exact Prod.Lex.left _ _ (by simp_all; omega)

/-- Reads the members of an object up to its closing brace, onto those read before. -/
def members (before : List (String × Json)) (cs : List Char) :
    Except Refusal (Read (List (String × Json)) cs) :=
  match cs with
  | '"' :: rest =>
    match stringBody (rest.length + 1) rest with
    | .error r => .error r
    | .ok ⟨key, afterKey, hk⟩ =>
      have := length_skip_le afterKey
      match hc : skip afterKey with
      | ':' :: afterColon =>
        have := length_skip_le afterColon
        match value (skip afterColon) with
        | .error r => .error r
        | .ok ⟨v, afterValue, hv⟩ =>
          have := length_skip_le afterValue
          match he : skip afterValue with
          | '\x7d' :: left =>
            .ok ⟨insert (String.ofList key) v before, left, by simp_all; omega⟩
          | ',' :: more =>
            have := length_skip_le more
            match members (insert (String.ofList key) v before) (skip more) with
            | .error r => .error r
            | .ok ⟨ms, left, hl⟩ => .ok ⟨ms, left, by simp_all; omega⟩
          | body => .error (.malformed .comma body.length)
      | body => .error (.malformed .colon body.length)
  | cs => .error (.malformed .propertyName cs.length)
termination_by (cs.length, 2)
decreasing_by
  · exact Prod.Lex.left _ _ (by simp_all; omega)
  · exact Prod.Lex.left _ _ (by simp_all; omega)

end

/-- Reads a whole document: one value with white space around it. -/
def document (cs : List Char) : Except Refusal Json :=
  match value (skip cs) with
  | .error r => .error r
  | .ok ⟨v, rest, _⟩ =>
    match skip rest with
    | [] => .ok v
    | left => .error (.malformed .extraData left.length)

/-- Reads a document that must not start with a byte order mark. -/
def unmarkedDocument (cs : List Char) : Except Refusal Json :=
  match cs with
  | '\uFEFF' :: _ => .error (.malformed .byteOrderMark cs.length)
  | _ => document cs

/-- A fault in a text: its cause and its place, counted in characters from 0. -/
structure SyntaxFault where
  cause : Cause
  position : Nat
  deriving Repr

/-- Why a text is not read. -/
inductive Misreading where
  | malformed (f : SyntaxFault)
  | fault (f : Fault)

/-- A refusal at its place in a text of some length. -/
def Refusal.locate (length : Nat) : Refusal → Misreading
  | .malformed cause left => .malformed ⟨cause, length - left⟩
  | .fault f => .fault f

/-- Reads a text with `read` and gives a refusal its place. -/
def locating (read : List Char → Except Refusal Json) (s : String) : Except Misreading Json :=
  (read s.toList).mapError (Refusal.locate s.toList.length)

/-- Reads a JSON text. -/
def ofText (s : String) : Except Misreading Json := locating unmarkedDocument s

/-- Reads a JSON text that was decoded from bytes. The byte order mark went with the decoding, and a
further one is a character like any other. -/
def ofDecoded (s : String) : Except Misreading Json := locating document s

/-- The wording of a fault in a text: its cause, its line and column counted from 1, and its
place. -/
def SyntaxFault.message (f : SyntaxFault) (s : String) : String :=
  let before := s.toList.take f.position
  let line := before.count '\n' + 1
  let column := (before.reverse.takeWhile (· != '\n')).length + 1
  s!"{f.cause.message}: line {line} column {column} (char {f.position})"

end SurfaceStudio.Json
