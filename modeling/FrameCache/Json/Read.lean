import FrameCache.Json.Value
import FrameCache.Decimal.Read

/-!
# Reading JSON text

JSON is read from bytes by a cursor that moves forward through them. A failure carries a
code and, once known, the position it refers to, as a line (from 1) and a column (bytes
since the last line break). A failure noticed at the cursor points at the cursor; one noticed
on looking at the next byte points just past it.

Numbers: a whole number without fraction or exponent is kept whole while it fits in 64 bits
(a negative one while it fits in the signed range, and `-0` is the double `-0.0`); digits
beyond those are counted as a power of ten. Any other number is its 64-bit significand,
turned into the nearest double and then multiplied or divided once by the double nearest to
the power of ten; a result beyond the largest double fails as out of range.

Strings must be valid UTF-8 without raw control characters, checked after the whole string
is read; `\u` escapes of the two halves of a surrogate pair must come together.

`Json.parse` reads one value with nothing but blanks after it. Nesting deeper than 127
arrays or objects fails.
-/

namespace FrameCache

/-- What went wrong while reading JSON. -/
inductive JsonErrorCode where
  | message (text : String)
  | eofWhileParsingList
  | eofWhileParsingObject
  | eofWhileParsingString
  | eofWhileParsingValue
  | expectedColon
  | expectedListCommaOrEnd
  | expectedObjectCommaOrEnd
  | expectedSomeIdent
  | expectedSomeValue
  | invalidEscape
  | invalidNumber
  | numberOutOfRange
  | invalidUnicodeCodePoint
  | controlCharacterWhileParsingString
  | keyMustBeAString
  | loneLeadingSurrogateInHexEscape
  | trailingComma
  | trailingCharacters
  | unexpectedEndOfHexEscape
  | recursionLimitExceeded
  deriving DecidableEq, Repr

namespace JsonErrorCode

/-- The text of a failure. -/
def text : JsonErrorCode → String
  | .message t => t
  | .eofWhileParsingList => "EOF while parsing a list"
  | .eofWhileParsingObject => "EOF while parsing an object"
  | .eofWhileParsingString => "EOF while parsing a string"
  | .eofWhileParsingValue => "EOF while parsing a value"
  | .expectedColon => "expected `:`"
  | .expectedListCommaOrEnd => "expected `,` or `]`"
  | .expectedObjectCommaOrEnd => "expected `,` or `\x7d`"
  | .expectedSomeIdent => "expected ident"
  | .expectedSomeValue => "expected value"
  | .invalidEscape => "invalid escape"
  | .invalidNumber => "invalid number"
  | .numberOutOfRange => "number out of range"
  | .invalidUnicodeCodePoint => "invalid unicode code point"
  | .controlCharacterWhileParsingString =>
    "control character (\\u0000-\\u001F) found while parsing a string"
  | .keyMustBeAString => "key must be a string"
  | .loneLeadingSurrogateInHexEscape => "lone leading surrogate in hex escape"
  | .trailingComma => "trailing comma"
  | .trailingCharacters => "trailing characters"
  | .unexpectedEndOfHexEscape => "unexpected end of hex escape"
  | .recursionLimitExceeded => "recursion limit exceeded"

end JsonErrorCode

/-- A failure to read JSON, with its line and column once known. -/
structure JsonError where
  code : JsonErrorCode
  position : Option (Nat × Nat) := none
  deriving DecidableEq, Repr

namespace JsonError

/-- The text of a failure, followed by its position when it has one. -/
def message (e : JsonError) : String :=
  match e.position with
  | some (l, c) => e.code.text ++ " at line " ++ toString l ++ " column " ++ toString c
  | none => e.code.text

end JsonError

/-- The input and the index of the next byte to read. -/
structure Cursor where
  bytes : ByteArray
  pos : Nat

/-- Reading JSON: moves the cursor and may fail; the cursor stays where the failure happened. -/
abbrev JsonReader := EStateM JsonError Cursor

namespace JsonReader

/-- Line and column of a byte index. -/
def positionOf (bytes : ByteArray) (i : Nat) : Nat × Nat :=
  let before := (bytes.toList.take i)
  let lineStart := match before.reverse.findIdx? (· == 10) with
    | some j => i - j
    | none => 0
  let lines := (before.take lineStart).count 10
  (1 + lines, i - lineStart)

/-- The byte at the cursor, if any. -/
def peek : JsonReader (Option UInt8) := fun c =>
  .ok (if h : c.pos < c.bytes.size then some c.bytes[c.pos] else none) c

/-- The byte at the cursor, or zero at the end. -/
def peekOrNull : JsonReader UInt8 := do return (← peek).getD 0

/-- Moves past one byte. -/
def eat : JsonReader Unit := modify fun c => { c with pos := c.pos + 1 }

/-- The byte at the cursor, moving past it. -/
def next : JsonReader (Option UInt8) := do
  let b ← peek
  if b.isSome then eat
  return b

/-- The byte at the cursor or zero at the end, moving past it when there is one. -/
def nextOrNull : JsonReader UInt8 := do return (← next).getD 0

/-- Line and column of the cursor. -/
def position : JsonReader (Nat × Nat) := fun c => .ok (positionOf c.bytes c.pos) c

/-- Line and column just past the cursor, or of the end. -/
def peekPosition : JsonReader (Nat × Nat) := fun c =>
  .ok (positionOf c.bytes (min (c.pos + 1) c.bytes.size)) c

/-- Fails at the cursor. -/
def fail {α} (code : JsonErrorCode) : JsonReader α := do
  throw { code, position := some (← position) }

/-- Fails just past the cursor. -/
def failPeek {α} (code : JsonErrorCode) : JsonReader α := do
  throw { code, position := some (← peekPosition) }

/-- A failure with the position of the cursor, unless it already has one. -/
def fixPosition (e : JsonError) : JsonReader JsonError := do
  match e.position with
  | some _ => return e
  | none => return { e with position := some (← position) }

/-- Skips blanks (space, tab, line feed, carriage return) and gives the next byte. -/
def skipBlanks : JsonReader (Option UInt8) := fun c =>
  let rec go (i : Nat) (fuel : Nat) : Nat :=
    match fuel with
    | 0 => i
    | fuel + 1 =>
      if h : i < c.bytes.size then
        let b := c.bytes[i]
        if b == 32 || b == 10 || b == 9 || b == 13 then go (i + 1) fuel else i
      else i
  let i := go c.pos (c.bytes.size - c.pos)
  .ok (if h : i < c.bytes.size then some c.bytes[i] else none) { c with pos := i }

/-- Reads the rest of a keyword whose first byte is already read. -/
def keyword (rest : List UInt8) : JsonReader Unit := do
  for b in rest do
    match ← next with
    | none => fail .eofWhileParsingValue
    | some x => if x != b then fail .expectedSomeIdent

/-- Whether a byte is a decimal digit. -/
def isDigit (b : UInt8) : Bool := 48 ≤ b && b ≤ 57

/-- Skips decimal digits. -/
def skipDigits : JsonReader Unit := fun c =>
  let rec go (i : Nat) (fuel : Nat) : Nat :=
    match fuel with
    | 0 => i
    | fuel + 1 =>
      if h : i < c.bytes.size then (if isDigit c.bytes[i] then go (i + 1) fuel else i) else i
  .ok () { c with pos := go c.pos (c.bytes.size - c.pos) }

/-- The double nearest to `10^n` for `n ≤ 308`. -/
def powerOfTen (n : Nat) : Double := Decimal.toDouble false 1 n

/-- The double of a 64-bit significand scaled by a power of ten: the significand is rounded
to a double, then multiplied or divided once by the power of ten, steps of `10^308` apart
below that range; a product beyond the largest double fails. -/
def fromParts (positive : Bool) (significand : Nat) (exponent : Int) : JsonReader Double := do
  let mut f := Decimal.toDouble false significand 0
  let mut e := exponent
  for _ in [0:8] do
    if e.natAbs ≤ 308 then
      if e ≥ 0 then
        f := f.mul (powerOfTen e.toNat)
        if f.isInf then fail .numberOutOfRange
      else f := f.div (powerOfTen e.natAbs)
      break
    else
      if f.isZero then break
      if e ≥ 0 then fail .numberOutOfRange
      f := f.div (powerOfTen 308)
      e := e + 308
  return if positive then f else ⟨f.bits ^^^ 0x8000000000000000⟩

/-- The largest value of 64 bits. -/
def u64Max : Nat := 18446744073709551615

/-- Reads the exponent part after `e` and finishes the number. -/
def exponentPart (positive : Bool) (significand : Nat) (start : Int) : JsonReader Double := do
  eat
  let positiveExp ← do
    match ← peekOrNull with
    | 43 => eat; pure true
    | 45 => eat; pure false
    | _ => pure true
  let first ← match ← next with
    | none => fail .eofWhileParsingValue
    | some b => if isDigit b then pure (b.toNat - 48) else fail .invalidNumber
  let rec digits (exp : Nat) (fuel : Nat) : JsonReader (Option Nat) := do
    match fuel with
    | 0 => return some exp
    | fuel + 1 =>
      let b ← peekOrNull
      if isDigit b then
        eat
        let exp' := exp * 10 + (b.toNat - 48)
        if exp' > 2147483647 then return none
        digits exp' fuel
      else return some exp
  match ← digits first 1000000000 with
  | some exp =>
    let final : Int := if positiveExp then start + exp else start - exp
    fromParts positive significand final
  | none =>
    -- the exponent itself is too large
    if significand != 0 && positiveExp then fail .numberOutOfRange
    skipDigits
    return if positive then Double.zero else Double.negZero

/-- Reads the fraction after the point and finishes the number. -/
def fractionPart (positive : Bool) (significand : Nat) (before : Int) : JsonReader Double := do
  eat
  let rec digits (sig : Nat) (count : Nat) (fuel : Nat) : JsonReader (Nat × Nat × Bool) := do
    match fuel with
    | 0 => return (sig, count, false)
    | fuel + 1 =>
      let b ← peekOrNull
      if isDigit b then
        let sig' := sig * 10 + (b.toNat - 48)
        if sig' > u64Max then return (sig, count, true)
        eat
        digits sig' (count + 1) fuel
      else return (sig, count, false)
  let (sig, count, overflow) ← digits significand 0 1000000000
  if overflow then
    skipDigits
    match ← peekOrNull with
    | 101 | 69 => exponentPart positive sig (before - count)
    | _ => fromParts positive sig (before - count)
  else
    if count = 0 then
      match ← peek with
      | some _ => failPeek .invalidNumber
      | none => failPeek .eofWhileParsingValue
    match ← peekOrNull with
    | 101 | 69 => exponentPart positive sig (before - count)
    | _ => fromParts positive sig (before - count)

/-- Reads a number after its sign, with the first digit at the cursor. -/
def unsignedNumber (positive : Bool) : JsonReader Number := do
  match ← next with
  | none => fail .eofWhileParsingValue
  | some b =>
    if b == 48 then
      if isDigit (← peekOrNull) then failPeek .invalidNumber
      afterDigits 0
    else if isDigit b then
      let rec digits (sig : Nat) (fuel : Nat) : JsonReader Number := do
        match fuel with
        | 0 => afterDigits sig
        | fuel + 1 =>
          let c ← peekOrNull
          if isDigit c then
            let sig' := sig * 10 + (c.toNat - 48)
            if sig' > u64Max then
              -- further digits only scale the value
              let rec extra (count : Nat) (fuel : Nat) : JsonReader Double := do
                match fuel with
                | 0 => fromParts positive sig count
                | fuel + 1 =>
                  match ← peekOrNull with
                  | 46 => fractionPart positive sig count
                  | 101 | 69 => exponentPart positive sig count
                  | d => if isDigit d then (do eat; extra (count + 1) fuel)
                         else fromParts positive sig count
              return .float (← extra 0 1000000000)
            eat
            digits sig' fuel
          else afterDigits sig
      digits (b.toNat - 48) 1000000000
    else fail .invalidNumber
where
  afterDigits (sig : Nat) : JsonReader Number := do
    match ← peekOrNull with
    | 46 => return .float (← fractionPart positive sig 0)
    | 101 | 69 => return .float (← exponentPart positive sig 0)
    | _ =>
      if positive then return .int sig
      else if sig = 0 || sig > 9223372036854775808 then
        return .float (Decimal.toDouble true sig 0)
      else return .int (-(sig : Int))

/-- Skips a number without reading its value, with the same checks of its form. -/
def skipNumber : JsonReader Unit := do
  match ← nextOrNull with
  | 48 => if isDigit (← peekOrNull) then failPeek .invalidNumber
  | b => if isDigit b then skipDigits else fail .invalidNumber
  let exponent : JsonReader Unit := do
    eat
    match ← peekOrNull with
    | 43 | 45 => eat
    | _ => pure ()
    if !isDigit (← nextOrNull) then fail .invalidNumber
    skipDigits
  match ← peekOrNull with
  | 46 =>
    eat
    if !isDigit (← peekOrNull) then failPeek .invalidNumber
    skipDigits
    match ← peekOrNull with
    | 101 | 69 => exponent
    | _ => pure ()
  | 101 | 69 => exponent
  | _ => pure ()

/-- The value of a hexadecimal digit. -/
def hexValue (b : UInt8) : Option Nat :=
  if 48 ≤ b && b ≤ 57 then some (b.toNat - 48)
  else if 97 ≤ b && b ≤ 102 then some (b.toNat - 87)
  else if 65 ≤ b && b ≤ 70 then some (b.toNat - 55)
  else none

/-- Reads four hexadecimal digits of a `\u` escape. -/
def hexEscape : JsonReader Nat := fun c =>
  if c.pos + 4 ≤ c.bytes.size then
    let ds := (List.range 4).map fun k => hexValue (c.bytes.get! (c.pos + k))
    let c' := { c with pos := c.pos + 4 }
    match ds with
    | [some a, some b, some d, some e] => .ok (((a * 16 + b) * 16 + d) * 16 + e) c'
    | _ => .error { code := .invalidEscape, position := some (positionOf c.bytes c'.pos) } c'
  else
    let c' := { c with pos := c.bytes.size }
    .error { code := .eofWhileParsingString, position := some (positionOf c.bytes c'.pos) } c'

/-- The UTF-8 bytes of a code point. -/
def utf8Bytes (n : Nat) : List UInt8 :=
  if n < 0x80 then [n.toUInt8]
  else if n < 0x800 then [(0xC0 + n / 64).toUInt8, (0x80 + n % 64).toUInt8]
  else if n < 0x10000 then
    [(0xE0 + n / 4096).toUInt8, (0x80 + n / 64 % 64).toUInt8, (0x80 + n % 64).toUInt8]
  else
    [(0xF0 + n / 262144).toUInt8, (0x80 + n / 4096 % 64).toUInt8,
      (0x80 + n / 64 % 64).toUInt8, (0x80 + n % 64).toUInt8]

/-- The byte at the cursor, failing at the end of the input inside a string. -/
def nextInString : JsonReader UInt8 := do
  match ← next with
  | some b => return b
  | none => fail .eofWhileParsingString

/-- Reads a `\u` escape; a first surrogate half must be followed by an escaped second
half. -/
def unicodeEscape : JsonReader (List UInt8) := do
  let n ← hexEscape
  if 0xDC00 ≤ n && n ≤ 0xDFFF then fail .loneLeadingSurrogateInHexEscape
  if n < 0xD800 || n > 0xDBFF then return utf8Bytes n
  match ← peek with
  | none => fail .eofWhileParsingString
  | some b => if b != 92 then (do eat; fail .unexpectedEndOfHexEscape) else eat
  match ← peek with
  | none => fail .eofWhileParsingString
  | some b => if b != 117 then (do eat; fail .unexpectedEndOfHexEscape) else eat
  let n2 ← hexEscape
  if n2 < 0xDC00 || n2 > 0xDFFF then fail .loneLeadingSurrogateInHexEscape
  return utf8Bytes ((((n - 0xD800) * 1024) ||| (n2 - 0xDC00)) + 0x10000)

/-- Reads one escape after a backslash. -/
def escape : JsonReader (List UInt8) := do
  match ← nextInString with
  | 34 => return [34]
  | 92 => return [92]
  | 47 => return [47]
  | 98 => return [8]
  | 102 => return [12]
  | 110 => return [10]
  | 114 => return [13]
  | 116 => return [9]
  | 117 => unicodeEscape
  | _ => fail .invalidEscape

/-- The text of UTF-8 bytes, if they are valid. -/
def utf8Text? (bs : List UInt8) : Option String := String.fromUTF8? (ByteArray.mk bs.toArray)

/-- Whether a byte continues a UTF-8 sequence. -/
def isContinuation (b : UInt8) : Bool := 0x80 ≤ b && b ≤ 0xBF

/-- Whether two bytes open a well-formed UTF-8 sequence of three bytes: the second byte
keeps the code point above the two-byte range and outside the surrogates. -/
def opensThree (a b : UInt8) : Bool :=
  if a = 0xE0 then 0xA0 ≤ b && b ≤ 0xBF
  else if a = 0xED then 0x80 ≤ b && b ≤ 0x9F
  else 0xE1 ≤ a && a ≤ 0xEF && isContinuation b

/-- Whether two bytes open a well-formed UTF-8 sequence of four bytes: the second byte keeps
the code point above the three-byte range and at most U+10FFFF. -/
def opensFour (a b : UInt8) : Bool :=
  if a = 0xF0 then 0x90 ≤ b && b ≤ 0xBF
  else if a = 0xF4 then 0x80 ≤ b && b ≤ 0x8F
  else 0xF1 ≤ a && a ≤ 0xF3 && isContinuation b

/-- The length of the longest prefix of the bytes made of whole well-formed UTF-8
sequences: the bytes are valid UTF-8 exactly when it is their length. -/
def utf8ValidPrefix : List UInt8 → Nat
  | [] => 0
  | a :: rest =>
    if a < 0x80 then 1 + utf8ValidPrefix rest
    else
      match rest with
      | b :: rest =>
        if 0xC2 ≤ a && a ≤ 0xDF && isContinuation b then 2 + utf8ValidPrefix rest
        else
          match rest with
          | c :: rest =>
            if opensThree a b && isContinuation c then 3 + utf8ValidPrefix rest
            else
              match rest with
              | d :: rest =>
                if opensFour a b && isContinuation c && isContinuation d then
                  4 + utf8ValidPrefix rest
                else 0
              | [] => 0
          | [] => 0
      | [] => 0


/-- Reads the rest of a string whose opening quote is read. The bytes it stands for, its
escapes decoded, are checked to be UTF-8 once the closing quote is read; a failure points
back from the end of the string by as many bytes as follow the valid part of them. -/
def stringBody : JsonReader String := do
  let rec go (acc : Array UInt8) (fuel : Nat) : JsonReader (Array UInt8) := do
    match fuel with
    | 0 => fail .eofWhileParsingString
    | fuel + 1 =>
      match ← peek with
      | none => fail .eofWhileParsingString
      | some 34 => eat; return acc
      | some 92 => eat; let bs ← escape; go (acc ++ bs.toArray) fuel
      | some b =>
        if b < 32 then (do eat; fail .controlCharacterWhileParsingString)
        else (do eat; go (acc.push b) fuel)
  let c ← get
  let bs ← go #[] (c.bytes.size - c.pos + 1)
  let valid := utf8ValidPrefix bs.toList
  if valid < bs.size then
    modify fun c => { c with pos := c.pos - (bs.size - valid) }
    fail .invalidUnicodeCodePoint
  match utf8Text? bs.toList with
  | some s => return s
  | none => fail .invalidUnicodeCodePoint

/-- Skips the rest of a string whose opening quote is read, checking escapes and control
characters but not the UTF-8 of its bytes. -/
def skipStringBody : JsonReader Unit := do
  let rec go (fuel : Nat) : JsonReader Unit := do
    match fuel with
    | 0 => fail .eofWhileParsingString
    | fuel + 1 =>
      match ← peek with
      | none => fail .eofWhileParsingString
      | some 34 => eat
      | some 92 =>
        eat
        match ← nextInString with
        | 34 | 92 | 47 | 98 | 102 | 110 | 114 | 116 => go fuel
        | 117 => let _ ← hexEscape; go fuel
        | _ => fail .invalidEscape
      | some b => if b < 32 then fail .controlCharacterWhileParsingString else (do eat; go fuel)
  let c ← get
  go (c.bytes.size - c.pos + 1)

/-- Skips one value of any kind, checking its form. -/
def skipValue : JsonReader Unit := do
  -- the open arrays (`[`) and objects (`{`) around the cursor, innermost first
  let rec go (stack : List UInt8) (fuel : Nat) : JsonReader Unit := do
    match fuel with
    | 0 => fail .eofWhileParsingValue
    | fuel + 1 =>
      let opened ← do
        match ← skipBlanks with
        | none => failPeek .eofWhileParsingValue
        | some 110 => eat; keyword [117, 108, 108]; pure none
        | some 116 => eat; keyword [114, 117, 101]; pure none
        | some 102 => eat; keyword [97, 108, 115, 101]; pure none
        | some 45 => eat; skipNumber; pure none
        | some 34 => eat; skipStringBody; pure none
        | some 91 => eat; pure (some (91 : UInt8))
        | some 123 => eat; pure (some (123 : UInt8))
        | some b => if isDigit b then (do skipNumber; pure none) else failPeek .expectedSomeValue
      -- after a value: close frames until a comma or the next member
      let rec close (stack : List UInt8) (frame : UInt8) (acceptComma : Bool) (fuel : Nat) :
          JsonReader (Option (List UInt8)) := do
        match fuel with
        | 0 => fail .eofWhileParsingValue
        | fuel + 1 =>
          match ← skipBlanks with
          | some 44 =>
            if acceptComma then (do eat; return some (frame :: stack))
            else return some (frame :: stack)
          | some 93 =>
            if frame == 91 then
              eat
              match stack with
              | [] => return none
              | f :: rest => close rest f true fuel
            else if acceptComma then failPeek .expectedObjectCommaOrEnd
            else return some (frame :: stack)
          | some 125 =>
            if frame == 123 then
              eat
              match stack with
              | [] => return none
              | f :: rest => close rest f true fuel
            else if acceptComma then failPeek .expectedListCommaOrEnd
            else return some (frame :: stack)
          | some _ =>
            if acceptComma then
              failPeek (if frame == 91 then .expectedListCommaOrEnd else .expectedObjectCommaOrEnd)
            else return some (frame :: stack)
          | none =>
            failPeek (if frame == 91 then .eofWhileParsingList else .eofWhileParsingObject)
      let next ← match opened with
        | some f => close stack f false fuel
        | none =>
          match stack with
          | [] => pure none
          | f :: rest => close rest f true fuel
      match next with
      | none => return ()
      | some [] => return ()
      | some (frame :: rest) =>
        if frame == 123 then
          match ← skipBlanks with
          | some 34 => eat
          | some _ => failPeek .keyMustBeAString
          | none => failPeek .eofWhileParsingObject
          skipStringBody
          match ← skipBlanks with
          | some 58 => eat
          | some _ => failPeek .expectedColon
          | none => failPeek .eofWhileParsingObject
        go (frame :: rest) fuel
  let c ← get
  go [] (2 * (c.bytes.size - c.pos) + 2)

/-- Reads the colon between a key and its value. -/
def colon : JsonReader Unit := do
  match ← skipBlanks with
  | some 58 => eat
  | some _ => failPeek .expectedColon
  | none => failPeek .eofWhileParsingObject

/-- Reads the end of an array whose items are read. -/
def endArray : JsonReader Unit := do
  match ← skipBlanks with
  | some 93 => eat
  | some 44 =>
    eat
    match ← skipBlanks with
    | some 93 => failPeek .trailingComma
    | _ => failPeek .trailingCharacters
  | some _ => failPeek .trailingCharacters
  | none => failPeek .eofWhileParsingList

/-- Reads the end of an object whose members are read. -/
def endObject : JsonReader Unit := do
  match ← skipBlanks with
  | some 125 => eat
  | some 44 => failPeek .trailingComma
  | some _ => failPeek .trailingCharacters
  | none => failPeek .eofWhileParsingObject

/-- Moves to the next item of an array: `false` at its end. `first` tells whether an item
was read before. -/
def nextItem (first : Bool) : JsonReader Bool := do
  let b ← match ← skipBlanks with
    | some 93 => return false
    | some 44 => if first then pure (some (44 : UInt8)) else (do eat; skipBlanks)
    | some b => if first then pure (some b) else failPeek .expectedListCommaOrEnd
    | none => failPeek .eofWhileParsingList
  match b with
  | some 93 => failPeek .trailingComma
  | some _ => return true
  | none => failPeek .eofWhileParsingValue

/-- Moves to the next key of an object and reads it: `none` at its end. -/
def nextKey (first : Bool) : JsonReader (Option String) := do
  let b ← match ← skipBlanks with
    | some 125 => return none
    | some 44 => if first then pure (some (44 : UInt8)) else (do eat; skipBlanks)
    | some b => if first then pure (some b) else failPeek .expectedObjectCommaOrEnd
    | none => failPeek .eofWhileParsingObject
  match b with
  | some 34 => eat; return some (← stringBody)
  | some 125 => failPeek .trailingComma
  | some _ => failPeek .keyMustBeAString
  | none => failPeek .eofWhileParsingValue

/-- Runs `body` between an opening bracket and its end; when `body` fails, the end is still
looked for, and the failure of `body` wins. -/
def enclosed {α} (body : JsonReader α) (finish : JsonReader Unit) : JsonReader α :=
  tryCatch (do let a ← body; finish; return a)
    (fun e => do tryCatch finish (fun _ => pure ()); throw e)

/-- Limits nesting to 127 arrays or objects. -/
def enter (depth : Nat) : JsonReader Nat :=
  if depth ≤ 1 then failPeek .recursionLimitExceeded else pure (depth - 1)

/-- Reads one value of any kind. Members of an object are kept sorted by key; of two members
with one key the later stays. -/
def value (depth : Nat) : JsonReader Json := do
  match depth with
  | 0 => failPeek .recursionLimitExceeded
  | depth + 1 =>
    let r : JsonReader Json := do
      match ← skipBlanks with
      | none => failPeek .eofWhileParsingValue
      | some 110 => eat; keyword [117, 108, 108]; return .null
      | some 116 => eat; keyword [114, 117, 101]; return .bool true
      | some 102 => eat; keyword [97, 108, 115, 101]; return .bool false
      | some 45 => eat; return .num (← unsignedNumber false)
      | some 34 => eat; return .str (← stringBody)
      | some 91 =>
        let _ ← enter (depth + 1)
        eat
        enclosed (items depth true [] (← remaining)) endArray
      | some 123 =>
        let _ ← enter (depth + 1)
        eat
        enclosed (members depth true [] (← remaining)) endObject
      | some b => if isDigit b then return .num (← unsignedNumber true) else failPeek .expectedSomeValue
    tryCatch r fun e => do throw (← fixPosition e)
where
  remaining : JsonReader Nat := do let c ← get; return c.bytes.size - c.pos + 1
  items (depth : Nat) (first : Bool) (acc : List Json) (fuel : Nat) : JsonReader Json := do
    match fuel with
    | 0 => failPeek .eofWhileParsingList
    | fuel + 1 =>
      if ← nextItem first then
        let v ← value depth
        items depth false (v :: acc) fuel
      else return .arr acc.reverse
  members (depth : Nat) (first : Bool) (acc : List (String × Json)) (fuel : Nat) :
      JsonReader Json := do
    match fuel with
    | 0 => failPeek .eofWhileParsingObject
    | fuel + 1 =>
      match ← nextKey first with
      | none => return .obj acc
      | some k =>
        colon
        let v ← value depth
        members depth false (Json.insertSorted k v acc) fuel

/-- Checks that only blanks follow. -/
def finish : JsonReader Unit := do
  match ← skipBlanks with
  | some _ => failPeek .trailingCharacters
  | none => pure ()

end JsonReader

namespace Json

/-- Reads one JSON value from bytes, with nothing but blanks after it. -/
def parseBytes (bytes : ByteArray) : Except JsonError Json :=
  match (do let v ← JsonReader.value 128; JsonReader.finish; return v : JsonReader Json).run
      ⟨bytes, 0⟩ with
  | .ok v _ => .ok v
  | .error e _ => .error e

/-- Reads one JSON value from text. -/
def parse (s : String) : Except JsonError Json := parseBytes s.toUTF8

end Json

end FrameCache
