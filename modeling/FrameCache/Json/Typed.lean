import FrameCache.Json.Read
import FrameCache.Text.Quoted

/-!
# Reading JSON into typed records

Readers for numbers, strings, enumerations, lists and records that read the JSON text
directly and say what they expected when the text holds something else. A record is an
object whose members are its fields in any order, unknown members being skipped, or an
array of its fields in order. A failure found while reading a value points to where the
cursor stood when it was found, unless it already points somewhere; the reader of an array
or object looks for its end before it reports a failure from inside.

Failures name what was found: `null`, `boolean `true``, `integer `5``, `floating point `6.0``,
`string "x"` (quoted with escapes), `sequence` or `map`.
-/

namespace FrameCache

/-- What a reader found instead of what it expected. -/
inductive Unexpected where
  | unit
  | bool (b : Bool)
  | unsigned (n : Nat)
  | signed (n : Int)
  | float (x : Double)
  | str (s : String)
  | seq
  | map

namespace Unexpected

/-- The text of what was found. -/
def text : Unexpected → String
  | .unit => "null"
  | .bool b => "boolean `" ++ (if b then "true" else "false") ++ "`"
  | .unsigned n => "integer `" ++ toString n ++ "`"
  | .signed n => "integer `" ++ toString n ++ "`"
  | .float x => "floating point `" ++ (if x.isFinite then x.jsonText else x.plainText) ++ "`"
  | .str s => "string " ++ Text.quoted s
  | .seq => "sequence"
  | .map => "map"

end Unexpected

namespace JsonReader

/-- A failure without a position yet. -/
def custom (text : String) : JsonError := { code := .message text }

/-- Something of the wrong type was found. -/
def invalidType (u : Unexpected) (expected : String) : JsonError :=
  custom ("invalid type: " ++ u.text ++ ", expected " ++ expected)

/-- A value of the right type but out of range was found. -/
def invalidValue (u : Unexpected) (expected : String) : JsonError :=
  custom ("invalid value: " ++ u.text ++ ", expected " ++ expected)

/-- A sequence ended too early. -/
def invalidLength (n : Nat) (expected : String) : JsonError :=
  custom ("invalid length " ++ toString n ++ ", expected " ++ expected)

/-- Names in backticks, joined as in `a`, `a` or `b`, `a`, `b`, `c`. -/
def oneOf (names : List String) : String :=
  match names with
  | [] => "there are no variants"
  | [a] => "`" ++ a ++ "`"
  | [a, b] => "`" ++ a ++ "` or `" ++ b ++ "`"
  | _ => "one of " ++ ", ".intercalate (names.map fun n => "`" ++ n ++ "`")

/-- The text of a number as found. -/
def Unexpected.ofNumber : Number → Unexpected
  | .int n => if n ≥ 0 then .unsigned n.toNat else .signed n
  | .float x => .float x

/-- What is at the cursor, read for a failure saying that `expected` was wanted; arrays and
objects are not read. -/
def peekInvalidType (expected : String) : JsonReader JsonError := do
  let e ← tryCatch (do
      match ← peekOrNull with
      | 110 => eat; keyword [117, 108, 108]; pure (invalidType .unit expected)
      | 116 => eat; keyword [114, 117, 101]; pure (invalidType (.bool true) expected)
      | 102 => eat; keyword [97, 108, 115, 101]; pure (invalidType (.bool false) expected)
      | 45 => eat; pure (invalidType (Unexpected.ofNumber (← unsignedNumber false)) expected)
      | 34 => eat; pure (invalidType (.str (← stringBody)) expected)
      | 91 => pure (invalidType .seq expected)
      | 123 => pure (invalidType .map expected)
      | b =>
        if isDigit b then pure (invalidType (Unexpected.ofNumber (← unsignedNumber true)) expected)
        else failPeek .expectedSomeValue)
    (fun e => pure e)
  fixPosition e

/-- Runs a typed read; a failure without a position gets the cursor's. -/
def typed {α} (r : JsonReader α) : JsonReader α :=
  tryCatch r fun e => do throw (← fixPosition e)

/-- Reads a whole number of at most `max` for a field expecting `name`. -/
def readNat (name : String) (max : Nat) : JsonReader Nat := typed do
  let n ← match ← skipBlanks with
    | none => failPeek .eofWhileParsingValue
    | some 45 => eat; unsignedNumber false
    | some b => if isDigit b then unsignedNumber true else throw (← peekInvalidType name)
  match n with
  | .int i =>
    if i < 0 then throw (invalidValue (.signed i) name)
    else if i.toNat > max then throw (invalidValue (.unsigned i.toNat) name)
    else pure i.toNat
  | .float x => throw (invalidType (.float x) name)

/-- Reads a string for a field expecting `name`, and converts it. -/
def readStringWith {α} (name : String) (convert : String → Except JsonError α) : JsonReader α :=
  typed do
    match ← skipBlanks with
    | none => failPeek .eofWhileParsingValue
    | some 34 =>
      eat
      match convert (← stringBody) with
      | .ok a => pure a
      | .error e => throw e
    | some _ => throw (← peekInvalidType name)

/-- Reads a string. -/
def readString : JsonReader String := readStringWith "a string" .ok

/-- Reads one of the named unit variants of an enumeration, as a string or as an object
with the variant as its only key and `null` as its value. In the object form the key must be
a string: an empty object lacks a value, an object cut off after its brace ends early, and
any other token in its place is refused as a key. -/
def readVariant (enumName : String) (variants : List String) : JsonReader Nat := do
  let pick (s : String) : Except JsonError Nat :=
    match variants.idxOf? s with
    | some i => .ok i
    | none => .error (custom ("unknown variant `" ++ s ++ "`, expected " ++ oneOf variants))
  match ← skipBlanks with
  | some 34 => readStringWith "variant identifier" pick
  | some 123 =>
    eat
    match ← skipBlanks with
    | some 34 => pure ()
    | some 125 => failPeek .expectedSomeValue
    | some _ => failPeek .keyMustBeAString
    | none => failPeek .eofWhileParsingObject
    let i ← readStringWith "variant identifier" pick
    colon
    typed do
      match ← skipBlanks with
      | none => failPeek .eofWhileParsingValue
      | some 110 => eat; keyword [117, 108, 108]
      | some _ => throw (← peekInvalidType "unit")
    match ← skipBlanks with
    | some 125 => eat; return i
    | some _ => fail .expectedSomeValue
    | none => fail .eofWhileParsingObject
  | some _ => failPeek .expectedSomeValue
  | none => let _ := enumName; failPeek .eofWhileParsingValue

/-- Reads a list whose items are read by `item`. -/
def readList {α} (item : JsonReader α) : JsonReader (List α) := typed do
  match ← skipBlanks with
  | none => failPeek .eofWhileParsingValue
  | some 91 =>
    eat
    let c ← get
    let rec go (first : Bool) (acc : Array α) (fuel : Nat) : JsonReader (List α) := do
      match fuel with
      | 0 => failPeek .eofWhileParsingList
      | fuel + 1 =>
        if ← nextItem first then
          let a ← item
          go false (acc.push a) fuel
        else return acc.toList
    enclosed (go true #[] (c.bytes.size - c.pos + 1)) endArray
  | some _ => throw (← peekInvalidType "a sequence")

/-- How to read one kind of record. -/
structure RecordSpec (α β : Type) where
  /-- What the record is called in failures, such as `struct Section`. -/
  expecting : String
  /-- What an array that ends too early was expected to be. -/
  lengthExpecting : String
  /-- The field names, in order. -/
  fields : List String
  /-- Whether an unknown member is a failure rather than skipped. -/
  denyUnknown : Bool := false
  /-- Reads the value of field `i`. -/
  field : Nat → JsonReader α
  /-- Builds the record from its fields, in order. -/
  build : List α → Except JsonError β

/-- Reads a record as an object of its fields or an array of them. -/
def readRecord {α β} (spec : RecordSpec α β) : JsonReader β := typed do
  match ← skipBlanks with
  | none => failPeek .eofWhileParsingValue
  | some 91 =>
    eat
    let body : JsonReader β := do
      let mut vals : Array α := #[]
      let mut first := true
      for i in [0:spec.fields.length] do
        if ← nextItem first then
          vals := vals.push (← spec.field i)
          first := false
        else throw (invalidLength i spec.lengthExpecting)
      match spec.build vals.toList with
      | .ok b => pure b
      | .error e => throw e
    enclosed body endArray
  | some 123 =>
    eat
    let c ← get
    let rec members (first : Bool) (vals : Array (Option α)) (fuel : Nat) :
        JsonReader (Array (Option α)) := do
      match fuel with
      | 0 => failPeek .eofWhileParsingObject
      | fuel + 1 =>
        match ← nextKey first with
        | none => return vals
        | some k =>
          match spec.fields.idxOf? k with
          | some i =>
            if (vals.getD i none).isSome then
              throw (custom ("duplicate field `" ++ k ++ "`"))
            colon
            let v ← spec.field i
            members false (vals.set! i (some v)) fuel
          | none =>
            if spec.denyUnknown then
              throw (custom ("unknown field `" ++ k ++ "`, expected " ++ oneOf spec.fields))
            colon
            skipValue
            members false vals fuel
    let body : JsonReader β := do
      let vals ← members true (Array.replicate spec.fields.length none) (c.bytes.size - c.pos + 1)
      let mut out : Array α := #[]
      for (name, v) in spec.fields.zip vals.toList do
        match v with
        | some a => out := out.push a
        | none => throw (custom ("missing field `" ++ name ++ "`"))
      match spec.build out.toList with
      | .ok b => pure b
      | .error e => throw e
    enclosed body endObject
  | some _ => throw (← peekInvalidType spec.expecting)

/-- Reads one typed value that makes up the whole input, with only blanks after it. -/
def readWhole {α} (r : JsonReader α) (bytes : ByteArray) : Except JsonError α :=
  match (do let a ← r; finish; return a : JsonReader α).run ⟨bytes, 0⟩ with
  | .ok a _ => .ok a
  | .error e _ => .error e

end JsonReader

end FrameCache
