/-!
# Text columns on disk

A text column is stored as its count of entries and then each entry as its length in bytes
and its UTF-8 bytes, every count and length a 64-bit little-endian number. Bytes after the
last entry are ignored.

Reading fails when a count or length is cut short, when the bytes of an entry are cut
short, or when an entry is not valid UTF-8; the last case tells where the first bad
sequence starts and how many of its bytes are known to be wrong (or that the text ends
inside it).
-/

namespace FrameCache

/-- Why UTF-8 bytes are not text: the index where the first bad sequence starts, and how
many bytes of it are wrong, none when the bytes end inside the sequence. -/
structure Utf8Error where
  validUpTo : Nat
  errorLength : Option Nat
  deriving DecidableEq, Repr

namespace Utf8Error

/-- The text of a UTF-8 error. -/
def message (e : Utf8Error) : String :=
  match e.errorLength with
  | some n => "invalid utf-8 sequence of " ++ toString n ++ " bytes from index " ++ toString e.validUpTo
  | none => "incomplete utf-8 byte sequence from index " ++ toString e.validUpTo

end Utf8Error

namespace Utf8

/-- Whether a byte continues a sequence. -/
def isContinuation (b : UInt8) : Bool := 0x80 ≤ b && b ≤ 0xBF

/-- Whether the second byte of a sequence is allowed after its first byte. -/
def secondOk (first second : UInt8) : Bool :=
  if first = 0xE0 then 0xA0 ≤ second && second ≤ 0xBF
  else if first = 0xED then 0x80 ≤ second && second ≤ 0x9F
  else if first = 0xF0 then 0x90 ≤ second && second ≤ 0xBF
  else if first = 0xF4 then 0x80 ≤ second && second ≤ 0x8F
  else isContinuation second

/-- The length of the sequence a first byte opens: 1 for ASCII, 2 to 4, or 0 if no sequence
starts with it. -/
def width (b : UInt8) : Nat :=
  if b < 0x80 then 1
  else if 0xC2 ≤ b && b ≤ 0xDF then 2
  else if 0xE0 ≤ b && b ≤ 0xEF then 3
  else if 0xF0 ≤ b && b ≤ 0xF4 then 4
  else 0

/-- Checks UTF-8 bytes from a start index. -/
def validateFrom (bs : List UInt8) (i : Nat) : Except Utf8Error Unit :=
  match bs with
  | [] => .ok ()
  | b :: rest =>
    match width b with
    | 1 => validateFrom rest (i + 1)
    | 0 => .error ⟨i, some 1⟩
    | w =>
      match rest with
      | [] => .error ⟨i, none⟩
      | c :: rest2 =>
        if !(if w = 2 then isContinuation c else secondOk b c) then .error ⟨i, some 1⟩
        else if w = 2 then validateFrom rest2 (i + 2)
        else
          match rest2 with
          | [] => .error ⟨i, none⟩
          | d :: rest3 =>
            if !isContinuation d then .error ⟨i, some 2⟩
            else if w = 3 then validateFrom rest3 (i + 3)
            else
              match rest3 with
              | [] => .error ⟨i, none⟩
              | e :: rest4 =>
                if !isContinuation e then .error ⟨i, some 3⟩ else validateFrom rest4 (i + 4)

end Utf8

/-- Why a stored text column could not be read. -/
inductive TextListError where
  /-- A count or length was cut short. -/
  | endOfFile
  /-- The bytes of an entry were cut short. -/
  | shortEntry
  /-- An entry is not valid UTF-8. -/
  | badUtf8 (e : Utf8Error)
  deriving DecidableEq, Repr

namespace TextListError

/-- The text of a failed read. -/
def message : TextListError → String
  | .endOfFile => "io error: unexpected end of file"
  | .shortEntry => "io error: "
  | .badUtf8 e => "string is not valid utf8: " ++ e.message

end TextListError

namespace TextList

/-- The eight little-endian bytes of a number below 2⁶⁴. -/
def u64Bytes (n : Nat) : List UInt8 := (List.range 8).map fun i => (n >>> (8 * i)).toUInt8

/-- The stored form of a list of texts. -/
def encode (xs : List String) : Array UInt8 :=
  (u64Bytes xs.length ++ xs.flatMap fun s => u64Bytes s.utf8ByteSize ++ s.toUTF8.toList).toArray

/-- Reads the little-endian 64-bit number at `pos`. -/
def readU64 (data : Array UInt8) (pos : Nat) : Except TextListError Nat :=
  if data.size < pos + 8 then .error .endOfFile
  else .ok ((List.range 8).foldr (fun i acc => acc * 256 + (data.getD (pos + i) 0).toNat) 0)

/-- Reads the text stored at `pos` and the position after it. -/
def readText (data : Array UInt8) (pos : Nat) : Except TextListError (String × Nat) := do
  let n ← readU64 data pos
  let start := pos + 8
  if data.size < start + n then throw .shortEntry
  let body := data.extract start (start + n)
  match Utf8.validateFrom body.toList 0 with
  | .error e => throw (.badUtf8 e)
  | .ok () =>
    match String.fromUTF8? (ByteArray.mk body) with
    | some s => return (s, start + n)
    | none => throw (.badUtf8 ⟨0, none⟩)

/-- Reads a stored list of texts; bytes after it are ignored. -/
def decode (data : Array UInt8) : Except TextListError (List String) := do
  let count ← readU64 data 0
  let rec go (k : Nat) (pos : Nat) (acc : Array String) : Except TextListError (List String) :=
    match k with
    | 0 => .ok acc.toList
    | k + 1 => do
      let (s, pos) ← readText data pos
      go k pos (acc.push s)
  go count 8 #[]

end TextList

end FrameCache
