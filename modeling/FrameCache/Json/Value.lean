import FrameCache.Decimal.Layout

/-!
# JSON values

A JSON value as the library reads and writes it. A number is either a whole number that
was written without a fraction or an exponent and fits in 64 bits (unsigned, or signed when
negative), or a double. An object keeps its members in the order given.

`Json.compact` writes a value without blanks. Strings escape the quote, the backslash and
the control characters below U+0020 (`\n`, `\t`, … where JSON has a short form, `\u00XX`
otherwise) and leave every other character as it is. A double is written in its shortest
form with `.0` after a whole number, and a NaN or an infinity, which JSON cannot hold, is
written `null`.
-/

namespace FrameCache

/-- A JSON number. -/
inductive Number where
  /-- A whole number in `-2⁶³ .. 2⁶⁴ - 1`, written without fraction or exponent. -/
  | int (n : Int)
  /-- Any other number, as the nearest double. -/
  | float (x : Double)
  deriving DecidableEq, Repr, Inhabited

/-- A JSON value. -/
inductive Json where
  | null
  | bool (b : Bool)
  | num (n : Number)
  | str (s : String)
  | arr (xs : List Json)
  | obj (members : List (String × Json))
  deriving Repr, Inhabited

/-- The text of a number. -/
def Number.text : Number → String
  | .int n => toString n
  | .float x => if x.isFinite then x.jsonText else "null"

namespace Json

/-- The hexadecimal digit of a number below 16, in lower case. -/
def hexDigit (n : Nat) : Char :=
  if n < 10 then Char.ofNat (48 + n) else Char.ofNat (87 + n)

/-- The escaped form of one character inside a string. -/
def escapeChar (c : Char) : List Char :=
  if c = '"' then ['\\', '"']
  else if c = '\\' then ['\\', '\\']
  else if c = '\n' then ['\\', 'n']
  else if c = '\r' then ['\\', 'r']
  else if c = '\t' then ['\\', 't']
  else if c.toNat = 8 then ['\\', 'b']
  else if c.toNat = 12 then ['\\', 'f']
  else if c.toNat < 32 then ['\\', 'u', '0', '0', hexDigit (c.toNat / 16), hexDigit (c.toNat % 16)]
  else [c]

/-- A string in quotes, escaped. -/
def quote (s : String) : String :=
  "\"" ++ String.ofList (s.toList.flatMap escapeChar) ++ "\""

mutual
/-- Appends the compact text of a value to `acc`. -/
def writeCompact (acc : String) : Json → String
  | .null => acc ++ "null"
  | .bool b => acc ++ (if b then "true" else "false")
  | .num n => acc ++ n.text
  | .str s => acc ++ quote s
  | .arr xs => writeItems (acc ++ "[") xs ++ "]"
  | .obj ms => writeMembers (acc ++ "\x7b") ms ++ "\x7d"

/-- Appends the compact texts of array items, separated by commas, to `acc`. -/
def writeItems (acc : String) : List Json → String
  | [] => acc
  | [x] => writeCompact acc x
  | x :: xs => writeItems (writeCompact acc x ++ ",") xs

/-- Appends the compact texts of object members, separated by commas, to `acc`. -/
def writeMembers (acc : String) : List (String × Json) → String
  | [] => acc
  | [(k, v)] => writeCompact (acc ++ quote k ++ ":") v
  | (k, v) :: ms => writeMembers (writeCompact (acc ++ quote k ++ ":") v ++ ",") ms
end

/-- The compact text of a value: no blanks, members in their order, items separated by
commas. Text is appended to one growing string, so printing takes time linear in its
length. -/
def compact (j : Json) : String := writeCompact "" j

/-- Inserts a member into a list sorted by key, replacing a member of the same key. -/
def insertSorted (k : String) (v : Json) : List (String × Json) → List (String × Json)
  | [] => [(k, v)]
  | (k', v') :: ms =>
    if k < k' then (k, v) :: (k', v') :: ms
    else if k = k' then (k, v) :: ms
    else (k', v') :: insertSorted k v ms

mutual
/-- The value with the members of every object sorted by key; of two members with one key
the later stays. -/
def sortKeys : Json → Json
  | .arr xs => .arr (sortItems xs)
  | .obj ms => .obj (sortMembers ms [])
  | v => v

/-- `sortKeys` on every item. -/
def sortItems : List Json → List Json
  | [] => []
  | x :: xs => sortKeys x :: sortItems xs

/-- Inserts the sorted members one by one into `acc`. -/
def sortMembers : List (String × Json) → List (String × Json) → List (String × Json)
  | [], acc => acc
  | (k, v) :: ms, acc => sortMembers ms (insertSorted k (sortKeys v) acc)
end

/-- The value of the first member with this key. -/
def get? (v : Json) (k : String) : Option Json :=
  match v with
  | .obj ms => (ms.find? (·.1 == k)).map (·.2)
  | _ => none

/-- Sets the member `k` of an object: an existing member is replaced in place, a new one is
added at the end. -/
def setMember (ms : List (String × Json)) (k : String) (v : Json) : List (String × Json) :=
  if ms.any (·.1 == k) then ms.map (fun m => if m.1 == k then (k, v) else m) else ms ++ [(k, v)]

end Json

end FrameCache
