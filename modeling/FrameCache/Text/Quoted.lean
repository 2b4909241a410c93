import FrameCache.Text.Printable

/-!
# Quoted strings in messages

Messages show a string in double quotes, written so that every character can be read back
from the text: a backslash goes before a double quote and before a backslash, the null
character and the tab, carriage return and line feed have their short escapes, and a grapheme
extender or a character that is not printable is written as its code point in hexadecimal
(`\u{301}`, `\u{feff}`). Other characters, the single quote among them, stand as they are.
-/

namespace FrameCache

namespace Text

/-- The lower-case hexadecimal digits of a number, without leading zeros. -/
def hexDigits (n : Nat) : String := String.ofList (Nat.toDigits 16 n)

/-- How one character is written inside a quoted string. A grapheme extender is escaped
even when it is printable, since on its own it would attach to the quote before it. -/
def escapeChar (c : Char) : String :=
  if c = '"' then "\\\"" else if c = '\\' then "\\\\"
  else if c = '\n' then "\\n" else if c = '\r' then "\\r" else if c = '\t' then "\\t"
  else if c.toNat = 0 then "\\0"
  else if isGraphemeExtend c || !isPrintable c then "\\u" ++ "\x7b" ++ hexDigits c.toNat ++ "\x7d"
  else c.toString

/-- A string in double quotes, each character written as `escapeChar` writes it. -/
def quoted (s : String) : String := s.foldl (fun acc c => acc ++ escapeChar c) "\"" ++ "\""

end Text

end FrameCache
