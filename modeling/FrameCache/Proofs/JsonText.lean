import Mathlib
import FrameCache.Json.Read

/-!
# The bytes of compact JSON

`Json.compact` appends the text of each value to one accumulator. Taken apart, the text of an
array is its items joined by commas in brackets, that of an object its members `"key":value`
joined by commas in braces (`textBytes_compact_arr`, `textBytes_compact_obj`), and that of a
string its characters escaped between quotes (`textBytes_quote`).

The bytes of a character are those `JsonReader.utf8Bytes` writes for its code point
(`utf8EncodeChar_eq_utf8Bytes`), so the UTF-8 of any text passes the reader's own check whole
(`utf8ValidPrefix_flatMap`) and is read back as the same text (`utf8Text?_flatMap`).
-/

namespace FrameCache

namespace Json

/-- The UTF-8 bytes of a text, as a list. -/
def textBytes (s : String) : List UInt8 := s.toByteArray.data.toList

@[simp] theorem textBytes_append (s t : String) :
    textBytes (s ++ t) = textBytes s ++ textBytes t := by
  simp only [textBytes, String.toByteArray_append, ByteArray.data_append, Array.toList_append]

theorem textBytes_ofList (cs : List Char) :
    textBytes (String.ofList cs) = cs.flatMap String.utf8EncodeChar := by
  simp only [textBytes, String.toByteArray_ofList, List.utf8Encode, List.data_toByteArray]

/-- The bytes of a text are those of its characters, one after another. -/
theorem textBytes_eq (s : String) : textBytes s = s.toList.flatMap String.utf8EncodeChar := by
  rw [← textBytes_ofList, String.ofList_toList]

mutual

/-- Writing a value after some text appends its compact text. -/
theorem writeCompact_eq (acc : String) : (j : Json) → writeCompact acc j = acc ++ compact j
  | .null => by simp only [writeCompact, compact, String.empty_append]
  | .bool _ => by simp only [writeCompact, compact, String.empty_append]
  | .num _ => by simp only [writeCompact, compact, String.empty_append]
  | .str _ => by simp only [writeCompact, compact, String.empty_append]
  | .arr xs => by
    show writeItems (acc ++ "[") xs ++ "]" = acc ++ (writeItems ("" ++ "[") xs ++ "]")
    rw [writeItems_eq (acc ++ "[") xs, writeItems_eq ("" ++ "[") xs, String.empty_append]
    simp only [String.append_assoc]
  | .obj ms => by
    show writeMembers (acc ++ "\x7b") ms ++ "\x7d" = acc ++ (writeMembers ("" ++ "\x7b") ms ++ "\x7d")
    rw [writeMembers_eq (acc ++ "\x7b") ms, writeMembers_eq ("" ++ "\x7b") ms, String.empty_append]
    simp only [String.append_assoc]

/-- Writing items after some text appends their text. -/
theorem writeItems_eq (acc : String) : (xs : List Json) → writeItems acc xs = acc ++ writeItems "" xs
  | [] => by simp only [writeItems, String.append_empty]
  | [x] => by
    show writeCompact acc x = acc ++ writeCompact "" x
    exact writeCompact_eq acc x
  | x :: y :: xs => by
    show writeItems (writeCompact acc x ++ ",") (y :: xs) =
      acc ++ writeItems (writeCompact "" x ++ ",") (y :: xs)
    rw [writeItems_eq (writeCompact acc x ++ ",") (y :: xs),
      writeItems_eq (writeCompact "" x ++ ",") (y :: xs), writeCompact_eq acc x,
      writeCompact_eq "" x, String.empty_append]
    simp only [String.append_assoc]

/-- Writing members after some text appends their text. -/
theorem writeMembers_eq (acc : String) :
    (ms : List (String × Json)) → writeMembers acc ms = acc ++ writeMembers "" ms
  | [] => by simp only [writeMembers, String.append_empty]
  | [(k, v)] => by
    show writeCompact (acc ++ quote k ++ ":") v = acc ++ writeCompact ("" ++ quote k ++ ":") v
    rw [writeCompact_eq (acc ++ quote k ++ ":") v, writeCompact_eq ("" ++ quote k ++ ":") v,
      String.empty_append]
    simp only [String.append_assoc]
  | (k, v) :: m :: ms => by
    show writeMembers (writeCompact (acc ++ quote k ++ ":") v ++ ",") (m :: ms) =
      acc ++ writeMembers (writeCompact ("" ++ quote k ++ ":") v ++ ",") (m :: ms)
    rw [writeMembers_eq (writeCompact (acc ++ quote k ++ ":") v ++ ",") (m :: ms),
      writeMembers_eq (writeCompact ("" ++ quote k ++ ":") v ++ ",") (m :: ms),
      writeCompact_eq (acc ++ quote k ++ ":") v, writeCompact_eq ("" ++ quote k ++ ":") v,
      String.empty_append]
    simp only [String.append_assoc]

end

/-- The bytes of a member: the key in quotes, a colon and the value. -/
def memberBytes (m : String × Json) : List UInt8 :=
  textBytes (quote m.1) ++ [58] ++ textBytes (compact m.2)

theorem textBytes_writeItems (xs : List Json) :
    textBytes (writeItems "" xs) = [44].intercalate (xs.map fun x => textBytes (compact x)) := by
  induction xs with
  | nil => rfl
  | cons x xs ih =>
    cases xs with
    | nil => simp only [writeItems, compact, List.map_cons, List.map_nil, List.intercalate_singleton]
    | cons y ys =>
      show textBytes (writeItems (writeCompact "" x ++ ",") (y :: ys)) = _
      rw [writeItems_eq, textBytes_append, ih, writeCompact_eq, textBytes_append,
        textBytes_append]
      simp only [List.map_cons, List.intercalate_cons_cons]
      rfl

theorem textBytes_writeMembers (ms : List (String × Json)) :
    textBytes (writeMembers "" ms) = [44].intercalate (ms.map memberBytes) := by
  induction ms with
  | nil => rfl
  | cons m ms ih =>
    obtain ⟨k, v⟩ := m
    cases ms with
    | nil =>
      simp only [writeMembers, writeCompact_eq, String.empty_append, textBytes_append,
        List.map_cons, List.map_nil, List.intercalate_singleton, memberBytes]
      rfl
    | cons m' ms =>
      show textBytes (writeMembers (writeCompact ("" ++ quote k ++ ":") v ++ ",") (m' :: ms)) = _
      rw [writeMembers_eq, textBytes_append, ih, writeCompact_eq, textBytes_append,
        textBytes_append, String.empty_append, textBytes_append]
      simp only [List.map_cons, List.intercalate_cons_cons, memberBytes, List.append_assoc]
      rfl

/-- The compact text of an array: its items joined by commas, in brackets. -/
theorem textBytes_compact_arr (xs : List Json) :
    textBytes (compact (.arr xs)) =
      [91] ++ [44].intercalate (xs.map fun x => textBytes (compact x)) ++ [93] := by
  rw [compact, writeCompact, writeItems_eq, textBytes_append, textBytes_append,
    textBytes_writeItems]
  rfl

/-- The compact text of an object: its members joined by commas, in braces. -/
theorem textBytes_compact_obj (ms : List (String × Json)) :
    textBytes (compact (.obj ms)) = [123] ++ [44].intercalate (ms.map memberBytes) ++ [125] := by
  rw [compact, writeCompact, writeMembers_eq, textBytes_append, textBytes_append,
    textBytes_writeMembers]
  rfl

theorem compact_str (s : String) : compact (.str s) = quote s := by
  simp only [compact, writeCompact, String.empty_append]

theorem compact_num (n : Number) : compact (.num n) = n.text := by
  simp only [compact, writeCompact, String.empty_append]

/-- The bytes of a character inside a string, escaped where it must be. -/
def escapeBytes (c : Char) : List UInt8 := (escapeChar c).flatMap String.utf8EncodeChar

/-- A quoted string: a quote, the escaped characters and a quote. -/
theorem textBytes_quote (s : String) :
    textBytes (quote s) = [34] ++ s.toList.flatMap escapeBytes ++ [34] := by
  simp only [quote, textBytes_append, textBytes_ofList, List.flatMap_assoc]
  rfl

end Json

/-- A code point is below the surrogates, or above them and below `0x110000`. -/
theorem Char.toNat_valid (c : Char) : c.toNat < 0xD800 ∨ (0xDFFF < c.toNat ∧ c.toNat < 0x110000) :=
  c.valid

namespace JsonReader

/-- The UTF-8 bytes of a character are those `utf8Bytes` writes for its code point. -/
theorem utf8EncodeChar_eq_utf8Bytes (c : Char) : String.utf8EncodeChar c = utf8Bytes c.toNat := by
  have hc : c.val.toNat = c.toNat := rfl
  have hle := Char.toNat_valid c
  simp only [String.utf8EncodeChar, utf8Bytes, hc, Nat.toUInt8_eq]
  by_cases h1 : c.toNat ≤ 0x7f
  · simp only [h1, show c.toNat < 128 by omega, if_true]
  · have h128 : ¬ c.toNat < 128 := by omega
    by_cases h2 : c.toNat ≤ 0x7ff
    · simp only [h1, h2, h128, show c.toNat < 2048 by omega, if_true, if_false, List.cons.injEq,
        and_true]
      exact ⟨by congr 1; omega, by congr 1; omega⟩
    · have h2048 : ¬ c.toNat < 2048 := by omega
      by_cases h3 : c.toNat ≤ 0xffff
      · simp only [h1, h2, h3, h128, h2048, show c.toNat < 65536 by omega, if_true, if_false,
          List.cons.injEq, and_true]
        exact ⟨by congr 1; omega, by congr 1; omega, by congr 1; omega⟩
      · simp only [h1, h2, h3, h128, h2048, show ¬ c.toNat < 65536 by omega, if_false,
          List.cons.injEq, and_true]
        exact ⟨by congr 1; omega, by congr 1; omega, by congr 1; omega, by congr 1; omega⟩

theorem toNat_toUInt8_of_lt {n : Nat} (h : n < 256) : n.toUInt8.toNat = n := by
  rw [Nat.toUInt8_eq, UInt8.toNat_ofNat']
  exact Nat.mod_eq_of_lt h

/-- The bytes `utf8Bytes` writes for a code point below `0x110000`, by their values: the code
point itself below `0x80`, else a leading byte that announces two, three or four bytes and
continuation bytes that carry six bits each. -/
theorem utf8Bytes_cases {n : Nat} (hn : n < 0x110000) :
    (n < 0x80 ∧ ∃ a : UInt8, utf8Bytes n = [a] ∧ a.toNat = n) ∨
    (0x80 ≤ n ∧ n < 0x800 ∧ ∃ a b : UInt8, utf8Bytes n = [a, b] ∧
      a.toNat = 0xC0 + n / 64 ∧ b.toNat = 0x80 + n % 64) ∨
    (0x800 ≤ n ∧ n < 0x10000 ∧ ∃ a b c : UInt8, utf8Bytes n = [a, b, c] ∧
      a.toNat = 0xE0 + n / 4096 ∧ b.toNat = 0x80 + n / 64 % 64 ∧ c.toNat = 0x80 + n % 64) ∨
    (0x10000 ≤ n ∧ ∃ a b c d : UInt8, utf8Bytes n = [a, b, c, d] ∧
      a.toNat = 0xF0 + n / 262144 ∧ b.toNat = 0x80 + n / 4096 % 64 ∧
      c.toNat = 0x80 + n / 64 % 64 ∧ d.toNat = 0x80 + n % 64) := by
  unfold utf8Bytes
  by_cases h1 : n < 0x80
  · exact .inl ⟨h1, _, if_pos h1, toNat_toUInt8_of_lt (by omega)⟩
  rw [if_neg h1]
  by_cases h2 : n < 0x800
  · exact .inr (.inl ⟨by omega, h2, _, _, if_pos h2, toNat_toUInt8_of_lt (by omega),
      toNat_toUInt8_of_lt (by omega)⟩)
  rw [if_neg h2]
  by_cases h3 : n < 0x10000
  · exact .inr (.inr (.inl ⟨by omega, h3, _, _, _, if_pos h3, toNat_toUInt8_of_lt (by omega),
      toNat_toUInt8_of_lt (by omega), toNat_toUInt8_of_lt (by omega)⟩))
  · exact .inr (.inr (.inr ⟨by omega, _, _, _, _, if_neg h3, toNat_toUInt8_of_lt (by omega),
      toNat_toUInt8_of_lt (by omega), toNat_toUInt8_of_lt (by omega),
      toNat_toUInt8_of_lt (by omega)⟩))

/-- Two bytes open a three-byte sequence when the first is `0xE0..0xEF` and the second a
continuation byte, narrowed after `0xE0` (no overlong form) and `0xED` (no surrogate). -/
theorem opensThree_iff {a b : UInt8} : opensThree a b = true ↔
    0xE0 ≤ a.toNat ∧ a.toNat ≤ 0xEF ∧ 0x80 ≤ b.toNat ∧ b.toNat ≤ 0xBF ∧
      (a.toNat = 0xE0 → 0xA0 ≤ b.toNat) ∧ (a.toNat = 0xED → b.toNat ≤ 0x9F) := by
  simp only [opensThree, isContinuation, ← UInt8.toNat_inj, UInt8.le_iff_toNat_le,
    UInt8.reduceToNat]
  split_ifs <;> simp only [Bool.and_eq_true, decide_eq_true_eq] <;> omega

/-- Two bytes open a four-byte sequence when the first is `0xF0..0xF4` and the second a
continuation byte, narrowed after `0xF0` (no overlong form) and `0xF4` (nothing past
`0x10FFFF`). -/
theorem opensFour_iff {a b : UInt8} : opensFour a b = true ↔
    0xF0 ≤ a.toNat ∧ a.toNat ≤ 0xF4 ∧ 0x80 ≤ b.toNat ∧ b.toNat ≤ 0xBF ∧
      (a.toNat = 0xF0 → 0x90 ≤ b.toNat) ∧ (a.toNat = 0xF4 → b.toNat ≤ 0x8F) := by
  simp only [opensFour, isContinuation, ← UInt8.toNat_inj, UInt8.le_iff_toNat_le,
    UInt8.reduceToNat]
  split_ifs <;> simp only [Bool.and_eq_true, decide_eq_true_eq] <;> omega

/-- The bytes of a code point outside the surrogates pass the UTF-8 check as one sequence. -/
theorem utf8ValidPrefix_utf8Bytes_append {n : Nat} (hn : n < 0xD800 ∨ (0xDFFF < n ∧ n < 0x110000))
    (rest : List UInt8) :
    utf8ValidPrefix (utf8Bytes n ++ rest) = (utf8Bytes n).length + utf8ValidPrefix rest := by
  rcases utf8Bytes_cases (show n < 0x110000 by omega) with
    ⟨h1, a, he, ha⟩ | ⟨h1, h2, a, b, he, ha, hb⟩ | ⟨h2, h3, a, b, c, he, ha, hb, hc⟩ |
      ⟨h3, a, b, c, d, he, ha, hb, hc, hd⟩ <;>
    rw [he] <;> simp only [List.cons_append, List.nil_append, List.length_cons, List.length_nil] <;>
    rw [utf8ValidPrefix.eq_def] <;> dsimp only
  · rw [if_pos (by rw [UInt8.lt_iff_toNat_lt]; simp only [UInt8.reduceToNat]; omega)]
  · rw [if_neg (by rw [UInt8.lt_iff_toNat_lt]; simp only [UInt8.reduceToNat]; omega)]
    rw [if_pos (by
      simp only [Bool.and_eq_true, decide_eq_true_eq, isContinuation, UInt8.le_iff_toNat_le,
        UInt8.reduceToNat]
      omega)]
  · rw [if_neg (by rw [UInt8.lt_iff_toNat_lt]; simp only [UInt8.reduceToNat]; omega)]
    rw [if_neg (by
      simp only [Bool.and_eq_true, decide_eq_true_eq, UInt8.le_iff_toNat_le, UInt8.reduceToNat]
      omega)]
    -- the second byte keeps the code point above `0x7FF` and off the surrogates
    rw [if_pos (by
      simp only [Bool.and_eq_true, opensThree_iff, isContinuation, decide_eq_true_eq,
        UInt8.le_iff_toNat_le, UInt8.reduceToNat]
      omega)]
  · rw [if_neg (by rw [UInt8.lt_iff_toNat_lt]; simp only [UInt8.reduceToNat]; omega)]
    rw [if_neg (by
      simp only [Bool.and_eq_true, decide_eq_true_eq, UInt8.le_iff_toNat_le, UInt8.reduceToNat]
      omega)]
    rw [if_neg (by
      simp only [Bool.and_eq_true, opensThree_iff]
      omega)]
    -- the second byte keeps the code point above `0xFFFF` and at most `0x10FFFF`
    rw [if_pos (by
      simp only [Bool.and_eq_true, opensFour_iff, isContinuation, decide_eq_true_eq,
        UInt8.le_iff_toNat_le, UInt8.reduceToNat]
      omega)]

/-- The UTF-8 of any text passes the reader's check whole. -/
theorem utf8ValidPrefix_flatMap (cs : List Char) :
    utf8ValidPrefix (cs.flatMap String.utf8EncodeChar) = (cs.flatMap String.utf8EncodeChar).length := by
  induction cs with
  | nil => rfl
  | cons c cs ih =>
    rw [List.flatMap_cons, utf8EncodeChar_eq_utf8Bytes,
      utf8ValidPrefix_utf8Bytes_append (Char.toNat_valid c), ih, List.length_append]

/-- The UTF-8 of a text is read back as the text. -/
theorem utf8Text?_flatMap (cs : List Char) :
    utf8Text? (cs.flatMap String.utf8EncodeChar) = some (String.ofList cs) := by
  have h : ByteArray.mk (cs.flatMap String.utf8EncodeChar).toArray = cs.utf8Encode :=
    ByteArray.ext (by rw [List.utf8Encode, List.data_toByteArray])
  rw [utf8Text?, h, String.fromUTF8?, dif_pos ByteArray.isValidUTF8_utf8Encode]
  rfl

end JsonReader

end FrameCache
