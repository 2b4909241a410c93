import Mathlib
import FrameCache.Partition.TextList
import FrameCache.Proofs.JsonText

/-!
# Text columns read back

A list of texts is read back from its stored form (`decode_encode_texts`), as long as the count
and every length fit the 64-bit fields that hold them.

Each count or length is eight little-endian bytes (`readU64_u64Bytes`). The bytes of a text pass
the reader's UTF-8 check one character at a time (`Utf8.validateFrom_utf8Bytes_append`): the
first byte of a character announces its width, and the second byte stays in the range the check
allows after it, because a character is never a surrogate and never above `0x10FFFF`. Each text
is then read where the one before it ended (`readText_entryBytes`), and the reading loop takes
them in order (`decode_go_flatMap`).
-/

namespace FrameCache

namespace TextList

theorem length_u64Bytes (n : Nat) : (u64Bytes n).length = 8 := by
  simp [u64Bytes]

theorem getD_of_toList {data : Array UInt8} {pre mid post : List UInt8}
    (h : data.toList = pre ++ mid ++ post) {i : Nat} (hi : i < mid.length) :
    data.getD (pre.length + i) 0 = mid[i] := by
  rw [Array.getD_eq_getD_getElem?, ← Array.getElem?_toList, h, List.append_assoc,
    List.getElem?_append_right (by omega), Nat.add_sub_cancel_left,
    List.getElem?_append_left hi, List.getElem?_eq_getElem hi]
  rfl

/-- The part of an array that its list has between a prefix and a suffix. -/
theorem extract_of_toList_eq {α : Type} {bs : Array α} {pre mid post : List α}
    (h : bs.toList = pre ++ mid ++ post) :
    bs.extract pre.length (pre.length + mid.length) = mid.toArray := by
  apply Array.toList_inj.1
  rw [Array.toList_extract, List.extract_eq_take_drop, h, List.append_assoc, List.drop_left,
    Nat.add_sub_cancel_left, List.take_left' rfl, List.toList_toArray]

/-- The byte of a number `i` bytes up is its `i`-th base-256 digit. -/
theorem toNat_toUInt8_shiftRight (n i : Nat) : ((n >>> (8 * i)).toUInt8).toNat = n / 256 ^ i % 256 := by
  simp [Nat.shiftRight_eq_div_pow, Nat.toUInt8_eq, UInt8.toNat_ofNat', pow_mul]

/-- Base-256 digits folded from the most significant one give back the number, cut to as many
digits as were folded. -/
theorem foldr_range_digits {d : Nat → Nat} {k n : Nat} (hd : ∀ i < k, d i = n / 256 ^ i % 256) :
    (List.range k).foldr (fun i acc => acc * 256 + d i) 0 = n % 256 ^ k := by
  induction k generalizing d n with
  | zero => rw [List.range_zero, List.foldr_nil, pow_zero, Nat.mod_one]
  | succ k ih =>
    -- the least significant digit is folded last; the others are the digits of `n / 256`
    have hrest : ∀ i < k, d (i + 1) = n / 256 / 256 ^ i % 256 := by
      intro i hi
      rw [hd (i + 1) (by omega), Nat.div_div_eq_div_mul, pow_succ']
    rw [List.range_succ_eq_map, List.foldr_cons, List.foldr_map, ih (d := fun i => d (i + 1)) hrest,
      hd 0 (by omega), pow_zero, Nat.div_one, pow_succ', Nat.mod_mul]
    ring

/-- Eight little-endian bytes are read back as the number below `2⁶⁴` they hold. -/
theorem readU64_u64Bytes {data : Array UInt8} {pre post : List UInt8} {n : Nat}
    (h : data.toList = pre ++ u64Bytes n ++ post) (hn : n < 2 ^ 64) :
    readU64 data pre.length = .ok n := by
  have hsize : pre.length + 8 ≤ data.size := by
    have := congrArg List.length h
    simp only [Array.length_toList, List.length_append, length_u64Bytes] at this
    omega
  have hbyte : ∀ i < 8, (data.getD (pre.length + i) 0).toNat = n / 256 ^ i % 256 := by
    intro i hi
    rw [getD_of_toList h (by rw [length_u64Bytes]; exact hi)]
    simp only [u64Bytes, List.getElem_map, List.getElem_range, toNat_toUInt8_shiftRight]
  rw [readU64, if_neg (by omega), foldr_range_digits hbyte, Nat.mod_eq_of_lt (by omega)]

end TextList

namespace Utf8

open JsonReader

theorem width_eq {b : UInt8} :
    width b = if b.toNat < 0x80 then 1 else if 0xC2 ≤ b.toNat ∧ b.toNat ≤ 0xDF then 2
      else if 0xE0 ≤ b.toNat ∧ b.toNat ≤ 0xEF then 3 else if 0xF0 ≤ b.toNat ∧ b.toNat ≤ 0xF4 then 4
      else 0 := by
  simp only [width, UInt8.lt_iff_toNat_lt, UInt8.le_iff_toNat_le, Bool.and_eq_true,
    decide_eq_true_eq, UInt8.reduceToNat]

theorem isContinuation_eq {b : UInt8} :
    isContinuation b = decide (0x80 ≤ b.toNat ∧ b.toNat ≤ 0xBF) := by
  simp only [isContinuation, UInt8.le_iff_toNat_le, UInt8.reduceToNat, Bool.decide_and]

/-- The second byte of a sequence is a continuation byte, narrowed after the first bytes that
would otherwise open an overlong form, a surrogate or a code point past `0x10FFFF`. -/
theorem secondOk_iff {a b : UInt8} : secondOk a b = true ↔
    0x80 ≤ b.toNat ∧ b.toNat ≤ 0xBF ∧ (a.toNat = 0xE0 → 0xA0 ≤ b.toNat) ∧
      (a.toNat = 0xED → b.toNat ≤ 0x9F) ∧ (a.toNat = 0xF0 → 0x90 ≤ b.toNat) ∧
      (a.toNat = 0xF4 → b.toNat ≤ 0x8F) := by
  simp only [secondOk, isContinuation_eq, ← UInt8.toNat_inj, UInt8.le_iff_toNat_le,
    UInt8.reduceToNat]
  -- one case per first byte the check singles out
  split_ifs <;> simp only [Bool.and_eq_true, decide_eq_true_eq] <;> omega

/-- The bytes of a code point outside the surrogates pass the check as one sequence. -/
theorem validateFrom_utf8Bytes_append {n : Nat} (hn : n < 0xD800 ∨ (0xDFFF < n ∧ n < 0x110000))
    (rest : List UInt8) (i : Nat) :
    validateFrom (utf8Bytes n ++ rest) i = validateFrom rest (i + (utf8Bytes n).length) := by
  rcases utf8Bytes_cases (show n < 0x110000 by omega) with
    ⟨h1, a, he, ha⟩ | ⟨h1, h2, a, b, he, ha, hb⟩ | ⟨h2, h3, a, b, c, he, ha, hb, hc⟩ |
      ⟨h3, a, b, c, d, he, ha, hb, hc, hd⟩ <;>
    rw [he] <;> simp only [List.cons_append, List.nil_append, List.length_cons, List.length_nil]
  · have hw : width a = 1 := by rw [width_eq, if_pos (by omega)]
    rw [validateFrom, hw]
    rfl
  · have hw : width a = 2 := by rw [width_eq, if_neg (by omega), if_pos (by omega)]
    have hcont : isContinuation b = true := by
      rw [isContinuation_eq, hb, decide_eq_true_iff]
      omega
    rw [validateFrom, hw]
    simp only [hcont, Bool.not_true, Bool.false_eq_true, if_true, if_false]
  · have hw : width a = 3 := by
      rw [width_eq, if_neg (by omega), if_neg (by omega), if_pos (by omega)]
    -- the second byte keeps the code point above `0x7FF` and off the surrogates
    have hsecond : secondOk a b = true := by
      rw [secondOk_iff, ha, hb]
      omega
    have hthird : isContinuation c = true := by
      rw [isContinuation_eq, hc, decide_eq_true_iff]
      omega
    rw [validateFrom, hw]
    simp only [hsecond, hthird, show (3 : Nat) ≠ 2 by decide, Bool.not_true, Bool.false_eq_true,
      if_true, if_false]
  · have hw : width a = 4 := by
      rw [width_eq, if_neg (by omega), if_neg (by omega), if_neg (by omega), if_pos (by omega)]
    -- the second byte keeps the code point above `0xFFFF` and below `0x110000`
    have hsecond : secondOk a b = true := by
      rw [secondOk_iff, ha, hb]
      omega
    have hthird : isContinuation c = true := by
      rw [isContinuation_eq, hc, decide_eq_true_iff]
      omega
    have hfourth : isContinuation d = true := by
      rw [isContinuation_eq, hd, decide_eq_true_iff]
      omega
    rw [validateFrom, hw]
    simp only [hsecond, hthird, hfourth, show (4 : Nat) ≠ 2 by decide, show (4 : Nat) ≠ 3 by decide,
      Bool.not_true, Bool.false_eq_true, if_false]

/-- The UTF-8 of any text passes the check. -/
theorem validateFrom_flatMap (cs : List Char) (i : Nat) :
    validateFrom (cs.flatMap String.utf8EncodeChar) i = .ok () := by
  induction cs generalizing i with
  | nil => rfl
  | cons c cs ih =>
    rw [List.flatMap_cons, utf8EncodeChar_eq_utf8Bytes,
      validateFrom_utf8Bytes_append (Char.toNat_valid c), ih]

end Utf8

namespace TextList

open Json JsonReader

theorem toList_loop (bs : ByteArray) (i : Nat) (r : List UInt8) :
    ByteArray.toList.loop bs i r = r.reverse ++ bs.data.toList.drop i := by
  fun_induction ByteArray.toList.loop bs i r with
  | case1 i r hi ih =>
    have hi' : i < bs.data.toList.length := by simpa using hi
    rw [ih, List.reverse_cons, List.append_assoc, List.singleton_append,
      List.drop_eq_getElem_cons hi']
    simp [ByteArray.get!, hi]
  | case2 i r hi =>
    rw [List.drop_eq_nil_of_le (by simpa using hi), List.append_nil]

theorem toList_toUTF8 (s : String) : s.toUTF8.toList = textBytes s := by
  rw [ByteArray.toList, toList_loop]
  rfl

/-- The stored form of one text: its length in bytes, then its bytes. -/
def entryBytes (s : String) : List UInt8 := u64Bytes s.utf8ByteSize ++ textBytes s

theorem length_textBytes (s : String) : (textBytes s).length = s.utf8ByteSize := by
  rw [textBytes, Array.length_toList]
  rfl

theorem length_entryBytes (s : String) : (entryBytes s).length = 8 + s.utf8ByteSize := by
  rw [entryBytes, List.length_append, length_u64Bytes, length_textBytes]

theorem encode_toList (xs : List String) :
    (encode xs).toList = u64Bytes xs.length ++ xs.flatMap entryBytes := by
  simp only [encode, toList_toUTF8]
  rfl

/-- A stored text is read back, and reading ends right after its bytes. -/
theorem readText_entryBytes {data : Array UInt8} {pre post : List UInt8} {s : String}
    (h : data.toList = pre ++ entryBytes s ++ post) (hs : s.utf8ByteSize < 2 ^ 64) :
    readText data pre.length = .ok (s, pre.length + (entryBytes s).length) := by
  have hlen : data.size = pre.length + 8 + s.utf8ByteSize + post.length := by
    rw [← Array.length_toList, h]
    simp only [List.length_append, length_entryBytes]
    omega
  have hbody : data.extract (pre.length + 8) (pre.length + 8 + s.utf8ByteSize) =
      (textBytes s).toArray := by
    have hsplit : data.toList = (pre ++ u64Bytes s.utf8ByteSize) ++ textBytes s ++ post := by
      rw [h, entryBytes]
      simp only [List.append_assoc]
    have h' := extract_of_toList_eq hsplit
    rwa [List.length_append, length_u64Bytes, length_textBytes] at h'
  have hU : readU64 data pre.length = .ok s.utf8ByteSize :=
    readU64_u64Bytes (show data.toList = pre ++ u64Bytes _ ++ (textBytes s ++ post) by
      rw [h, entryBytes]; simp only [List.append_assoc]) hs
  have hvalid : Utf8.validateFrom (textBytes s) 0 = .ok () := by
    rw [textBytes_eq]
    exact Utf8.validateFrom_flatMap _ _
  have htext : String.fromUTF8? ⟨(textBytes s).toArray⟩ = some s := by
    have := utf8Text?_flatMap s.toList
    rwa [← textBytes_eq, String.ofList_toList] at this
  rw [readText, hU]
  dsimp only [bind, Except.bind]
  rw [if_neg (by omega), hbody, List.toList_toArray, hvalid]
  dsimp only
  rw [htext, length_entryBytes, ← Nat.add_assoc]
  rfl

/-- Reading texts one after another from where the first is stored reads back every one of
them, in order. -/
theorem decode_go_flatMap {data : Array UInt8} (xs : List String) {pre post : List UInt8}
    (h : data.toList = pre ++ xs.flatMap entryBytes ++ post)
    (hs : ∀ s ∈ xs, s.utf8ByteSize < 2 ^ 64) (acc : Array String) :
    decode.go data xs.length pre.length acc = .ok (acc.toList ++ xs) := by
  induction xs generalizing pre acc with
  | nil => simp [decode.go]
  | cons s xs ih =>
    have hrest : data.toList = pre ++ entryBytes s ++ (xs.flatMap entryBytes ++ post) := by
      rw [h, List.flatMap_cons]
      simp only [List.append_assoc]
    have hnext : data.toList = (pre ++ entryBytes s) ++ xs.flatMap entryBytes ++ post := by
      rw [hrest]
      simp only [List.append_assoc]
    rw [List.length_cons, decode.go, readText_entryBytes hrest (hs s List.mem_cons_self)]
    dsimp only [bind, Except.bind]
    rw [← List.length_append, ih hnext (fun t ht => hs t (List.mem_cons_of_mem _ ht))]
    simp

/-- A list of texts is read back from its stored form. -/
theorem decode_encode_texts (xs : List String) (hlen : xs.length < 2 ^ 64)
    (hs : ∀ s ∈ xs, s.utf8ByteSize < 2 ^ 64) :
    decode (encode xs) = .ok xs := by
  have hcount : readU64 (encode xs) 0 = .ok xs.length :=
    readU64_u64Bytes (show (encode xs).toList = [] ++ u64Bytes xs.length ++ xs.flatMap entryBytes by
      rw [encode_toList]; rfl) hlen
  have hgo := decode_go_flatMap xs (show (encode xs).toList =
    u64Bytes xs.length ++ xs.flatMap entryBytes ++ [] by rw [encode_toList, List.append_nil]) hs #[]
  rw [length_u64Bytes] at hgo
  rw [decode, hcount]
  dsimp only [bind, Except.bind]
  rw [hgo]
  rfl

end TextList

end FrameCache