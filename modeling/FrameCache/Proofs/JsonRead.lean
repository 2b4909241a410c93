import Mathlib
import FrameCache.Json.Typed
import FrameCache.Proofs.JsonText

/-!
# Reading JSON text, step by step

The reader's state is a cursor into the input; what matters to a proof is the list of bytes
from the cursor on, `Cursor.rest`. Each lemma here says what one reader does when the rest
of the input starts with a given text: it succeeds, gives the value the text stands for and
leaves the cursor just after the text (`Cursor.skip`).

Strings are read back from the bytes `Json.quote` writes: plain bytes are copied one step a
byte, each escape is one step, and the bytes are UTF-8 of the characters
(`stringBody_quoted`). Numbers are read back from the digits of a whole number of at most
64 bits followed by a comma, a closing bracket or the end (`unsignedNumber_toDigits`).
-/

namespace FrameCache

namespace Cursor

/-- The bytes from the cursor on. -/
def rest (c : Cursor) : List UInt8 := c.bytes.data.toList.drop c.pos

/-- The cursor `n` bytes further on. -/
def skip (c : Cursor) (n : Nat) : Cursor := { c with pos := c.pos + n }

theorem rest_skip {c : Cursor} {t r : List UInt8} (h : c.rest = t ++ r) :
    (c.skip t.length).rest = r := by
  simp only [rest, skip] at h ⊢
  rw [← List.drop_drop, h, List.drop_left]

theorem rest_skip_one {c : Cursor} {b : UInt8} {r : List UInt8} (h : c.rest = b :: r) :
    (c.skip 1).rest = r :=
  rest_skip (t := [b]) h

theorem rest_skip_eq {c : Cursor} {t r : List UInt8} {n : Nat} (h : c.rest = t ++ r)
    (hn : t.length = n) : (c.skip n).rest = r :=
  hn ▸ rest_skip h

theorem length_rest (c : Cursor) : c.rest.length = c.bytes.size - c.pos := by
  simp [rest]

@[simp] theorem skip_skip (c : Cursor) (m n : Nat) : (c.skip m).skip n = c.skip (m + n) := by
  simp only [skip, Nat.add_assoc]

@[simp] theorem skip_zero (c : Cursor) : c.skip 0 = c := rfl

theorem getElem_of_rest_cons {c : Cursor} {b : UInt8} {r : List UInt8} (h : c.rest = b :: r) :
    ∃ hp : c.pos < c.bytes.size, c.bytes[c.pos] = b := by
  simp only [rest] at h
  by_cases hp : c.pos < c.bytes.data.toList.length
  · rw [List.drop_eq_getElem_cons hp, List.cons.injEq] at h
    refine ⟨by simpa only [Array.length_toList, ByteArray.size_data] using hp, ?_⟩
    rw [ByteArray.getElem_eq_getElem_data, ← Array.getElem_toList]
    exact h.1
  · rw [List.drop_eq_nil_of_le (by omega)] at h
    exact absurd h (List.cons_ne_nil b r).symm

theorem size_le_of_rest_nil {c : Cursor} (h : c.rest = []) : c.bytes.size ≤ c.pos := by
  simp only [rest, List.drop_eq_nil_iff, Array.length_toList, ByteArray.size_data] at h
  exact h

end Cursor

namespace JsonReader

variable {α β : Type} {c c' : Cursor} {b : UInt8} {r : List UInt8}

/-! ## Single steps -/

theorem bind_of_ok {x : JsonReader α} {f : α → JsonReader β} {a : α} (h : x c = .ok a c') :
    (x >>= f) c = f a c' := by
  show EStateM.bind x f c = _
  simp only [EStateM.bind, h]

theorem get_apply : (get : JsonReader Cursor) c = .ok c c := rfl

@[simp] theorem pure_apply (a : α) : (pure a : JsonReader α) c = .ok a c := rfl

theorem peek_of_cons (h : c.rest = b :: r) : peek c = .ok (some b) c := by
  obtain ⟨hp, hb⟩ := Cursor.getElem_of_rest_cons h
  simp only [peek, hp, dif_pos, hb]

theorem peek_of_nil (h : c.rest = []) : peek c = .ok none c := by
  simp only [peek, dif_neg (Nat.not_lt.2 (Cursor.size_le_of_rest_nil h))]

@[simp] theorem eat_apply : eat c = .ok () (c.skip 1) := rfl

theorem next_of_cons (h : c.rest = b :: r) : next c = .ok (some b) (c.skip 1) := by
  rw [next, bind_of_ok (peek_of_cons h)]
  rfl

theorem peekOrNull_of_cons (h : c.rest = b :: r) : peekOrNull c = .ok b c := by
  rw [peekOrNull, bind_of_ok (peek_of_cons h)]
  rfl

theorem peekOrNull_of_nil (h : c.rest = []) : peekOrNull c = .ok 0 c := by
  rw [peekOrNull, bind_of_ok (peek_of_nil h)]
  rfl

theorem skipBlanks_of_cons (h : c.rest = b :: r) (hb : (b == 32 || b == 10 || b == 9 || b == 13) = false) :
    skipBlanks c = .ok (some b) c := by
  obtain ⟨hp, hget⟩ := Cursor.getElem_of_rest_cons h
  have hgo : skipBlanks.go c c.pos (c.bytes.size - c.pos) = c.pos := by
    obtain ⟨fuel, hfuel⟩ : ∃ fuel, c.bytes.size - c.pos = fuel + 1 := ⟨_, (Nat.succ_pred_eq_of_pos (by omega)).symm⟩
    rw [hfuel, skipBlanks.go, dif_pos hp]
    simp only [hget, hb, Bool.false_eq_true, if_false]
  simp only [skipBlanks, hgo, dif_pos hp, hget]

theorem skipBlanks_of_nil (h : c.rest = []) : skipBlanks c = .ok none c := by
  have hle := Cursor.size_le_of_rest_nil h
  have hgo : skipBlanks.go c c.pos (c.bytes.size - c.pos) = c.pos := by
    rw [show c.bytes.size - c.pos = 0 by omega, skipBlanks.go]
  simp only [skipBlanks, hgo, dif_neg (Nat.not_lt.mpr hle)]

theorem tryCatch_of_ok {x : JsonReader α} {handle : JsonError → JsonReader α} {a : α}
    (h : x c = .ok a c') : tryCatch x handle c = .ok a c' := by
  show EStateM.tryCatch x handle c = _
  simp only [EStateM.tryCatch, h]

theorem typed_of_ok {x : JsonReader α} {a : α} (h : x c = .ok a c') : typed x c = .ok a c' :=
  tryCatch_of_ok h

theorem enclosed_of_ok {body : JsonReader α} {finish : JsonReader Unit} {a : α} {c'' : Cursor}
    (hb : body c = .ok a c') (hf : finish c' = .ok () c'') : enclosed body finish c = .ok a c'' := by
  rw [enclosed, tryCatch_of_ok]
  rw [bind_of_ok hb, bind_of_ok hf]
  rfl

/-! ## Strings -/

theorem stringBody_go_close {acc : Array UInt8} {fuel : Nat} (h : c.rest = 34 :: r) :
    stringBody.go acc (fuel + 1) c = .ok acc (c.skip 1) := by
  rw [stringBody.go, bind_of_ok (peek_of_cons h)]
  rfl

theorem stringBody_go_plain {acc : Array UInt8} {fuel : Nat} (h : c.rest = b :: r) (h32 : 32 ≤ b.toNat)
    (h34 : b ≠ 34) (h92 : b ≠ 92) :
    stringBody.go acc (fuel + 1) c = stringBody.go (acc.push b) fuel (c.skip 1) := by
  rw [stringBody.go, bind_of_ok (peek_of_cons h)]
  have hlt : ¬ b < 32 := by rw [UInt8.lt_iff_toNat_lt]; simp only [UInt8.reduceToNat]; omega
  -- `h34` and `h92` in the context send the match past the quote and the backslash
  simp only [hlt, if_false]
  rfl

theorem get!_of_rest {l : List UInt8} {k : Nat} (h : c.rest = l ++ r) (hk : k < l.length) :
    c.bytes.get! (c.pos + k) = l[k] := by
  have hl : (c.rest)[k]? = some l[k] := by rw [h, List.getElem?_append_left hk, List.getElem?_eq_getElem hk]
  simp only [Cursor.rest, List.getElem?_drop] at hl
  rw [ByteArray.get!, Array.getElem!_eq_getD, Array.getD_eq_getD_getElem?, ← Array.getElem?_toList, hl]
  rfl

theorem stringBody_go_escape {acc : Array UInt8} {fuel : Nat} {bs : List UInt8} {c'' : Cursor}
    (h : c.rest = 92 :: r) (he : escape (c.skip 1) = .ok bs c'') :
    stringBody.go acc (fuel + 1) c = stringBody.go (acc ++ bs.toArray) fuel c'' := by
  rw [stringBody.go, bind_of_ok (peek_of_cons h)]
  show (eat >>= fun _ => escape >>= fun bs => stringBody.go (acc ++ bs.toArray) fuel) c = _
  rw [bind_of_ok eat_apply, bind_of_ok he]

theorem nextInString_of_cons (h : c.rest = b :: r) : nextInString c = .ok b (c.skip 1) := by
  rw [nextInString, bind_of_ok (next_of_cons h)]
  rfl

/-- The escapes of one letter after a backslash. -/
theorem escape_short {e d : UInt8} (h : c.rest = e :: r)
    (he : (e = 34 ∧ d = 34) ∨ (e = 92 ∧ d = 92) ∨ (e = 98 ∧ d = 8) ∨ (e = 102 ∧ d = 12) ∨
      (e = 110 ∧ d = 10) ∨ (e = 114 ∧ d = 13) ∨ (e = 116 ∧ d = 9)) :
    escape c = .ok [d] (c.skip 1) := by
  rw [escape, bind_of_ok (nextInString_of_cons h)]
  rcases he with ⟨rfl, rfl⟩ | ⟨rfl, rfl⟩ | ⟨rfl, rfl⟩ | ⟨rfl, rfl⟩ | ⟨rfl, rfl⟩ | ⟨rfl, rfl⟩ |
    ⟨rfl, rfl⟩ <;> rfl

/-- A `\u` escape of four hexadecimal digits below the surrogates stands for the UTF-8 bytes
of its code point. -/
theorem escape_unicode {w x y z : UInt8} {a b' d e : Nat} (h : c.rest = 117 :: w :: x :: y :: z :: r)
    (hw : hexValue w = some a) (hx : hexValue x = some b') (hy : hexValue y = some d)
    (hz : hexValue z = some e) (hlt : ((a * 16 + b') * 16 + d) * 16 + e < 0xD800) :
    escape c = .ok (utf8Bytes (((a * 16 + b') * 16 + d) * 16 + e)) (c.skip 5) := by
  have h1 : (c.skip 1).rest = [w, x, y, z] ++ r := Cursor.rest_skip (t := [117]) h
  have hsize : (c.skip 1).pos + 4 ≤ (c.skip 1).bytes.size := by
    have := congrArg List.length h1
    simp only [Cursor.rest, List.length_drop, Array.length_toList, ByteArray.size_data,
      List.length_append, List.length_cons, List.length_nil] at this
    omega
  have hhex : hexEscape (c.skip 1) = .ok (((a * 16 + b') * 16 + d) * 16 + e) ((c.skip 1).skip 4) := by
    have g0 := get!_of_rest (k := 0) h1 (by simp)
    have g1 := get!_of_rest (k := 1) h1 (by simp)
    have g2 := get!_of_rest (k := 2) h1 (by simp)
    have g3 := get!_of_rest (k := 3) h1 (by simp)
    simp only [Nat.add_zero] at g0
    simp only [hexEscape, hsize, if_true, List.range, List.range.loop, List.map_cons, List.map_nil,
      Nat.add_zero, g0, g1, g2, g3, List.getElem_cons_zero,
      List.getElem_cons_succ, hw, hx, hy, hz]
    rfl
  rw [escape, bind_of_ok (nextInString_of_cons h)]
  show (unicodeEscape) (c.skip 1) = _
  rw [unicodeEscape, bind_of_ok hhex]
  simp only [Cursor.skip_skip]
  rw [if_neg (by simp only [Bool.and_eq_true, decide_eq_true_eq]; omega)]
  rw [if_pos (by simp only [Bool.or_eq_true, decide_eq_true_eq]; omega)]
  rfl

/-- The byte a hexadecimal digit is written as reads back as that digit. -/
theorem hexDigit_bytes : ∀ d, d < 16 → (String.utf8EncodeChar (Json.hexDigit d)).length = 1 ∧
    hexValue ((String.utf8EncodeChar (Json.hexDigit d)).headD 0) = some d := by
  decide

theorem utf8EncodeChar_hexDigit {d : Nat} (hd : d < 16) :
    ∃ b, String.utf8EncodeChar (Json.hexDigit d) = [b] ∧ hexValue b = some d := by
  obtain ⟨hlen, hval⟩ := hexDigit_bytes d hd
  obtain ⟨b, hb⟩ := List.length_eq_one_iff.mp hlen
  exact ⟨b, hb, by rw [hb] at hval; exact hval⟩

/-- The bytes a string body copies as they are: no control character, quote or backslash. -/
def Plain (b : UInt8) : Prop := 32 ≤ b.toNat ∧ b ≠ 34 ∧ b ≠ 92

theorem stringBody_go_plains {acc : Array UInt8} {fuel : Nat} :
    ∀ {c : Cursor} {l : List UInt8}, (∀ b ∈ l, Plain b) → c.rest = l ++ r →
      stringBody.go acc (fuel + l.length) c = stringBody.go (acc ++ l.toArray) fuel (c.skip l.length)
  | c, [], _, _ => by simp
  | c, b :: l, hl, h => by
    obtain ⟨h32, h34, h92⟩ := hl b (List.mem_cons_self ..)
    have h' : (c.skip 1).rest = l ++ r := Cursor.rest_skip (t := [b]) h
    rw [List.length_cons, ← Nat.add_assoc, stringBody_go_plain h h32 h34 h92,
      stringBody_go_plains (fun b hb => hl b (List.mem_cons_of_mem _ hb)) h']
    simp [Nat.add_comm]

/-- A code point from the space on, other than the quote and the backslash, is written in
plain bytes. -/
theorem plain_utf8Bytes {n : Nat} (h32 : 32 ≤ n) (h34 : n ≠ 34) (h92 : n ≠ 92) (hn : n < 0x110000) :
    ∀ b ∈ utf8Bytes n, Plain b := by
  have plain_of {b : UInt8} (h : 32 ≤ b.toNat) (h34 : b.toNat ≠ 34) (h92 : b.toNat ≠ 92) : Plain b :=
    ⟨h, fun e => h34 (by rw [e]; rfl), fun e => h92 (by rw [e]; rfl)⟩
  -- every byte is at least `0x80` but an ASCII one, which is the code point itself
  rcases utf8Bytes_cases hn with
    ⟨h1, a, he, ha⟩ | ⟨h1, h2, a, b, he, ha, hb⟩ | ⟨h2, h3, a, b, c, he, ha, hb, hc⟩ |
      ⟨h3, a, b, c, d, he, ha, hb, hc, hd⟩ <;>
    rw [he] <;> simp only [List.mem_cons, List.not_mem_nil, or_false, forall_eq_or_imp, forall_eq]
  · exact plain_of (by omega) (by omega) (by omega)
  · exact ⟨plain_of (by omega) (by omega) (by omega), plain_of (by omega) (by omega) (by omega)⟩
  · exact ⟨plain_of (by omega) (by omega) (by omega), plain_of (by omega) (by omega) (by omega),
      plain_of (by omega) (by omega) (by omega)⟩
  · exact ⟨plain_of (by omega) (by omega) (by omega), plain_of (by omega) (by omega) (by omega),
      plain_of (by omega) (by omega) (by omega), plain_of (by omega) (by omega) (by omega)⟩

theorem stringBody_go_short {e d : UInt8} {acc : Array UInt8} {fuel : Nat} (h : c.rest = 92 :: e :: r)
    (he : (e = 34 ∧ d = 34) ∨ (e = 92 ∧ d = 92) ∨ (e = 98 ∧ d = 8) ∨ (e = 102 ∧ d = 12) ∨
      (e = 110 ∧ d = 10) ∨ (e = 114 ∧ d = 13) ∨ (e = 116 ∧ d = 9)) :
    stringBody.go acc (fuel + 1) c = stringBody.go (acc ++ [d].toArray) fuel (c.skip 2) :=
  stringBody_go_escape h (escape_short (Cursor.rest_skip (t := [92]) h) he)

theorem eq_of_toNat_eq {ch : Char} {n : Nat} (h : ch.toNat = n) : ch = Char.ofNat n := by
  rw [← h, Char.ofNat_toNat]

/-- One escaped character of a string body is read back in one step, or in one step a byte
when it is written plainly. -/
theorem stringBody_go_escapeBytes (ch : Char) (h : c.rest = Json.escapeBytes ch ++ r) :
    ∃ k ≤ (Json.escapeBytes ch).length, ∀ acc fuel, stringBody.go acc (fuel + k) c =
      stringBody.go (acc ++ (String.utf8EncodeChar ch).toArray) fuel
        (c.skip (Json.escapeBytes ch).length) := by
  unfold Json.escapeBytes Json.escapeChar at h ⊢
  by_cases hq : ch = '"'
  · subst hq
    exact ⟨1, by decide, fun acc fuel => stringBody_go_short h (by decide)⟩
  rw [if_neg hq] at h ⊢
  by_cases hb : ch = '\\'
  · subst hb
    exact ⟨1, by decide, fun acc fuel => stringBody_go_short h (by decide)⟩
  rw [if_neg hb] at h ⊢
  by_cases hn : ch = '\n'
  · subst hn
    exact ⟨1, by decide, fun acc fuel => stringBody_go_short h (by decide)⟩
  rw [if_neg hn] at h ⊢
  by_cases hr : ch = '\r'
  · subst hr
    exact ⟨1, by decide, fun acc fuel => stringBody_go_short h (by decide)⟩
  rw [if_neg hr] at h ⊢
  by_cases ht : ch = '\t'
  · subst ht
    exact ⟨1, by decide, fun acc fuel => stringBody_go_short h (by decide)⟩
  rw [if_neg ht] at h ⊢
  by_cases h8 : ch.toNat = 8
  · rw [if_pos h8] at h ⊢
    rw [eq_of_toNat_eq h8]
    exact ⟨1, by decide, fun acc fuel => stringBody_go_short h (by decide)⟩
  rw [if_neg h8] at h ⊢
  by_cases h12 : ch.toNat = 12
  · rw [if_pos h12] at h ⊢
    rw [eq_of_toNat_eq h12]
    exact ⟨1, by decide, fun acc fuel => stringBody_go_short h (by decide)⟩
  rw [if_neg h12] at h ⊢
  by_cases h32 : ch.toNat < 32
  · -- a control character is written as `\u00` and two hexadecimal digits
    rw [if_pos h32] at h ⊢
    obtain ⟨b1, hb1, hv1⟩ := utf8EncodeChar_hexDigit (show ch.toNat / 16 < 16 by omega)
    obtain ⟨b2, hb2, hv2⟩ := utf8EncodeChar_hexDigit (show ch.toNat % 16 < 16 by omega)
    have hbytes : List.flatMap String.utf8EncodeChar ['\\', 'u', '0', '0',
        Json.hexDigit (ch.toNat / 16), Json.hexDigit (ch.toNat % 16)] = [92, 117, 48, 48, b1, b2] := by
      simp only [List.flatMap_cons, List.flatMap_nil, hb1, hb2]
      rfl
    rw [hbytes] at h ⊢
    have hcode : ((0 * 16 + 0) * 16 + ch.toNat / 16) * 16 + ch.toNat % 16 = ch.toNat := by omega
    have hesc := escape_unicode (Cursor.rest_skip (t := [92]) h)
      (show hexValue 48 = some 0 by decide) (show hexValue 48 = some 0 by decide) hv1 hv2
      (by omega)
    rw [hcode] at hesc
    refine ⟨1, by simp, fun acc fuel => ?_⟩
    rw [stringBody_go_escape h hesc, utf8EncodeChar_eq_utf8Bytes, Cursor.skip_skip]
    rfl
  -- every other character is written as its own bytes
  rw [if_neg h32] at h ⊢
  simp only [List.flatMap_cons, List.flatMap_nil, List.append_nil] at h ⊢
  have hplain : ∀ b ∈ String.utf8EncodeChar ch, Plain b := by
    rw [utf8EncodeChar_eq_utf8Bytes]
    exact plain_utf8Bytes (by omega) (fun e => hq (eq_of_toNat_eq e)) (fun e => hb (eq_of_toNat_eq e))
      ((Char.toNat_valid ch).elim (fun h => by omega) (fun h => h.2))
  exact ⟨_, Nat.le_refl _, fun acc fuel => stringBody_go_plains hplain h⟩

/-- The escaped characters of a string body are read back, in at most one step a byte. -/
theorem stringBody_go_escaped :
    ∀ (cs : List Char) {c : Cursor}, c.rest = cs.flatMap Json.escapeBytes ++ r →
      ∃ k ≤ (cs.flatMap Json.escapeBytes).length, ∀ acc fuel, stringBody.go acc (fuel + k) c =
        stringBody.go (acc ++ (cs.flatMap String.utf8EncodeChar).toArray) fuel
          (c.skip (cs.flatMap Json.escapeBytes).length)
  | [], c, _ => ⟨0, Nat.le_refl 0, fun acc fuel => by simp⟩
  | ch :: cs, c, h => by
    rw [List.flatMap_cons, List.append_assoc] at h
    obtain ⟨k, hk, hstep⟩ := stringBody_go_escapeBytes ch h
    obtain ⟨k', hk', hrest⟩ := stringBody_go_escaped cs (Cursor.rest_skip h)
    refine ⟨k + k', ?_, fun acc fuel => ?_⟩
    · simp only [List.flatMap_cons, List.length_append]
      omega
    · rw [show fuel + (k + k') = fuel + k' + k by omega, hstep, hrest]
      simp [List.flatMap_cons, Array.append_assoc]

/-- A string body written by `quote` is read back as the string, up to its closing quote. -/
theorem stringBody_quoted (s : String) (h : c.rest = s.toList.flatMap Json.escapeBytes ++ 34 :: r) :
    stringBody c = .ok s (c.skip ((s.toList.flatMap Json.escapeBytes).length + 1)) := by
  obtain ⟨k, hk, hgo⟩ := stringBody_go_escaped s.toList h
  have hsize : c.bytes.size - c.pos = (s.toList.flatMap Json.escapeBytes).length + 1 + r.length := by
    have := congrArg List.length h
    simp only [Cursor.rest, List.length_drop, Array.length_toList, ByteArray.size_data,
      List.length_append, List.length_cons] at this
    omega
  have hclose : (c.skip (s.toList.flatMap Json.escapeBytes).length).rest = 34 :: r :=
    Cursor.rest_skip h
  have hread : stringBody.go #[] (c.bytes.size - c.pos + 1) c =
      .ok (s.toList.flatMap String.utf8EncodeChar).toArray
        (c.skip ((s.toList.flatMap Json.escapeBytes).length + 1)) := by
    rw [hsize, show (s.toList.flatMap Json.escapeBytes).length + 1 + r.length + 1 =
      ((s.toList.flatMap Json.escapeBytes).length - k + r.length + 1) + 1 + k by omega, hgo,
      stringBody_go_close hclose, Cursor.skip_skip]
    simp
  rw [stringBody, bind_of_ok get_apply, bind_of_ok hread]
  simp only [List.size_toArray, utf8ValidPrefix_flatMap]
  rw [if_neg (Nat.lt_irrefl _)]
  simp only [utf8Text?_flatMap, String.ofList_toList]
  rfl

/-! ## Whole numbers -/

/-- What may follow a value inside an array or an object: a comma or a closing bracket, or
the end of the input. -/
def Delimited : List UInt8 → Prop
  | [] => True
  | b :: _ => b = 44 ∨ b = 93 ∨ b = 125

/-- After a value, the next byte (zero at the end) is no digit and starts no fraction or
exponent. -/
theorem peekOrNull_delimited (h : c.rest = rest) (hd : Delimited rest) :
    ∃ b, peekOrNull c = .ok b c ∧ isDigit b = false ∧ b ≠ 46 ∧ b ≠ 101 ∧ b ≠ 69 := by
  cases rest with
  | nil => exact ⟨0, peekOrNull_of_nil h, by decide, by decide, by decide, by decide⟩
  | cons b r =>
    refine ⟨b, peekOrNull_of_cons h, ?_⟩
    rcases hd with rfl | rfl | rfl <;> decide

theorem afterDigits_delimited (h : c.rest = rest) (hd : Delimited rest) :
    unsignedNumber.afterDigits true sig c = .ok (.int sig) c := by
  obtain ⟨b, hb, -, h46, h101, h69⟩ := peekOrNull_delimited h hd
  rw [unsignedNumber.afterDigits, bind_of_ok hb]
  -- `h46`, `h101` and `h69` in the context rule out a fraction and an exponent
  simp only [if_true]
  rfl

theorem toNat_digitByte {d : Char} (hd : d.isDigit = true) : d.toNat.toUInt8.toNat = d.toNat := by
  have := Char.isDigit_iff_toNat.mp hd
  exact toNat_toUInt8_of_lt (by simp at this; omega)

theorem isDigit_digitByte {d : Char} (hd : d.isDigit = true) : isDigit d.toNat.toUInt8 = true := by
  have h := Char.isDigit_iff_toNat.mp hd
  have hb := toNat_digitByte hd
  simp only [Char.reduceToNat] at h
  simp only [isDigit, Bool.and_eq_true, decide_eq_true_eq, UInt8.le_iff_toNat_le, hb,
    UInt8.reduceToNat]
  omega

theorem le_ofDigitChars (ds : List Char) (sig : Nat) : sig ≤ Nat.ofDigitChars 10 ds sig := by
  rw [Nat.ofDigitChars_eq_ofDigitChars_zero]
  exact Nat.le_add_right_of_le (Nat.le_mul_of_pos_left _ (Nat.pow_pos (by decide)))

/-- The digit loop of a number reads digits up to a delimiter, while the value stays within
64 bits. -/
theorem digits_of_rest (positive : Bool) {rest : List UInt8} (hd : Delimited rest) :
    ∀ (ds : List Char) (sig fuel : Nat) (c : Cursor), (∀ d ∈ ds, d.isDigit = true) →
      c.rest = ds.map (fun d => d.toNat.toUInt8) ++ rest →
      Nat.ofDigitChars 10 ds sig ≤ u64Max → ds.length ≤ fuel →
      unsignedNumber.digits positive sig fuel c =
        unsignedNumber.afterDigits positive (Nat.ofDigitChars 10 ds sig) (c.skip ds.length)
  | [], sig, 0, c, _, _, _, _ => by rw [unsignedNumber.digits]; rfl
  | [], sig, fuel + 1, c, _, h, _, _ => by
    obtain ⟨b, hb, hnd, -⟩ := peekOrNull_delimited h hd
    rw [unsignedNumber.digits, bind_of_ok hb, if_neg (by rw [hnd]; decide)]
    rfl
  | d :: ds, sig, 0, c, _, _, _, hlen => absurd hlen (by simp)
  | d :: ds, sig, fuel + 1, c, hds, h, hle, hlen => by
    have hdig := hds d (List.mem_cons_self ..)
    have hnext : sig * 10 + (d.toNat.toUInt8.toNat - 48) = 10 * sig + (d.toNat - 48) := by
      rw [toNat_digitByte hdig, Nat.mul_comm]
    have hfits : ¬ sig * 10 + (d.toNat.toUInt8.toNat - 48) > u64Max := by
      have := le_ofDigitChars ds (10 * sig + (d.toNat - 48))
      rw [Nat.ofDigitChars_cons] at hle
      simp only [Char.reduceToNat] at hle
      omega
    rw [unsignedNumber.digits, bind_of_ok (peekOrNull_of_cons h), if_pos (isDigit_digitByte hdig)]
    dsimp only
    rw [if_neg hfits, bind_of_ok eat_apply, hnext,
      digits_of_rest positive hd ds _ fuel (c.skip 1) (fun d hd' => hds d (List.mem_cons_of_mem _ hd'))
        (Cursor.rest_skip (t := [_]) h) (by rw [Nat.ofDigitChars_cons] at hle; simpa using hle)
        (by simp at hlen; omega)]
    simp only [Nat.ofDigitChars_cons, Char.reduceToNat, Cursor.skip_skip, List.length_cons,
      Nat.add_comm 1]

/-- The leading digit of a positive number is not zero. -/
theorem head?_toDigits_ne_zero {n : Nat} (hn : 0 < n) : (Nat.toDigits 10 n).head? ≠ some '0' := by
  induction n using Nat.strongRecOn with
  | ind n ih =>
    rw [Nat.toDigits_eq_if (by decide)]
    split
    · simp only [List.head?_cons, ne_eq, Option.some.injEq, Nat.digitChar_eq_zero]
      omega
    · obtain ⟨d, ds, hds⟩ := List.exists_cons_of_ne_nil (Nat.toDigits_ne_nil (n := n / 10) (b := 10))
      have := ih (n / 10) (by omega) (by omega)
      rw [hds] at this ⊢
      simpa using this

theorem unsignedNumber_toDigits {n : Nat} (hn : n ≤ u64Max)
    (h : c.rest = (Nat.toDigits 10 n).map (fun d => d.toNat.toUInt8) ++ rest) (hd : Delimited rest) :
    unsignedNumber true c = .ok (.int n) (c.skip (Nat.toDigits 10 n).length) := by
  have hlen : (Nat.toDigits 10 n).length ≤ 20 :=
    (Nat.length_toDigits_le_iff (by decide) (by decide)).2 (by unfold u64Max at hn; omega)
  by_cases h0 : n = 0
  · -- a lone zero: the next byte must not be a digit
    subst h0
    have h' : c.rest = 48 :: rest := h
    obtain ⟨b, hb, hnd, -⟩ := peekOrNull_delimited (Cursor.rest_skip_one h') hd
    rw [unsignedNumber, bind_of_ok (next_of_cons h')]
    dsimp only
    rw [if_pos (show ((48 : UInt8) == 48) = true from rfl), bind_of_ok hb,
      if_neg (by rw [hnd]; decide)]
    exact afterDigits_delimited (Cursor.rest_skip_one h') hd
  · obtain ⟨d, ds, hds⟩ := List.exists_cons_of_ne_nil (Nat.toDigits_ne_nil (n := n) (b := 10))
    have hdig : ∀ x ∈ d :: ds, x.isDigit = true := fun x hx =>
      Nat.isDigit_of_mem_toDigits (by decide) (by decide) (hds ▸ hx)
    have hd0 : d.toNat ≠ 48 := fun e =>
      head?_toDigits_ne_zero (Nat.pos_of_ne_zero h0) (by rw [hds, eq_of_toNat_eq e]; rfl)
    have hval : Nat.ofDigitChars 10 ds (d.toNat - 48) = n := by
      have := Nat.ofDigitChars_ten_toDigits (n := n)
      rw [hds, Nat.ofDigitChars_cons] at this
      simpa using this
    rw [hds] at h hlen ⊢
    have hd1 := hdig d (List.mem_cons_self ..)
    rw [unsignedNumber, bind_of_ok (next_of_cons h)]
    dsimp only
    rw [if_neg (by rw [beq_iff_eq, ← UInt8.toNat_inj, toNat_digitByte hd1]; exact hd0),
      if_pos (isDigit_digitByte hd1), toNat_digitByte hd1,
      digits_of_rest true hd ds _ _ (c.skip 1) (fun x hx => hdig x (List.mem_cons_of_mem _ hx))
        (Cursor.rest_skip (t := [_]) h) (by rw [hval]; exact hn) (by simp at hlen; omega),
      hval, Cursor.skip_skip, List.length_cons, Nat.add_comm 1]
    have hrest : (c.skip (ds.length + 1)).rest = rest := by
      have := Cursor.rest_skip h
      simpa [Nat.add_comm 1] using this
    exact afterDigits_delimited hrest hd

/-- The digits of a whole number are ASCII bytes, one a digit. -/
theorem flatMap_utf8EncodeChar_digits :
    ∀ {ds : List Char}, (∀ d ∈ ds, d.isDigit = true) →
      ds.flatMap String.utf8EncodeChar = ds.map fun d => d.toNat.toUInt8
  | [], _ => rfl
  | d :: ds, h => by
    have hd := Char.isDigit_iff_toNat.mp (h d (List.mem_cons_self ..))
    simp only [Char.reduceToNat] at hd
    rw [List.flatMap_cons, List.map_cons, utf8EncodeChar_eq_utf8Bytes,
      flatMap_utf8EncodeChar_digits (fun d' hd' => h d' (List.mem_cons_of_mem _ hd'))]
    simp only [utf8Bytes, show d.toNat < 128 by omega, if_true, List.singleton_append]

theorem textBytes_natText (n : Nat) :
    Json.textBytes (toString (n : Int)) = (Nat.toDigits 10 n).map fun d => d.toNat.toUInt8 := by
  rw [show toString (n : Int) = String.ofList (Nat.toDigits 10 n) from Nat.repr_eq_ofList_toDigits,
    Json.textBytes_ofList,
    flatMap_utf8EncodeChar_digits (fun _ => Nat.isDigit_of_mem_toDigits (by decide) (by decide))]

end JsonReader

end FrameCache
