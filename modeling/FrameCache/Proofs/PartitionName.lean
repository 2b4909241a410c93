import Mathlib
import FrameCache.Proofs.Rfc3339
import FrameCache.Partition.Name

/-!
# Partition names read back

A partition's file name, its stem, and for whole seconds its mangled stem are read back as its
two timestamps (`Partition.parseName_partitionName`), when both are written exactly by their
RFC 3339 forms (`Timestamp.Rfc3339Exact`).

The forms are made of digits, signs, `T`, colons and points (`Timestamp.isRfc3339Char`): no
`_`, so the stem has exactly one, and no `k`, so a stem never looks as if it ended in
`.chunk`. Without a fraction a form has 25 characters, which puts the separator of a mangled
stem at byte 25, and mangling maps only `:` to `_`, which reading undoes.
-/

namespace FrameCache

namespace Timestamp

/-- The characters of an RFC 3339 form with a numeric offset: digits, signs, `T`, colons and
the point. -/
def isRfc3339Char (c : Char) : Bool :=
  c.isDigit || c = '-' || c = '+' || c = 'T' || c = ':' || c = '.'

theorem isRfc3339Char_of_isDigit {c : Char} (h : c.isDigit = true) : isRfc3339Char c = true := by
  simp [isRfc3339Char, h]

theorem isRfc3339Char_of_mem_point_zeroPad {w n : Nat} {c : Char}
    (h : c ∈ ("." ++ zeroPad w n).toList) : isRfc3339Char c = true := by
  rw [String.toList_append, List.mem_append] at h
  rcases h with h | h
  · rw [show c = '.' by simpa using h]
    decide
  · exact isRfc3339Char_of_isDigit (isDigit_of_mem_zeroPad h)

theorem isRfc3339Char_of_mem_fractionText {nano : Nat} {c : Char}
    (h : c ∈ (fractionText nano).toList) : isRfc3339Char c = true := by
  rw [fractionText] at h
  split_ifs at h
  · simp at h
  all_goals exact isRfc3339Char_of_mem_point_zeroPad h

theorem isRfc3339Char_of_mem_minutesText {o : Offset} (ho : o.seconds % 60 = 0) {c : Char}
    (h : c ∈ o.minutesText.toList) : isRfc3339Char c = true := by
  have h₁ := o.gt_neg_day
  have h₂ := o.lt_day
  rw [Offset.toList_minutesText ho] at h
  simp only [List.mem_cons, List.not_mem_nil, or_false] at h
  rcases h with rfl | rfl | rfl | rfl | rfl | rfl
  · split <;> decide
  all_goals first
    | exact isRfc3339Char_of_isDigit (by simp [Nat.isDigit_digitChar]; omega)
    | decide

/-- Every character of the RFC 3339 form is a digit, a sign, `T`, a colon or a point. -/
theorem isRfc3339Char_of_mem_rfc3339 {t : Timestamp} (ht : t.Rfc3339Exact) {c : Char}
    (h : c ∈ t.rfc3339.toList) : isRfc3339Char c = true := by
  rw [toList_rfc3339 t ht.year_nonneg ht.year_le] at h
  simp only [List.mem_append, List.mem_cons] at h
  -- the digits of the date and time, their separators, the fraction and the offset
  rcases h with h | rfl | h | rfl | h | rfl | h | rfl | h | rfl | h | h | h
  · exact isRfc3339Char_of_isDigit (isDigit_of_mem_zeroPad h)
  · decide
  · exact isRfc3339Char_of_isDigit (isDigit_of_mem_zeroPad h)
  · decide
  · exact isRfc3339Char_of_isDigit (isDigit_of_mem_zeroPad h)
  · decide
  · exact isRfc3339Char_of_isDigit (isDigit_of_mem_zeroPad h)
  · decide
  · exact isRfc3339Char_of_isDigit (isDigit_of_mem_zeroPad h)
  · decide
  · exact isRfc3339Char_of_isDigit (isDigit_of_mem_zeroPad h)
  · exact isRfc3339Char_of_mem_fractionText h
  · exact isRfc3339Char_of_mem_minutesText ht.offset_whole_minutes h

/-- The characters of the form are ASCII and none of them is `_` or `k`. -/
theorem isRfc3339Char_spec {c : Char} (h : isRfc3339Char c = true) :
    c ≠ '_' ∧ c ≠ 'k' ∧ c.toNat < 128 := by
  simp only [isRfc3339Char, Bool.or_eq_true, decide_eq_true_eq] at h
  rcases h with ((((h | rfl) | rfl) | rfl) | rfl) | rfl
  · have hle : c ≤ '9' := by
      simp only [Char.isDigit, Bool.and_eq_true, decide_eq_true_eq] at h
      exact h.2
    refine ⟨?_, ?_, ?_⟩
    · rintro rfl
      exact absurd h (by decide)
    · rintro rfl
      exact absurd h (by decide)
    · have : c.val ≤ '9'.val := hle
      simp only [Char.toNat, UInt32.le_iff_toNat_le] at this ⊢
      have : ('9' : Char).val.toNat = 57 := rfl
      omega
  all_goals decide

/-- The form has 25 characters besides its fraction: 19 for the date and time and 6 for the
offset. -/
theorem length_rfc3339_eq {t : Timestamp} (ht : t.Rfc3339Exact) :
    t.rfc3339.toList.length = 25 + (fractionText t.shownFields.nano).toList.length := by
  have hy0 := ht.year_nonneg
  have hy1 := ht.year_le
  rw [toList_rfc3339 t hy0 hy1]
  obtain ⟨hm, hd, hh, hmin, hs⟩ := length_zeroPad_shownFields t
  have hyear : (zeroPad 4 t.shownFields.year.toNat).toList.length = 4 :=
    length_zeroPad (by decide) (by simp only [shownFields]; omega)
  simp only [List.length_append, List.length_cons, Offset.toList_minutesText
    ht.offset_whole_minutes, List.length_nil, hyear, hm, hd, hh, hmin, hs]
  omega

/-- Without a fraction the form has 25 characters. -/
theorem length_rfc3339 {t : Timestamp} (ht : t.Rfc3339Exact) (hn : t.nano % 1000000000 = 0) :
    t.rfc3339.toList.length = 25 := by
  have hnano := t.nano_lt
  have hfrac : t.shownFields.nano = 0 := by
    simp only [shownFields]
    split <;> omega
  rw [length_rfc3339_eq ht, hfrac]
  rfl

/-- A fraction is written with at most a point and nine digits. -/
theorem length_fractionText_le {nano : Nat} (h : nano < 1000000000) :
    (fractionText nano).toList.length ≤ 10 := by
  unfold fractionText
  split_ifs
  · simp
  · rw [String.toList_append, List.length_append, length_zeroPad (by decide) (by omega)]
    simp
  · rw [String.toList_append, List.length_append, length_zeroPad (by decide) (by omega)]
    simp
  · rw [String.toList_append, List.length_append, length_zeroPad (by decide) (by omega)]
    simp

/-- The form has at most 35 characters. -/
theorem length_rfc3339_le {t : Timestamp} (ht : t.Rfc3339Exact) : t.rfc3339.toList.length ≤ 35 := by
  have hnano := t.nano_lt
  have hshown : t.shownFields.nano < 1000000000 := by
    simp only [shownFields]
    split <;> omega
  have := length_fractionText_le hshown
  rw [length_rfc3339_eq ht]
  omega

theorem colon_mem_rfc3339 {t : Timestamp} (ht : t.Rfc3339Exact) : ':' ∈ t.rfc3339.toList := by
  rw [toList_rfc3339 t ht.year_nonneg ht.year_le]
  simp

/-- A local year of four digits lies inside the supported years, so the timestamp can be
written out. -/
theorem localInRange_of_rfc3339Exact {t : Timestamp} (ht : t.Rfc3339Exact) :
    t.localInRange = true := by
  have hdays := Civil.toDays_ofDays (t.localSecond / secondsPerDay)
  have hb := Civil.toDays_bounds (Civil.isValid_ofDays (t.localSecond / secondsPerDay))
    ht.year_nonneg ht.year_le
  rw [hdays] at hb
  simp only [secondsPerDay] at hb
  simp only [localInRange, minSecond, maxSecond, Bool.and_eq_true]
  exact ⟨decide_eq_true (by omega), decide_eq_true (by omega)⟩

theorem render_of_rfc3339Exact {t : Timestamp} (ht : t.Rfc3339Exact) :
    t.render = .ok t.rfc3339 := by
  simp only [render, checkLocal, localInRange_of_rfc3339Exact ht, if_true]
  rfl

end Timestamp

namespace Partition

open Timestamp

theorem stem_eq {start stop : Timestamp} (hs : start.Rfc3339Exact) (he : stop.Rfc3339Exact) :
    stem start stop = .ok (start.rfc3339 ++ "_" ++ stop.rfc3339) := by
  simp only [stem, render_of_rfc3339Exact hs, render_of_rfc3339Exact he]
  rfl

theorem fileName_eq {start stop : Timestamp} (hs : start.Rfc3339Exact) (he : stop.Rfc3339Exact) :
    fileName start stop = .ok (start.rfc3339 ++ "_" ++ stop.rfc3339 ++ "." ++ extension) := by
  simp only [fileName, stem_eq hs he]
  rfl

/-- A name that ends in `.chunk` has that cut off. -/
theorem stemOf_append_extension (s : String) : stemOf (s ++ "." ++ extension) = s := by
  simp only [stemOf, String.toList_append, List.append_assoc]
  generalize ".".toList ++ extension.toList = e
  simp

/-- A name without a `k` does not end in `.chunk` and is its own stem. -/
theorem stemOf_of_not_mem {s : String} (h : 'k' ∉ s.toList) : stemOf s = s := by
  rw [stemOf, if_neg]
  intro hc
  simp only [Bool.and_eq_true, decide_eq_true_eq, beq_iff_eq] at hc
  have hk : 'k' ∈ s.toList.drop (s.toList.length - ("." ++ extension).toList.length) := by
    rw [hc.2]
    decide
  exact h (List.mem_of_mem_drop hk)

/-- A stem with one `_` is read as the two timestamps on either side of it. -/
theorem parseName_of_separated {name : String} {a b : List Char}
    (hstem : (stemOf name).toList = a ++ '_' :: b) (ha : '_' ∉ a) (hb : '_' ∉ b) :
    parseName? name = parsePair (String.ofList a) (String.ofList b) := by
  have hcount : (a ++ '_' :: b).count '_' = 1 := by
    simp [List.count_eq_zero_of_not_mem ha, List.count_eq_zero_of_not_mem hb]
  have hne : ∀ c ∈ a, decide (c ≠ '_') = true := by
    intro c hc
    simp only [decide_eq_true_eq]
    rintro rfl
    exact ha hc
  have htake : (a ++ '_' :: b).takeWhile (· ≠ '_') = a := by
    rw [List.takeWhile_append_of_pos hne]
    simp
  have hdrop : (a ++ '_' :: b).dropWhile (· ≠ '_') = '_' :: b := by
    rw [List.dropWhile_append_of_pos hne]
    simp
  simp only [parseName?, hstem, hcount, htake, hdrop, beq_self_eq_true, if_true, List.drop_succ_cons,
    List.drop_zero]

/-- A mangled stem of 51 ASCII characters with `_` at byte 25, and some other `_`, is read as
the two timestamps on either side of that byte with `:` put back for every `_`. -/
theorem parseName_of_mangled {name : String} {a b : List Char}
    (hstem : (stemOf name).toList = a ++ '_' :: b) (ha : a.length = mangledSeparator)
    (hb : b.length = mangledSeparator) (hascii : ∀ c ∈ a ++ '_' :: b, c.toNat < 128)
    (hcount : (a ++ '_' :: b).count '_' ≠ 1) :
    parseName? name = parsePair (String.ofList (a.map fun c => if c = '_' then ':' else c))
      (String.ofList (b.map fun c => if c = '_' then ':' else c)) := by
  have hlen : (a ++ '_' :: b).length = mangledLength := by
    simp only [List.length_append, List.length_cons, ha, hb]
    rfl
  have hsep : (a ++ '_' :: b)[mangledSeparator]? = some '_' := by
    rw [List.getElem?_append_right (by omega), ha, Nat.sub_self]
    rfl
  have hall : (a ++ '_' :: b).all (fun c => c.toNat < 128) = true := by
    rw [List.all_eq_true]
    intro c hc
    exact decide_eq_true (hascii c hc)
  have htake : (a ++ '_' :: b).take mangledSeparator = a := by
    rw [← ha, List.take_left]
  have hdrop : (a ++ '_' :: b).drop (mangledSeparator + 1) = b := by
    rw [← ha, show a ++ '_' :: b = (a ++ ['_']) ++ b by simp,
      show a.length + 1 = (a ++ ['_']).length by simp, List.drop_left]
  simp only [parseName?, hstem, beq_iff_eq, hcount, if_false, hlen, hsep, hall, htake, hdrop]
  rfl

theorem toList_mangle (s : String) :
    (mangle s).toList = s.toList.map fun c => if c = ':' then '_' else c := by
  simp [mangle]

/-- Putting `:` back for every `_` undoes the mangling of a text without `_`. -/
theorem map_unmangle_mangle {l : List Char} (h : '_' ∉ l) :
    ((l.map fun c => if c = ':' then '_' else c).map fun c => if c = '_' then ':' else c) = l := by
  rw [List.map_map]
  conv_rhs => rw [← List.map_id l]
  apply List.map_congr_left
  intro c hc
  by_cases hcolon : c = ':'
  · simp [hcolon]
  · have hu : c ≠ '_' := fun hu => h (hu ▸ hc)
    simp [hcolon, hu]

theorem utf8ByteSize_ofList_of_ascii {l : List Char} (h : ∀ c ∈ l, c.toNat < 128) :
    (String.ofList l).utf8ByteSize = l.length := by
  rw [Timestamp.utf8ByteSize_ofList]
  induction l with
  | nil => rfl
  | cons c l ih =>
    have hc : c.utf8Size = 1 := by
      rw [Char.utf8Size_eq_one_iff, UInt32.le_iff_toNat_le]
      have := h c (by simp)
      simp only [Char.toNat] at this
      exact Nat.le_of_lt_succ this
    simp only [List.map_cons, List.sum_cons, hc, List.length_cons,
      ih (fun x hx => h x (by simp [hx]))]
    omega

/-- The text of a timestamp's form holds no `_`, no `k`, only ASCII and, once mangled, no `k`. -/
theorem rfc3339_chars {t : Timestamp} (ht : t.Rfc3339Exact) :
    '_' ∉ t.rfc3339.toList ∧ 'k' ∉ t.rfc3339.toList ∧ ∀ c ∈ t.rfc3339.toList, c.toNat < 128 :=
  ⟨fun h => (isRfc3339Char_spec (isRfc3339Char_of_mem_rfc3339 ht h)).1 rfl,
    fun h => (isRfc3339Char_spec (isRfc3339Char_of_mem_rfc3339 ht h)).2.1 rfl,
    fun _ h => (isRfc3339Char_spec (isRfc3339Char_of_mem_rfc3339 ht h)).2.2⟩

/-- Partition names round-trip: the file name and the stem of a partition are read back as its
two timestamps, with the same instants, nanoseconds and offsets, when both are written exactly
by their RFC 3339 forms. For whole seconds, the stem with `:` mangled to `_` has 51 ASCII
bytes with `_` at byte 25 and is read back too, with or without the extension. -/
theorem parseName_partitionName {start stop : Timestamp} (hs : start.Rfc3339Exact)
    (he : stop.Rfc3339Exact) :
    ∃ s, stem start stop = .ok s ∧ fileName start stop = .ok (s ++ "." ++ extension) ∧
      parseName? (s ++ "." ++ extension) = some (start, stop) ∧
      parseName? s = some (start, stop) ∧
      (start.nano % 1000000000 = 0 → stop.nano % 1000000000 = 0 →
        (mangle s).utf8ByteSize = mangledLength ∧
        (∀ c ∈ (mangle s).toList, c.toNat < 128) ∧
        (mangle s).toList[mangledSeparator]? = some '_' ∧
        parseName? (mangle s) = some (start, stop) ∧
        parseName? (mangle s ++ "." ++ extension) = some (start, stop)) := by
  obtain ⟨hsu, hsk, hsa⟩ := rfc3339_chars hs
  obtain ⟨heu, hek, hea⟩ := rfc3339_chars he
  have hpair : parsePair (String.ofList start.rfc3339.toList) (String.ofList stop.rfc3339.toList) =
      some (start, stop) := by
    simp only [String.ofList_toList, parsePair, parseRfc3339_rfc3339 hs, parseRfc3339_rfc3339 he]
  have htext : (start.rfc3339 ++ "_" ++ stop.rfc3339).toList =
      start.rfc3339.toList ++ '_' :: stop.rfc3339.toList := by
    simp
  refine ⟨_, stem_eq hs he, fileName_eq hs he, ?_, ?_, fun hns hne => ?_⟩
  · rw [parseName_of_separated (by rw [stemOf_append_extension]; exact htext) hsu heu, hpair]
  · have hk : 'k' ∉ (start.rfc3339 ++ "_" ++ stop.rfc3339).toList := by
      rw [htext]
      simp [hsk, hek]
    rw [parseName_of_separated (by rw [stemOf_of_not_mem hk]; exact htext) hsu heu, hpair]
  -- the mangled stem: each `:` of the two forms becomes `_`, the separator stays
  have hlen₁ := length_rfc3339 hs hns
  have hlen₂ := length_rfc3339 he hne
  have hm : (mangle (start.rfc3339 ++ "_" ++ stop.rfc3339)).toList =
      (start.rfc3339.toList.map fun c => if c = ':' then '_' else c) ++
        '_' :: (stop.rfc3339.toList.map fun c => if c = ':' then '_' else c) := by
    rw [toList_mangle, htext, List.map_append, List.map_cons]
    rfl
  have hascii : ∀ c ∈ (mangle (start.rfc3339 ++ "_" ++ stop.rfc3339)).toList, c.toNat < 128 := by
    rw [hm]
    intro c hc
    simp only [List.mem_append, List.mem_cons, List.mem_map] at hc
    rcases hc with ⟨x, hx, rfl⟩ | rfl | ⟨x, hx, rfl⟩
    · split
      · decide
      · exact hsa x hx
    · decide
    · split
      · decide
      · exact hea x hx
  have hk : 'k' ∉ (mangle (start.rfc3339 ++ "_" ++ stop.rfc3339)).toList := by
    rw [hm]
    simp only [List.mem_append, List.mem_cons, List.mem_map, not_or, not_exists, not_and]
    refine ⟨fun x hx h => ?_, by decide, fun x hx h => ?_⟩
    · split at h
      · exact absurd h (by decide)
      · exact hsk (h ▸ hx)
    · split at h
      · exact absurd h (by decide)
      · exact hek (h ▸ hx)
  have hcount : ((start.rfc3339.toList.map fun c => if c = ':' then '_' else c) ++
      '_' :: (stop.rfc3339.toList.map fun c => if c = ':' then '_' else c)).count '_' ≠ 1 := by
    have hmem : '_' ∈ start.rfc3339.toList.map fun c => if c = ':' then '_' else c :=
      List.mem_map.2 ⟨':', colon_mem_rfc3339 hs, rfl⟩
    have hpos := List.count_pos_iff.2 hmem
    simp only [List.count_append, List.count_cons_self]
    omega
  have hread : parsePair
      (String.ofList (((start.rfc3339.toList.map fun c => if c = ':' then '_' else c)).map
        fun c => if c = '_' then ':' else c))
      (String.ofList (((stop.rfc3339.toList.map fun c => if c = ':' then '_' else c)).map
        fun c => if c = '_' then ':' else c)) = some (start, stop) := by
    rw [map_unmangle_mangle hsu, map_unmangle_mangle heu, hpair]
  refine ⟨?_, hascii, ?_, ?_, ?_⟩
  · rw [mangle, utf8ByteSize_ofList_of_ascii (by simpa [toList_mangle] using hascii)]
    simp [htext, hlen₁, hlen₂]
    rfl
  · rw [hm, List.getElem?_append_right (by simp [hlen₁]; decide)]
    simp [hlen₁]
    rfl
  · rw [parseName_of_mangled (by rw [stemOf_of_not_mem hk, hm]) (by simp [hlen₁]; rfl)
      (by simp [hlen₂]; rfl) (by rw [← hm]; exact hascii) hcount, hread]
  · rw [parseName_of_mangled (by rw [stemOf_append_extension, hm]) (by simp [hlen₁]; rfl)
      (by simp [hlen₂]; rfl) (by rw [← hm]; exact hascii) hcount, hread]

/-- 2023-11-14T22:13:20.250+05:30. -/
def sampleStart : Timestamp :=
  (Timestamp.ofParts? 1699980200 250000000 ((Offset.ofSeconds? 19800).getD default)).getD default

/-- The leap second 2023-11-15T05:12:60.5-05:00 after the UTC minute 10:12. -/
def sampleLeapStop : Timestamp :=
  (Timestamp.ofParts? 1699999979 1500000000 ((Offset.ofSeconds? (-18000)).getD default)).getD default

theorem parseName_partitionName_leap :
    sampleStart.Rfc3339Exact ∧ sampleLeapStop.Rfc3339Exact ∧
    ∃ s, stem sampleStart sampleLeapStop = .ok s ∧
      fileName sampleStart sampleLeapStop = .ok (s ++ "." ++ extension) ∧
      parseName? (s ++ "." ++ extension) = some (sampleStart, sampleLeapStop) ∧
      parseName? s = some (sampleStart, sampleLeapStop) ∧
      (sampleStart.nano % 1000000000 = 0 → sampleLeapStop.nano % 1000000000 = 0 →
        (mangle s).utf8ByteSize = mangledLength ∧
        (∀ c ∈ (mangle s).toList, c.toNat < 128) ∧
        (mangle s).toList[mangledSeparator]? = some '_' ∧
        parseName? (mangle s) = some (sampleStart, sampleLeapStop) ∧
        parseName? (mangle s ++ "." ++ extension) = some (sampleStart, sampleLeapStop)) :=
  have hs : sampleStart.Rfc3339Exact := ⟨by decide, by decide, by decide, by decide⟩
  have he : sampleLeapStop.Rfc3339Exact := ⟨by decide, by decide, by decide, by decide⟩
  ⟨hs, he, parseName_partitionName hs he⟩

end Partition

end FrameCache
