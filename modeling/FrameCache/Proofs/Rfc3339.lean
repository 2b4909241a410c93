import Mathlib
import FrameCache.Time.Parse
import FrameCache.Proofs.Calendar

/-!
# Reading back the RFC 3339 form

The RFC 3339 form of a timestamp is read back as the same timestamp, with the same instant,
nanoseconds and offset (`Timestamp.parseRfc3339_rfc3339`), when the form holds all of it
(`Timestamp.Rfc3339Exact`): the local year has four digits, the offset is a whole number of
minutes, since the form rounds it to the minute, and a leap second follows the last second of
a UTC minute, as it does in every timestamp made from a count of seconds or read from text.

The reader works on the list of characters; each of its parts has a lemma saying what it
reads from the text a timestamp writes: digits padded with zeros (`run_number_zeroPad`), the
fraction of 0, 3, 6 or 9 digits (`run_fractionPart`) and the offset (`run_offset_minutesText`).
Together they read back the fields that the form shows (`Timestamp.shownFields`), and these
name the timestamp again (`Timestamp.toTimestamp_shownFields`).
-/

namespace FrameCache

namespace Timestamp

theorem toList_zeroPad (w n : Nat) :
    (zeroPad w n).toList =
      List.replicate (w - (Nat.toDigits 10 n).length) '0' ++ Nat.toDigits 10 n := by
  simp only [zeroPad, String.toList_append, String.toList_ofList, Nat.toString_eq_repr,
    Nat.toList_repr, ← String.length_toList]

theorem length_zeroPad {w n : Nat} (hw : 0 < w) (hn : n < 10 ^ w) :
    (zeroPad w n).toList.length = w := by
  have := (Nat.length_toDigits_le_iff (by decide) hw).2 hn
  rw [toList_zeroPad, List.length_append, List.length_replicate]
  omega

theorem isDigit_of_mem_zeroPad {w n : Nat} {c : Char} (h : c ∈ (zeroPad w n).toList) :
    c.isDigit = true := by
  rw [toList_zeroPad, List.mem_append, List.mem_replicate] at h
  rcases h with ⟨-, rfl⟩ | h
  · decide
  · exact Nat.isDigit_of_mem_toDigits (by decide) (by decide) h

theorem ofDigitChars_zeroPad (w n : Nat) : Nat.ofDigitChars 10 (zeroPad w n).toList 0 = n := by
  rw [toList_zeroPad, Nat.ofDigitChars_append, Nat.ofDigitChars_replicate_zero, Nat.mul_zero,
    Nat.ofDigitChars_ten_toDigits]

/-- Two digits, tens first. -/
theorem toList_zeroPad_two {n : Nat} (hn : n < 100) :
    (zeroPad 2 n).toList = [Nat.digitChar (n / 10), Nat.digitChar (n % 10)] := by
  rw [toList_zeroPad]
  by_cases h : n < 10
  · rw [Nat.toDigits_of_lt_base h, Nat.div_eq_of_lt h, Nat.mod_eq_of_lt h]
    rfl
  · rw [Nat.toDigits_of_base_le (by decide) (by omega), Nat.toDigits_of_lt_base (by omega)]
    rfl

end Timestamp

namespace TimeScan

theorem foldl_digits (ds : List Char) (init : Nat) :
    ds.foldl (fun n c => n * 10 + (c.toNat - 48)) init = Nat.ofDigitChars 10 ds init := by
  induction ds generalizing init with
  | nil => rfl
  | cons c ds ih => rw [List.foldl_cons, ih, Nat.ofDigitChars_cons, Nat.mul_comm]; rfl

theorem length_le_byteLength (cs : List Char) : cs.length ≤ byteLength cs := by
  suffices ∀ init, init + cs.length ≤ cs.foldl (fun n c => n + c.utf8Size) init by
    simpa [byteLength] using this 0
  induction cs with
  | nil => simp
  | cons c cs ih =>
    intro init
    have := ih (init + c.utf8Size)
    have := c.utf8Size_pos
    simp only [List.foldl_cons, List.length_cons]
    omega

theorem run_number (min max : Nat) (cs : List Char) : (number min max).run cs =
    if byteLength cs < min then .error .tooShort
    else if ((cs.take max).takeWhile Char.isDigit).length < min then .error .invalid
    else pure (Nat.ofDigitChars 10 ((cs.take max).takeWhile Char.isDigit) 0,
      cs.drop ((cs.take max).takeWhile Char.isDigit).length) := by
  simp only [number, StateT.run_bind, StateT.run_get, pure_bind, foldl_digits]
  split
  · rfl
  · split
    · rfl
    · rfl

/-- Digits are read up to the width, or up to the first character that is not one. -/
theorem run_number_digits {min max : Nat} {ds rest : List Char}
    (hds : ∀ c ∈ ds, c.isDigit = true) (hmin : min ≤ ds.length) (hmax : ds.length ≤ max)
    (hstop : ds.length < max → ∀ c ∈ rest.head?, c.isDigit = false) :
    (number min max).run (ds ++ rest) = pure (Nat.ofDigitChars 10 ds 0, rest) := by
  have htake : ((ds ++ rest).take max).takeWhile Char.isDigit = ds := by
    rw [List.take_append, List.take_of_length_le hmax, List.takeWhile_append_of_pos hds]
    suffices h : (rest.take (max - ds.length)).takeWhile Char.isDigit = [] by rw [h, List.append_nil]
    by_cases hlt : ds.length < max
    · cases rest with
      | nil => simp
      | cons c rest =>
        have hc := hstop hlt c (by simp)
        rw [show max - ds.length = (max - ds.length - 1) + 1 by omega, List.take_succ_cons,
          List.takeWhile_cons_of_neg (by simp [hc])]
    · rw [show max - ds.length = 0 by omega, List.take_zero, List.takeWhile_nil]
  have hbytes := length_le_byteLength (ds ++ rest)
  rw [List.length_append] at hbytes
  rw [run_number, htake, if_neg (by omega), if_neg (by omega), List.drop_left]

theorem run_char (c : Char) (rest : List Char) : (char c).run (c :: rest) = pure ((), rest) := by
  simp only [char, StateT.run_bind, StateT.run_get, pure_bind]
  simp

theorem run_within {v lo hi : Nat} (h₁ : lo ≤ v) (h₂ : v ≤ hi) (cs : List Char) :
    (within v lo hi).run cs = pure (v, cs) := by
  simp [within, h₁, h₂]

/-- A fraction reads at most nine digits and scales them to nanoseconds. -/
theorem run_fraction {ds rest : List Char} (hds : ∀ c ∈ ds, c.isDigit = true)
    (h1 : 1 ≤ ds.length) (h9 : ds.length ≤ 9) (hstop : ∀ c ∈ rest.head?, c.isDigit = false) :
    fraction.run (ds ++ rest) = pure (Nat.ofDigitChars 10 ds 0 * 10 ^ (9 - ds.length), rest) := by
  have hrest : rest.dropWhile Char.isDigit = rest := by
    cases rest with
    | nil => rfl
    | cons c rest => exact List.dropWhile_cons_of_neg (by simpa using hstop c (by simp))
  simp only [fraction, StateT.run_bind, StateT.run_get, pure_bind,
    run_number_digits hds h1 h9 (fun _ => hstop)]
  simp [hrest, Nat.pow_eq]

theorem run_fractionPart_point {ds rest : List Char} (hds : ∀ c ∈ ds, c.isDigit = true)
    (h1 : 1 ≤ ds.length) (h9 : ds.length ≤ 9) (hstop : ∀ c ∈ rest.head?, c.isDigit = false) :
    fractionPart.run ('.' :: (ds ++ rest)) =
      pure (Nat.ofDigitChars 10 ds 0 * 10 ^ (9 - ds.length), rest) := by
  simp only [fractionPart, StateT.run_bind, StateT.run_get, pure_bind]
  simp only [StateT.run_set, pure_bind]
  exact run_fraction hds h1 h9 hstop

/-- A point and `w` digits of `k` read as `k` scaled from `w` digits to nine. -/
theorem run_fractionPart_zeroPad {w k : Nat} (h1 : 1 ≤ w) (h9 : w ≤ 9) (hk : k < 10 ^ w)
    {rest : List Char} (hstop : ∀ c ∈ rest.head?, c.isDigit = false) :
    fractionPart.run (("." ++ Timestamp.zeroPad w k).toList ++ rest) =
      pure (k * 10 ^ (9 - w), rest) := by
  have hlen := Timestamp.length_zeroPad (by omega) hk
  rw [String.toList_append, List.append_assoc]
  simp only [show ".".toList = ['.'] from rfl, List.singleton_append]
  rw [run_fractionPart_point (fun _ => Timestamp.isDigit_of_mem_zeroPad) (by omega) (by omega)
    hstop, Timestamp.ofDigitChars_zeroPad, hlen]

/-- The written fraction of a second is read back as its nanoseconds, when what follows it
starts with neither a point nor a digit. -/
theorem run_fractionPart {nano : Nat} (hn : nano < 1000000000) {rest : List Char}
    (hnext : ∀ c ∈ rest.head?, c ≠ '.' ∧ c.isDigit = false) :
    fractionPart.run ((Timestamp.fractionText nano).toList ++ rest) = pure (nano, rest) := by
  have hstop : ∀ c ∈ rest.head?, c.isDigit = false := fun c hc => (hnext c hc).2
  rw [Timestamp.fractionText]
  split
  · -- no fraction: nothing is read
    subst nano
    simp only [fractionPart, StateT.run_bind, StateT.run_get, pure_bind]
    cases rest with
    | nil => rfl
    | cons c rest => simp [(hnext c (by simp)).1]
  split
  · rw [run_fractionPart_zeroPad (by decide) (by decide) (by omega) hstop]
    congr 2
    omega
  split
  · rw [run_fractionPart_zeroPad (by decide) (by decide) (by omega) hstop]
    congr 2
    omega
  · rw [run_fractionPart_zeroPad (by decide) (by decide) (by omega) hstop]
    simp

/-- `k` digits of a number below `10 ^ k` are read back as the number. -/
theorem run_number_zeroPad {k n : Nat} (hk : 0 < k) (hn : n < 10 ^ k) (rest : List Char) :
    (number k k).run ((Timestamp.zeroPad k n).toList ++ rest) = pure (n, rest) := by
  have hlen := Timestamp.length_zeroPad hk hn
  rw [run_number_digits (fun _ => Timestamp.isDigit_of_mem_zeroPad) (by omega) (by omega)
    (by omega), Timestamp.ofDigitChars_zeroPad]

theorem run_dateTimeSeparator (rest : List Char) :
    dateTimeSeparator.run ('T' :: rest) = pure ((), rest) := by
  simp only [dateTimeSeparator, StateT.run_bind, StateT.run_get, pure_bind]
  simp

theorem run_twoChars (a b : Char) (rest : List Char) :
    twoChars.run (a :: b :: rest) = pure ((a, b), a :: b :: rest) := by
  have hbytes := length_le_byteLength (a :: b :: rest)
  simp only [List.length_cons] at hbytes
  simp only [twoChars, StateT.run_bind, StateT.run_get, pure_bind]
  rw [if_neg (by omega)]
  rfl

theorem run_offsetSign (negative : Bool) (rest : List Char) :
    offsetSign.run ((if negative then '-' else '+') :: rest) = pure (negative, rest) := by
  simp only [offsetSign, StateT.run_bind, StateT.run_get, pure_bind]
  cases negative <;> simp [isMinus]

/-- Minutes below 60 written in two digits are read back. -/
theorem run_offsetMinutes {m : Nat} (hm : m < 60) (cs : List Char) :
    (offsetMinutes (Nat.digitChar (m / 10)) (Nat.digitChar (m % 10))).run cs = pure (m, cs) := by
  have htens : m / 10 ≤ 5 := by omega
  have hunits : m % 10 < 10 := Nat.mod_lt _ (by decide)
  have hvalue : m / 10 * 10 + m % 10 = m := by omega
  generalize m / 10 = k at htens hvalue
  generalize m % 10 = u at hunits hvalue
  subst hvalue
  have hu : (Nat.digitChar u).isDigit = true := by simp [Nat.isDigit_digitChar, hunits]
  have hk : (decide ('0' ≤ Nat.digitChar k) && decide (Nat.digitChar k ≤ '5')) = true := by
    interval_cases k <;> decide
  simp only [offsetMinutes, hu, Bool.and_true, hk, if_true,
    Nat.toNat_digitChar_sub_48_of_lt_ten (show k < 10 by omega),
    Nat.toNat_digitChar_sub_48_of_lt_ten hunits]
  rfl

/-- A sign, two hour digits, a colon and two minute digits read as the signed seconds, by
any separator reader that takes the colon. -/
theorem run_numericOffset (negative : Bool) {h m : Nat} (hh : h < 100) (hm : m < 60)
    {sep : TimeScan Unit} (rest : List Char)
    (hsep : sep.run (':' :: Nat.digitChar (m / 10) :: Nat.digitChar (m % 10) :: rest) =
      pure ((), Nat.digitChar (m / 10) :: Nat.digitChar (m % 10) :: rest)) :
    (numericOffset sep).run ((if negative then '-' else '+') :: Nat.digitChar (h / 10) ::
      Nat.digitChar (h % 10) :: ':' :: Nat.digitChar (m / 10) :: Nat.digitChar (m % 10) :: rest) =
      pure (if negative then -((h * 3600 + m * 60 : Nat) : Int) else ((h * 3600 + m * 60 : Nat) : Int),
        rest) := by
  have hd1 : (Nat.digitChar (h / 10)).isDigit = true := by
    simp [Nat.isDigit_digitChar]; omega
  have hd2 : (Nat.digitChar (h % 10)).isDigit = true := by
    simp [Nat.isDigit_digitChar]; omega
  have hv1 := Nat.toNat_digitChar_of_lt_ten (show h / 10 < 10 by omega)
  have hv2 := Nat.toNat_digitChar_of_lt_ten (show h % 10 < 10 by omega)
  simp only [numericOffset, StateT.run_bind, run_offsetSign, pure_bind, run_twoChars, hd1, hd2,
    Bool.and_self, Bool.not_true, Bool.false_eq_true, if_false, StateT.run_modify,
    List.drop_succ_cons, List.drop_zero, hsep, run_offsetMinutes hm, StateT.run_pure, hv1, hv2]
  have hvalue : ((((48 + h / 10 : Nat) : Int) - 48) * 10 + (((48 + h % 10 : Nat) : Int) - 48)) * 3600 +
      (m : Int) * 60 = ((h * 3600 + m * 60 : Nat) : Int) := by
    push_cast
    omega
  rw [hvalue]

end TimeScan

namespace Offset

/-- The offset as written, when it rounds to less than a day: a sign, the hours and the
minutes of the rounded offset. -/
theorem toList_minutesText_rounded {o : Offset} (h : (o.seconds.natAbs + 30) / 60 < 1440) :
    o.minutesText.toList = (if decide (o.seconds < 0) then '-' else '+') ::
      Nat.digitChar ((o.seconds.natAbs + 30) / 60 / 60 / 10) ::
      Nat.digitChar ((o.seconds.natAbs + 30) / 60 / 60 % 10) ::
      ':' :: Nat.digitChar ((o.seconds.natAbs + 30) / 60 % 60 / 10) ::
      [Nat.digitChar ((o.seconds.natAbs + 30) / 60 % 60 % 10)] := by
  rw [minutesText, String.toList_append, String.toList_append, String.toList_append,
    Timestamp.toList_zeroPad_two (by omega), Timestamp.toList_zeroPad_two (by omega)]
  by_cases hneg : o.seconds < 0 <;> simp only [signText, hneg, decide_true, decide_false,
    if_true, if_false, Bool.false_eq_true] <;> rfl

/-- An offset of whole minutes is written with its hours and minutes exactly. -/
theorem toList_minutesText {o : Offset} (h : o.seconds % 60 = 0) :
    o.minutesText.toList = (if decide (o.seconds < 0) then '-' else '+') ::
      Nat.digitChar (o.seconds.natAbs / 60 / 60 / 10) ::
      Nat.digitChar (o.seconds.natAbs / 60 / 60 % 10) ::
      ':' :: Nat.digitChar (o.seconds.natAbs / 60 % 60 / 10) ::
      [Nat.digitChar (o.seconds.natAbs / 60 % 60 % 10)] := by
  have h₁ := o.gt_neg_day
  have h₂ := o.lt_day
  -- rounding to the minute changes nothing
  have hmin : (o.seconds.natAbs + 30) / 60 = o.seconds.natAbs / 60 := by omega
  rw [toList_minutesText_rounded (by omega), hmin]

end Offset

namespace TimeScan

/-- The sign of an offset is never taken for the zone letter. -/
theorem sign_ne_zulu (neg : Bool) :
    ((if neg then '-' else '+') = 'Z' || (if neg then '-' else '+') = 'z') = false := by
  cases neg <;> decide

/-- The offset of whole minutes as it is written is read back. -/
theorem run_offset_minutesText {o : Offset} (h : o.seconds % 60 = 0) (rest : List Char) :
    (offset (char ':')).run (o.minutesText.toList ++ rest) = pure (o.seconds, rest) := by
  have h₁ := o.gt_neg_day
  have h₂ := o.lt_day
  rw [Offset.toList_minutesText h]
  simp only [List.cons_append, List.nil_append]
  simp only [offset, StateT.run_bind, StateT.run_get, pure_bind]
  simp only [sign_ne_zulu, Bool.false_eq_true, if_false]
  rw [run_numericOffset _ (by omega) (by omega) _ (run_char ':' _)]
  have hvalue : ((o.seconds.natAbs / 60 / 60 * 3600 + o.seconds.natAbs / 60 % 60 * 60 : Nat) : Int) =
      o.seconds.natAbs := by
    omega
  rw [hvalue]
  by_cases hneg : o.seconds < 0 <;> simp only [hneg, decide_true, decide_false, if_true, if_false,
    Bool.false_eq_true] <;> congr 2 <;> omega

end TimeScan

namespace Timestamp

/-- The RFC 3339 form of `t` holds all of it: its local year has four digits, its offset is
whole minutes, and a leap second follows the last second of a UTC minute. -/
structure Rfc3339Exact (t : Timestamp) : Prop where
  year_nonneg : 0 ≤ t.localDate.year
  year_le : t.localDate.year ≤ 9999
  offset_whole_minutes : t.offset.seconds % 60 = 0
  leap_at_minute_end : 1000000000 ≤ t.nano → t.second % 60 = 59

/-- The fields the RFC 3339 form of a timestamp shows: its local date and time, a leap second
as the second after the one it follows, the nanoseconds within that second, and its offset. -/
def shownFields (t : Timestamp) : TimeFields where
  year := t.localDate.year
  month := t.localDate.month
  day := t.localDate.day
  hour := t.localSecondOfDay / 3600
  minute := t.localSecondOfDay / 60 % 60
  second := t.localSecondOfDay % 60 + (if t.nano ≥ 1000000000 then 1 else 0)
  nano := if t.nano ≥ 1000000000 then t.nano - 1000000000 else t.nano
  offset := t.offset.seconds

/-- The RFC 3339 form of a timestamp of a four-digit year, character by character. -/
theorem toList_rfc3339 (t : Timestamp) (hy0 : 0 ≤ t.localDate.year)
    (hy1 : t.localDate.year ≤ 9999) :
    t.rfc3339.toList = (zeroPad 4 t.shownFields.year.toNat).toList ++ '-' ::
      ((zeroPad 2 t.shownFields.month).toList ++ '-' :: ((zeroPad 2 t.shownFields.day).toList ++
      'T' :: ((zeroPad 2 t.shownFields.hour).toList ++ ':' ::
      ((zeroPad 2 t.shownFields.minute).toList ++ ':' :: ((zeroPad 2 t.shownFields.second).toList ++
      ((fractionText t.shownFields.nano).toList ++ t.offset.minutesText.toList)))))) := by
  simp only [rfc3339, rfc3339With, dateText, timeText, yearText, hy0, hy1, and_self, if_true,
    Bool.false_and, Bool.false_eq_true, if_false, String.toList_append, List.append_assoc,
    shownFields, ge_iff_le, decide_eq_true_eq]
  simp only [show "-".toList = ['-'] from rfl, show "T".toList = ['T'] from rfl,
    show ":".toList = [':'] from rfl, List.cons_append, List.nil_append]

theorem month_day_bounds (t : Timestamp) :
    1 ≤ t.localDate.month ∧ t.localDate.month ≤ 12 ∧ 1 ≤ t.localDate.day ∧ t.localDate.day ≤ 31 :=
  Civil.isValid_bounds (Civil.isValid_ofDays (t.localSecond / secondsPerDay))

theorem localSecondOfDay_lt (t : Timestamp) : t.localSecondOfDay < 86400 := by
  unfold localSecondOfDay secondsPerDay
  omega

/-- Each field a timestamp shows is in the range of its place: a month and a day of the month,
an hour, a minute, a second that reaches 60 only in a leap second, and nanoseconds below a
second. -/
theorem shownFields_bounds (t : Timestamp) :
    1 ≤ t.shownFields.month ∧ t.shownFields.month ≤ 12 ∧ 1 ≤ t.shownFields.day ∧
      t.shownFields.day ≤ 31 ∧ t.shownFields.hour ≤ 23 ∧ t.shownFields.minute ≤ 59 ∧
      t.shownFields.second ≤ 60 ∧ t.shownFields.nano < 1000000000 := by
  obtain ⟨hm1, hm2, hd1, hd2⟩ := t.month_day_bounds
  have hsod := t.localSecondOfDay_lt
  have hnano := t.nano_lt
  simp only [shownFields]
  refine ⟨hm1, hm2, hd1, hd2, by omega, by omega, ?_, ?_⟩ <;> split <;> omega

/-- The month, day, hour, minute and second of the form take two digits each. -/
theorem length_zeroPad_shownFields (t : Timestamp) :
    (zeroPad 2 t.shownFields.month).toList.length = 2 ∧
      (zeroPad 2 t.shownFields.day).toList.length = 2 ∧
      (zeroPad 2 t.shownFields.hour).toList.length = 2 ∧
      (zeroPad 2 t.shownFields.minute).toList.length = 2 ∧
      (zeroPad 2 t.shownFields.second).toList.length = 2 := by
  obtain ⟨-, hm, -, hd, hh, hmin, hs, -⟩ := shownFields_bounds t
  exact ⟨length_zeroPad (by decide) (by omega), length_zeroPad (by decide) (by omega),
    length_zeroPad (by decide) (by omega), length_zeroPad (by decide) (by omega),
    length_zeroPad (by decide) (by omega)⟩

/-- The RFC 3339 form of a timestamp of a four-digit year and an offset of whole minutes is
read back as the fields it shows. -/
theorem run_rfc3339 {t : Timestamp} (ht : t.Rfc3339Exact) :
    TimeScan.rfc3339.run t.rfc3339.toList = pure (t.shownFields, []) := by
  have hy0 := ht.year_nonneg
  have hy1 := ht.year_le
  have ho := ht.offset_whole_minutes
  obtain ⟨hm1, hm2, hd1, hd2, hh, hmin, hsec, hfrac⟩ := t.shownFields_bounds
  have hoff₁ := t.offset.gt_neg_day
  have hoff₂ := t.offset.lt_day
  have hsign : ∀ c ∈ t.offset.minutesText.toList.head?, c ≠ '.' ∧ c.isDigit = false := by
    rw [Offset.toList_minutesText ho]
    intro c hc
    simp only [List.head?_cons, Option.mem_def, Option.some.injEq] at hc
    subst hc
    split <;> decide
  have hoff := TimeScan.run_offset_minutesText ho []
  rw [List.append_nil] at hoff
  have hyear : ((t.shownFields.year.toNat : Nat) : Int) = t.shownFields.year :=
    Int.toNat_of_nonneg hy0
  rw [toList_rfc3339 t hy0 ht.year_le]
  simp only [TimeScan.rfc3339, StateT.run_bind,
    TimeScan.run_number_zeroPad (show 0 < 4 by decide) (show t.shownFields.year.toNat < 10 ^ 4 by
      simp only [shownFields]; omega),
    TimeScan.run_number_zeroPad (show 0 < 2 by decide) (show t.shownFields.month < 10 ^ 2 by omega),
    TimeScan.run_number_zeroPad (show 0 < 2 by decide) (show t.shownFields.day < 10 ^ 2 by omega),
    TimeScan.run_number_zeroPad (show 0 < 2 by decide) (show t.shownFields.hour < 10 ^ 2 by omega),
    TimeScan.run_number_zeroPad (show 0 < 2 by decide) (show t.shownFields.minute < 10 ^ 2 by omega),
    TimeScan.run_number_zeroPad (show 0 < 2 by decide) (show t.shownFields.second < 10 ^ 2 by omega),
    TimeScan.run_within hm1 hm2, TimeScan.run_within hd1 hd2,
    TimeScan.run_within (Nat.zero_le _) hh, TimeScan.run_within (Nat.zero_le _) hmin,
    TimeScan.run_within (Nat.zero_le _) hsec,
    pure_bind, TimeScan.run_char, TimeScan.run_dateTimeSeparator,
    TimeScan.run_fractionPart hfrac hsign, hoff, hyear]
  rw [if_neg (by omega)]
  rfl

/-- The fields a timestamp shows name it again: its local date and time give back its second,
its shown second and fraction give back its nanoseconds, leap second included, and the
offset is its own, when the year has four digits, the offset is whole minutes and a leap
second ends a UTC minute. -/
theorem toTimestamp_shownFields {t : Timestamp} (ht : t.Rfc3339Exact) :
    t.shownFields.toTimestamp = .ok t := by
  have hdays := Civil.toDays_ofDays (t.localSecond / secondsPerDay)
  have hvalid := Civil.isValid_ofDays (t.localSecond / secondsPerDay)
  have hsod := t.localSecondOfDay_lt
  have hnano := t.nano_lt
  have hmin := t.min_le
  have hmax := t.le_max
  have hoff₁ := t.offset.gt_neg_day
  have hoff₂ := t.offset.lt_day
  have hdate : (⟨t.shownFields.year, t.shownFields.month, t.shownFields.day⟩ : Civil) =
      Civil.ofDays (t.localSecond / secondsPerDay) := rfl
  have hoffset : Offset.ofSeconds? t.shownFields.offset = some t.offset := by
    show Offset.ofSeconds? t.offset.seconds = _
    rw [Offset.ofSeconds?, dif_pos ⟨hoff₁, hoff₂⟩]
  -- a leap second is shown as second 60 and read back as 59 and a second of nanoseconds
  have hsplit : (if t.shownFields.second = 60 then ((59 : Nat), (1000000000 : Nat))
      else (t.shownFields.second, 0)) =
      (t.localSecondOfDay % 60, if 1000000000 ≤ t.nano then 1000000000 else 0) := by
    simp only [shownFields, localSecondOfDay, localSecond, secondsPerDay] at hsod ⊢
    by_cases hl : 1000000000 ≤ t.nano
    · have h59 := ht.leap_at_minute_end hl
      have ho := ht.offset_whole_minutes
      simp only [ge_iff_le, hl, if_true]
      rw [if_pos (by omega), Prod.mk.injEq]
      omega
    · simp only [ge_iff_le, hl, if_false, Nat.add_zero]
      rw [if_neg (by omega)]
  have hsecond : (Civil.ofDays (t.localSecond / secondsPerDay)).toDays * 86400 +
      ((t.shownFields.hour * 3600 + t.shownFields.minute * 60 + t.localSecondOfDay % 60 : Nat) : Int) -
      t.shownFields.offset = t.second := by
    rw [hdays]
    simp only [shownFields, localSecondOfDay, localSecond, secondsPerDay] at hsod ⊢
    omega
  have hnano' : t.shownFields.nano + (if 1000000000 ≤ t.nano then 1000000000 else 0) = t.nano := by
    simp only [shownFields]
    split <;> omega
  have hparts : ofParts? t.second t.nano t.offset = some t := by
    rw [ofParts?, dif_pos ⟨hnano, hmin, hmax⟩]
  have hyear : -262143 ≤ t.shownFields.year ∧ t.shownFields.year ≤ 262142 := by
    have := ht.year_nonneg
    have := ht.year_le
    simp only [shownFields]
    omega
  simp only [TimeFields.toTimestamp, hdate, hvalid, hoffset, hsplit, hsecond, hnano', hyear.1,
    hyear.2, decide_true, Bool.and_self, Bool.not_true, Bool.false_eq_true, if_false, pure_bind,
    hparts]
  rfl

theorem utf8ByteSize_ofList (l : List Char) :
    (String.ofList l).utf8ByteSize = (l.map Char.utf8Size).sum := by
  induction l with
  | nil => rfl
  | cons c l ih =>
    rw [String.ofList_cons, String.utf8ByteSize_append, String.utf8ByteSize_singleton, ih,
      List.map_cons, List.sum_cons]

/-- Every character takes at least one byte. -/
theorem length_toList_le_utf8ByteSize (s : String) : s.toList.length ≤ s.utf8ByteSize := by
  have h := utf8ByteSize_ofList s.toList
  rw [String.ofList_toList] at h
  rw [h]
  induction s.toList with
  | nil => simp
  | cons c l ih =>
    have := c.utf8Size_pos
    simp only [List.length_cons, List.map_cons, List.sum_cons]
    omega

/-- The RFC 3339 form of a timestamp is read back as the same timestamp: the same instant,
nanoseconds and offset, when its local year has four digits, its offset is whole minutes and
a leap second ends a UTC minute. -/
theorem parseRfc3339_rfc3339 {t : Timestamp} (ht : t.Rfc3339Exact) :
    parseRfc3339 t.rfc3339 = .ok t := by
  have hy0 := ht.year_nonneg
  have hy1 := ht.year_le
  have ho := ht.offset_whole_minutes
  have hlen : 20 ≤ t.rfc3339.utf8ByteSize := by
    refine Nat.le_trans ?_ (length_toList_le_utf8ByteSize _)
    rw [toList_rfc3339 t hy0 hy1]
    obtain ⟨hm, hd, hh, hmin, hs⟩ := length_zeroPad_shownFields t
    simp only [List.length_append, List.length_cons, Offset.toList_minutesText ho,
      List.length_nil, hm, hd, hh, hmin, hs]
    omega
  simp only [parseRfc3339, show ¬ t.rfc3339.utf8ByteSize < 20 by omega, if_false]
  rw [run_rfc3339 ht, pure_bind]
  exact toTimestamp_shownFields ht

end Timestamp

end FrameCache
