import Mathlib
import FrameCache.Proofs.Rfc3339

/-!
# Reading the RFC 3339 form leniently

The header of a partition file holds its first and last timestamps in the RFC 3339 form with
`Z` for the zero offset, and reads them back with the lenient reader. The form shows the
local date and time and the offset rounded to the minute (`Offset.shownSeconds`); the lenient
reader reads those fields back (`run_lenient_rfc3339With`), and they name a timestamp as long
as the rounded offset stays below a day (`toTimestamp_zuluFields`): the same instant moved by
the rounding, at the rounded offset. For an offset of whole minutes that is the timestamp
itself (`parseLenient_rfc3339With_exact`).

A timestamp whose nanoseconds since the epoch fit in 64 bits lies in the years 1677 to 2262,
so its local year has four digits (`localDate_year_bounds`).
-/

namespace FrameCache

namespace Offset

/-- The offset the RFC 3339 form shows, in seconds: rounded to the nearest minute, with the
sign of the offset itself. -/
def shownSeconds (o : Offset) : Int :=
  if o.seconds < 0 then -(((o.seconds.natAbs + 30) / 60 * 60 : Nat) : Int)
  else (((o.seconds.natAbs + 30) / 60 * 60 : Nat) : Int)

theorem shownSeconds_of_whole {o : Offset} (h : o.seconds % 60 = 0) : o.shownSeconds = o.seconds := by
  unfold shownSeconds
  split <;> omega

end Offset

namespace TimeScan

/-- A printable ASCII character other than the space is no blank. -/
theorem isBlank_of_printable {c : Char} (h₁ : 33 ≤ c.toNat) (h₂ : c.toNat < 127) :
    isBlank c = false := by
  simp only [isBlank, Bool.or_eq_false_iff, Bool.and_eq_false_iff, decide_eq_false_iff_not]
  omega

theorem run_blanks_cons {c : Char} (hc : isBlank c = false) (rest : List Char) :
    blanks.run (c :: rest) = pure ((), c :: rest) := by
  simp [blanks, hc]

theorem run_lenientChar {c : Char} (hc : isBlank c = false) (rest : List Char) :
    (lenientChar c).run (c :: rest) = pure ((), rest) := by
  simp only [lenientChar, StateT.run_bind, run_blanks_cons hc, pure_bind, run_char]

theorem isBlank_of_isDigit {c : Char} (h : c.isDigit = true) : isBlank c = false := by
  have := Char.isDigit_iff_toNat.mp h
  simp only [Char.reduceToNat] at this
  exact isBlank_of_printable (by omega) (by omega)

/-- The written digits of a number have a first digit. -/
theorem zeroPad_cons {k n : Nat} (hk : 0 < k) (hn : n < 10 ^ k) :
    ∃ d ds, (Timestamp.zeroPad k n).toList = d :: ds ∧ d.isDigit = true := by
  have hlen := Timestamp.length_zeroPad hk hn
  match h : (Timestamp.zeroPad k n).toList with
  | [] => rw [h] at hlen; simp at hlen; omega
  | d :: ds => exact ⟨d, ds, rfl, Timestamp.isDigit_of_mem_zeroPad (by rw [h]; exact List.mem_cons_self ..)⟩

theorem run_blanks_zeroPad {k n : Nat} (hk : 0 < k) (hn : n < 10 ^ k) (rest : List Char) :
    blanks.run ((Timestamp.zeroPad k n).toList ++ rest) =
      pure ((), (Timestamp.zeroPad k n).toList ++ rest) := by
  obtain ⟨d, ds, hds, hd⟩ := zeroPad_cons hk hn
  rw [hds, List.cons_append, run_blanks_cons (isBlank_of_isDigit hd)]

/-- `k` digits of a number below `10 ^ k` are read back by the lenient reader of up to `k`
digits. -/
theorem run_lenientNumber_zeroPad {k n : Nat} (hk : 0 < k) (hn : n < 10 ^ k) (rest : List Char) :
    (lenientNumber k).run ((Timestamp.zeroPad k n).toList ++ rest) = pure (n, rest) := by
  have hlen := Timestamp.length_zeroPad hk hn
  simp only [lenientNumber, StateT.run_bind, run_blanks_zeroPad hk hn, pure_bind]
  rw [run_number_digits (fun _ => Timestamp.isDigit_of_mem_zeroPad) (by omega) (by omega)
    (by omega), Timestamp.ofDigitChars_zeroPad]

/-- A year of four digits is read back by the lenient reader of years. -/
theorem run_lenientYear_zeroPad {y : Nat} (hy : y < 10000) (rest : List Char) :
    lenientYear.run ((Timestamp.zeroPad 4 y).toList ++ rest) = pure ((y : Int), rest) := by
  obtain ⟨d, ds, hds, hd⟩ := zeroPad_cons (show 0 < 4 by decide) hy
  have hnum := @run_number_digits 1 4 (Timestamp.zeroPad 4 y).toList rest
    (fun _ => Timestamp.isDigit_of_mem_zeroPad) (by rw [hds]; simp)
    (by rw [Timestamp.length_zeroPad (by decide) hy]) (by rw [Timestamp.length_zeroPad (by decide) hy]; omega)
  rw [Timestamp.ofDigitChars_zeroPad, hds, List.cons_append] at hnum
  have hminus : d ≠ '-' := fun e => by rw [e] at hd; exact absurd hd (by decide)
  have hplus : d ≠ '+' := fun e => by rw [e] at hd; exact absurd hd (by decide)
  simp only [lenientYear, StateT.run_bind, blanks, StateT.run_modify, StateT.run_get, pure_bind]
  rw [hds, List.cons_append, List.dropWhile_cons_of_neg (by simp [isBlank_of_isDigit hd])]
  split
  · next h => exact absurd (List.cons.inj h).1 hminus
  · next h => exact absurd (List.cons.inj h).1 hplus
  · simp only [StateT.run_bind, hnum, pure_bind]
    rw [if_neg (by simp; omega)]
    rfl

/-- The separator the lenient reader takes between the hours and minutes of an offset. -/
theorem run_lenientSeparator {d : Char} (hd : d.isDigit = true) (rest : List Char) :
    (modify fun x => List.dropWhile (fun x => decide (x = ':') || isBlank x) x : TimeScan Unit).run
      (':' :: d :: rest) = pure ((), d :: rest) := by
  have hd' : (decide (d = ':') || isBlank d) = false := by
    rw [isBlank_of_isDigit hd, Bool.or_false, decide_eq_false_iff_not]
    intro e
    rw [e] at hd
    exact absurd hd (by decide)
  simp [List.dropWhile_cons_of_neg, hd']

/-- The offset as written is read back by the lenient reader as the rounded offset. -/
theorem run_offset_minutesText_rounded {o : Offset} (h : (o.seconds.natAbs + 30) / 60 < 1440) :
    (offset (modify fun x => List.dropWhile (fun x => decide (x = ':') || isBlank x) x)).run
      o.minutesText.toList = pure (o.shownSeconds, []) := by
  rw [Offset.toList_minutesText_rounded h]
  have hdigit : (Nat.digitChar ((o.seconds.natAbs + 30) / 60 % 60 / 10)).isDigit = true := by
    simp [Nat.isDigit_digitChar]
    omega
  simp only [offset, StateT.run_bind, StateT.run_get, pure_bind]
  simp only [sign_ne_zulu, Bool.false_eq_true, if_false]
  rw [run_numericOffset _ (by omega) (by omega) _ (run_lenientSeparator hdigit _)]
  have hvalue : ((o.seconds.natAbs + 30) / 60 / 60 * 3600 + (o.seconds.natAbs + 30) / 60 % 60 * 60 : Nat) =
      (o.seconds.natAbs + 30) / 60 * 60 := by
    omega
  rw [hvalue]
  unfold Offset.shownSeconds
  by_cases hneg : o.seconds < 0 <;> simp [hneg]

theorem run_offset_zulu (sep : TimeScan Unit) : (offset sep).run ['Z'] = pure (0, []) := by
  simp [offset]

end TimeScan

namespace Timestamp

/-- The RFC 3339 form with `Z` for the zero offset, character by character. -/
theorem toList_rfc3339With_zulu (t : Timestamp) (hy0 : 0 ≤ t.localDate.year)
    (hy1 : t.localDate.year ≤ 9999) :
    (t.rfc3339With true).toList = (zeroPad 4 t.shownFields.year.toNat).toList ++ '-' ::
      ((zeroPad 2 t.shownFields.month).toList ++ '-' :: ((zeroPad 2 t.shownFields.day).toList ++
      'T' :: ((zeroPad 2 t.shownFields.hour).toList ++ ':' ::
      ((zeroPad 2 t.shownFields.minute).toList ++ ':' :: ((zeroPad 2 t.shownFields.second).toList ++
      ((fractionText t.shownFields.nano).toList ++
        (if t.offset.seconds = 0 then "Z" else t.offset.minutesText).toList)))))) := by
  simp only [rfc3339With, dateText, timeText, yearText, hy0, hy1, and_self, if_true,
    Bool.true_and, beq_iff_eq, String.toList_append, List.append_assoc, shownFields, ge_iff_le,
    decide_eq_true_eq]
  simp only [show "-".toList = ['-'] from rfl, show "T".toList = ['T'] from rfl,
    show ":".toList = [':'] from rfl, List.cons_append, List.nil_append]

/-- The fields the RFC 3339 form with `Z` shows: those of `shownFields`, with the offset
rounded to the minute. -/
def zuluFields (t : Timestamp) : TimeFields := { t.shownFields with offset := t.offset.shownSeconds }

/-- The RFC 3339 form with `Z` of a timestamp of a four-digit year whose offset rounds to less
than a day is read back by the lenient reader as the fields it shows. -/
theorem run_lenient_rfc3339With {t : Timestamp} (hy0 : 0 ≤ t.localDate.year)
    (hy1 : t.localDate.year ≤ 9999) (hround : (t.offset.seconds.natAbs + 30) / 60 < 1440) :
    TimeScan.lenient.run (t.rfc3339With true).toList = pure (t.zuluFields, []) := by
  obtain ⟨hm1, hm2, hd1, hd2, hh, hmin, hsec, hfrac⟩ := t.shownFields_bounds
  have hyear : ((t.shownFields.year.toNat : Nat) : Int) = t.shownFields.year :=
    Int.toNat_of_nonneg hy0
  -- the offset is written `Z` or with a sign; either way it starts with a printable letter
  have hhead : ∃ a as, (if t.offset.seconds = 0 then "Z" else t.offset.minutesText).toList = a :: as ∧
      a ≠ '.' ∧ a.isDigit = false ∧ TimeScan.isBlank a = false ∧ a.toUpper ≠ 'U' := by
    split
    · exact ⟨'Z', [], rfl, by decide, by decide, by decide, by decide⟩
    · rw [Offset.toList_minutesText_rounded hround]
      refine ⟨_, _, rfl, ?_⟩
      split <;> decide
  obtain ⟨a, as, has, ha, hadigit, hablank, haU⟩ := hhead
  have hoff : (TimeScan.offset (modify fun x => List.dropWhile (fun x => decide (x = ':') ||
      TimeScan.isBlank x) x)).run (a :: as) = pure (t.offset.shownSeconds, []) := by
    rw [← has]
    split
    · next hz =>
      rw [show "Z".toList = ['Z'] from rfl, TimeScan.run_offset_zulu,
        Offset.shownSeconds_of_whole (by omega), hz]
    · exact TimeScan.run_offset_minutesText_rounded hround
  have hnext : ∀ c ∈ (a :: as).head?, c ≠ '.' ∧ c.isDigit = false := by
    simp only [List.head?_cons, Option.mem_def, Option.some.injEq]
    rintro c rfl
    exact ⟨ha, hadigit⟩
  rw [toList_rfc3339With_zulu t hy0 hy1, has]
  simp only [TimeScan.lenient, StateT.run_bind,
    TimeScan.run_lenientYear_zeroPad (show t.shownFields.year.toNat < 10000 by
      simp only [shownFields]; omega),
    TimeScan.run_lenientNumber_zeroPad (show 0 < 2 by decide) (show t.shownFields.month < 10 ^ 2 by
      omega),
    TimeScan.run_lenientNumber_zeroPad (show 0 < 2 by decide) (show t.shownFields.day < 10 ^ 2 by
      omega),
    TimeScan.run_lenientNumber_zeroPad (show 0 < 2 by decide) (show t.shownFields.hour < 10 ^ 2 by
      omega),
    TimeScan.run_lenientNumber_zeroPad (show 0 < 2 by decide) (show t.shownFields.minute < 10 ^ 2 by
      omega),
    TimeScan.run_lenientNumber_zeroPad (show 0 < 2 by decide) (show t.shownFields.second < 10 ^ 2 by
      omega),
    TimeScan.run_within hm1 hm2, TimeScan.run_within hd1 hd2,
    TimeScan.run_within (Nat.zero_le _) hh, TimeScan.run_within (Nat.zero_le _) hmin,
    TimeScan.run_within (Nat.zero_le _) hsec,
    pure_bind, TimeScan.run_lenientChar (show TimeScan.isBlank '-' = false by decide),
    TimeScan.run_lenientChar (show TimeScan.isBlank ':' = false by decide),
    TimeScan.run_dateTimeSeparator, TimeScan.run_fractionPart hfrac hnext,
    TimeScan.run_blanks_cons hablank, StateT.run_get, hyear]
  split
  · next a' b c rest heq =>
    rw [List.cons.inj heq |>.1] at haU
    rw [if_neg (by simp [haU])]
    simp only [StateT.run_bind]
    rw [hoff]
    rfl
  · simp only [StateT.run_bind]
    rw [hoff]
    rfl

theorem zuluFields_of_whole {t : Timestamp} (h : t.offset.seconds % 60 = 0) :
    t.zuluFields = t.shownFields := by
  simp only [zuluFields, Offset.shownSeconds_of_whole h]
  rfl

theorem shownSeconds_bounds {o : Offset} (hround : (o.seconds.natAbs + 30) / 60 < 1440) :
    -86400 < o.shownSeconds ∧ o.shownSeconds < 86400 ∧
      o.seconds - 30 ≤ o.shownSeconds ∧ o.shownSeconds ≤ o.seconds + 30 := by
  unfold Offset.shownSeconds
  split <;> omega

/-- The fields the form with `Z` shows name a timestamp when its offset rounds to less than a
day and it is no leap second: the same instant moved by the rounding of the offset, with the
same nanoseconds, shown at the rounded offset. -/
theorem toTimestamp_zuluFields {t : Timestamp} (hy0 : 0 ≤ t.localDate.year)
    (hy1 : t.localDate.year ≤ 9999) (hround : (t.offset.seconds.natAbs + 30) / 60 < 1440)
    (hleap : t.nano < 1000000000) (hlo : minSecond + 30 ≤ t.second)
    (hhi : t.second + 30 ≤ maxSecond) :
    ∃ t', t.zuluFields.toTimestamp = .ok t' ∧
      t'.second = t.second + (t.offset.seconds - t.offset.shownSeconds) ∧ t'.nano = t.nano ∧
      t'.offset.seconds = t.offset.shownSeconds := by
  have hdays := Civil.toDays_ofDays (t.localSecond / secondsPerDay)
  have hvalid := Civil.isValid_ofDays (t.localSecond / secondsPerDay)
  have hsod := t.localSecondOfDay_lt
  obtain ⟨hs₁, hs₂, hs₃, hs₄⟩ := shownSeconds_bounds hround
  have hdate : (⟨t.zuluFields.year, t.zuluFields.month, t.zuluFields.day⟩ : Civil) =
      Civil.ofDays (t.localSecond / secondsPerDay) := rfl
  let o' : Offset := ⟨t.offset.shownSeconds, hs₁, hs₂⟩
  have hoffset : Offset.ofSeconds? t.zuluFields.offset = some o' := by
    show Offset.ofSeconds? t.offset.shownSeconds = _
    rw [Offset.ofSeconds?, dif_pos ⟨hs₁, hs₂⟩]
  have hsplit : (if t.zuluFields.second = 60 then ((59 : Nat), (1000000000 : Nat))
      else (t.zuluFields.second, 0)) = (t.localSecondOfDay % 60, 0) := by
    simp only [zuluFields, shownFields, ge_iff_le, Nat.not_le.mpr hleap, if_false, Nat.add_zero]
    rw [if_neg (by omega)]
  have hsecond : (Civil.ofDays (t.localSecond / secondsPerDay)).toDays * 86400 +
      ((t.zuluFields.hour * 3600 + t.zuluFields.minute * 60 + t.localSecondOfDay % 60 : Nat) : Int) -
      t.zuluFields.offset = t.second + (t.offset.seconds - t.offset.shownSeconds) := by
    rw [hdays]
    simp only [zuluFields, shownFields, localSecondOfDay, localSecond, secondsPerDay] at hsod ⊢
    omega
  have hnano : t.zuluFields.nano + 0 = t.nano := by
    simp only [zuluFields, shownFields, ge_iff_le, Nat.not_le.mpr hleap, if_false, Nat.add_zero]
  have hyear : -262143 ≤ t.zuluFields.year ∧ t.zuluFields.year ≤ 262142 := by
    simp only [zuluFields, shownFields]
    omega
  have hnano_lt := t.nano_lt
  let t' : Timestamp :=
    ⟨t.second + (t.offset.seconds - t.offset.shownSeconds), t.nano, o', hnano_lt, by omega, by omega⟩
  have hparts : ofParts? (t.second + (t.offset.seconds - t.offset.shownSeconds)) t.nano o' = some t' := by
    rw [ofParts?, dif_pos ⟨hnano_lt, by omega, by omega⟩]
  refine ⟨t', ?_, rfl, rfl, rfl⟩
  simp only [TimeFields.toTimestamp, hdate, hvalid, hoffset, hsplit, hsecond, hnano, hyear.1,
    hyear.2, decide_true, Bool.and_self, Bool.not_true, Bool.false_eq_true, if_false, pure_bind,
    hparts]
  rfl

/-- The RFC 3339 form with `Z` is read back leniently as the fields it shows. -/
theorem parseLenient_rfc3339With {t : Timestamp} (hy0 : 0 ≤ t.localDate.year)
    (hy1 : t.localDate.year ≤ 9999) (hround : (t.offset.seconds.natAbs + 30) / 60 < 1440) :
    parseLenient (t.rfc3339With true) = t.zuluFields.toTimestamp := by
  simp only [parseLenient, run_lenient_rfc3339With hy0 hy1 hround]
  rfl

/-- The RFC 3339 form with `Z` of a timestamp of a four-digit year and an offset of whole
minutes is read back leniently as the same timestamp. -/
theorem parseLenient_rfc3339With_exact {t : Timestamp} (ht : t.Rfc3339Exact) :
    parseLenient (t.rfc3339With true) = .ok t := by
  have h₁ := t.offset.gt_neg_day
  have h₂ := t.offset.lt_day
  have ho := ht.offset_whole_minutes
  rw [parseLenient_rfc3339With ht.year_nonneg ht.year_le (by omega), zuluFields_of_whole ho,
    toTimestamp_shownFields ht]

/-- The date of a day within three hundred thousand days of 1970 has a four-digit year. -/
theorem year_ofDays_bounds {z : Int} (h₀ : -300000 ≤ z) (h₁ : z ≤ 300000) :
    0 ≤ (Civil.ofDays z).year ∧ (Civil.ofDays z).year ≤ 9999 := by
  have hera : (0 : Int) < Civil.eraDays := by decide
  have hd0 := Int.emod_nonneg (z + Civil.epochShift) (Int.ne_of_gt hera)
  have hd1 := Int.emod_lt_of_pos (z + Civil.epochShift) hera
  obtain ⟨hy0, hy1, -⟩ := Civil.yearOfEra_spec hd0 hd1
  rw [Civil.ofDays_eq_marchDate]
  simp only [Civil.marchDate]
  generalize Civil.yearOfEra ((z + Civil.epochShift) % Civil.eraDays) = yoe at *
  unfold Civil.eraDays Civil.epochShift at *
  split <;> omega

/-- A timestamp with a signed 64-bit nanosecond count has a local year of four digits. -/
theorem localDate_year_bounds {t : Timestamp} {n : Int} (h : t.toNanos? = some n) :
    0 ≤ t.localDate.year ∧ t.localDate.year ≤ 9999 := by
  have hfit : fitsInt64 (t.second * nanosPerSecond + t.nano) = true := by
    simp only [toNanos?] at h
    split at h
    · assumption
    · exact absurd h (by simp)
  have hb := fitsInt64_iff.mp hfit
  have := t.offset.gt_neg_day
  have := t.offset.lt_day
  have := t.nano_lt
  apply year_ofDays_bounds <;> simp only [localSecond, secondsPerDay, nanosPerSecond] at * <;> omega

end Timestamp

end FrameCache
