import Mathlib.Data.Option.Basic
import Milestone.Instant.Written
import Milestone.Proofs.Text.Blank
import Milestone.Proofs.Text.Digits

/-!
# Reading written instants

A written instant is read back as itself, in every year of the calendar and also inside a leap second.
-/

namespace Milestone

namespace Text

/-- Nothing is dropped in front of digits. -/
theorem dropBlanks_padded (width n : Nat) (rest : List Char) :
    dropBlanks (padded width n ++ rest) = padded width n ++ rest := by
  obtain ⟨c, cs, hcs⟩ := List.exists_cons_of_ne_nil (padded_ne_nil width n)
  have hc : c.isDigit = true := isDigit_of_mem_padded (hcs ▸ List.mem_cons_self)
  rw [hcs, List.cons_append, dropBlanks_of_not (not_isBlank_of_isDigit hc)]

end Text

/-- The month and the day of a date are those of a calendar. -/
theorem Date.month_day_range (d : Date) :
    1 ≤ d.month ∧ d.month ≤ 12 ∧ 1 ≤ d.day ∧ d.day ≤ 31 := by
  have h := d.valid
  simp only [isDate, Bool.and_eq_true, decide_eq_true_eq] at h
  obtain ⟨⟨-, hfirst⟩, hlast⟩ := h
  unfold daysInMonth at hlast
  split at hlast <;> try split at hlast
  all_goals omega

namespace Instant

/-- A number is taken up to its last digit where the digits end with it or fill the width. -/
theorem takeNumber_append {width : Nat} {ds rest : List Char} (hds : ∀ c ∈ ds, c.isDigit = true)
    (hne : ds ≠ []) (hle : ds.length ≤ width)
    (hend : ds.length = width ∨ ∀ c ∈ rest.head?, c.isDigit = false) :
    takeNumber width (ds ++ rest) = some (Nat.ofDigitChars 10 ds 0, rest) := by
  have htake : ((ds ++ rest).take width).takeWhile Char.isDigit = ds := by
    rw [List.take_append, List.take_of_length_le hle, List.takeWhile_append_of_pos hds]
    have hnone : (rest.take (width - ds.length)).takeWhile Char.isDigit = [] := by
      rcases hend with hfull | hnext
      · rw [hfull, Nat.sub_self, List.take_zero, List.takeWhile_nil]
      · cases rest with
        | nil => rw [List.take_nil, List.takeWhile_nil]
        | cons c rest =>
          cases width - ds.length with
          | zero => rfl
          | succ k => rw [List.take_succ_cons, List.takeWhile_cons, hnext c rfl]; rfl
    rw [hnone, List.append_nil]
  simp only [takeNumber, htake, List.isEmpty_iff, hne, if_false, List.drop_left]

/-- A padded number that fits its width is read back. -/
theorem takeNumber_padded {width n : Nat} (h : (Text.digits n).length ≤ width) (rest : List Char) :
    takeNumber width (Text.padded width n ++ rest) = some (n, rest) := by
  have hlength := Text.length_padded h
  rw [takeNumber_append (fun _ => Text.isDigit_of_mem_padded) (Text.padded_ne_nil _ _)
    (Nat.le_of_eq hlength) (.inl hlength), Text.ofDigitChars_padded]

/-- A number in front of a character that is no digit is taken also where more digits would fit. -/
theorem takeNumber_padded_of_le {width most n : Nat} (hle : (Text.padded width n).length ≤ most)
    {c : Char} (hc : c.isDigit = false) (rest : List Char) :
    takeNumber most (Text.padded width n ++ c :: rest) = some (n, c :: rest) := by
  rw [takeNumber_append (fun _ => Text.isDigit_of_mem_padded) (Text.padded_ne_nil _ _) hle
    (.inr fun d hd => by cases hd; exact hc), Text.ofDigitChars_padded]

/-- A padded field of two digits is read back if it is within its bounds. -/
theorem takeField_padded {least greatest n : Nat} (hleast : least ≤ n) (hgreatest : n ≤ greatest)
    (h : n < 100) (rest : List Char) :
    takeField least greatest (Text.padded 2 n ++ rest) = some (n, rest) := by
  have hdigits : (Text.digits n).length ≤ 2 :=
    (Nat.length_toDigits_le_iff (by decide) (by decide)).mpr h
  have hnumber := takeNumber_padded hdigits rest
  simp [takeField, Text.dropBlanks_padded, hnumber, guard, hleast, hgreatest]

/-- A mark between fields is passed over. -/
theorem takeMark_cons {mark : Char} (h : Text.isBlank mark = false) (rest : List Char) :
    takeMark mark (mark :: rest) = some rest := by
  rw [takeMark, Text.dropBlanks_of_not h]
  exact if_pos rfl

/-- A written year is read back. -/
theorem takeYear_yearChars (year : Int) {c : Char} (hc : c.isDigit = false) (rest : List Char) :
    takeYear (yearChars year ++ c :: rest) = some (year, c :: rest) := by
  have hall : (Text.padded 4 year.natAbs).length ≤
      (Text.padded 4 year.natAbs ++ c :: rest).length := by simp
  have hsigned := takeNumber_padded_of_le hall hc rest
  rw [yearChars]
  split
  · rename_i hrange
    have habs : (year.natAbs : Int) = year := by omega
    have hdigits : (Text.digits year.natAbs).length ≤ 4 :=
      (Nat.length_toDigits_le_iff (by decide) (by decide)).mpr (by omega)
    have hnumber := takeNumber_padded hdigits (c :: rest)
    obtain ⟨d, ds, hds⟩ := List.exists_cons_of_ne_nil (Text.padded_ne_nil 4 year.natAbs)
    have hd : d.isDigit = true := Text.isDigit_of_mem_padded (n := year.natAbs) (hds ▸ List.mem_cons_self)
    have hminus : d ≠ '-' := by rintro rfl; cases hd
    have hplus : d ≠ '+' := by rintro rfl; cases hd
    rw [takeYear, Text.dropBlanks_padded]
    rw [hds, List.cons_append] at hnumber ⊢
    simp [hminus, hplus, hnumber, habs]
  · rename_i hrange
    split
    · have habs : -(year.natAbs : Int) = year := by omega
      rw [takeYear, List.cons_append, Text.dropBlanks_of_not (by decide)]
      simp only [hsigned, Option.map_some, habs]
    · have habs : (year.natAbs : Int) = year := by omega
      rw [takeYear, List.cons_append, Text.dropBlanks_of_not (by decide)]
      simp only [hsigned, Option.map_some, habs]

/-- Written decimals are read back. -/
theorem takeDecimals_decimalChars {nano : Nat} (h : nano < 1000000000) (rest : List Char) :
    takeDecimals (decimalChars nano ++ 'Z' :: rest) = some (nano, 'Z' :: rest) := by
  have hgroup {width n : Nat} (hwidth : 0 < width) (hle : width ≤ 9) (hn : n < 10 ^ width)
      (hnano : n * 10 ^ (9 - width) = nano) :
      takeDecimals ('.' :: (Text.padded width n ++ 'Z' :: rest)) = some (nano, 'Z' :: rest) := by
    have hlength := Text.length_padded ((Nat.length_toDigits_le_iff (by decide) hwidth).mpr hn)
    have hnumber := takeNumber_padded_of_le (hlength ▸ hle) (show 'Z'.isDigit = false from rfl) rest
    have hused : (Text.padded width n ++ 'Z' :: rest).length - ('Z' :: rest).length = width := by
      rw [List.length_append, hlength, Nat.add_sub_cancel]
    simp only [takeDecimals, hnumber, hused, Option.bind_eq_bind, Option.bind_some, Option.pure_def]
    exact congrArg some (Prod.ext hnano rfl)
  rw [decimalChars]
  split
  · rename_i hzero
    rw [hzero]
    rfl
  · split
    · exact hgroup (by decide) (by decide) (by omega) (by omega)
    · split
      · exact hgroup (by decide) (by decide) (by omega) (by omega)
      · exact hgroup (by decide) (by decide) (by omega) (by omega)

/-- The instant of a date and a time of day that clocks in universal time show. -/
theorem ofLocal?_zero (t : Instant) : ofLocal? t.date t.second t.nano 0 = some t := by
  have hvalid := t.valid
  simp only [isTimeOfDay, Bool.and_eq_true, decide_eq_true_eq] at hvalid
  have hsecond : t.second < 86400 := hvalid.1
  have hsame : (((t.second : Int) - 0) % 86400).toNat = t.second := by omega
  simp only [ofLocal?]
  rw [if_neg (by omega), if_pos (by omega), hsame, of?, dif_pos t.valid]

/-- The characters of an instant are read back as that instant. -/
theorem ofChars?_chars (t : Instant) : ofChars? t.chars = some t := by
  obtain ⟨hsecond, hnano⟩ : t.second < 86400 ∧
      (t.nano < 1000000000 ∨ t.nano < 2000000000 ∧ t.second % 60 = 59) := by
    simpa [isTimeOfDay] using t.valid
  obtain ⟨hmonthFirst, hmonthLast, hdayFirst, hdayLast⟩ := t.date.month_day_range
  have hleap : (t.second % 60 + t.nano / 1000000000) / 60 = t.nano / 1000000000 := by omega
  have htime : t.second / 3600 * 3600 + t.second / 60 % 60 * 60 +
      (t.second % 60 + t.nano / 1000000000 - t.nano / 1000000000) = t.second := by omega
  have hwhole : t.nano % 1000000000 + t.nano / 1000000000 * 1000000000 = t.nano :=
    Nat.mod_add_div' ..
  have hyear := takeYear_yearChars t.date.year (show '-'.isDigit = false from rfl)
  have hdecimals := takeDecimals_decimalChars (Nat.mod_lt t.nano (by decide : 0 < 1000000000))
  have hdash := takeMark_cons (show Text.isBlank '-' = false by decide)
  have hcolon := takeMark_cons (show Text.isBlank ':' = false by decide)
  have hmonth := takeField_padded hmonthFirst hmonthLast (by omega)
  have hday := takeField_padded hdayFirst hdayLast (by omega)
  have hhour := takeField_padded (Nat.zero_le (t.second / 3600)) (show _ ≤ 23 by omega) (by omega)
  have hminute := takeField_padded (Nat.zero_le (t.second / 60 % 60)) (show _ ≤ 59 by omega) (by omega)
  have hsecond := takeField_padded (Nat.zero_le (t.second % 60 + t.nano / 1000000000))
    (show _ ≤ 60 by omega) (by omega)
  have hoffset : takeOffset (Text.dropBlanks ['Z']) = some (0, []) := rfl
  have hrange : -86400 < (0 : Int) ∧ (0 : Int) < 86400 := by omega
  rw [chars, ofChars?]
  simp only [List.append_assoc, List.cons_append]
  refine Option.bind_eq_some_iff.mpr ⟨_, hyear _, ?_⟩
  refine Option.bind_eq_some_iff.mpr ⟨_, hdash _, ?_⟩
  refine Option.bind_eq_some_iff.mpr ⟨_, hmonth _, ?_⟩
  refine Option.bind_eq_some_iff.mpr ⟨_, hdash _, ?_⟩
  refine Option.bind_eq_some_iff.mpr ⟨_, hday _, ?_⟩
  refine Option.bind_eq_some_iff.mpr ⟨_, rfl, ?_⟩
  refine Option.bind_eq_some_iff.mpr ⟨_, hhour _, ?_⟩
  refine Option.bind_eq_some_iff.mpr ⟨_, hcolon _, ?_⟩
  refine Option.bind_eq_some_iff.mpr ⟨_, hminute _, ?_⟩
  refine Option.bind_eq_some_iff.mpr ⟨_, hcolon _, ?_⟩
  refine Option.bind_eq_some_iff.mpr ⟨_, hsecond _, ?_⟩
  refine Option.bind_eq_some_iff.mpr ⟨_, hdecimals _, ?_⟩
  refine Option.bind_eq_some_iff.mpr ⟨_, hoffset, ?_⟩
  refine Option.bind_eq_some_iff.mpr ⟨(), if_pos rfl, ?_⟩
  refine Option.bind_eq_some_iff.mpr ⟨(), if_pos hrange, ?_⟩
  refine Option.bind_eq_some_iff.mpr ⟨_, Date.of?_self t.date, ?_⟩
  simp only [hleap, htime, hwhole, ofLocal?_zero]

/-- A written instant is read back. -/
theorem ofText?_text (t : Instant) : ofText? t.text = some t := by
  rw [ofText?, text, String.toList_ofList, ofChars?_chars]

end Instant

end Milestone
