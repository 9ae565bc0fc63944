import Milestone.Proofs.Text.Blank
import Milestone.Proofs.Text.Numeral
import Milestone.Version
import Mathlib.Data.List.Basic
import Mathlib.Tactic.SplitIfs

/-!
# The grammar of versions

Which texts name a version of which era, told by how the text is made and not by how it is taken apart. A release
is two or three numbers between points, a snapshot the two digits of a year and the two digits of a week with the
letter w between them and something behind them. Main fact: a text between blanks has a known era exactly if it is
a release of the first major number or a snapshot from the year 18 on, and then its era and the address of its play
time depend on the minor number or the year alone.
-/

namespace Milestone

open Text

namespace Release

/-- Two or three numbers between points, of which the first two are the major and the minor one. -/
inductive IsNumbered : List Char → Nat → Nat → Prop where
  | pair {a b : List Char} {major minor : Nat} (ha : IsUnsigned numberLimit a major)
      (hb : IsUnsigned numberLimit b minor) : IsNumbered (a ++ '.' :: b) major minor
  | triple {a b c : List Char} {major minor patch : Nat} (ha : IsUnsigned numberLimit a major)
      (hb : IsUnsigned numberLimit b minor) (hc : IsUnsigned numberLimit c patch) :
      IsNumbered (a ++ '.' :: (b ++ '.' :: c)) major minor

/-- Two digits of a year, the letter w, two digits of a week and a suffix that starts with no digit. -/
inductive IsWeekly : List Char → Nat → Prop where
  | mk {y y' w w' first : Char} {rest : List Char} (hyear : y.isDigit = true ∧ y'.isDigit = true)
      (hweek : w.isDigit = true ∧ w'.isDigit = true) (hfirst : first.isDigit = false) :
      IsWeekly (y :: y' :: 'w' :: w :: w' :: first :: rest) (Nat.ofDigitChars 10 [y, y'] 0)

/-! ## Releases -/

/-- A number is made of digits and a sign. -/
theorem not_mem_of_isUnsigned {limit : Nat} {cs : List Char} {n : Nat} (h : IsUnsigned limit cs n)
    {c : Char} (hsign : c ≠ '+') (hdigit : c.isDigit = false) : c ∉ cs := fun hmem => by
  rcases h.mem hmem with heq | his
  · exact hsign heq
  · rw [his] at hdigit
    cases hdigit

/-- A number has no point. -/
theorem point_not_mem {limit : Nat} {cs : List Char} {n : Nat} (h : IsUnsigned limit cs n) :
    '.' ∉ cs :=
  not_mem_of_isUnsigned h (by decide) (by decide)

/-- Two texts without points have one point between them. -/
theorem splitOn_pair {a b : List Char} (ha : '.' ∉ a) (hb : '.' ∉ b) :
    (a ++ '.' :: b).splitOn '.' = [a, b] := by
  rw [List.splitOn_append_cons_self, List.splitOn_eq_singleton ha, List.splitOn_eq_singleton hb]
  rfl

/-- Three parts without points are found between the points. -/
theorem splitOn_triple {a b c : List Char} (ha : '.' ∉ a) (hb : '.' ∉ b) (hc : '.' ∉ c) :
    (a ++ '.' :: (b ++ '.' :: c)).splitOn '.' = [a, b, c] := by
  rw [List.splitOn_append_cons_self, splitOn_pair hb hc, List.splitOn_eq_singleton ha]
  rfl

/-- A text that splits into two parts is these with a point between them. -/
theorem eq_of_splitOn_pair {cs a b : List Char} (h : cs.splitOn '.' = [a, b]) : cs = a ++ '.' :: b := by
  have hjoined : ['.'].intercalate (cs.splitOn '.') = cs := List.intercalate_splitOn '.'
  rw [← hjoined, h]
  simp [List.intercalate]

/-- A text with three parts is those parts with points between them. -/
theorem eq_of_splitOn_triple {cs a b c : List Char} (h : cs.splitOn '.' = [a, b, c]) :
    cs = a ++ '.' :: (b ++ '.' :: c) := by
  have hjoined : ['.'].intercalate (cs.splitOn '.') = cs := List.intercalate_splitOn '.'
  rw [← hjoined, h]
  simp [List.intercalate]

/-- Parts that are read as two numbers are two, each read as its own. -/
theorem mapM_eq_pair_iff {α β : Type} {f : α → Option β} {parts : List α} {m n : β} :
    parts.mapM f = some [m, n] ↔ ∃ a b, parts = [a, b] ∧ f a = some m ∧ f b = some n := by
  rcases parts with _ | ⟨a, _ | ⟨b, _ | ⟨c, rest⟩⟩⟩ <;>
    simp [List.mapM_cons, Option.bind_eq_some_iff, and_assoc]

/-- Three results come of three parts. -/
theorem mapM_eq_triple_iff {α β : Type} {f : α → Option β} {parts : List α} {m n k : β} :
    parts.mapM f = some [m, n, k] ↔
      ∃ a b c, parts = [a, b, c] ∧ f a = some m ∧ f b = some n ∧ f c = some k := by
  rcases parts with _ | ⟨a, _ | ⟨b, _ | ⟨c, _ | ⟨d, rest⟩⟩⟩⟩ <;>
    simp [List.mapM_cons, Option.bind_eq_some_iff, and_assoc, and_comm, and_left_comm]

/-- A text is taken for a release exactly if it is one. -/
theorem ofNumbers?_eq_some_iff {cs : List Char} {r : Release} :
    ofNumbers? cs = some r ↔ ∃ major minor, r = numbered major minor ∧ IsNumbered cs major minor := by
  constructor
  · intro h
    unfold ofNumbers? at h
    split at h
    · rename_i major minor hnumbers
      cases h
      obtain ⟨a, b, hsplit, ha, hb⟩ := mapM_eq_pair_iff.mp hnumbers
      rw [eq_of_splitOn_pair hsplit]
      exact ⟨major, minor, rfl, .pair (unsigned?_eq_some_iff.mp ha) (unsigned?_eq_some_iff.mp hb)⟩
    · rename_i major minor patch hnumbers
      cases h
      obtain ⟨a, b, c, hsplit, ha, hb, hc⟩ := mapM_eq_triple_iff.mp hnumbers
      rw [eq_of_splitOn_triple hsplit]
      exact ⟨major, minor, rfl, .triple (unsigned?_eq_some_iff.mp ha)
        (unsigned?_eq_some_iff.mp hb) (unsigned?_eq_some_iff.mp hc)⟩
    · cases h
  · rintro ⟨major, minor, rfl, h⟩
    unfold ofNumbers?
    cases h with
    | @pair a b _ _ ha hb =>
      have hnumbers : (List.splitOn '.' (a ++ '.' :: b)).mapM (unsigned? numberLimit) =
          some [major, minor] :=
        mapM_eq_pair_iff.mpr ⟨a, b, splitOn_pair (point_not_mem ha) (point_not_mem hb),
          unsigned?_eq_some_iff.mpr ha, unsigned?_eq_some_iff.mpr hb⟩
      rw [hnumbers]
    | @triple a b c _ _ patch ha hb hc =>
      have hnumbers : (List.splitOn '.' (a ++ '.' :: (b ++ '.' :: c))).mapM (unsigned? numberLimit) =
          some [major, minor, patch] :=
        mapM_eq_triple_iff.mpr ⟨a, b, c,
          splitOn_triple (point_not_mem ha) (point_not_mem hb) (point_not_mem hc),
          unsigned?_eq_some_iff.mpr ha, unsigned?_eq_some_iff.mpr hb, unsigned?_eq_some_iff.mpr hc⟩
      rw [hnumbers]

/-! ## Snapshots -/

/-- A digit has one byte, and its value is less than ten. -/
theorem utf8Size_of_isDigit {c : Char} (h : c.isDigit = true) :
    c.utf8Size = 1 ∧ c.toNat - '0'.toNat < 10 := by
  have hle : c.toNat ≤ 57 := (Char.isDigit_iff_toNat.mp h).2
  have hzero : '0'.toNat = 48 := by decide
  refine ⟨Char.utf8Size_eq_one_iff.mpr (UInt32.le_iff_toNat_le.mpr ?_), by omega⟩
  exact Nat.le_trans hle (by decide)

/-- Digits take one byte each. -/
theorem utf8ByteSize_of_digits {cs : List Char} (h : ∀ c ∈ cs, c.isDigit = true) :
    (String.ofList cs).utf8ByteSize = cs.length := by
  induction cs with
  | nil => rfl
  | cons c rest ih =>
    rw [String.ofList_cons, String.utf8ByteSize_append, String.utf8ByteSize_singleton,
      (utf8Size_of_isDigit (h c List.mem_cons_self)).1,
      ih fun d hd => h d (List.mem_cons_of_mem _ hd), List.length_cons, Nat.add_comm]

/-- A text is the part before its first letter w, that letter and the rest. -/
theorem eq_of_dropWhile_eq_cons {cs rest : List Char} {c : Char}
    (h : cs.dropWhile (· != 'w') = c :: rest) : cs = cs.takeWhile (· != 'w') ++ 'w' :: rest := by
  have hletter : c = 'w' := by
    have hstop := List.head?_dropWhile_not (· != 'w') cs
    rw [h] at hstop
    simpa using hstop
  have hsplit : cs.takeWhile (· != 'w') ++ cs.dropWhile (· != 'w') = cs :=
    List.takeWhile_append_dropWhile
  rw [h, hletter] at hsplit
  exact hsplit.symm

/-- A number in two bytes is two digits, or less than ten. -/
theorem two_digits_of_isUnsigned {limit n : Nat} {cs : List Char} (h : IsUnsigned limit cs n)
    (hsize : (String.ofList cs).utf8ByteSize = 2) :
    (∃ y y', cs = [y, y'] ∧ (y.isDigit = true ∧ y'.isDigit = true) ∧
      n = Nat.ofDigitChars 10 [y, y'] 0) ∨ n < 10 := by
  cases h with
  | bare hne hdigits hle =>
    rw [utf8ByteSize_of_digits hdigits] at hsize
    obtain ⟨y, y', rfl⟩ := List.length_eq_two.mp hsize
    exact .inl ⟨y, y', rfl, ⟨hdigits y (by simp), hdigits y' (by simp)⟩, rfl⟩
  | @plus ds hne hdigits hle =>
    have hplus : '+'.utf8Size = 1 := by decide
    rw [String.ofList_cons, String.utf8ByteSize_append, String.utf8ByteSize_singleton, hplus,
      utf8ByteSize_of_digits hdigits] at hsize
    obtain ⟨d, rfl⟩ := List.length_eq_one_iff.mp (show ds.length = 1 by omega)
    have hvalue : Nat.ofDigitChars 10 [d] 0 = d.toNat - '0'.toNat := by
      simp [Nat.ofDigitChars]
    rw [hvalue]
    exact .inr (utf8Size_of_isDigit (hdigits d (by simp))).2

/-- What is taken for a snapshot from the year 10 on is one. -/
theorem isWeekly_of_ofWeek? {cs : List Char} {r : Release} (h : ofWeek? cs = some r) :
    ∃ year, r = snapshot year ∧ (10 ≤ year → IsWeekly cs year) := by
  unfold ofWeek? at h
  dsimp only at h
  split at h
  · rename_i c rest hdrop
    split at h
    · rename_i hshape
      obtain ⟨hsize, hweek, hmore⟩ := hshape
      obtain ⟨year, hyear, rfl⟩ := Option.map_eq_some_iff.mp h
      refine ⟨year, rfl, fun hlarge => ?_⟩
      have hdigits : (∃ y y', cs.takeWhile (· != 'w') = [y, y'] ∧
          (y.isDigit = true ∧ y'.isDigit = true) ∧ year = Nat.ofDigitChars 10 [y, y'] 0) ∨ year < 10 :=
        two_digits_of_isUnsigned (unsigned?_eq_some_iff.mp hyear) hsize
      obtain ⟨y, y', hchars, hisDigit, rfl⟩ := hdigits.resolve_right (by omega)
      obtain ⟨w, w', hweek⟩ := List.length_eq_two.mp hweek
      have hrest : rest.takeWhile Char.isDigit ++ rest.dropWhile Char.isDigit = rest :=
        List.takeWhile_append_dropWhile
      have hall : ∀ d ∈ rest.takeWhile Char.isDigit, d.isDigit = true := fun d hd =>
        List.all_eq_true.mp List.all_takeWhile d hd
      cases hsuffix : rest.dropWhile Char.isDigit with
      | nil =>
        rw [hsuffix, List.append_nil] at hrest
        rw [hrest] at hmore
        omega
      | cons first later =>
        have hstop := List.head?_dropWhile_not Char.isDigit rest
        rw [hsuffix] at hstop
        rw [eq_of_dropWhile_eq_cons hdrop, hchars, ← hrest, hweek, hsuffix]
        rw [hweek] at hall
        exact .mk hisDigit ⟨hall w (by simp), hall w' (by simp)⟩ hstop
    · cases h
  · cases h

/-- A digit is not the letter w. -/
theorem ne_w_of_isDigit {c : Char} (h : c.isDigit = true) : (c != 'w') = true := by
  rw [bne_iff_ne]
  rintro rfl
  exact absurd h (by decide)

/-- A weekly version is read as a snapshot of its year. -/
theorem ofWeek?_of_isWeekly {cs : List Char} {year : Nat} (h : IsWeekly cs year) :
    ofWeek? cs = some (snapshot year) := by
  cases h with
  | @mk y y' w w' first rest hyear hweek hfirst =>
    obtain ⟨hsize, hvalue⟩ := utf8Size_of_isDigit hyear.1
    obtain ⟨hsize', hvalue'⟩ := utf8Size_of_isDigit hyear.2
    have hle : Nat.ofDigitChars 10 [y, y'] 0 ≤ numberLimit := by
      simp only [Nat.ofDigitChars, List.foldl_cons, List.foldl_nil, numberLimit]
      omega
    have hnumber : unsigned? numberLimit [y, y'] = some (Nat.ofDigitChars 10 [y, y'] 0) :=
      unsigned?_eq_some_iff.mpr (.bare (List.cons_ne_nil _ _) (by simp [hyear]) hle)
    simp [ofWeek?, ne_w_of_isDigit hyear.1, ne_w_of_isDigit hyear.2, hweek, hfirst, hsize, hsize',
      hnumber]

/-! ## Eras -/

/-- The era of a release in the first series follows from its second number. -/
theorem era_numbered_one (minor : Nat) :
    (numbered 1 minor).era = if minor ≤ 6 then .legacy else if minor ≤ 11 then .mid
      else if minor = 12 then .hybrid else .modern := rfl

/-- Releases of other series belong to no known era. -/
theorem era_numbered_of_ne {major : Nat} (h : major ≠ 1) (minor : Nat) :
    (numbered major minor).era = .unknown := by
  unfold era
  split
  · rename_i heq
    cases heq
    exact absurd rfl h
  · rename_i heq
    cases heq
  · rfl

/-- Each known era has the releases of its minor numbers under the first major one, and the last era the snapshots
from the year 18 on besides. -/
theorem era_iff (r : Release) :
    (r.era = .legacy ↔ ∃ minor, minor ≤ 6 ∧ r = numbered 1 minor) ∧
      (r.era = .mid ↔ ∃ minor, (7 ≤ minor ∧ minor ≤ 11) ∧ r = numbered 1 minor) ∧
      (r.era = .hybrid ↔ r = numbered 1 12) ∧
      (r.era = .modern ↔ (∃ minor, 13 ≤ minor ∧ r = numbered 1 minor) ∨
        ∃ year, 18 ≤ year ∧ r = snapshot year) ∧
      (r.era = .unknown ↔ (∀ minor, r ≠ numbered 1 minor) ∧ ∀ year, 18 ≤ year → r ≠ snapshot year) := by
  cases r with
  | numbered major minor =>
    by_cases hmajor : major = 1
    · subst hmajor
      rw [era_numbered_one]
      simp only [numbered.injEq, true_and, exists_eq_right', reduceCtorEq, and_false, exists_false,
        or_false]
      split_ifs <;> simp <;> omega
    · rw [era_numbered_of_ne hmajor]
      simp [hmajor]
  | snapshot year =>
    by_cases hyear : 18 ≤ year
    · simp [era, hyear]
    · have hne (later : Nat) (hlater : 18 ≤ later) : year ≠ later := by omega
      simpa [era, hyear] using hne
  | unknown => simp [era]

/-! ## Versions -/

/-- A text is no release and snapshot at once. -/
theorem not_isWeekly_of_isNumbered {cs : List Char} {major minor year : Nat}
    (h : IsNumbered cs major minor) : ¬IsWeekly cs year := by
  have hletter {limit : Nat} {part : List Char} {n : Nat} (hpart : IsUnsigned limit part n) :
      'w' ∉ part := not_mem_of_isUnsigned hpart (by decide) (by decide)
  have hnone : 'w' ∉ cs := by
    cases h with
    | pair ha hb => simp [hletter ha, hletter hb]
    | triple ha hb hc => simp [hletter ha, hletter hb, hletter hc]
  rintro ⟨-, -, -⟩
  simp at hnone

/-- A text is read as a release exactly if it is written as one. -/
theorem ofChars_eq_numbered_iff {cs : List Char} {major minor : Nat} :
    ofChars cs = numbered major minor ↔ IsNumbered cs major minor := by
  constructor
  · intro h
    unfold ofChars at h
    cases hnumbers : ofNumbers? cs with
    | some r =>
      obtain ⟨major', minor', rfl, hnumbered⟩ := ofNumbers?_eq_some_iff.mp hnumbers
      rw [hnumbers] at h
      cases h
      exact hnumbered
    | none =>
      cases hweek : ofWeek? cs with
      | some r =>
        obtain ⟨year, rfl, -⟩ := isWeekly_of_ofWeek? hweek
        simp [hnumbers, hweek] at h
      | none => simp [hnumbers, hweek] at h
  · intro h
    rw [ofChars, ofNumbers?_eq_some_iff.mpr ⟨major, minor, rfl, h⟩]
    rfl

/-- A text that is written as a weekly version is read as one. -/
theorem ofChars_of_isWeekly {cs : List Char} {year : Nat} (h : IsWeekly cs year) :
    ofChars cs = snapshot year := by
  cases hnumbers : ofNumbers? cs with
  | some r =>
    obtain ⟨major, minor, -, hnumbered⟩ := ofNumbers?_eq_some_iff.mp hnumbers
    exact absurd h (not_isWeekly_of_isNumbered hnumbered)
  | none =>
    rw [ofChars, hnumbers, ofWeek?_of_isWeekly h]
    rfl

/-- A text is taken for a snapshot from the year 10 on exactly if it is one. -/
theorem ofChars_eq_snapshot_iff {cs : List Char} {year : Nat} (hyear : 10 ≤ year) :
    ofChars cs = snapshot year ↔ IsWeekly cs year := by
  refine ⟨fun h => ?_, ofChars_of_isWeekly⟩
  unfold ofChars at h
  cases hnumbers : ofNumbers? cs with
  | some r =>
    obtain ⟨major, minor, rfl, -⟩ := ofNumbers?_eq_some_iff.mp hnumbers
    simp [hnumbers] at h
  | none =>
    cases hweek : ofWeek? cs with
    | some r =>
      obtain ⟨year', rfl, hweekly⟩ := isWeekly_of_ofWeek? hweek
      obtain rfl : year' = year := by simpa [hnumbers, hweek] using h
      exact hweekly hyear
    | none => simp [hnumbers, hweek] at h

end Release

/-- The place of an era in the history of the game. -/
def Era.rank : Era → Nat
  | unknown => 0
  | legacy => 1
  | mid => 2
  | hybrid => 3
  | modern => 4

namespace Version

open Release

/-- Blanks around a version do not matter for its release. -/
@[simp] theorem release_ofText (s : String) : (ofText s).release = .ofChars (trimmed s.toList) := by
  rw [release, ofText, trim, String.toList_ofList]

/-- The era of a version between blanks, by what stands between the blanks. -/
theorem era_ofText (s : String) : (ofText s).era = (Release.ofChars (trimmed s.toList)).era := by
  rw [era, release_ofText]

/-- Each known era has the releases of its minor numbers, and the last one the snapshots from the year 18 on
besides. -/
theorem era_iff (s : String) :
    let cs := trimmed s.toList
    let era := (ofText s).era
    (era = .legacy ↔ ∃ minor, minor ≤ 6 ∧ IsNumbered cs 1 minor) ∧
      (era = .mid ↔ ∃ minor, (7 ≤ minor ∧ minor ≤ 11) ∧ IsNumbered cs 1 minor) ∧
      (era = .hybrid ↔ IsNumbered cs 1 12) ∧
      (era = .modern ↔ (∃ minor, 13 ≤ minor ∧ IsNumbered cs 1 minor) ∨
        ∃ year, 18 ≤ year ∧ IsWeekly cs year) ∧
      (era = .unknown ↔ (∀ minor, ¬IsNumbered cs 1 minor) ∧ ∀ year, 18 ≤ year → ¬IsWeekly cs year) := by
  intro cs era
  have hera : era = (Release.ofChars cs).era := era_ofText s
  have hweekly (year : Nat) : 18 ≤ year ∧ IsWeekly cs year ↔
      18 ≤ year ∧ Release.ofChars cs = .snapshot year :=
    and_congr_right fun hyear => (ofChars_eq_snapshot_iff (by omega)).symm
  have hnot (year : Nat) : (18 ≤ year → ¬IsWeekly cs year) ↔
      (18 ≤ year → Release.ofChars cs ≠ .snapshot year) :=
    forall_congr' fun hyear => not_congr (ofChars_eq_snapshot_iff (by omega)).symm
  simp only [hera, hweekly, hnot, ← ofChars_eq_numbered_iff]
  exact (Release.ofChars cs).era_iff

/-- The address of the play time, by what stands between the blanks. -/
theorem playTimeKey_congr {s t : String}
    (h : Release.ofChars (trimmed s.toList) = .ofChars (trimmed t.toList)) :
    (ofText s).era = (ofText t).era ∧ (ofText s).playTimeKey = (ofText t).playTimeKey := by
  simp only [playTimeKey, era_ofText, release_ofText, h, and_self]

/-- The address of the play time in a release, by its minor number. -/
theorem playTimeKey_of_isNumbered {s : String} {minor : Nat}
    (h : IsNumbered (trimmed s.toList) 1 minor) :
    (ofText s).playTimeKey =
      if minor ≤ 6 then "1100" else if minor ≤ 12 then "stat.playOneMinute"
      else if minor < 17 then "minecraft:custom/minecraft:play_one_minute"
      else "minecraft:custom/minecraft:play_time" := by
  rw [playTimeKey, era_ofText, release_ofText, ofChars_eq_numbered_iff.mpr h, era_numbered_one]
  by_cases hlegacy : minor ≤ 6
  · simp only [if_pos hlegacy]
  by_cases hmid : minor ≤ 11
  · simp only [if_neg hlegacy, if_pos hmid, if_pos (show minor ≤ 12 by omega)]
  by_cases hhybrid : minor = 12
  · simp only [if_neg hlegacy, if_neg hmid, if_pos hhybrid, if_pos (show minor ≤ 12 by omega)]
  · simp only [if_neg hlegacy, if_neg hmid, if_neg hhybrid, if_neg (show ¬minor ≤ 12 by omega),
      countsMinutes, decide_eq_true_eq]

/-- The address of the play time in a snapshot, by its year. -/
theorem playTimeKey_of_isWeekly {s : String} {year : Nat} (hyear : 18 ≤ year)
    (h : IsWeekly (trimmed s.toList) year) :
    (ofText s).playTimeKey =
      if year < 21 then "minecraft:custom/minecraft:play_one_minute"
      else "minecraft:custom/minecraft:play_time" := by
  rw [playTimeKey, era_ofText, release_ofText, ofChars_of_isWeekly h, Release.era, if_pos hyear]
  simp only [countsMinutes, decide_eq_true_eq]

/-- Later releases have no earlier era. -/
theorem rank_le_of_isNumbered {s t : String} {minor later : Nat}
    (h : IsNumbered (trimmed s.toList) 1 minor) (hlater : IsNumbered (trimmed t.toList) 1 later)
    (hle : minor ≤ later) : (ofText s).era.rank ≤ (ofText t).era.rank := by
  rw [era_ofText, era_ofText, ofChars_eq_numbered_iff.mpr h, ofChars_eq_numbered_iff.mpr hlater,
    era_numbered_one, era_numbered_one]
  split_ifs <;> simp only [Era.rank] <;> omega

end Version

/-- **Versions are classified by their grammar.** Take the blanks away at both ends of a text. What is left has a
known era exactly if it is a release of the first major number, two or three numbers between points, or a snapshot
from the year 18 on; which era it is follows from the minor number, and for a snapshot it is the last one. The
address of the play time follows from the minor number or the year as well, and in the last era it changes once, with
the release 17 or the year 21. Two texts with the same minor number or the same year have the same era and the same
address, and a release with a greater minor number never has an earlier era. -/
theorem classified_by_grammar (s t : String) :
    IsCore s.toList (trimmed s.toList) ∧
    (((Version.ofText s).era = .legacy ↔ ∃ minor, minor ≤ 6 ∧ Release.IsNumbered (trimmed s.toList) 1 minor) ∧
      ((Version.ofText s).era = .mid ↔
        ∃ minor, (7 ≤ minor ∧ minor ≤ 11) ∧ Release.IsNumbered (trimmed s.toList) 1 minor) ∧
      ((Version.ofText s).era = .hybrid ↔ Release.IsNumbered (trimmed s.toList) 1 12) ∧
      ((Version.ofText s).era = .modern ↔
        (∃ minor, 13 ≤ minor ∧ Release.IsNumbered (trimmed s.toList) 1 minor) ∨
          ∃ year, 18 ≤ year ∧ Release.IsWeekly (trimmed s.toList) year) ∧
      ((Version.ofText s).era = .unknown ↔ (∀ minor, ¬Release.IsNumbered (trimmed s.toList) 1 minor) ∧
        ∀ year, 18 ≤ year → ¬Release.IsWeekly (trimmed s.toList) year)) ∧
    (∀ minor, Release.IsNumbered (trimmed s.toList) 1 minor → (Version.ofText s).playTimeKey =
      if minor ≤ 6 then "1100" else if minor ≤ 12 then "stat.playOneMinute"
      else if minor < 17 then "minecraft:custom/minecraft:play_one_minute"
      else "minecraft:custom/minecraft:play_time") ∧
    (∀ year, 18 ≤ year → Release.IsWeekly (trimmed s.toList) year → (Version.ofText s).playTimeKey =
      if year < 21 then "minecraft:custom/minecraft:play_one_minute"
      else "minecraft:custom/minecraft:play_time") ∧
    ((∃ major minor, Release.IsNumbered (trimmed s.toList) major minor ∧
        Release.IsNumbered (trimmed t.toList) major minor) ∨
      (∃ year, Release.IsWeekly (trimmed s.toList) year ∧ Release.IsWeekly (trimmed t.toList) year) →
        (Version.ofText s).era = (Version.ofText t).era ∧
          (Version.ofText s).playTimeKey = (Version.ofText t).playTimeKey) ∧
    ∀ minor later, Release.IsNumbered (trimmed s.toList) 1 minor →
      Release.IsNumbered (trimmed t.toList) 1 later → minor ≤ later →
        (Version.ofText s).era.rank ≤ (Version.ofText t).era.rank := by
  refine ⟨isCore_trimmed _, Version.era_iff s, fun _ => Version.playTimeKey_of_isNumbered,
    fun _ => Version.playTimeKey_of_isWeekly, ?_, fun _ _ => Version.rank_le_of_isNumbered⟩
  rintro (⟨major, minor, hs, ht⟩ | ⟨year, hs, ht⟩)
  · exact Version.playTimeKey_congr ((Release.ofChars_eq_numbered_iff.mpr hs).trans
      (Release.ofChars_eq_numbered_iff.mpr ht).symm)
  · exact Version.playTimeKey_congr ((Release.ofChars_of_isWeekly hs).trans
      (Release.ofChars_of_isWeekly ht).symm)

/-- Leading zeros, a plus sign, blanks of any kind and a third number make no difference, and the suffix of a
snapshot may be anything behind a character that is no digit. -/
theorem classified_by_grammar_padded :
    let (s, t) := ("\u00a0+01.016.3\n", "20w51\u00e9 9 ")
    Release.IsNumbered (trimmed s.toList) 1 16 ∧ Release.IsWeekly (trimmed t.toList) 20 ∧
      (Version.ofText s).era = .modern ∧ (Version.ofText t).era = .modern ∧
      (Version.ofText s).playTimeKey = "minecraft:custom/minecraft:play_one_minute" ∧
      (Version.ofText t).playTimeKey = "minecraft:custom/minecraft:play_one_minute" := by
  have hmajor : IsUnsigned Release.numberLimit "+01".toList 1 :=
    .plus (by decide : "01".toList ≠ []) (List.all_eq_true.mp (by decide)) (by decide)
  have hminor : IsUnsigned Release.numberLimit "016".toList 16 :=
    .bare (by decide) (List.all_eq_true.mp (by decide)) (by decide)
  have hpatch : IsUnsigned Release.numberLimit "3".toList 3 :=
    .bare (by decide) (List.all_eq_true.mp (by decide)) (by decide)
  have hrelease : Release.IsNumbered (trimmed "\u00a0+01.016.3\n".toList) 1 16 :=
    .triple hmajor hminor hpatch
  have hsnapshot : Release.IsWeekly (trimmed "20w51\u00e9 9 ".toList) 20 :=
    .mk ⟨by decide, by decide⟩ ⟨by decide, by decide⟩ (by decide)
  obtain ⟨-, ⟨-, -, -, hmodern, -⟩, hkey, -⟩ :=
    classified_by_grammar "\u00a0+01.016.3\n" "20w51\u00e9 9 "
  obtain ⟨-, ⟨-, -, -, hmodern', -⟩, -, hkey', -⟩ :=
    classified_by_grammar "20w51\u00e9 9 " "\u00a0+01.016.3\n"
  exact ⟨hrelease, hsnapshot, hmodern.mpr (.inl ⟨16, by decide, hrelease⟩),
    hmodern'.mpr (.inr ⟨20, by decide, hsnapshot⟩), hkey 16 hrelease, hkey' 20 (by decide) hsnapshot⟩

end Milestone
