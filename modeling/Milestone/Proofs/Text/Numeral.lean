import Milestone.Text.Numeral

/-!
# Which texts are numbers

A text is read as a number without a minus sign exactly if it is a line of digits, perhaps behind a plus sign,
whose value is in range, and as a whole number exactly if it is a line of digits, perhaps behind either sign.
-/

namespace Milestone.Text

/-- A number of at most `limit` in decimal digits, perhaps behind a plus sign. -/
inductive IsUnsigned (limit : Nat) : List Char → Nat → Prop where
  | bare {ds : List Char} (hne : ds ≠ []) (hdigits : ∀ c ∈ ds, c.isDigit = true)
      (hle : Nat.ofDigitChars 10 ds 0 ≤ limit) : IsUnsigned limit ds (Nat.ofDigitChars 10 ds 0)
  | plus {ds : List Char} (hne : ds ≠ []) (hdigits : ∀ c ∈ ds, c.isDigit = true)
      (hle : Nat.ofDigitChars 10 ds 0 ≤ limit) :
      IsUnsigned limit ('+' :: ds) (Nat.ofDigitChars 10 ds 0)

/-- A text is read as a natural number exactly if it has digits alone, and at least one. -/
theorem natural?_eq_some_iff {cs : List Char} {n : Nat} :
    natural? cs = some n ↔
      cs ≠ [] ∧ (∀ c ∈ cs, c.isDigit = true) ∧ Nat.ofDigitChars 10 cs 0 = n := by
  rw [natural?, Option.ite_none_right_eq_some, Bool.and_eq_true, Bool.not_eq_true',
    List.isEmpty_eq_false_iff, List.all_eq_true, Option.some.injEq, and_assoc]

/-- A plus sign in front is passed over. -/
theorem unsigned?_plus (limit : Nat) (ds : List Char) :
    unsigned? limit ('+' :: ds) = (natural? ds).filter (· ≤ limit) := rfl

/-- Without a plus sign the whole text is read. -/
theorem unsigned?_of_ne {cs : List Char} (h : ∀ ds, cs ≠ '+' :: ds) (limit : Nat) :
    unsigned? limit cs = (natural? cs).filter (· ≤ limit) := by
  unfold unsigned?
  split
  · exact absurd rfl (h _)
  · rfl

/-- A text is read as a number exactly if it is one. -/
theorem unsigned?_eq_some_iff {limit : Nat} {cs : List Char} {n : Nat} :
    unsigned? limit cs = some n ↔ IsUnsigned limit cs n := by
  constructor
  · intro h
    by_cases hsign : ∃ ds, cs = '+' :: ds
    · obtain ⟨ds, rfl⟩ := hsign
      rw [unsigned?_plus, Option.filter_eq_some_iff, natural?_eq_some_iff, decide_eq_true_eq] at h
      obtain ⟨⟨hne, hdigits, rfl⟩, hle⟩ := h
      exact .plus hne hdigits hle
    · rw [unsigned?_of_ne (not_exists.mp hsign), Option.filter_eq_some_iff, natural?_eq_some_iff,
        decide_eq_true_eq] at h
      obtain ⟨⟨hne, hdigits, rfl⟩, hle⟩ := h
      exact .bare hne hdigits hle
  · rintro (⟨hne, hdigits, hle⟩ | ⟨hne, hdigits, hle⟩)
    · have hsign (ds : List Char) : cs ≠ '+' :: ds := by
        rintro rfl
        exact absurd (hdigits '+' List.mem_cons_self) (by decide)
      rw [unsigned?_of_ne hsign]
      exact Option.filter_eq_some_iff.mpr
        ⟨natural?_eq_some_iff.mpr ⟨hne, hdigits, rfl⟩, decide_eq_true hle⟩
    · exact Option.filter_eq_some_iff.mpr
        ⟨natural?_eq_some_iff.mpr ⟨hne, hdigits, rfl⟩, decide_eq_true hle⟩

/-- A number that is read within a limit keeps to it. -/
theorem IsUnsigned.le {limit : Nat} {cs : List Char} {n : Nat} (h : IsUnsigned limit cs n) : n ≤ limit := by
  cases h with
  | bare _ _ hle => exact hle
  | plus _ _ hle => exact hle

/-- A lower limit takes those numbers away that are above it, and no others. -/
theorem isUnsigned_iff_of_le {least limit : Nat} (h : least ≤ limit) {cs : List Char} {n : Nat} :
    IsUnsigned least cs n ↔ IsUnsigned limit cs n ∧ n ≤ least := by
  constructor
  · rintro (⟨hne, hdigits, hle⟩ | ⟨hne, hdigits, hle⟩)
    · exact ⟨.bare hne hdigits (Nat.le_trans hle h), hle⟩
    · exact ⟨.plus hne hdigits (Nat.le_trans hle h), hle⟩
  · rintro ⟨⟨hne, hdigits, -⟩ | ⟨hne, hdigits, -⟩, hle⟩
    · exact .bare hne hdigits hle
    · exact .plus hne hdigits hle

/-- A number holds digits and perhaps a plus sign. -/
theorem IsUnsigned.mem {limit : Nat} {cs : List Char} {n : Nat} (h : IsUnsigned limit cs n) {c : Char}
    (hc : c ∈ cs) : c = '+' ∨ c.isDigit = true := by
  cases h with
  | bare _ hdigits _ => exact .inr (hdigits c hc)
  | plus _ hdigits _ => exact (List.mem_cons.mp hc).imp_right (hdigits c)

/-! ## Whole numbers -/

/-- A whole number in decimal digits, perhaps behind a sign. -/
inductive IsSigned : List Char → Int → Prop where
  | bare {ds : List Char} (hne : ds ≠ []) (hdigits : ∀ c ∈ ds, c.isDigit = true) :
      IsSigned ds (Nat.ofDigitChars 10 ds 0)
  | plus {ds : List Char} (hne : ds ≠ []) (hdigits : ∀ c ∈ ds, c.isDigit = true) :
      IsSigned ('+' :: ds) (Nat.ofDigitChars 10 ds 0)
  | minus {ds : List Char} (hne : ds ≠ []) (hdigits : ∀ c ∈ ds, c.isDigit = true) :
      IsSigned ('-' :: ds) (-Nat.ofDigitChars 10 ds 0)

/-- Digits are read as the number that they are. -/
theorem integer?_of_digits {ds : List Char} (hne : ds ≠ []) (hdigits : ∀ c ∈ ds, c.isDigit = true) :
    integer? ds = some (Nat.ofDigitChars 10 ds 0 : Int) := by
  have hsign {sign : Char} (hsign : sign.isDigit = false) (rest : List Char) : ds ≠ sign :: rest := by
    rintro rfl
    rw [hdigits sign List.mem_cons_self] at hsign
    cases hsign
  unfold integer?
  split
  · exact absurd rfl (hsign (by decide) _)
  · exact absurd rfl (hsign (by decide) _)
  · rw [natural?_eq_some_iff.mpr ⟨hne, hdigits, rfl⟩]
    rfl

/-- A text is read as a whole number exactly if it is one. -/
theorem integer?_eq_some_iff {cs : List Char} {n : Int} : integer? cs = some n ↔ IsSigned cs n := by
  constructor
  · intro h
    unfold integer? at h
    split at h <;> obtain ⟨k, hk, rfl⟩ := Option.map_eq_some_iff.mp h <;>
      obtain ⟨hne, hdigits, rfl⟩ := natural?_eq_some_iff.mp hk
    · exact .minus hne hdigits
    · exact .plus hne hdigits
    · exact .bare hne hdigits
  · rintro (⟨hne, hdigits⟩ | ⟨hne, hdigits⟩ | ⟨hne, hdigits⟩)
    · exact integer?_of_digits hne hdigits
    · exact congrArg (Option.map _) (natural?_eq_some_iff.mpr ⟨hne, hdigits, rfl⟩)
    · exact congrArg (Option.map _) (natural?_eq_some_iff.mpr ⟨hne, hdigits, rfl⟩)

end Milestone.Text
