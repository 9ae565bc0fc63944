import Milestone.Text.Blank

/-!
# Texts between blanks

What is left of a text when the blanks at its two ends are taken away: the text is that with blanks around it,
and it neither starts nor ends with one. There is one such text only.
-/

namespace Milestone.Text

/-- A text is another one with blanks around it, which itself has none at its ends. -/
structure IsCore (text core : List Char) : Prop where
  blanks : ∃ before after, text = before ++ core ++ after ∧ ∀ c ∈ before ++ after, isBlank c = true
  head : ∀ c ∈ core.head?, isBlank c = false
  last : ∀ c ∈ core.getLast?, isBlank c = false

/-- A digit is not blank. -/
theorem not_isBlank_of_isDigit {c : Char} (h : c.isDigit = true) : isBlank c = false := by
  have hrange : 48 ≤ c.toNat ∧ c.toNat ≤ 57 := by
    simpa [Char.isDigit, UInt32.le_iff_toNat_le] using h
  simp only [isBlank, Bool.or_eq_false_iff, Bool.and_eq_false_iff, decide_eq_false_iff_not,
    beq_eq_false_iff_ne]
  omega

/-! ## What is dropped -/

/-- Nothing is dropped in front of a character that is not blank. -/
theorem dropBlanks_of_not {c : Char} {cs : List Char} (h : isBlank c = false) :
    dropBlanks (c :: cs) = c :: cs := by
  rw [dropBlanks, List.dropWhile_cons, if_neg (by simp [h])]

/-- Of blanks and a text that does not start with one, the blanks are dropped and no more. -/
theorem dropBlanks_append {before cs : List Char} (hbefore : ∀ c ∈ before, isBlank c = true)
    (hcs : ∀ c ∈ cs.head?, isBlank c = false) : dropBlanks (before ++ cs) = cs := by
  have hdrop : dropBlanks (before ++ cs) = dropBlanks cs := List.dropWhile_append_of_pos hbefore
  rw [hdrop]
  cases cs with
  | nil => rfl
  | cons c rest => exact dropBlanks_of_not (hcs c rfl)

/-- A text is some blanks and what is left after dropping them. -/
theorem exists_blanks (cs : List Char) :
    ∃ before, cs = before ++ dropBlanks cs ∧ ∀ c ∈ before, isBlank c = true :=
  ⟨cs.takeWhile isBlank, List.takeWhile_append_dropWhile.symm, fun _ hc =>
    List.all_eq_true.mp List.all_takeWhile _ hc⟩

/-- Once dropped, no blank stands in front. -/
theorem isBlank_of_head?_dropBlanks {cs : List Char} {c : Char} (h : c ∈ (dropBlanks cs).head?) :
    isBlank c = false := by
  obtain ⟨rest, hrest⟩ := List.head?_eq_some_iff.mp h
  exact isBlank_head_dropBlanks hrest

/-! ## What is left -/

/-- Trimming takes away exactly the blanks at the two ends. -/
theorem isCore_trimmed (cs : List Char) : IsCore cs (trimmed cs) := by
  obtain ⟨before, hbefore, hblank⟩ := exists_blanks cs
  obtain ⟨after, hafter, hblank'⟩ := exists_blanks (dropBlanks cs).reverse
  have hdrop : dropBlanks cs = trimmed cs ++ after.reverse := by
    rw [trimmed, ← List.reverse_append, ← hafter, List.reverse_reverse]
  refine ⟨⟨before, after.reverse, ?_, fun c hc => ?_⟩, fun c hc => ?_, fun c hc => ?_⟩
  · rw [List.append_assoc, ← hdrop]
    exact hbefore
  · rcases List.mem_append.mp hc with hc | hc
    · exact hblank c hc
    · exact hblank' c (List.mem_reverse.mp hc)
  · have hhead : c ∈ (dropBlanks cs).head? := by
      rw [hdrop, List.head?_append, hc]
      rfl
    exact isBlank_of_head?_dropBlanks hhead
  · rw [trimmed, List.getLast?_reverse] at hc
    exact isBlank_of_head?_dropBlanks hc

/-- The text between the blanks of another one is what trimming leaves of it. -/
theorem IsCore.eq_trimmed {text core : List Char} (h : IsCore text core) : core = trimmed text := by
  obtain ⟨⟨before, after, rfl, hblank⟩, hhead, hlast⟩ := h
  obtain ⟨hbefore, hafter⟩ := List.forall_mem_append.mp hblank
  cases core with
  | nil =>
    have hnone : dropBlanks (before ++ [] ++ after) = [] := by
      rw [List.append_nil, ← List.append_nil (before ++ after)]
      exact dropBlanks_append hblank nofun
    rw [trimmed, hnone]
    rfl
  | cons c rest =>
    have hfront : dropBlanks (before ++ (c :: rest) ++ after) = c :: rest ++ after := by
      rw [List.append_assoc]
      exact dropBlanks_append hbefore hhead
    have hback : dropBlanks (c :: rest ++ after).reverse = (c :: rest).reverse := by
      rw [List.reverse_append]
      refine dropBlanks_append (fun d hd => hafter d (List.mem_reverse.mp hd)) ?_
      rwa [List.head?_reverse]
    rw [trimmed, hfront, hback, List.reverse_reverse]

/-- What trimming leaves has a property exactly if the text between the blanks has it. -/
theorem exists_isCore_iff {text : List Char} {p : List Char → Prop} :
    (∃ core, IsCore text core ∧ p core) ↔ p (trimmed text) := by
  constructor
  · rintro ⟨core, hcore, hp⟩
    exact hcore.eq_trimmed ▸ hp
  · exact fun hp => ⟨trimmed text, isCore_trimmed text, hp⟩

end Milestone.Text
