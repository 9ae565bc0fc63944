import Milestone.Proofs.Json.Lookup
import Milestone.Proofs.Saved.Written
import Milestone.Proofs.Text.Blank
import Milestone.Proofs.Text.Numeral

/-!
# The forms of custom values

The recorded value of a custom goal is given as a text and kept as a part of the written state. This file says
which texts name a value and which trees show one. Main fact: both forms are read back as the value, blanks around
the text aside, and neither takes a flag for a count.
-/

namespace Milestone

open Text Json

namespace CustomValue

/-- The characters that name a value: a word for a flag, a whole number for a count. -/
inductive Names : List Char → CustomValue → Prop where
  | yes : Names ['t', 'r', 'u', 'e'] (flag true)
  | no : Names ['f', 'a', 'l', 's', 'e'] (flag false)
  | number {cs : List Char} {n : Counter} (h : IsSigned cs n.value) : Names cs (count n)

/-- The trees that show a value: a Boolean for a flag, a whole number for a count. -/
inductive Shows : Tree → CustomValue → Prop where
  | bool (b : Bool) : Shows (.bool b) (flag b)
  | number (n : Counter) : Shows (.number (.whole n.value)) (count n)

variable {v : CustomValue}

/-! ## Texts -/

theorem ofTrimmed?_eq_some_iff {cs : List Char} : ofTrimmed? cs = some v ↔ Names cs v := by
  constructor
  · intro h
    unfold ofTrimmed? at h
    split at h
    · rename_i hword
      cases h
      exact hword ▸ .yes
    · split at h
      · rename_i hword
        cases h
        exact hword ▸ .no
      · obtain ⟨n, hn, rfl⟩ := Option.map_eq_some_iff.mp h
        obtain ⟨k, hk, hcounter⟩ := Option.bind_eq_some_iff.mp hn
        rw [← Counter.ofInt?_eq_some_iff.mp hcounter] at hk
        exact .number (integer?_eq_some_iff.mp hk)
  · rintro (_ | _ | h)
    · rfl
    · rfl
    · have hinteger := integer?_eq_some_iff.mpr h
      have hne {word : List Char} (hword : integer? word = none) : cs ≠ word := by
        rintro rfl
        rw [hword] at hinteger
        cases hinteger
      rw [ofTrimmed?, if_neg (hne rfl), if_neg (hne rfl), hinteger, Option.bind_some,
        Counter.ofInt?_value, Option.map_some]

/-- A text is read as a value exactly if it names the value between its blanks. -/
theorem ofText?_eq_some_iff {s : String} :
    ofText? s = some v ↔ ∃ core, IsCore s.toList core ∧ Names core v := by
  rw [ofText?, ofTrimmed?_eq_some_iff, exists_isCore_iff]

theorem not_isBlank_of_mem_chars {c : Char} (h : c ∈ v.chars) : isBlank c = false := by
  cases v with
  | flag b =>
    have hall : (flag b).chars.all (!isBlank ·) = true := by cases b <;> rfl
    simpa using List.all_eq_true.mp hall c h
  | count n =>
    rw [chars, signedDigits] at h
    split at h
    · rcases List.mem_cons.mp h with rfl | h
      · decide
      · exact not_isBlank_of_isDigit (isDigit_of_mem_digits h)
    · exact not_isBlank_of_isDigit (isDigit_of_mem_digits h)

/-- The text of a value with blanks around it is read back as that value. -/
theorem ofText?_text_between (v : CustomValue) {before after : String}
    (hbefore : isBlankText before = true) (hafter : isBlankText after = true) :
    ofText? (before ++ v.text ++ after) = some v := by
  have hblank : ∀ c ∈ before.toList ++ after.toList, isBlank c = true :=
    List.forall_mem_append.mpr ⟨List.all_eq_true.mp hbefore, List.all_eq_true.mp hafter⟩
  have hcore : IsCore (before ++ v.text ++ after).toList v.chars := by
    refine ⟨⟨before.toList, after.toList, ?_, hblank⟩, fun c hc => ?_, fun c hc => ?_⟩
    · rw [String.toList_append, String.toList_append, text, String.toList_ofList]
    · exact not_isBlank_of_mem_chars (List.mem_of_mem_head? hc)
    · exact not_isBlank_of_mem_chars (List.mem_of_mem_getLast? hc)
  exact ofText?_eq_some_iff.mpr ⟨v.chars, hcore, ofTrimmed?_eq_some_iff.mp (ofTrimmed?_chars v)⟩

/-! ## Trees -/

/-- A tree is read as a value exactly if it shows the value. -/
theorem ofTree?_eq_some_iff {t : Tree} : ofTree? t = some v ↔ Shows t v := by
  constructor
  · intro h
    cases t with
    | bool b =>
      cases h
      exact .bool b
    | number n =>
      cases n with
      | whole k =>
        obtain ⟨n, hn, rfl⟩ := Option.map_eq_some_iff.mp h
        rw [← Counter.ofInt?_eq_some_iff.mp hn]
        exact .number n
      | double x => cases h
    | _ => cases h
  · rintro (b | n)
    · rfl
    · exact congrArg (Option.map count) (Counter.ofInt?_value n)

/-- The part of a written state that stands for a custom goal. -/
def part? (key : String) (state : Tree) : Option Tree :=
  ((members? state).bind (·.lookup "custom_progress")).bind fun goals => (members? goals).bind (·.lookup key)

/-- A written state shows the value of each custom goal. -/
theorem part?_outline (s : SavedState) (key : String) :
    part? key s.outline.tree = (s.customValue? key).map (·.outline.tree) := by
  have hgoals : (members? s.outline.tree).bind (·.lookup "custom_progress") =
      some (outlineMap outline s.custom).tree := rfl
  have hmembers : members? (outlineMap outline s.custom).tree =
      some (s.custom.entries.map fun e => (e.1, e.2.outline.tree)) := by
    simp only [outlineMap, Outline.tree, members?, layer, Outline.memberTrees_eq_map, List.map_map,
      Function.comp_def]
  rw [part?, hgoals, Option.bind_some, hmembers, Option.bind_some]
  exact lookup_map_snd (fun v : CustomValue => v.outline.tree) s.custom.entries key

/-- **A custom value is read back in every form.** Its text is read back with any blanks around it, and so is the
text of what any other text was read as. A text is read as a value exactly if between its blanks it is one of two
words, for a flag, or a whole number with or without a sign that a counter can hold. A tree is read as a value
exactly if it is a Boolean, for a flag, or such a number. A state in which the value was recorded is written as a
text that shows it so and is read back as that state, with the value in its place. -/
theorem forms_read_back (v : CustomValue) :
    (∀ before after : String, isBlankText before = true → isBlankText after = true →
      ofText? (before ++ v.text ++ after) = some v) ∧
    (∀ s, ofText? s = some v → ofText? v.text = some v) ∧
    (∀ s : String, ofText? s = some v ↔ ∃ core, IsCore s.toList core ∧ Names core v) ∧
    (∀ t, ofTree? t = some v ↔ Shows t v) ∧
    ∀ (s : SavedState) (key : String),
      (∃ t, (Tree.read? (s.setCustom key v).text).bind (part? key) = some t ∧ Shows t v) ∧
      SavedState.read? (s.setCustom key v).text = some (s.setCustom key v) ∧
      (s.setCustom key v).customValue? key = some v := by
  refine ⟨fun _ _ => ofText?_text_between v, fun _ _ => ?_, fun _ => ofText?_eq_some_iff,
    fun _ => ofTree?_eq_some_iff, fun s key => ?_⟩
  · have hnone : isBlankText "" = true := rfl
    have hbare := ofText?_text_between v hnone hnone
    rwa [String.empty_append, String.append_empty] at hbare
  · have hvalue : (s.setCustom key v).customValue? key = some v := by
      rw [SavedState.customValue?_setCustom, if_pos rfl]
    refine ⟨⟨v.outline.tree, ?_, ofTree?_eq_some_iff.mp (ofTree?_outline v)⟩,
      SavedState.read?_text _, hvalue⟩
    rw [SavedState.text, Tree.read?_text, Option.bind_some, part?_outline, hvalue, Option.map_some]

/-- The least counter is read back between blanks of other kinds than spaces, and behind zeros, and stays a count in
the written state. -/
theorem forms_read_back_of_least :
    let v := CustomValue.count (.clamp Counter.least)
    let s := SavedState.empty.setCustom "deaths" v
    v.text = "-9223372036854775808" ∧ ofText? ("\u2003" ++ v.text ++ "\n\u0085") = some v ∧
      ofText? " -009223372036854775808" = some v ∧ ofText? "-9223372036854775809" = none ∧
      (∃ t, (Tree.read? s.text).bind (part? "deaths") = some t ∧ Shows t v) ∧
      SavedState.read? s.text = some s ∧ s.customValue? "deaths" = some v := by
  intro v s
  obtain ⟨hbetween, -, hnames, -, hwritten⟩ := forms_read_back v
  have hnumber : Names (trimmed " -009223372036854775808".toList) v :=
    .number (.minus (by decide : "009223372036854775808".toList ≠ []) (List.all_eq_true.mp (by decide)))
  refine ⟨by decide, hbetween "\u2003" "\n\u0085" (by decide) (by decide),
    (hnames _).mpr ⟨_, isCore_trimmed _, hnumber⟩, by decide, hwritten .empty "deaths"⟩

end CustomValue

end Milestone
