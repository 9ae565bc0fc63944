import Milestone.Snapshot.Files

/-!
# The newest entry of a listing

The loop over a listing keeps one entry. What it keeps at the end is the greatest of the entries that count,
by time and then by name, whatever the order of the listing and whatever else stands in it.
-/

namespace Milestone

/-- The order of the choice: by time, and of equal times by name. -/
def NoLater (a b : String × Int) : Prop :=
  a.2 < b.2 ∨ (a.2 = b.2 ∧ a.1 ≤ b.1)

instance (a b : String × Int) : Decidable (NoLater a b) :=
  inferInstanceAs (Decidable (_ ∨ _))

namespace NoLater

/-- An entry is no later than itself. -/
theorem refl (a : String × Int) : NoLater a a :=
  .inr ⟨rfl, String.le_refl _⟩

/-- What is no later than something no later is no later. -/
theorem trans {a b c : String × Int} (h : NoLater a b) (h' : NoLater b c) : NoLater a c := by
  rcases h with h | ⟨h, hle⟩
  · rcases h' with h' | ⟨h', -⟩
    · exact .inl (Int.lt_trans h h')
    · exact .inl (h' ▸ h)
  · rcases h' with h' | ⟨h', hle'⟩
    · exact .inl (h ▸ h')
    · exact .inr ⟨h.trans h', String.le_trans hle hle'⟩

/-- Of two entries that are no later than each other there is just one. -/
theorem antisymm {a b : String × Int} (h : NoLater a b) (h' : NoLater b a) : a = b := by
  rcases h with h | ⟨h, hle⟩ <;> rcases h' with h' | ⟨h', hle'⟩
  · omega
  · omega
  · omega
  · exact Prod.ext (String.le_antisymm hle hle') h

/-- Of two entries the later one is the one that the loop takes instead of the other. -/
theorem of_not {a b : String × Int} (h : ¬(a.2 < b.2 ∨ (b.2 = a.2 ∧ a.1 < b.1))) : NoLater b a := by
  obtain ⟨htime, hname⟩ := not_or.mp h
  by_cases heq : b.2 = a.2
  · exact .inr ⟨heq, String.not_lt.mp fun hlt => hname ⟨heq, hlt⟩⟩
  · exact .inl (by omega)

end NoLater

/-- The listed entry that counts, with a name and time. -/
def Listed.counting (e : String × Int) : Listed := ⟨e.1, true, some e.2⟩

/-- An entry that counts is known by its name and its time. -/
theorem Listed.counting_inj {a b : String × Int} : Listed.counting a = .counting b ↔ a = b := by
  simp [counting, Prod.ext_iff]

/-- Whether an entry is the newest: one that counts, and none that counts is later. -/
def IsNewest (entries : List Listed) (e : String × Int) : Prop :=
  .counting e ∈ entries ∧ ∀ other, .counting other ∈ entries → NoLater other e

/-- Only one entry is the newest one. -/
theorem IsNewest.unique {entries : List Listed} {e e' : String × Int} (h : IsNewest entries e)
    (h' : IsNewest entries e') : e = e' :=
  (h'.2 e h.1).antisymm (h.2 e' h'.1)

/-- The choice after some of the entries: none while none counts, then the newest of them. -/
def IsChoice (seen : List Listed) (best : Option (String × Int)) : Prop :=
  match best with
  | none => ∀ e, .counting e ∉ seen
  | some e => IsNewest seen e

/-- An entry counts with a name and time, or it is passed over. -/
theorem Listed.cases (e : Listed) :
    (∃ a, e = .counting a) ∨ (∀ a, e ≠ .counting a) ∧ ∀ best, newer best e = best := by
  obtain ⟨name, accepted, modified?⟩ := e
  cases accepted with
  | false => exact .inr ⟨fun a => by simp [counting], fun best => by simp [newer]⟩
  | true =>
    cases modified? with
    | none => exact .inr ⟨fun a => by simp [counting], fun best => by simp [newer]⟩
    | some time => exact .inl ⟨(name, time), rfl⟩

/-- One more entry that counts is taken where none was, or where it is later. -/
theorem newer_counting (best : Option (String × Int)) (a : String × Int) :
    newer best (.counting a) = some a ∧ (∀ b, best = some b → NoLater b a) ∨
      ∃ b, best = some b ∧ newer best (.counting a) = best ∧ NoLater a b := by
  cases best with
  | none => exact .inl ⟨rfl, fun b h => by cases h⟩
  | some b =>
    by_cases h : b.2 < a.2 ∨ (a.2 = b.2 ∧ b.1 < a.1)
    · refine .inl ⟨if_pos h, fun b' hb => ?_⟩
      cases hb
      rcases h with h | ⟨h, hlt⟩
      · exact .inl h
      · exact .inr ⟨h.symm, String.not_lt.mp (String.lt_asymm hlt)⟩
    · exact .inr ⟨b, rfl, if_neg h, .of_not h⟩

/-- One step of the loop. -/
theorem IsChoice.newer {seen : List Listed} {best : Option (String × Int)} (h : IsChoice seen best)
    (e : Listed) : IsChoice (seen ++ [e]) (newer best e) := by
  have hsplit (a : String × Int) : .counting a ∈ seen ++ [e] ↔ .counting a ∈ seen ∨ .counting a = e := by
    rw [List.mem_append, List.mem_singleton]
  rcases e.cases with ⟨a, rfl⟩ | ⟨hpassed, hsame⟩
  · rcases newer_counting best a with ⟨hnew, hlater⟩ | ⟨b, rfl, hkept, hle⟩
    · rw [hnew]
      refine ⟨by simp, fun other hother => ?_⟩
      rcases (hsplit other).mp hother with hseen | heq
      · cases best with
        | none => exact absurd hseen (h other)
        | some b => exact (h.2 other hseen).trans (hlater b rfl)
      · rw [Listed.counting_inj.mp heq]
        exact .refl a
    · rw [hkept]
      refine ⟨(hsplit b).mpr (.inl h.1), fun other hother => ?_⟩
      rcases (hsplit other).mp hother with hseen | heq
      · exact h.2 other hseen
      · rw [← Listed.counting_inj.mp heq.symm]
        exact hle
  · rw [hsame]
    cases best with
    | none => exact fun a ha => ((hsplit a).mp ha).elim (h a) fun heq => hpassed a heq.symm
    | some b =>
      exact ⟨(hsplit b).mpr (.inl h.1), fun other hother =>
        ((hsplit other).mp hother).elim (h.2 other) fun heq => absurd heq.symm (hpassed other)⟩

/-- The loop goes on from the choice among the entries seen. -/
theorem IsChoice.foldl {seen : List Listed} {best : Option (String × Int)} (h : IsChoice seen best)
    (entries : List Listed) : IsChoice (seen ++ entries) (entries.foldl Milestone.newer best) := by
  induction entries generalizing seen best with
  | nil => rwa [List.append_nil]
  | cons e rest ih =>
    rw [List.append_cons, List.foldl_cons]
    exact ih (h.newer e)

/-- The loop ends with the choice among all entries. -/
theorem isChoice_foldl (entries : List Listed) : IsChoice entries (entries.foldl newer none) :=
  have hnone : IsChoice [] none := fun _ => List.not_mem_nil
  hnone.foldl entries

/-- The chosen name is that of the newest entry. -/
theorem newest?_eq_some_iff {entries : List Listed} {name : String} :
    newest? entries = some name ↔ ∃ time, IsNewest entries (name, time) := by
  have h := isChoice_foldl entries
  rw [newest?, Option.map_eq_some_iff]
  constructor
  · rintro ⟨⟨name, time⟩, hbest, rfl⟩
    rw [hbest] at h
    exact ⟨time, h⟩
  · rintro ⟨time, hnewest⟩
    cases hbest : entries.foldl newer none with
    | none =>
      rw [hbest] at h
      exact absurd hnewest.1 (h _)
    | some e =>
      rw [hbest] at h
      exact ⟨e, rfl, congrArg Prod.fst (h.unique hnewest)⟩

/-- Nothing is chosen exactly if no entry counts. -/
theorem newest?_eq_none_iff {entries : List Listed} :
    newest? entries = none ↔ ∀ e, .counting e ∉ entries := by
  have h := isChoice_foldl entries
  rw [newest?, Option.map_eq_none_iff]
  cases hbest : entries.foldl newer none with
  | none =>
    rw [hbest] at h
    exact iff_of_true rfl h
  | some e =>
    rw [hbest] at h
    exact iff_of_false (Option.some_ne_none e) fun hnone => hnone e h.1

/-- The choice depends on nothing but which entries count: not on their order, and on no other entry. -/
theorem newest?_congr {entries entries' : List Listed}
    (h : ∀ e, .counting e ∈ entries ↔ .counting e ∈ entries') : newest? entries = newest? entries' := by
  have hnewest (e : String × Int) : IsNewest entries e ↔ IsNewest entries' e := by
    simp only [IsNewest, h]
  refine Option.ext fun name => ?_
  rw [newest?_eq_some_iff, newest?_eq_some_iff]
  exact exists_congr fun time => hnewest (name, time)

end Milestone
