import Mathlib.Algebra.Order.BigOperators.Group.List
import Mathlib.Algebra.Order.Ring.Int
import Mathlib.Data.List.Induction
import Milestone.Proofs.Json.Parts

/-!
# Lifetime counters as sums

A file of lifetime counters lists changes, and the same key may stand in many of them. Reading it gives each key
once, with the sum of its amounts. A sum stops at the ends of the range at every step, so it is exact where no
partial sum leaves the range. Amounts that are not negative can only reach the upper end, so that their order does
not matter. What is no whole number in plain writing counts for nothing, and neither does a change that is no
object.
-/

namespace Milestone

open Json

/-! ## Sums that stop at the ends of the range -/

namespace Counter

/-- The exact sum of counters. -/
def exactSum (amounts : List Counter) : Int :=
  (amounts.map (·.value)).sum

/-- The sum of counters from the first to the last, stopped at the ends of the range at each step. -/
def total (amounts : List Counter) : Counter :=
  amounts.foldl (· + ·) 0

/-- Adding to zero gives the same counter. -/
theorem zero_add (a : Counter) : 0 + a = a := by
  ext
  rw [value_add, value_zero, Int.zero_add]
  exact value_clamp a.lower a.upper

/-- One more amount adds to the exact sum. -/
theorem exactSum_append_singleton (amounts : List Counter) (a : Counter) :
    exactSum (amounts ++ [a]) = exactSum amounts + a.value := by
  simp [exactSum]

/-- One more amount adds to the total. -/
theorem total_append_singleton (amounts : List Counter) (a : Counter) :
    total (amounts ++ [a]) = total amounts + a := by
  rw [total, List.foldl_append]
  rfl

/-- A sum that stays in the range on its way is exact. -/
theorem value_total_of_prefixes {amounts : List Counter}
    (h : ∀ n, least ≤ exactSum (amounts.take n) ∧ exactSum (amounts.take n) ≤ greatest) :
    (total amounts).value = exactSum amounts := by
  induction amounts using List.reverseRecOn with
  | nil => rfl
  | append_singleton rest a ih =>
    have hrest : (total rest).value = exactSum rest := by
      -- every partial sum of the shorter list is one of the longer list as well
      refine ih fun n => ?_
      have hn := h (min n rest.length)
      rwa [List.take_append_of_le_length (Nat.min_le_right ..), ← List.take_eq_take_min] at hn
    have hall := h (rest ++ [a]).length
    rw [List.take_length, exactSum_append_singleton] at hall
    rw [total_append_singleton, exactSum_append_singleton, value_add, hrest]
    omega

/-- Amounts that are not negative have no negative sum. -/
theorem exactSum_nonneg {amounts : List Counter} (h : ∀ a ∈ amounts, 0 ≤ a) : 0 ≤ exactSum amounts :=
  List.sum_nonneg (List.forall_mem_map.mpr h)

/-- A sum of amounts that are not negative stops at the upper end for good. -/
theorem value_total_of_nonneg {amounts : List Counter} (h : ∀ a ∈ amounts, 0 ≤ a) :
    (total amounts).value = min (exactSum amounts) greatest := by
  induction amounts using List.reverseRecOn with
  | nil => rfl
  | append_singleton rest a ih =>
    obtain ⟨hrest, ha⟩ := List.forall_mem_append.mp h
    have hpos : 0 ≤ a.value := ha a List.mem_cons_self
    -- the lower end is out of reach, and a sum that has come to the upper end stays there
    have hsum := exactSum_nonneg hrest
    rw [total_append_singleton, exactSum_append_singleton, value_add, ih hrest]
    simp only [least, greatest]
    omega

/-- So their order does not matter. -/
theorem total_perm_of_nonneg {amounts reordered : List Counter} (hperm : reordered.Perm amounts)
    (h : ∀ a ∈ amounts, 0 ≤ a) : total reordered = total amounts := by
  have hsum : exactSum reordered = exactSum amounts := (hperm.map _).sum_eq
  ext
  rw [value_total_of_nonneg h, value_total_of_nonneg fun a ha => h a (hperm.mem_iff.mp ha), hsum]

end Counter

namespace Document

/-! ## Totals by key -/

section Sums

/-- Adding an amount sets what stands under its key to the sum with it. -/
theorem addAmount_eq_setMember_add (totals : List (String × Counter)) (key : String) (amount : Counter) :
    addAmount totals key amount = setMember totals key ((totals.lookup key).getD 0 + amount) := by
  rw [addAmount_eq_setMember]
  cases totals.lookup key with
  | none => rw [Option.map_none, Option.getD_none, Option.getD_none, Counter.zero_add]
  | some n => rfl

/-- One more amount adds to what is summed under its key. -/
theorem sumAmounts_append_singleton (amounts : List (String × Counter)) (a : String × Counter) :
    sumAmounts (amounts ++ [a]) = addAmount (sumAmounts amounts) a.1 a.2 := by
  rw [sumAmounts, List.foldl_append]
  rfl

/-- The keys of totals stand in the order in which they first occur. -/
theorem map_fst_sumAmounts (amounts : List (String × Counter)) :
    (sumAmounts amounts).map (·.1) = (amounts.map (·.1)).eraseDups := by
  induction amounts using List.reverseRecOn with
  | nil => rfl
  | append_singleton rest a ih =>
    rw [sumAmounts_append_singleton, addAmount_eq_setMember, List.map_append, List.map_singleton]
    exact map_fst_setMember_eraseDups ih a.1 _

/-- The total under a key is the sum of its amounts in their order. -/
theorem getD_lookup_sumAmounts (amounts : List (String × Counter)) (key : String) :
    ((sumAmounts amounts).lookup key).getD 0 =
      Counter.total ((amounts.filter (·.1 == key)).map (·.2)) := by
  -- a key without amounts shows zero, which is their sum, so that its first amount is no special case
  induction amounts using List.reverseRecOn with
  | nil => rfl
  | append_singleton rest a ih =>
    rw [sumAmounts_append_singleton, addAmount_eq_setMember_add, lookup_setMember, List.filter_append,
      List.map_append]
    by_cases h : key = a.1
    · subst h
      rw [if_pos rfl, Option.getD_some, ih, List.filter_singleton, beq_self_eq_true]
      exact (Counter.total_append_singleton _ _).symm
    · have hne : (a.1 == key) = false := beq_eq_false_iff_ne.mpr fun e => h e.symm
      rw [if_neg h, ih, List.filter_singleton, hne]
      exact congrArg Counter.total (List.append_nil _).symm

/-- Totals are determined by their keys and the amounts of each. -/
theorem sumAmounts_eq (amounts : List (String × Counter)) :
    sumAmounts amounts = (amounts.map (·.1)).eraseDups.map fun key =>
      (key, Counter.total ((amounts.filter (·.1 == key)).map (·.2))) := by
  have hentry : ∀ entry ∈ sumAmounts amounts,
      entry = (entry.1, Counter.total ((amounts.filter (·.1 == entry.1)).map (·.2))) := by
    intro entry hentry
    have hlookup := lookup_of_mem_of_nodup (nodup_sumAmounts amounts) hentry
    rw [← getD_lookup_sumAmounts, hlookup, Option.getD_some]
  rw [← map_fst_sumAmounts, List.map_map]
  conv_lhs => rw [← List.map_id (sumAmounts amounts)]
  exact List.map_congr_left hentry

end Sums

/-! ## What the changes of a text list -/

section Changes

/-- The changes that a text lists. -/
def changes? (text : String) : Option (List Value) :=
  (read text).toOption.bind fun doc => (doc.get? "stats-change").bind Value.items?

/-- The counter that a value is in plain writing. -/
def plainCounter? : Value → Option Counter
  | .number (.whole n) => Counter.ofInt? n
  | _ => none

/-- The keys under which a change lists amounts. -/
def amountKeys (change : Value) : List String :=
  ((change.members?.getD []).filter fun m => (plainCounter? m.2).isSome).map (·.1)

/-- The amounts that changes list under a key, one change after the other. -/
def amountsUnder (key : String) (changes : List Value) : List Counter :=
  changes.filterMap fun change => (change.get? key).bind plainCounter?

/-- Each key under which changes list an amount, in the order in which these first occur, with the sum of its
amounts. -/
def totals (changes : List Value) : List (String × Counter) :=
  (changes.flatMap amountKeys).eraseDups.map fun key => (key, Counter.total (amountsUnder key changes))

/-- A change with nothing but its amounts, if it is an object. -/
def amountsOnly : Value → Option Value
  | .object members => some (.object (members.filter fun m => (plainCounter? m.2).isSome))
  | _ => none

/-- An amount is a whole number that a counter can hold. -/
theorem plainCounter?_eq_some_iff {v : Value} {n : Counter} :
    plainCounter? v = some n ↔ v = .number (.whole n.value) := by
  constructor
  · intro h
    unfold plainCounter? at h
    split at h
    · rw [Counter.ofInt?_eq_some_iff.mp h]
    · cases h
  · rintro rfl
    exact Counter.ofInt?_value n

/-- The amounts of a change are those of its members that are counters in plain writing. -/
theorem amounts_eq (change : Value) :
    amounts change = (change.members?.getD []).filterMap fun m => (plainCounter? m.2).map (m.1, ·) := by
  cases change with
  | object members =>
    refine List.filterMap_congr fun m _ => ?_
    obtain ⟨key, v⟩ := m
    unfold plainCounter?
    split <;> simp_all
  | _ => rfl

/-- Its keys are those under which it lists an amount. -/
theorem map_fst_amounts (change : Value) : (amounts change).map (·.1) = amountKeys change := by
  rw [amounts_eq, map_fst_filterMap, amountKeys]

/-- A change with different keys lists no more than one amount under a key. -/
theorem filter_amounts {change : Value} (h : change.HasDistinctKeys) (key : String) :
    ((amounts change).filter (·.1 == key)).map (·.2) =
      ((change.get? key).bind plainCounter?).toList := by
  cases change with
  | object members =>
    have hkeys : ((amounts (.object members)).map (·.1)).Nodup := by
      rw [map_fst_amounts]
      exact (h members rfl).sublist (List.filter_sublist.map _)
    rw [filter_key_of_nodup hkeys, amounts_eq, Value.members?, Option.getD_some,
      lookup_filterMap_of_nodup plainCounter? (h members rfl)]
    rfl
  | _ => rfl

/-- The amounts under a key are those that the changes have under it, in their order. -/
theorem filter_flatMap_amounts {changes : List Value} (h : ∀ change ∈ changes, change.HasDistinctKeys)
    (key : String) :
    ((changes.flatMap amounts).filter (·.1 == key)).map (·.2) = amountsUnder key changes := by
  induction changes with
  | nil => rfl
  | cons change rest ih =>
    obtain ⟨hchange, hrest⟩ := List.forall_mem_cons.mp h
    rw [List.flatMap_cons, List.filter_append, List.map_append, filter_amounts hchange, ih hrest,
      amountsUnder, amountsUnder, List.filterMap_cons]
    cases (change.get? key).bind plainCounter? <;> rfl

/-- Adding up all amounts one after the other gives the totals. -/
theorem sumAmounts_flatMap {changes : List Value} (h : ∀ change ∈ changes, change.HasDistinctKeys) :
    sumAmounts (changes.flatMap amounts) = totals changes := by
  have hkeys : (changes.flatMap amounts).map (·.1) = changes.flatMap amountKeys := by
    rw [List.map_flatMap]
    exact List.flatMap_congr fun change _ => map_fst_amounts change
  rw [sumAmounts_eq, hkeys, totals]
  exact List.map_congr_left fun key _ => by rw [filter_flatMap_amounts h]

/-- A document of changes is an object in which they are listed. -/
theorem exists_of_changes? {text : String} {changes : List Value} (h : changes? text = some changes) :
    ∃ members, Value.read? text = some (.object members) ∧
      members.lookup "stats-change" = some (.array changes) := by
  obtain ⟨doc, hdoc, hitems⟩ := Option.bind_eq_some_iff.mp h
  obtain ⟨listed, hlisted, hchanges⟩ := Option.bind_eq_some_iff.mp hitems
  unfold read at hdoc
  split at hdoc
  · cases hdoc
  · rename_i members hread
    cases hdoc
    cases listed with
    | array items =>
      cases hchanges
      exact ⟨members, hread, hlisted⟩
    | _ => cases hchanges
  · cases hdoc

/-- The changes of a text have different keys each. -/
theorem hasDistinctKeys_of_changes? {text : String} {changes : List Value}
    (h : changes? text = some changes) : ∀ change ∈ changes, change.HasDistinctKeys := by
  obtain ⟨members, hread, hlisted⟩ := exists_of_changes? h
  obtain ⟨t, -, ht⟩ := Option.bind_eq_some_iff.mp hread
  have hdoc : (Value.object members).IsRead := ⟨_, t, ht⟩
  intro change hchange
  obtain ⟨room, part, hpart⟩ := (hdoc.members _ (mem_of_lookup hlisted)).items change hchange
  exact Tree.hasDistinctKeys_of_value? hpart

/-- Where a text lists changes, its lifetime counters are the totals of these. -/
theorem readLifetime_of_changes? {text : String} {changes : List Value}
    (h : changes? text = some changes) : readLifetime text = .ok (ofCounters (totals changes)) := by
  rw [← sumAmounts_flatMap (hasDistinctKeys_of_changes? h)]
  obtain ⟨members, hread, hlisted⟩ := exists_of_changes? h
  have hdoc : read text = .ok (.object members) := by rw [read, hread]
  have hitems : ((Value.object members).get? "stats-change").bind Value.items? = some changes := by
    rw [Value.get?, Value.members?, Option.bind_some, hlisted]
    rfl
  simp only [readLifetime, hdoc, bind, Except.bind, hitems]
  rfl

end Changes

/-! ## What the totals depend on -/

section Dependence

/-- A change has an amount under a key if a member of it is one. -/
theorem mem_amountKeys_iff {key : String} {change : Value} :
    key ∈ amountKeys change ↔
      ∃ members, change = .object members ∧ ∃ n : Counter, (key, .number (.whole n.value)) ∈ members := by
  cases change with
  | object members =>
    simp only [amountKeys, Value.members?, Option.getD_some, List.mem_map, List.mem_filter,
      Value.object.injEq, exists_eq_left', Option.isSome_iff_exists, plainCounter?_eq_some_iff]
    constructor
    · rintro ⟨m, ⟨hm, n, hn⟩, rfl⟩
      exact ⟨n, hn ▸ hm⟩
    · rintro ⟨n, hn⟩
      exact ⟨_, ⟨hn, n, rfl⟩, rfl⟩
  | _ =>
    refine iff_of_false List.not_mem_nil ?_
    rintro ⟨members, h, -⟩
    cases h

/-- The totals stand in the order in which their keys first occur. -/
theorem map_fst_totals (changes : List Value) :
    (totals changes).map (·.1) = (changes.flatMap amountKeys).eraseDups := by
  rw [totals, List.map_map]
  exact List.map_id _

/-- A key has a total exactly if it stands for an amount in one of the changes that are objects. -/
theorem mem_totals_iff {key : String} {changes : List Value} :
    key ∈ (totals changes).map (·.1) ↔
      ∃ members, .object members ∈ changes ∧ ∃ n : Counter, (key, .number (.whole n.value)) ∈ members := by
  rw [map_fst_totals, List.mem_eraseDups, List.mem_flatMap]
  simp only [mem_amountKeys_iff]
  constructor
  · rintro ⟨change, hchange, members, rfl, hn⟩
    exact ⟨members, hchange, hn⟩
  · rintro ⟨members, hmembers, hn⟩
    exact ⟨_, hmembers, members, rfl, hn⟩

/-- The total under a key is that of the amounts under it. -/
theorem lookup_totals (changes : List Value) (key : String) :
    (totals changes).lookup key =
      if key ∈ (totals changes).map (·.1) then some (Counter.total (amountsUnder key changes)) else none := by
  rw [map_fst_totals, totals]
  exact lookup_map_key (fun key => Counter.total (amountsUnder key changes)) _ key

/-- The total of amounts that are not negative does not depend on the order of the changes. -/
theorem lookup_totals_perm {changes reordered : List Value} (hperm : reordered.Perm changes) {key : String}
    (h : ∀ a ∈ amountsUnder key changes, 0 ≤ a) :
    (totals reordered).lookup key = (totals changes).lookup key := by
  have hamounts : (amountsUnder key reordered).Perm (amountsUnder key changes) := hperm.filterMap _
  have hmem : key ∈ (totals reordered).map (·.1) ↔ key ∈ (totals changes).map (·.1) := by
    simp only [mem_totals_iff, hperm.mem_iff]
  rw [lookup_totals, lookup_totals, Counter.total_perm_of_nonneg hamounts h]
  exact if_congr hmem rfl rfl

/-- Members that are no amounts make no difference. -/
theorem amounts_amountsOnly (change : Value) :
    ((amountsOnly change).map amounts).getD [] = amounts change := by
  cases change with
  | object members =>
    rw [amountsOnly, Option.map_some, Option.getD_some, amounts_eq, amounts_eq]
    simp only [Value.members?, Option.getD_some, List.filterMap_filter]
    refine List.filterMap_congr fun m _ => ?_
    cases plainCounter? m.2 <;> rfl
  | _ => rfl

/-- Changes list the same amounts without their other parts. -/
theorem flatMap_amounts_filterMap (changes : List Value) :
    (changes.filterMap amountsOnly).flatMap amounts = changes.flatMap amounts := by
  induction changes with
  | nil => rfl
  | cons change rest ih =>
    have hchange := amounts_amountsOnly change
    rw [List.flatMap_cons, List.filterMap_cons]
    cases hamounts : amountsOnly change with
    | none =>
      rw [hamounts] at hchange
      rw [← hchange, ih]
      rfl
    | some kept =>
      rw [hamounts, Option.map_some, Option.getD_some] at hchange
      rw [List.flatMap_cons, hchange, ih]

end Dependence

/-- **Lifetime counters are the sums of the changes.** A text that lists changes is read as a flat object. It has
each key once, in the order of their first amounts, with the sum of its amounts from the first change to the last,
stopped at the ends of the range at each step. A key is there exactly if it stands for a whole number of the range
in a change that is an object. Its sum is exact if no partial sum leaves the range. If no amount of the key is
negative, it is the exact sum or the greatest counter where that is less, and stays the same in any other order of
the changes. What else stands in the changes does not matter. -/
theorem readLifetime_sums {text : String} {changes : List Value} (h : changes? text = some changes) :
    readLifetime text = .ok (ofCounters (totals changes)) ∧
    ((totals changes).map (·.1)).Nodup ∧
    (∀ key, key ∈ (totals changes).map (·.1) ↔
      ∃ members, .object members ∈ changes ∧ ∃ n : Counter, (key, .number (.whole n.value)) ∈ members) ∧
    (∀ key, let amounts := amountsUnder key changes
      (∀ n, Counter.least ≤ Counter.exactSum (amounts.take n) ∧
        Counter.exactSum (amounts.take n) ≤ Counter.greatest) →
      (Counter.total amounts).value = Counter.exactSum amounts) ∧
    (∀ key, let amounts := amountsUnder key changes
      (∀ a ∈ amounts, 0 ≤ a) →
      (Counter.total amounts).value = min (Counter.exactSum amounts) Counter.greatest ∧
        ∀ other reordered, changes? other = some reordered → reordered.Perm changes →
          ∃ sums, readLifetime other = .ok (ofCounters sums) ∧
            sums.lookup key = (totals changes).lookup key) ∧
    ∀ other changed, changes? other = some changed →
      changed.filterMap amountsOnly = changes.filterMap amountsOnly → readLifetime other = readLifetime text := by
  have hread := readLifetime_of_changes? h
  refine ⟨hread, ?_, fun _ => mem_totals_iff, fun _ => Counter.value_total_of_prefixes,
    fun key hamounts => ⟨Counter.value_total_of_nonneg hamounts, ?_⟩, ?_⟩
  · rw [← sumAmounts_flatMap (hasDistinctKeys_of_changes? h)]
    exact nodup_sumAmounts _
  · intro other reordered hother hperm
    exact ⟨totals reordered, readLifetime_of_changes? hother, lookup_totals_perm hperm hamounts⟩
  · intro other changed hother hsame
    rw [hread, readLifetime_of_changes? hother, ← sumAmounts_flatMap (hasDistinctKeys_of_changes? h),
      ← sumAmounts_flatMap (hasDistinctKeys_of_changes? hother), ← flatMap_amounts_filterMap, hsame,
      flatMap_amounts_filterMap]

/-- A number with a point does not count and neither does one outside of an object. Of a key that is repeated in a
change the last amount counts. One of the two sums is stopped on its way, the other one is exact. -/
theorem readLifetime_sums_of_repeated :
    let text := "\x7b\"stats-change\":[3,\x7b\"a\":5,\"b\":9223372036854775807\x7d,\x7b\"a\":6,\"a\":1,\"b\":1\x7d," ++
      "\x7b\"b\":-7,\"c\":1.0\x7d]\x7d"
    let backwards := "\x7b\"stats-change\":[\x7b\"b\":-7,\"c\":1.0\x7d,\x7b\"a\":1,\"b\":1\x7d," ++
      "\x7b\"a\":5,\"b\":9223372036854775807\x7d,3]\x7d"
    let plain := "\x7b\"stats-change\":[\x7b\"a\":5,\"b\":9223372036854775807\x7d," ++
      "\x7b\"a\":1,\"b\":1\x7d,\x7b\"b\":-7\x7d]\x7d"
    let whole (n : Int) : Value := .number (.whole n)
    let first : Value := .object [("a", whole 5), ("b", whole 9223372036854775807)]
    let second : Value := .object [("a", whole 1), ("b", whole 1)]
    let third : Value := .object [("b", whole (-7)), ("c", .number (.double ⟨false, 0x3FF0000000000000⟩))]
    let changes := [whole 3, first, second, third]
    changes? text = some changes ∧
      readLifetime text = .ok (ofCounters [("a", 6), ("b", .clamp 9223372036854775800)]) ∧
      Counter.exactSum (amountsUnder "b" changes) = 9223372036854775801 ∧
      (Counter.total (amountsUnder "a" changes)).value = Counter.exactSum (amountsUnder "a" changes) ∧
      (∃ sums, readLifetime backwards = .ok (ofCounters sums) ∧ sums.lookup "a" = some 6) ∧
      readLifetime plain = readLifetime text := by
  intro text backwards plain whole first second third changes
  have hchanges : changes? text = some changes := by decide +kernel
  have hbackwards : changes? backwards = some changes.reverse := by decide +kernel
  have hplain : changes? plain = some [first, second, .object [("b", whole (-7))]] := by decide +kernel
  have htotals : totals changes = [("a", 6), ("b", .clamp 9223372036854775800)] := by decide +kernel
  have hamounts : amountsUnder "a" changes = [5, 1] := by decide +kernel
  obtain ⟨hread, -, -, hexact, hordered, hsame⟩ := readLifetime_sums hchanges
  obtain ⟨-, hreordered⟩ := hordered "a" (by decide +kernel)
  obtain ⟨sums, hsums, hlookup⟩ := hreordered backwards _ hbackwards changes.reverse_perm
  refine ⟨hchanges, htotals ▸ hread, by decide +kernel, hexact "a" fun n => ?_, ⟨sums, hsums, ?_⟩,
    hsame plain _ hplain (by decide +kernel)⟩
  · rw [hamounts]
    match n with
    | 0 | 1 => decide
    | n + 2 => rw [List.take_of_length_le (Nat.le_add_left 2 n)]; decide
  · rw [hlookup, htotals]
    rfl

end Document

end Milestone
