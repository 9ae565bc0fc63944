import Milestone.Json.Number

/-!
# JSON values

A JSON value keeps the members of an object in order, each key once. Looking up a key answers only
for objects. Equality of values is decidable.
-/

namespace Milestone.Json

/-- A JSON value. -/
inductive Value where
  | null
  | bool (b : Bool)
  | number (n : Number)
  | string (s : String)
  | array (items : List Value)
  | object (members : List (String × Value))
  deriving Inhabited

namespace Value

/-- The members of an object. -/
def members? : Value → Option (List (String × Value))
  | object members => some members
  | _ => none

/-- The items of an array. -/
def items? : Value → Option (List Value)
  | array items => some items
  | _ => none

/-- The member of an object under a key. -/
def get? (v : Value) (key : String) : Option Value :=
  v.members?.bind (·.lookup key)

/-- Whether a value is the given text. -/
def isText (v : Value) (s : String) : Bool :=
  match v with
  | string t => t == s
  | _ => false

/-! ## Equality

No instance can be derived for a type that is nested in lists, so values are compared part by part.
-/

mutual

/-- Whether two values are the same. -/
def same : Value → Value → Bool
  | null, null => true
  | bool a, bool b => a == b
  | number m, number n => m == n
  | string s, string t => s == t
  | array xs, array ys => sameItems xs ys
  | object ms, object ns => sameMembers ms ns
  | _, _ => false

/-- Whether two lists of values are the same. -/
def sameItems : List Value → List Value → Bool
  | [], [] => true
  | x :: xs, y :: ys => x.same y && sameItems xs ys
  | _, _ => false

/-- Whether two lists of members are the same. -/
def sameMembers : List (String × Value) → List (String × Value) → Bool
  | [], [] => true
  | (k, v) :: ms, (l, w) :: ns => k == l && v.same w && sameMembers ms ns
  | _, _ => false

end

mutual

/-- The comparison of values finds out whether they are equal. -/
theorem same_iff (v w : Value) : v.same w = true ↔ v = w := by
  cases v with
  | array xs => cases w <;> simp [same, sameItems_iff xs]
  | object ms => cases w <;> simp [same, sameMembers_iff ms]
  | _ => cases w <;> simp [same]

/-- So does that of items. -/
theorem sameItems_iff (xs ys : List Value) : sameItems xs ys = true ↔ xs = ys := by
  cases xs with
  | nil => cases ys <;> simp [sameItems]
  | cons x xs => cases ys <;> simp [sameItems, same_iff x, sameItems_iff xs]

/-- So does that of members, keys and order included. -/
theorem sameMembers_iff (ms ns : List (String × Value)) : sameMembers ms ns = true ↔ ms = ns := by
  cases ms with
  | nil => cases ns <;> simp [sameMembers]
  | cons m ms =>
    obtain ⟨k, v⟩ := m
    cases ns <;> simp [sameMembers, same_iff v, sameMembers_iff ms, Prod.ext_iff]

end

instance : DecidableEq Value := fun v w => decidable_of_iff _ (same_iff v w)

end Value

/-- Sets a key among members: in its place where it is present, else at the end. -/
def setMember {α : Type} (members : List (String × α)) (key : String) (v : α) :
    List (String × α) :=
  match members with
  | [] => [(key, v)]
  | (k, w) :: rest => if k = key then (k, v) :: rest else (k, w) :: setMember rest key v

/-- Members with each key once: at its first place and with its last value. -/
def mergeMembers {α : Type} (members : List (String × α)) : List (String × α) :=
  members.foldl (fun merged m => setMember merged m.1 m.2) []

/-- A member that is set is found under its key, and the others stay. -/
theorem lookup_setMember {α : Type} (members : List (String × α)) (key k : String) (v : α) :
    (setMember members key v).lookup k = if k = key then some v else members.lookup k := by
  induction members with
  | nil => by_cases h : k = key <;> simp [setMember, List.lookup_cons, h, beq_eq_false_iff_ne.mpr]
  | cons m rest ih =>
    obtain ⟨k', w⟩ := m
    rw [setMember]
    by_cases hk : k' = key
    · subst hk
      by_cases h : k = k'
      · simp [h]
      · simp [List.lookup_cons, beq_eq_false_iff_ne.mpr h, h]
    · rw [if_neg hk]
      by_cases h : k = k'
      · subst h; simp [hk]
      · simp [List.lookup_cons, beq_eq_false_iff_ne.mpr h, ih]

end Milestone.Json
