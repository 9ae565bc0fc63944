import Milestone.Counter
import Milestone.Json.Tree

/-!
# Records in JSON

Reading a record with known fields from a JSON tree or value. A record is an object, of which unknown
members are ignored and known ones must not be repeated, or an array that starts with the fields in
their order. Both trees and values are read through their outermost layer.
-/

namespace Milestone.Json

/-- The outermost layer of a JSON tree or value. -/
inductive Layer (α : Type) where
  | null
  | bool (b : Bool)
  | number (n : Number)
  | string (s : String)
  | array (items : List α)
  | object (members : List (String × α))
  | unreadable

/-- Types whose outermost layer can be seen. -/
class Layered (α : Type) where
  layer : α → Layer α

export Layered (layer)

instance : Layered Tree where
  layer
    | .null => .null
    | .bool b => .bool b
    | .number n => .number n
    | .string s => .string s
    | .array items => .array items
    | .object members => .object members
    | .unreadable => .unreadable

instance : Layered Value where
  layer
    | .null => .null
    | .bool b => .bool b
    | .number n => .number n
    | .string s => .string s
    | .array items => .array items
    | .object members => .object members

variable {α β : Type} [Layered α]

/-- The Boolean that a value is. -/
def bool? (x : α) : Option Bool :=
  match layer x with
  | .bool b => some b
  | _ => none

/-- The text that a value is. -/
def text? (x : α) : Option String :=
  match layer x with
  | .string s => some s
  | _ => none

/-- A whole number in the range of a counter. -/
def counter? (x : α) : Option Counter :=
  match layer x with
  | .number (.whole n) => Counter.ofInt? n
  | _ => none

/-- The items of the array that a value is. -/
def items? (x : α) : Option (List α) :=
  match layer x with
  | .array items => some items
  | _ => none

/-- The members of an object, repeated keys included. -/
def members? (x : α) : Option (List (String × α)) :=
  match layer x with
  | .object members => some members
  | _ => none

/-- A value that may be null instead. -/
def orNull? (read : α → Option β) (x : α) : Option (Option β) :=
  match layer x with
  | .null => some none
  | _ => (read x).map some

/-- The list of what is read from each item of an array. -/
def listOf? (read : α → Option β) (x : α) : Option (List β) :=
  (items? x).bind (·.mapM read)

/-- What is read from each member of an object, repeated keys included. -/
def entriesOf? (read : α → Option β) (x : α) : Option (List (String × β)) :=
  (members? x).bind (·.mapM fun (key, y) => (read y).map (key, ·))

/-- The known fields that a record shows. -/
def fields? (names : List String) (x : α) : Option (List (String × α)) :=
  match layer x with
  | .object members =>
    let known := members.filter fun m => names.contains m.1
    if (known.map (·.1)).Nodup then some known else none
  | .array items => if items.length ≤ names.length then some (names.zip items) else none
  | _ => none

/-- A field with a default. -/
def field? (fields : List (String × α)) (name : String) (absent : β) (read : α → Option β) :
    Option β :=
  match fields.lookup name with
  | none => some absent
  | some x => read x

/-- A field that must be there. -/
def required? (fields : List (String × α)) (name : String) (read : α → Option β) : Option β :=
  (fields.lookup name).bind read

end Milestone.Json
