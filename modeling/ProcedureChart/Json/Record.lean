import ProcedureChart.Json.Basic
import ProcedureChart.Table

/-!
# Reading records

How typed data is read off JSON values. A record is an object with fields of known names, none of
them twice; other fields are ignored. It may also be given as the list of its fields' values in
their order, from which values at the end may be missing. Fields are required, or optional with null
standing for absence, or they have a default, which null does not stand for.

A table is an object in which any name may stand, and the last of several values under one name
counts.
-/

namespace ProcedureChart.Json

variable {α : Type}

/-- The fields of a record with the given names. -/
def record? (names : List String) : Json → Option (List (String × Json))
  | object fields =>
    if names.all fun name => (fields.filter fun field => field.1 == name).length ≤ 1 then
      some fields
    else none
  | list values => if values.length ≤ names.length then some (names.zip values) else none
  | _ => none

/-- The value of a field that has to be there. -/
def required (name : String) (read : Json → Option α) (fields : List (String × Json)) : Option α :=
  (fields.lookup name).bind read

/-- The value of a field that may be missing or null. -/
def optional (name : String) (read : Json → Option α) (fields : List (String × Json)) :
    Option (Option α) :=
  match fields.lookup name with
  | none | some null => some none
  | some value => (read value).map some

/-- The value of a field that may be missing and then has a default. -/
def withDefault (name : String) (default : α) (read : Json → Option α)
    (fields : List (String × Json)) : Option α :=
  match fields.lookup name with
  | none => some default
  | some value => read value

/-- Reads each item of a list. -/
def listOf? (read : Json → Option α) (j : Json) : Option (List α) :=
  j.list?.bind fun items => items.mapM read

/-- Reads each value of a table. -/
def tableOf? (read : Json → Option α) (j : Json) : Option (Table α) := do
  let fields ← j.object?
  let entries ← fields.mapM fun (name, value) => (read value).map (name, ·)
  return .ofList entries

/-- The name of an alternative without contents: a text, or an object with null under that name. -/
def alternative? : Json → Option String
  | text s => some s
  | object [(s, null)] => some s
  | _ => none

/-! ### Writing -/

/-- A list of written items. -/
def ofList (write : α → Json) (items : List α) : Json := list (items.map write)

/-- A table of written values. -/
def ofTable (write : α → Json) (t : Table α) : Json :=
  object (t.entries.map fun (name, value) => (name, write value))

/-- What is absent is written as null. -/
def ofOption (write : α → Json) : Option α → Json
  | none => null
  | some x => write x

/-- A double. -/
def ofFloat (x : Float) : Json := number (.real x)

/-- A count. -/
def ofNat (n : Nat) : Json := number (.integer n)

end ProcedureChart.Json
