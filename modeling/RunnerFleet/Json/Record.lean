import RunnerFleet.Json.Basic

/-!
# Records

A record is an object with known fields, or an array of its fields in their order. The members of
an object may stand in any order, members that are not fields are ignored, and no field may stand
twice. Fields that are missing at the end of an array are missing from the record.
-/

namespace RunnerFleet.Json

/-- The one member with key `k`, nothing if there is none, and an error if there are more. -/
def member? (k : String) (members : List (String × Json)) : Option (Option Json) :=
  match members.filter (·.1 = k) with
  | [] => some none
  | [(_, j)] => some (some j)
  | _ => none

/-- The fields called `names`, in that order. -/
def fields? (names : List String) : Json → Option (List (Option Json))
  | .object members => names.mapM (member? · members)
  | .array items =>
    if items.length ≤ names.length then
      some (items.map some ++ List.replicate (names.length - items.length) none)
    else none
  | _ => none

variable {α : Type}

def required (f : Json → Option α) (field : Option Json) : Option α := field.bind f

def optional (f : Json → Option α) : Option Json → Option (Option α)
  | none => some none
  | some .null => some none
  | some j => (f j).map some

/-- A field that has the value `d` if it is missing. -/
def defaulted (d : α) (f : Json → Option α) : Option Json → Option α
  | none => some d
  | some j => f j

/-- One of several words: as a string, or as the only key of an object whose member is null. -/
def word? (read : String → Option α) : Json → Option α
  | .string s => read s
  | .object [(k, .null)] => read k
  | _ => none

/-- The members of a record that is written, leaving out fields that are absent. -/
def ofFields (fields : List (String × Option Json)) : Json :=
  .object (fields.filterMap fun (k, j) => j.map (k, ·))

end RunnerFleet.Json
