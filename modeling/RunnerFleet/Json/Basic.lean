import RunnerFleet.Quantity

/-!
# JSON values

The members of an object stand in the order of the text. Numbers are either whole and below
`2 ^ 64`, or doubles. `Json.void` is what a well-formed text means when it has no value: a number
beyond the doubles, a string with half a surrogate pair, or a container nested too deep.
-/

namespace RunnerFleet

inductive Json where
  | null
  | bool (b : Bool)
  | whole (n : UInt64)
  | real (x : Float)
  | string (s : String)
  | array (items : List Json)
  | object (members : List (String × Json))
  | void
  deriving Repr

namespace Json

mutual

def sound : Json → Bool
  | .void => false
  | .array items => soundItems items
  | .object members => soundMembers members
  | _ => true

def soundItems : List Json → Bool
  | [] => true
  | j :: js => sound j && soundItems js

def soundMembers : List (String × Json) → Bool
  | [] => true
  | (_, j) :: ms => sound j && soundMembers ms

end

theorem soundItems_eq_all (items : List Json) : soundItems items = items.all sound := by
  induction items with
  | nil => rfl
  | cons j js ih => rw [soundItems, ih, List.all_cons]

theorem soundMembers_eq_all (members : List (String × Json)) :
    soundMembers members = members.all (·.2.sound) := by
  induction members with
  | nil => rfl
  | cons m members ih => rw [soundMembers, ih, List.all_cons]

/-- The 64-bit whole number that a value is. Doubles are not whole numbers, even without a
fractional part. -/
def toUInt64? : Json → Option UInt64
  | .whole n => some n
  | _ => none

def toUInt32? : Json → Option UInt32
  | .whole n => if n.toNat < UInt32.size then some n.toUInt32 else none
  | _ => none

def toFloat? : Json → Option Float
  | .whole n => some n.toFloat
  | .real x => some x
  | _ => none

def toString? : Json → Option String
  | .string s => some s
  | _ => none

def toList? {α : Type} (f : Json → Option α) : Json → Option (List α)
  | .array items => items.mapM f
  | _ => none

end Json

end RunnerFleet
