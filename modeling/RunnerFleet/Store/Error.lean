import RunnerFleet.Quantity
import RunnerFleet.Text.Digits

/-!
# Store errors

Why the store refuses an operation. A refused operation has changed nothing.
-/

namespace RunnerFleet

instance decidableEqExcept {ε α : Type} [DecidableEq ε] [DecidableEq α] :
    DecidableEq (Except ε α)
  | .ok a, .ok b => decidable_of_iff (a = b) (by simp)
  | .error e, .error f => decidable_of_iff (e = f) (by simp)
  | .ok _, .error _ => isFalse (by simp)
  | .error _, .ok _ => isFalse (by simp)

inductive StoreError where
  | notFound (key : String)
  | alreadyExists (key : String)
  /-- The stored version is no longer the one that the caller read. -/
  | conflict (key : String) (expected actual : UInt64)
  /-- The stored text is not a resource of its table. -/
  | unreadable
  | writeFailed (reason : String)
  deriving DecidableEq, Repr

namespace StoreError

def isConflict : StoreError → Bool
  | conflict .. => true
  | _ => false

def isNotFound : StoreError → Bool
  | notFound _ => true
  | _ => false

def message : StoreError → String
  | notFound key => "not found: " ++ key
  | alreadyExists key => "already exists: " ++ key
  | conflict key expected actual =>
    "conflict on " ++ key ++ ": expected version " ++ toString expected.toNat ++ ", found " ++
      toString actual.toNat
  | unreadable => "deserialization error"
  | writeFailed reason => "write error: " ++ reason

end StoreError

end RunnerFleet
