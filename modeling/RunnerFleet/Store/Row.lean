import RunnerFleet.Resource.Metadata
import RunnerFleet.Store.Error
import RunnerFleet.Store.Table

/-!
# Versioned rows

A row holds the text of a resource, and every read reads that text. Creating a row needs a free key
and starts its version at one; every later write counts the version up, whatever version the written
resource claims to have. An update first reads the row and may refuse.
-/

namespace RunnerFleet

inductive Row (α : Type) where
  /-- The text that the resource is written as. -/
  | written (a : α)
  /-- A text from outside, which need not be a resource. -/
  | foreign (text : String)
  deriving DecidableEq, Repr

namespace Row

variable {α : Type} [Encoded α]

def read : Row α → Except StoreError α
  | written a => .ok (Encoded.reread a)
  | foreign text =>
    match Encoded.ofText? text with
    | some a => .ok a
    | none => .error .unreadable

/-- All rows read, unless one of them cannot be. -/
def readAll (rows : List (Row α)) : Except StoreError (List α) := rows.mapM read

end Row

def nextVersion (n : UInt64) : UInt64 := n + 1

section

variable {α : Type} [Versioned α]

def Versioned.key (a : α) : String := (Versioned.metadata a).key

def Versioned.version (a : α) : UInt64 := (Versioned.metadata a).version

def Versioned.withVersion (a : α) (n : UInt64) : α :=
  Versioned.withMetadata a { Versioned.metadata a with version := n }

/-- Marks a resource for deletion, unless it already is; the first mark stays. -/
def Versioned.marked (now : Seconds) (a : α) : α :=
  let m := Versioned.metadata a
  Versioned.withMetadata a { m with deletedAt := some (m.deletedAt.getD now) }

end

def checkVersion (key : String) (expected actual : UInt64) : Except StoreError Unit :=
  if expected = actual then .ok () else .error (.conflict key expected actual)

namespace Table

variable {α : Type}

/-- The resource under `key`, if there is one. -/
def read? [Encoded α] (t : Table (Row α)) (key : String) : Except StoreError (Option α) :=
  match t.get? key with
  | none => .ok none
  | some row => row.read.map some

def readAll [Encoded α] (t : Table (Row α)) : Except StoreError (List α) := Row.readAll t.values

def write [Versioned α] (t : Table (Row α)) (key : String) (a : α) : α × Table (Row α) :=
  (a, t.insert key (.written a))

def create [Versioned α] (t : Table (Row α)) (a : α) : Except StoreError (α × Table (Row α)) :=
  match t.get? (Versioned.key a) with
  | some _ => .error (.alreadyExists (Versioned.key a))
  | none => .ok (t.write (Versioned.key a) (Versioned.withVersion a 1))

/-- Stores a resource whether or not its key is taken, one version after the stored one. -/
def put [Versioned α] (t : Table (Row α)) (a : α) : Except StoreError (α × Table (Row α)) := do
  let version := match ← t.read? (Versioned.key a) with
    | none => 0
    | some stored => Versioned.version stored
  return t.write (Versioned.key a) (Versioned.withVersion a (nextVersion version))

def update [Versioned α] (t : Table (Row α)) (key : String) (change : α → Except StoreError α) :
    Except StoreError (α × Table (Row α)) := do
  match ← t.read? key with
  | none => .error (.notFound key)
  | some stored =>
    let a ← change stored
    return t.write key (Versioned.withVersion a (nextVersion (Versioned.version a)))

end Table

end RunnerFleet
