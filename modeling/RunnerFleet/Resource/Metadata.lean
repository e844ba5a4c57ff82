import RunnerFleet.Json.Parser
import RunnerFleet.Json.Record

/-!
# Identity of stored resources

A resource is known by its namespace and name. Its version counts the writes to it, and a resource
marked for deletion carries the time of the mark.
-/

namespace RunnerFleet

structure Metadata where
  ns : String
  name : String
  version : UInt64
  deletedAt : Option Seconds
  deriving DecidableEq, Repr, Inhabited

def objectKey (ns name : String) : String := ns ++ "/" ++ name

namespace Metadata

def fresh (ns name : String) : Metadata := ⟨ns, name, 0, none⟩

def key (m : Metadata) : String := objectKey m.ns m.name

def isDeleting (m : Metadata) : Bool := m.deletedAt.isSome

def fieldNames : List String := ["namespace", "name", "resourceVersion", "deletionTimestamp"]

def toJson (m : Metadata) : Json :=
  .ofFields
    [("namespace", some (.string m.ns)), ("name", some (.string m.name)),
     ("resourceVersion", some (.whole m.version)), ("deletionTimestamp", m.deletedAt.map .whole)]

def ofJson? (j : Json) : Option Metadata := do
  let [ns, name, version, deletedAt] ← j.fields? fieldNames | none
  return {
    ns := ← Json.required Json.toString? ns
    name := ← Json.required Json.toString? name
    version := ← Json.defaulted 0 Json.toUInt64? version
    deletedAt := ← Json.optional Json.toUInt64? deletedAt }

end Metadata

/-- A resource that can be written as JSON and read back. -/
class Encoded (α : Type) where
  toJson : α → Json
  ofJson? : Json → Option α
  /-- What is read back from the text of a resource. Only doubles may come back changed. -/
  reread : α → α

/-- The resource that a text denotes, if the text is JSON of the right shape. -/
def Encoded.ofText? {α : Type} [Encoded α] (s : String) : Option α := (Json.parse? s).bind ofJson?

/-- A resource that the store keeps under a key and counts the writes of. -/
class Versioned (α : Type) extends Encoded α where
  metadata : α → Metadata
  withMetadata : α → Metadata → α
  metadata_withMetadata : ∀ a m, metadata (withMetadata a m) = m
  withMetadata_metadata : ∀ a, withMetadata a (metadata a) = a
  withMetadata_withMetadata : ∀ a m m', withMetadata (withMetadata a m) m' = withMetadata a m'
  metadata_reread : ∀ a, metadata (reread a) = metadata a
  reread_withMetadata : ∀ a m, reread (withMetadata a m) = withMetadata (reread a) m

end RunnerFleet
