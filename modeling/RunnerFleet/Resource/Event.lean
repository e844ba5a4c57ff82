import RunnerFleet.Resource.Metadata
import RunnerFleet.Text.Digits

/-!
# Events

An event tells operators what happened to an object and when.
-/

namespace RunnerFleet

inductive EventKind where
  | normal
  | warning
  deriving DecidableEq, Repr

structure Event where
  objectKey : String
  kind : EventKind
  reason : String
  message : String
  timestamp : Seconds
  deriving DecidableEq, Repr

namespace EventKind

def name : EventKind → String
  | normal => "Normal"
  | warning => "Warning"

def ofName? (s : String) : Option EventKind :=
  if s = normal.name then some normal else if s = warning.name then some warning else none

end EventKind

namespace Event

def keyStart (objectKey : String) : String := objectKey ++ ":"

/-- The key of an event in its table. Zeros in front make the order of keys the order of time; the
last part tells apart the events of one second. -/
def tableKey (e : Event) (seq : Nat) : String :=
  keyStart e.objectKey ++ String.ofList (Decimal.padded 20 e.timestamp.toNat) ++ ":" ++
    String.ofList (Decimal.padded 6 seq)

def fieldNames : List String := ["objectKey", "eventType", "reason", "message", "timestamp"]

def toJson (e : Event) : Json :=
  .ofFields
    [("objectKey", some (.string e.objectKey)), ("eventType", some (.string e.kind.name)),
     ("reason", some (.string e.reason)), ("message", some (.string e.message)),
     ("timestamp", some (.whole e.timestamp))]

def ofJson? (j : Json) : Option Event := do
  let [objectKey, kind, reason, message, timestamp] ← j.fields? fieldNames | none
  return {
    objectKey := ← Json.required Json.toString? objectKey
    kind := ← Json.required (Json.word? EventKind.ofName?) kind
    reason := ← Json.required Json.toString? reason
    message := ← Json.required Json.toString? message
    timestamp := ← Json.required Json.toUInt64? timestamp }

end Event

instance : Encoded Event := ⟨Event.toJson, Event.ofJson?, id⟩

end RunnerFleet
