import RunnerFleet.Resource.Metric

/-!
# Autoscalers

An autoscaler drives the replica count of one deployment in its namespace. Operators write its
spec, the controller its status.
-/

namespace RunnerFleet

structure Reservation where
  replicas : Count
  expiresAt : Seconds
  deriving DecidableEq, Repr

inductive CacheKey where
  | desiredReplicas
  deriving DecidableEq, Repr

structure CacheEntry where
  key : CacheKey
  value : Count
  expiresAt : Seconds
  deriving DecidableEq, Repr

structure AutoscalerStatus where
  desired : Option Count
  lastScaleOut : Option Seconds
  cache : List CacheEntry
  deriving DecidableEq, Repr

structure AutoscalerSpec where
  /-- The name of the deployment, in the autoscaler's namespace. -/
  targetName : String
  minReplicas : Option Count
  maxReplicas : Option Count
  /-- Overrides the scale-down delay of the controller. -/
  scaleDownDelay : Option Seconds
  metrics : List Metric
  reservations : List Reservation
  deriving DecidableEq, Repr

structure Autoscaler where
  metadata : Metadata
  spec : AutoscalerSpec
  status : AutoscalerStatus
  deriving DecidableEq, Repr

namespace Reservation

/-- A reservation counts until the second before it expires. -/
def isActive (r : Reservation) (now : Seconds) : Bool := now < r.expiresAt

def fieldNames : List String := ["replicas", "expirationTime"]

def toJson (r : Reservation) : Json :=
  .ofFields
    [("replicas", some (.whole r.replicas.toUInt64)), ("expirationTime", some (.whole r.expiresAt))]

def ofJson? (j : Json) : Option Reservation := do
  let [replicas, expiresAt] ← j.fields? fieldNames | none
  return {
    replicas := ← Json.required Json.toUInt32? replicas
    expiresAt := ← Json.required Json.toUInt64? expiresAt }

end Reservation

namespace CacheKey

def name : CacheKey → String
  | desiredReplicas => "desiredReplicas"

def ofName? (s : String) : Option CacheKey :=
  if s = desiredReplicas.name then some desiredReplicas else none

end CacheKey

namespace CacheEntry

def fieldNames : List String := ["key", "value", "expirationTime"]

def toJson (e : CacheEntry) : Json :=
  .ofFields
    [("key", some (.string e.key.name)), ("value", some (.whole e.value.toUInt64)),
     ("expirationTime", some (.whole e.expiresAt))]

def ofJson? (j : Json) : Option CacheEntry := do
  let [key, value, expiresAt] ← j.fields? fieldNames | none
  return {
    key := ← Json.required (Json.word? CacheKey.ofName?) key
    value := ← Json.required Json.toUInt32? value
    expiresAt := ← Json.required Json.toUInt64? expiresAt }

end CacheEntry

namespace AutoscalerStatus

def empty : AutoscalerStatus := ⟨none, none, []⟩

def fieldNames : List String := ["desiredReplicas", "lastSuccessfulScaleOutTime", "cacheEntries"]

def toJson (s : AutoscalerStatus) : Json :=
  .ofFields
    [("desiredReplicas", s.desired.map (.whole ·.toUInt64)),
     ("lastSuccessfulScaleOutTime", s.lastScaleOut.map .whole),
     ("cacheEntries", some (.array (s.cache.map CacheEntry.toJson)))]

def ofJson? (j : Json) : Option AutoscalerStatus := do
  let [desired, lastScaleOut, cache] ← j.fields? fieldNames | none
  return {
    desired := ← Json.optional Json.toUInt32? desired
    lastScaleOut := ← Json.optional Json.toUInt64? lastScaleOut
    cache := ← Json.defaulted [] (Json.toList? CacheEntry.ofJson?) cache }

end AutoscalerStatus

namespace AutoscalerSpec

def targetToJson (name : String) : Json := .ofFields [("name", some (.string name))]

def targetOfJson? (j : Json) : Option String := do
  let [name] ← j.fields? ["name"] | none
  Json.required Json.toString? name

def fieldNames : List String :=
  ["scaleTargetRef", "minReplicas", "maxReplicas", "scaleDownDelaySecondsAfterScaleUp", "metrics",
   "capacityReservations"]

def toJson (s : AutoscalerSpec) : Json :=
  .ofFields
    [("scaleTargetRef", some (targetToJson s.targetName)),
     ("minReplicas", s.minReplicas.map (.whole ·.toUInt64)),
     ("maxReplicas", s.maxReplicas.map (.whole ·.toUInt64)),
     ("scaleDownDelaySecondsAfterScaleUp", s.scaleDownDelay.map .whole),
     ("metrics", some (.array (s.metrics.map Metric.toJson))),
     ("capacityReservations", some (.array (s.reservations.map Reservation.toJson)))]

def ofJson? (j : Json) : Option AutoscalerSpec := do
  let [target, minReplicas, maxReplicas, scaleDownDelay, metrics, reservations] ←
    j.fields? fieldNames | none
  return {
    targetName := ← Json.required targetOfJson? target
    minReplicas := ← Json.optional Json.toUInt32? minReplicas
    maxReplicas := ← Json.optional Json.toUInt32? maxReplicas
    scaleDownDelay := ← Json.optional Json.toUInt64? scaleDownDelay
    metrics := ← Json.defaulted [] (Json.toList? Metric.ofJson?) metrics
    reservations := ← Json.defaulted [] (Json.toList? Reservation.ofJson?) reservations }

end AutoscalerSpec

namespace Autoscaler

def key (a : Autoscaler) : String := a.metadata.key

def targetKey (a : Autoscaler) : String := objectKey a.metadata.ns a.spec.targetName

def fieldNames : List String := ["metadata", "spec", "status"]

def toJson (a : Autoscaler) : Json :=
  .ofFields
    [("metadata", some a.metadata.toJson), ("spec", some a.spec.toJson),
     ("status", some a.status.toJson)]

def ofJson? (j : Json) : Option Autoscaler := do
  let [metadata, spec, status] ← j.fields? fieldNames | none
  return {
    metadata := ← Json.required Metadata.ofJson? metadata
    spec := ← Json.required AutoscalerSpec.ofJson? spec
    status := ← Json.defaulted .empty AutoscalerStatus.ofJson? status }

/-- Doubles stand in the metrics alone. -/
def reread (a : Autoscaler) : Autoscaler :=
  { a with spec := { a.spec with metrics := a.spec.metrics.map Metric.reread } }

end Autoscaler

instance : Encoded Reservation := ⟨Reservation.toJson, Reservation.ofJson?, id⟩

instance : Encoded AutoscalerStatus := ⟨AutoscalerStatus.toJson, AutoscalerStatus.ofJson?, id⟩

instance : Encoded Autoscaler := ⟨Autoscaler.toJson, Autoscaler.ofJson?, Autoscaler.reread⟩

instance : Versioned Autoscaler where
  metadata a := a.metadata
  withMetadata a m := { a with metadata := m }
  metadata_withMetadata _ _ := rfl
  withMetadata_metadata _ := rfl
  withMetadata_withMetadata _ _ _ := rfl
  metadata_reread _ := rfl
  reread_withMetadata _ _ := rfl

end RunnerFleet
