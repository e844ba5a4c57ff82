import RunnerFleet.Resource.Metadata

/-!
# Demand snapshots

What was seen of a deployment's work at one point in time.
-/

namespace RunnerFleet

structure Demand where
  deploymentKey : String
  queued : Count
  inProgress : Count
  busyRunners : Count
  registeredRunners : Count
  observedAt : Seconds
  deriving DecidableEq, Repr

namespace Demand

def fieldNames : List String :=
  ["deploymentKey", "queued", "inProgress", "busyRunners", "registeredRunners", "observedAt"]

def toJson (d : Demand) : Json :=
  .ofFields
    [("deploymentKey", some (.string d.deploymentKey)),
     ("queued", some (.whole d.queued.toUInt64)),
     ("inProgress", some (.whole d.inProgress.toUInt64)),
     ("busyRunners", some (.whole d.busyRunners.toUInt64)),
     ("registeredRunners", some (.whole d.registeredRunners.toUInt64)),
     ("observedAt", some (.whole d.observedAt))]

def ofJson? (j : Json) : Option Demand := do
  let [deploymentKey, queued, inProgress, busyRunners, registeredRunners, observedAt] ←
    j.fields? fieldNames | none
  return {
    deploymentKey := ← Json.required Json.toString? deploymentKey
    queued := ← Json.required Json.toUInt32? queued
    inProgress := ← Json.required Json.toUInt32? inProgress
    busyRunners := ← Json.defaulted 0 Json.toUInt32? busyRunners
    registeredRunners := ← Json.defaulted 0 Json.toUInt32? registeredRunners
    observedAt := ← Json.required Json.toUInt64? observedAt }

end Demand

instance : Encoded Demand := ⟨Demand.toJson, Demand.ofJson?, id⟩

end RunnerFleet
