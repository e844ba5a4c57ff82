import RunnerFleet.Resource.Metadata

/-!
# Runner deployments

A deployment is a set of equal runners. Of its fields only the replica count is ever written by an
autoscaler.
-/

namespace RunnerFleet

structure DeploymentSpec where
  replicas : Option Count
  repository : Option String
  labels : List String
  deriving DecidableEq, Repr

structure Deployment where
  metadata : Metadata
  spec : DeploymentSpec
  deriving DecidableEq, Repr

namespace DeploymentSpec

def empty : DeploymentSpec := ⟨none, none, []⟩

def fieldNames : List String := ["replicas", "repository", "labels"]

def toJson (s : DeploymentSpec) : Json :=
  .ofFields
    [("replicas", s.replicas.map (.whole ·.toUInt64)), ("repository", s.repository.map .string),
     ("labels", if s.labels = [] then none else some (.array (s.labels.map .string)))]

def ofJson? (j : Json) : Option DeploymentSpec := do
  let [replicas, repository, labels] ← j.fields? fieldNames | none
  return {
    replicas := ← Json.optional Json.toUInt32? replicas
    repository := ← Json.optional Json.toString? repository
    labels := ← Json.defaulted [] (Json.toList? Json.toString?) labels }

end DeploymentSpec

namespace Deployment

def defaultReplicas : Count := 1

/-- The replica count in force. -/
def replicas (d : Deployment) : Count := d.spec.replicas.getD defaultReplicas

def key (d : Deployment) : String := d.metadata.key

def fieldNames : List String := ["metadata", "spec"]

def toJson (d : Deployment) : Json :=
  .ofFields [("metadata", some d.metadata.toJson), ("spec", some d.spec.toJson)]

def ofJson? (j : Json) : Option Deployment := do
  let [metadata, spec] ← j.fields? fieldNames | none
  return {
    metadata := ← Json.required Metadata.ofJson? metadata
    spec := ← Json.defaulted .empty DeploymentSpec.ofJson? spec }

end Deployment

instance : Encoded Deployment := ⟨Deployment.toJson, Deployment.ofJson?, id⟩

instance : Versioned Deployment where
  metadata d := d.metadata
  withMetadata d m := { d with metadata := m }
  metadata_withMetadata _ _ := rfl
  withMetadata_metadata _ := rfl
  withMetadata_withMetadata _ _ _ := rfl
  metadata_reread _ := rfl
  reread_withMetadata _ _ := rfl

end RunnerFleet
