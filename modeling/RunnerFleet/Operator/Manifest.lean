import RunnerFleet.Store.Basic
import RunnerFleet.Text.Quoted

/-!
# Manifests

A manifest lists autoscalers and deployments that are to exist. It knows its two members and no
others. Applying it never takes away what the controller has written: an autoscaler keeps its
status, and a deployment keeps its replica count unless the manifest sets one.
-/

namespace RunnerFleet

structure Manifest where
  autoscalers : List Autoscaler
  deployments : List Deployment
  deriving DecidableEq, Repr

namespace Manifest

inductive Fault where
  | unnamed (key : String)
  | noTarget (key : String)
  | boundsReversed (key : String) (least most : Count)
  deriving DecidableEq, Repr

def Fault.message : Fault → String
  | unnamed key => "resource " ++ Text.quoted key ++ " needs both a namespace and a name"
  | noTarget key => "autoscaler " ++ key ++ " has no scaleTargetRef.name"
  | boundsReversed key least most =>
    "autoscaler " ++ key ++ ": minReplicas " ++ toString least.toNat ++ " exceeds maxReplicas " ++
      toString most.toNat

inductive ReadError where
  | notJson
  | fault (f : Fault)
  deriving DecidableEq, Repr

def fieldNames : List String := ["autoscalers", "deployments"]

def knowsMembers : Json → Bool
  | .object members => members.all fun m => fieldNames.contains m.1
  | _ => true

def ofJson? (j : Json) : Option Manifest :=
  if knowsMembers j then do
    let [autoscalers, deployments] ← j.fields? fieldNames | none
    return {
      autoscalers := ← Json.defaulted [] (Json.toList? Autoscaler.ofJson?) autoscalers
      deployments := ← Json.defaulted [] (Json.toList? Deployment.ofJson?) deployments }
  else none

def nameFault? (m : Metadata) : Option Fault :=
  if m.ns = "" ∨ m.name = "" then some (.unnamed m.key) else none

def specFault? (a : Autoscaler) : Option Fault :=
  if a.spec.targetName = "" then some (.noTarget a.key)
  else match a.spec.minReplicas, a.spec.maxReplicas with
    | some least, some most =>
      if most < least then some (.boundsReversed a.key least most) else none
    | _, _ => none

/-- The first fault: names first, of autoscalers before deployments, then what autoscalers ask
for. -/
def fault? (m : Manifest) : Option Fault :=
  let names := m.autoscalers.map (·.metadata) ++ m.deployments.map (·.metadata)
  (names.findSome? nameFault?).or (m.autoscalers.findSome? specFault?)

def read (s : String) : Except ReadError Manifest :=
  match (Json.parse? s).bind ofJson? with
  | none => .error .notJson
  | some m => match m.fault? with
    | some f => .error (.fault f)
    | none => .ok m

def applyDeployment (s : Store) (d : Deployment) : Except StoreError Store := do
  let replicas ← match d.spec.replicas with
    | some n => pure (some n)
    | none => do
      let stored ← s.deployment? d.key
      pure (stored.bind (·.spec.replicas))
  let (_, s) ← s.putDeployment { d with spec := { d.spec with replicas } }
  return s

def applyAutoscaler (s : Store) (a : Autoscaler) : Except StoreError Store := do
  let status := match ← s.autoscaler? a.key with
    | some stored => stored.status
    | none => a.status
  let (_, s) ← s.putAutoscaler { a with status }
  return s

/-- Applies `f` for one item after another up to the first that fails. What came before it stays
done. -/
def applyEach {α : Type} (f : Store → α → Except StoreError Store) (s : Store) :
    List α → Except StoreError Unit × Store
  | [] => (.ok (), s)
  | a :: as => match f s a with
    | .ok s => applyEach f s as
    | .error e => (.error e, s)

/-- Stores everything in the manifest, deployments first. -/
def apply (m : Manifest) (s : Store) : Except StoreError Unit × Store :=
  match applyEach applyDeployment s m.deployments with
  | (.ok (), s) => applyEach applyAutoscaler s m.autoscalers
  | failed => failed

end Manifest

end RunnerFleet
