import RunnerFleet.Resource.Autoscaler
import RunnerFleet.Resource.Deployment
import RunnerFleet.Resource.Demand
import RunnerFleet.Resource.Event
import RunnerFleet.Store.Row

/-!
# The store

Four tables: autoscalers and deployments under `namespace/name`, the latest demand of a deployment
under the deployment's key, and events under keys that sort by time. An operation either fails and
leaves the store alone, or returns the new store. Conditional updates name the version that the
caller has read.
-/

namespace RunnerFleet

structure Store where
  autoscalers : Table (Row Autoscaler)
  deployments : Table (Row Deployment)
  demand : Table (Row Demand)
  events : Table (Row Event)
  deriving DecidableEq

abbrev Stored (α : Type) := Except StoreError (α × Store)

namespace Store

def empty : Store := ⟨.empty, .empty, .empty, .empty⟩

def onAutoscalers {α : Type} (s : Store)
    (f : Table (Row Autoscaler) → Except StoreError (α × Table (Row Autoscaler))) : Stored α :=
  (f s.autoscalers).map fun (a, t) => (a, { s with autoscalers := t })

def onDeployments {α : Type} (s : Store)
    (f : Table (Row Deployment) → Except StoreError (α × Table (Row Deployment))) : Stored α :=
  (f s.deployments).map fun (a, t) => (a, { s with deployments := t })

/-! ## Autoscalers -/

def createAutoscaler (s : Store) (a : Autoscaler) : Stored Autoscaler :=
  s.onAutoscalers (·.create a)

def putAutoscaler (s : Store) (a : Autoscaler) : Stored Autoscaler := s.onAutoscalers (·.put a)

def autoscaler? (s : Store) (key : String) : Except StoreError (Option Autoscaler) :=
  s.autoscalers.read? key

def listAutoscalers (s : Store) : Except StoreError (List Autoscaler) := s.autoscalers.readAll

def deleteAutoscaler (s : Store) (key : String) : Bool × Store :=
  ((s.autoscalers.get? key).isSome, { s with autoscalers := s.autoscalers.erase key })

def updateStatus (s : Store) (key : String) (expected : UInt64) (status : AutoscalerStatus) :
    Stored Autoscaler :=
  s.onAutoscalers (·.update key fun a => do
    checkVersion key expected a.metadata.version
    return { a with status })

def addReservation (s : Store) (key : String) (r : Reservation) (now : Seconds) :
    Stored Autoscaler :=
  s.onAutoscalers (·.update key fun a =>
    return { a with
      spec := { a.spec with reservations := a.spec.reservations.filter (·.isActive now) ++ [r] } })

def markAutoscaler (s : Store) (key : String) (now : Seconds) : Stored Autoscaler :=
  s.onAutoscalers (·.update key fun a => return Versioned.marked now a)

/-! ## Deployments -/

def createDeployment (s : Store) (d : Deployment) : Stored Deployment :=
  s.onDeployments (·.create d)

def putDeployment (s : Store) (d : Deployment) : Stored Deployment := s.onDeployments (·.put d)

def deployment? (s : Store) (key : String) : Except StoreError (Option Deployment) :=
  s.deployments.read? key

def listDeployments (s : Store) : Except StoreError (List Deployment) := s.deployments.readAll

def deleteDeployment (s : Store) (key : String) : Bool × Store :=
  ((s.deployments.get? key).isSome, { s with deployments := s.deployments.erase key })

def updateReplicas (s : Store) (key : String) (expected : UInt64) (replicas : Count) :
    Stored Deployment :=
  s.onDeployments (·.update key fun d => do
    checkVersion key expected d.metadata.version
    return { d with spec := { d.spec with replicas := some replicas } })

def markDeployment (s : Store) (key : String) (now : Seconds) : Stored Deployment :=
  s.onDeployments (·.update key fun d => return Versioned.marked now d)

/-! ## Demand and events -/

def putDemand (s : Store) (d : Demand) : Store :=
  { s with demand := s.demand.insert d.deploymentKey (.written d) }

def demand? (s : Store) (deploymentKey : String) : Except StoreError (Option Demand) :=
  s.demand.read? deploymentKey

/-- The first number that no event of the same object and second has yet. It is at most the number
of rows, and so a word of 64 bits unless there are `UInt64.size` rows. -/
def freeSeq (s : Store) (e : Event) : Nat :=
  ((List.range (s.events.rows.length + 1)).find? fun seq =>
    (s.events.get? (e.tableKey seq)).isNone).getD s.events.rows.length

def recordEvent (s : Store) (e : Event) : Store :=
  { s with events := s.events.insert (e.tableKey (s.freeSeq e)) (.written e) }

/-- Whether an event with this table key is listed for the object. -/
def isEventKeyOf (objectKey tableKey : String) : Bool :=
  (Event.keyStart objectKey).toList.isPrefixOf tableKey.toList

def eventsOf (s : Store) (objectKey : String) : Except StoreError (List Event) :=
  Row.readAll ((s.events.select (isEventKeyOf objectKey)).map (·.2))

end Store

end RunnerFleet
