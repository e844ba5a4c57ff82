import RunnerFleet.Store.Basic

/-!
# Runs of store operations

Every operation of the store as a value, and what a client sees of it. A run applies a list of
operations one after another; an operation that fails leaves the store as it is.
-/

namespace RunnerFleet.Store

inductive Operation where
  | createAutoscaler (a : Autoscaler)
  | putAutoscaler (a : Autoscaler)
  | getAutoscaler (key : String)
  | listAutoscalers
  | deleteAutoscaler (key : String)
  | updateStatus (key : String) (expected : UInt64) (status : AutoscalerStatus)
  | addReservation (key : String) (r : Reservation) (now : Seconds)
  | markAutoscaler (key : String) (now : Seconds)
  | createDeployment (d : Deployment)
  | putDeployment (d : Deployment)
  | getDeployment (key : String)
  | listDeployments
  | deleteDeployment (key : String)
  | updateReplicas (key : String) (expected : UInt64) (replicas : Count)
  | markDeployment (key : String) (now : Seconds)
  | putDemand (d : Demand)
  | getDemand (deploymentKey : String)
  | recordEvent (e : Event)
  | listEvents (objectKey : String)
  deriving DecidableEq

inductive Answer where
  | autoscaler (a : Autoscaler)
  | autoscaler? (a : Option Autoscaler)
  | autoscalers (as : List Autoscaler)
  | deployment (d : Deployment)
  | deployment? (d : Option Deployment)
  | deployments (ds : List Deployment)
  | demand? (d : Option Demand)
  | events (es : List Event)
  | existed (b : Bool)
  | done
  deriving DecidableEq, Repr

def seen {α : Type} (s : Store) (f : α → Answer) (r : Except StoreError α) : Stored Answer :=
  r.map fun a => (f a, s)

def written {α : Type} (f : α → Answer) (r : Stored α) : Stored Answer :=
  r.map fun (a, s) => (f a, s)

def perform (s : Store) : Operation → Stored Answer
  | .createAutoscaler a => written .autoscaler (s.createAutoscaler a)
  | .putAutoscaler a => written .autoscaler (s.putAutoscaler a)
  | .getAutoscaler key => s.seen .autoscaler? (s.autoscaler? key)
  | .listAutoscalers => s.seen .autoscalers s.listAutoscalers
  | .deleteAutoscaler key => written .existed (.ok (s.deleteAutoscaler key))
  | .updateStatus key expected status => written .autoscaler (s.updateStatus key expected status)
  | .addReservation key r now => written .autoscaler (s.addReservation key r now)
  | .markAutoscaler key now => written .autoscaler (s.markAutoscaler key now)
  | .createDeployment d => written .deployment (s.createDeployment d)
  | .putDeployment d => written .deployment (s.putDeployment d)
  | .getDeployment key => s.seen .deployment? (s.deployment? key)
  | .listDeployments => s.seen .deployments s.listDeployments
  | .deleteDeployment key => written .existed (.ok (s.deleteDeployment key))
  | .updateReplicas key expected replicas =>
    written .deployment (s.updateReplicas key expected replicas)
  | .markDeployment key now => written .deployment (s.markDeployment key now)
  | .putDemand d => .ok (.done, s.putDemand d)
  | .getDemand key => s.seen .demand? (s.demand? key)
  | .recordEvent e => .ok (.done, s.recordEvent e)
  | .listEvents key => s.seen .events (s.eventsOf key)

def after (s : Store) (op : Operation) : Store :=
  match s.perform op with
  | .ok (_, s') => s'
  | .error _ => s

def run (s : Store) (ops : List Operation) : Store := ops.foldl after s

end RunnerFleet.Store
