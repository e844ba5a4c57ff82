import RunnerFleet.Decision.Engine
import RunnerFleet.Evaluation.Snapshot

/-!
# The world of a pass

Passes write through a gateway, and other writers may come in between: just before a write they may
have written the same resource or deleted it, and a write may fail. What is still to happen is
queued by the sort of write and the key. The world also counts the calls of the evaluator.
-/

namespace RunnerFleet

inductive WriteSort where
  | target
  | status
  deriving DecidableEq, Repr

/-- What happens at a write before the write itself. -/
inductive Interference where
  | nothing
  /-- Another writer puts the resource back as it is. -/
  | touch
  /-- Another writer deletes the resource. -/
  | delete
  /-- The write fails and is not done. -/
  | fail (reason : String)
  deriving DecidableEq, Repr

structure Pending where
  sort : WriteSort
  key : String
  interference : Interference
  deriving DecidableEq, Repr

structure World where
  store : Store
  /-- Oldest first. -/
  pending : List Pending
  evaluations : Nat
  deriving DecidableEq

namespace World

def ofStore (s : Store) : World := ⟨s, [], 0⟩

def isFor (sort : WriteSort) (key : String) (p : Pending) : Bool := p.sort = sort && p.key = key

/-- What happens at the next write of this sort to `key`; it happens once. -/
def next (w : World) (sort : WriteSort) (key : String) : Interference × World :=
  match w.pending.find? (isFor sort key) with
  | none => (.nothing, w)
  | some p => (p.interference, { w with pending := w.pending.eraseP (isFor sort key) })

def queue (w : World) (sort : WriteSort) (key : String) (is : List Interference) : World :=
  { w with pending := w.pending ++ is.map (⟨sort, key, ·⟩) }

end World

def Store.touchDeployment (s : Store) (key : String) : Store :=
  match s.deployment? key with
  | .ok (some d) => match s.putDeployment d with
    | .ok (_, s) => s
    | .error _ => s
  | _ => s

def Store.touchAutoscaler (s : Store) (key : String) : Store :=
  match s.autoscaler? key with
  | .ok (some a) => match s.putAutoscaler a with
    | .ok (_, s) => s
    | .error _ => s
  | _ => s

namespace World

/-- A write after what other writers do to the store; a write that fails leaves only that. -/
def attempt {α : Type} (w : World) (s : Store) (write : Store → Stored α) :
    Except StoreError Unit × World :=
  match write s with
  | .ok (_, s) => (.ok (), { w with store := s })
  | .error e => (.error e, { w with store := s })

def writeTarget (w : World) (key : String) (expected : UInt64) (replicas : Count) :
    Except StoreError Unit × World :=
  let (i, w) := w.next .target key
  let write := fun s => s.updateReplicas key expected replicas
  match i with
  | .nothing => w.attempt w.store write
  | .touch => w.attempt (w.store.touchDeployment key) write
  | .delete => w.attempt (w.store.deleteDeployment key).2 write
  | .fail reason => (.error (.writeFailed reason), w)

def writeStatus (w : World) (key : String) (expected : UInt64) (status : AutoscalerStatus) :
    Except StoreError Unit × World :=
  let (i, w) := w.next .status key
  let write := fun s => s.updateStatus key expected status
  match i with
  | .nothing => w.attempt w.store write
  | .touch => w.attempt (w.store.touchAutoscaler key) write
  | .delete => w.attempt (w.store.deleteAutoscaler key).2 write
  | .fail reason => (.error (.writeFailed reason), w)

def record (w : World) (e : Event) : World := { w with store := w.store.recordEvent e }

end World

end RunnerFleet
