import RunnerFleet.Reconcile.World

/-!
# One pass for one autoscaler

A pass reads the autoscaler and its target, decides, and writes the target first and the status
second. It is a machine of five steps, each of which touches the store once, so that other writers
may act between any two. A pass that ends early makes the remaining steps idle.
-/

namespace RunnerFleet

inductive Skip where
  | autoscalerNotFound
  | autoscalerDeleting
  | targetNotFound
  | targetDeleting
  deriving DecidableEq, Repr

inductive Outcome where
  | applied (d : Decision)
  | skipped (why : Skip)
  deriving DecidableEq, Repr

inductive PassError where
  | evaluation (autoscaler : String) (cause : EvaluationError)
  /-- A resource changed after it was read; the decision has to be made again. -/
  | writeConflict (key : String)
  | store (cause : StoreError)
  deriving DecidableEq, Repr

namespace PassError

def isConflict : PassError → Bool
  | writeConflict _ => true
  | _ => false

def message : PassError → String
  | evaluation autoscaler cause =>
    "could not compute replicas for " ++ autoscaler ++ ": " ++ cause.message
  | writeConflict key => "write conflict on " ++ key
  | store cause => "state store error: " ++ cause.message

def ofWrite (key : String) (e : StoreError) : PassError :=
  if e.isConflict then writeConflict key else store e

end PassError

abbrev PassResult := Except PassError Outcome

/-- How far a pass has come. -/
inductive Stage where
  | begun
  | loaded (a : Autoscaler)
  | targeted (a : Autoscaler) (target : Deployment)
  | decided (a : Autoscaler) (target : Deployment) (d : Decision)
  | scaled (a : Autoscaler) (d : Decision)
  | finished (r : PassResult)
  deriving DecidableEq

/-- What a pass is about. -/
structure Pass where
  key : String
  now : Seconds
  engine : Engine
  evaluate : Evaluator

namespace Pass

def failureReason : String := "RunnerAutoscalingFailure"

def scaledReason : String := "RunnerAutoscaled"

def failureEvent (a : Autoscaler) (cause : EvaluationError) (now : Seconds) : Event where
  objectKey := a.key
  kind := .warning
  reason := failureReason
  message := cause.message
  timestamp := now

def scaledEvent (a : Autoscaler) (before after : Count) (now : Seconds) : Event where
  objectKey := a.key
  kind := .normal
  reason := scaledReason
  message := "scaled " ++ a.targetKey ++ " from " ++ toString before.toNat ++ " to " ++
    toString after.toNat ++ " replicas"
  timestamp := now

def readAutoscaler (p : Pass) (s : Store) : Stage :=
  match s.autoscaler? p.key with
  | .error e => .finished (.error (.store e))
  | .ok none => .finished (.ok (.skipped .autoscalerNotFound))
  | .ok (some a) =>
    if a.metadata.isDeleting then .finished (.ok (.skipped .autoscalerDeleting)) else .loaded a

def readTarget (a : Autoscaler) (s : Store) : Stage :=
  match s.deployment? a.targetKey with
  | .error e => .finished (.error (.store e))
  | .ok none => .finished (.ok (.skipped .targetNotFound))
  | .ok (some target) =>
    if target.metadata.isDeleting then .finished (.ok (.skipped .targetDeleting))
    else .targeted a target

def ask (p : Pass) (a : Autoscaler) (target : Deployment) :
    StateM World (Except EvaluationError Count) := do
  modify fun w => { w with evaluations := w.evaluations + 1 }
  return p.evaluate (← get).store target a

/-- Decides, and tells by an event if the replica count cannot be computed. -/
def decide (p : Pass) (a : Autoscaler) (target : Deployment) (w : World) : Stage × World :=
  match (p.engine.consult a target (p.ask a target) p.now).run w with
  | (.ok d, w) => (.decided a target d, w)
  | (.error cause, w) =>
    (.finished (.error (.evaluation p.key cause)), w.record (failureEvent a cause p.now))

/-- The world after the evaluator has been asked, unless a cached count holds. -/
def asking (p : Pass) (a : Autoscaler) (w : World) : World :=
  if (a.status.cached? p.now).isSome then w else { w with evaluations := w.evaluations + 1 }

@[simp] theorem store_asking (p : Pass) (a : Autoscaler) (w : World) :
    (p.asking a w).store = w.store := by
  unfold asking
  split <;> rfl

@[simp] theorem pending_asking (p : Pass) (a : Autoscaler) (w : World) :
    (p.asking a w).pending = w.pending := by
  unfold asking
  split <;> rfl

theorem decide_eq (p : Pass) (a : Autoscaler) (target : Deployment) (w : World) :
    p.decide a target w =
      match p.engine.decide a target (p.evaluate w.store target a) p.now with
      | .ok d => (.decided a target d, p.asking a w)
      | .error cause => (.finished (.error (.evaluation p.key cause)),
          (p.asking a w).record (failureEvent a cause p.now)) := by
  unfold decide asking Engine.decide Engine.consult ask
  cases a.status.cached? p.now with
  | some baseline => rfl
  | none =>
    simp only [StateT.run_bind, StateT.run_pure, StateT.run_modify, StateT.run_get, pure_bind]
    cases p.evaluate w.store target a <;> rfl

/-- Writes the target if its count differs, and tells so by an event. -/
def scaleTarget (p : Pass) (a : Autoscaler) (target : Deployment) (d : Decision) (w : World) :
    Stage × World :=
  match d.targetPatch with
  | none => (.scaled a d, w)
  | some replicas =>
    match w.writeTarget a.targetKey target.metadata.version replicas with
    | (.ok (), w) => (.scaled a d, w.record (scaledEvent a target.replicas replicas p.now))
    | (.error (.notFound _), w) => (.finished (.ok (.skipped .targetNotFound)), w)
    | (.error e, w) => (.finished (.error (.ofWrite a.targetKey e)), w)

/-- Writes the status if the decision asks for it. If that fails after the target has been written,
the next pass makes up for it. -/
def publish (p : Pass) (a : Autoscaler) (d : Decision) (w : World) : Stage × World :=
  match d.statusPatch with
  | none => (.finished (.ok (.applied d)), w)
  | some status =>
    match w.writeStatus p.key a.metadata.version status with
    | (.ok (), w) => (.finished (.ok (.applied d)), w)
    | (.error (.notFound _), w) => (.finished (.ok (.skipped .autoscalerNotFound)), w)
    | (.error e, w) => (.finished (.error (.ofWrite p.key e)), w)

def step (p : Pass) (stage : Stage) (w : World) : Stage × World :=
  match stage with
  | .begun => (p.readAutoscaler w.store, w)
  | .loaded a => (readTarget a w.store, w)
  | .targeted a target => p.decide a target w
  | .decided a target d => p.scaleTarget a target d w
  | .scaled a d => p.publish a d w
  | .finished r => (.finished r, w)

def steps (p : Pass) : Nat → Stage × World → Stage × World
  | 0, x => x
  | n + 1, x => p.steps n (p.step x.1 x.2)

/-- The number of steps after which every pass has finished. -/
def length : Nat := 5

def result (stage : Stage) : PassResult :=
  match stage with
  | .finished r => r
  | _ => .ok (.skipped .autoscalerNotFound)

def reconcile (p : Pass) (w : World) : PassResult × World :=
  let (stage, w) := p.steps length (.begun, w)
  (result stage, w)

end Pass

end RunnerFleet
