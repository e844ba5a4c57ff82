import RunnerFleet.Duration
import RunnerFleet.Evaluation.BusyShare
import RunnerFleet.Store.Basic

/-!
# Computing the replica count from recorded demand

The first metric of the autoscaler is applied to the latest demand of the target, if that is fresh
enough. The result is raised to the autoscaler's floor and then lowered to its ceiling.
-/

namespace RunnerFleet

inductive EvaluationError where
  | noMetrics
  | invalidMetric (fault : BusyRule.Fault)
  | noDemand (key : String)
  | staleDemand (key : String) (observedAt now : Seconds)
  | unavailable (reason : String)
  deriving DecidableEq, Repr

def EvaluationError.message : EvaluationError → String
  | noMetrics => "no metrics configured"
  | invalidMetric fault => "invalid metric: " ++ fault.message
  | noDemand key => "no demand recorded for " ++ key
  | staleDemand key observedAt now =>
    "demand for " ++ key ++ " is stale (observed at " ++ toString observedAt.toNat ++ ", now " ++
      toString now.toNat ++ ")"
  | unavailable reason => "demand source unavailable: " ++ reason

/-- Computes a replica count for a target and its autoscaler, possibly from what is stored. -/
abbrev Evaluator := Store → Deployment → Autoscaler → Except EvaluationError Count

namespace Snapshot

/-- The demand of a deployment, unless there is none or its age exceeds `staleness` seconds. -/
def load (s : Store) (key : String) (staleness now : Seconds) : Except EvaluationError Demand :=
  match s.demand? key with
  | .error e => .error (.unavailable e.message)
  | .ok none => .error (.noDemand key)
  | .ok (some d) =>
    if Seconds.plus d.observedAt staleness < now then .error (.staleDemand key d.observedAt now)
    else .ok d

def suggest (current : Count) (d : Demand) : Metric → Except EvaluationError Count
  | .workflowRuns => .ok (Count.plus d.queued d.inProgress)
  | .busyShare p =>
    let rule := BusyRule.ofPolicy p
    match rule.fault? with
    | some fault => .error (.invalidMetric fault)
    | none => .ok (rule.next current d.busyRunners d.registeredRunners)

/-- `n` raised to the floor, which is one if absent, and then lowered to the ceiling. -/
def clamp (spec : AutoscalerSpec) (n : Count) : Count :=
  let raised := max n (spec.minReplicas.getD 1)
  match spec.maxReplicas with
  | some most => min raised most
  | none => raised

def evaluate (staleness : Duration) (now : Seconds) : Evaluator := fun s target a =>
  match a.spec.metrics with
  | [] => .error .noMetrics
  | metric :: _ => do
    let d ← load s target.key staleness.seconds now
    return clamp a.spec (← suggest target.replicas d metric)

end Snapshot

end RunnerFleet
