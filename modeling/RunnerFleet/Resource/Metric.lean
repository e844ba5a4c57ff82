import RunnerFleet.Json.Printer
import RunnerFleet.Resource.Metadata

/-!
# Metrics

A metric says what an autoscaler scales on: the number of workflow runs that wait or run, or the
share of its runners that are busy. In JSON the kind stands in the member `type`. A metric is read
as a whole before its kind is looked at, so every part of it must have a meaning, also the members
that are not fields.
-/

namespace RunnerFleet

/-- When and by which factor the busy share changes the count; defaults stand in for what is
absent. -/
structure BusyPolicy where
  upThreshold : Option Float
  downThreshold : Option Float
  upFactor : Option Float
  downFactor : Option Float
  deriving DecidableEq, Repr

inductive Metric where
  | workflowRuns
  | busyShare (policy : BusyPolicy)
  deriving DecidableEq, Repr

namespace BusyPolicy

def fieldNames : List String :=
  ["scaleUpThreshold", "scaleDownThreshold", "scaleUpFactor", "scaleDownFactor"]

def numbers (p : BusyPolicy) : List Float :=
  [p.upThreshold, p.downThreshold, p.upFactor, p.downFactor].filterMap id

def toFields (p : BusyPolicy) : List (String × Option Json) :=
  [("scaleUpThreshold", p.upThreshold.map .real),
   ("scaleDownThreshold", p.downThreshold.map .real),
   ("scaleUpFactor", p.upFactor.map .real),
   ("scaleDownFactor", p.downFactor.map .real)]

def ofJson? (j : Json) : Option BusyPolicy := do
  let [upThreshold, downThreshold, upFactor, downFactor] ← j.fields? fieldNames | none
  return {
    upThreshold := ← Json.optional Json.toFloat? upThreshold
    downThreshold := ← Json.optional Json.toFloat? downThreshold
    upFactor := ← Json.optional Json.toFloat? upFactor
    downFactor := ← Json.optional Json.toFloat? downFactor }

def reread (p : BusyPolicy) : BusyPolicy where
  upThreshold := p.upThreshold.bind Json.reread
  downThreshold := p.downThreshold.bind Json.reread
  upFactor := p.upFactor.bind Json.reread
  downFactor := p.downFactor.bind Json.reread

end BusyPolicy

namespace Metric

inductive Kind where
  | workflowRuns
  | busyShare
  deriving DecidableEq, Repr

def Kind.name : Kind → String
  | workflowRuns => "TotalNumberOfQueuedAndInProgressWorkflowRuns"
  | busyShare => "PercentageRunnersBusy"

def Kind.ofName? (s : String) : Option Kind :=
  if s = Kind.workflowRuns.name then some workflowRuns
  else if s = Kind.busyShare.name then some busyShare
  else none

def numbers : Metric → List Float
  | workflowRuns => []
  | busyShare p => p.numbers

def toJson : Metric → Json
  | workflowRuns => .ofFields [("type", some (.string Kind.workflowRuns.name))]
  | busyShare p => .ofFields (("type", some (.string Kind.busyShare.name)) :: p.toFields)

/-- A metric of the given kind whose fields are those of `j`. The members of an object that has no
fields do not matter, but an array may hold no more than the fields. -/
def ofKind? (j : Json) : Kind → Option Metric
  | .workflowRuns => match j with
    | .array (_ :: _) => none
    | _ => some workflowRuns
  | .busyShare => (BusyPolicy.ofJson? j).map busyShare

def ofSound? : Json → Option Metric
  | .array (.string tag :: items) => (Kind.ofName? tag).bind (ofKind? (.array items))
  | .object members => do
    let some (.string tag) ← Json.member? "type" members | none
    ofKind? (.object members) (← Kind.ofName? tag)
  | _ => none

def ofJson? (j : Json) : Option Metric := if j.sound then ofSound? j else none

def reread : Metric → Metric
  | workflowRuns => workflowRuns
  | busyShare p => busyShare p.reread

end Metric

instance : Encoded Metric := ⟨Metric.toJson, Metric.ofJson?, Metric.reread⟩

end RunnerFleet
