import Mathlib.Data.List.Induction
import RunnerFleet.Evaluation.Snapshot
import RunnerFleet.Proofs.Decision.Count

/-!
# Runs of decisions

A turn is one decision about an autoscaler whose spec, target and demand may be anything, followed
by storing the status that the decision asks for. Only the status passes from one turn to the next.
A status that turns have made holds exactly one cached count once something is published.
-/

namespace RunnerFleet

structure Turn where
  engine : Engine
  /-- The autoscaler as its operators left it; the status in it is not looked at. -/
  autoscaler : Autoscaler
  target : Deployment
  answer : Except EvaluationError Count
  now : Seconds

namespace Turn

def subject (t : Turn) (s : AutoscalerStatus) : Autoscaler := { t.autoscaler with status := s }

def decision (t : Turn) (s : AutoscalerStatus) : Except EvaluationError Decision :=
  t.engine.decide (t.subject s) t.target t.answer t.now

/-- The status that is stored after the turn. A turn without a decision stores nothing. -/
def stored (t : Turn) (s : AutoscalerStatus) : AutoscalerStatus :=
  match t.decision s with
  | .ok d => d.statusPatch.getD s
  | .error _ => s

def reserved (t : Turn) : Nat := Reservation.activeTotal t.autoscaler.spec.reservations t.now

def ceiling (t : Turn) : Nat := t.autoscaler.ceiling

def delay (t : Turn) : Seconds := (t.engine.delayOf t.autoscaler).seconds

def baseline (t : Turn) (s : AutoscalerStatus) (candidate : Count) : Count :=
  acceptCount s.desired candidate s.lastScaleOut t.delay t.now

def desired (t : Turn) (baseline : Count) : Count :=
  Engine.desiredCount t.autoscaler baseline t.now

def grown (t : Turn) (s : AutoscalerStatus) (desired : Count) : Option Seconds :=
  if isScaleOut s.desired desired then some t.now else s.lastScaleOut

def entry (t : Turn) (baseline : Count) : CacheEntry :=
  .fresh baseline t.now t.engine.cacheDuration.seconds

theorem toNat_desired (t : Turn) (baseline : Count) :
    (t.desired baseline).toNat = min (baseline.toNat + t.reserved) t.ceiling :=
  Engine.toNat_desiredCount t.autoscaler baseline t.now

theorem decision_of_cached {t : Turn} {s : AutoscalerStatus} {b : Count}
    (h : s.cached? t.now = some b) :
    t.decision s = .ok (t.engine.conclude (t.subject s) t.target b true t.now) :=
  t.engine.decide_of_cached (t.subject s) t.target t.answer h

theorem decision_of_not_cached {t : Turn} {s : AutoscalerStatus} (h : s.cached? t.now = none) :
    t.decision s = t.answer.map fun c =>
      t.engine.conclude (t.subject s) t.target (t.baseline s c) false t.now :=
  t.engine.decide_of_not_cached (t.subject s) t.target t.answer h

theorem stored_of_cached {t : Turn} {s : AutoscalerStatus} {b : Count}
    (h : s.cached? t.now = some b) :
    t.stored s = ⟨some (t.desired b), t.grown s (t.desired b), s.cache⟩ := by
  unfold stored
  rw [decision_of_cached h]
  exact t.engine.getD_statusPatch s b (t.desired b) true t.now

theorem stored_of_answer {t : Turn} {s : AutoscalerStatus} {c : Count}
    (h : s.cached? t.now = none) (ha : t.answer = .ok c) :
    t.stored s = ⟨some (t.desired (t.baseline s c)), t.grown s (t.desired (t.baseline s c)),
      [t.entry (t.baseline s c)]⟩ := by
  unfold stored
  rw [decision_of_not_cached h, ha]
  exact t.engine.getD_statusPatch s (t.baseline s c) (t.desired (t.baseline s c)) false t.now

theorem stored_of_failure {t : Turn} {s : AutoscalerStatus} {cause : EvaluationError}
    (h : s.cached? t.now = none) (ha : t.answer = .error cause) : t.stored s = s := by
  unfold stored
  rw [decision_of_not_cached h, ha]
  rfl

/-- Everything that a turn can make of the status. -/
theorem stored_cases (t : Turn) (s : AutoscalerStatus) :
    (∃ b, s.cached? t.now = some b ∧
      t.stored s = ⟨some (t.desired b), t.grown s (t.desired b), s.cache⟩) ∨
    (∃ c, s.cached? t.now = none ∧ t.answer = .ok c ∧
      t.stored s = ⟨some (t.desired (t.baseline s c)), t.grown s (t.desired (t.baseline s c)),
        [t.entry (t.baseline s c)]⟩) ∨
    (s.cached? t.now = none ∧ (∃ cause, t.answer = .error cause) ∧ t.stored s = s) := by
  cases h : s.cached? t.now with
  | some b => exact .inl ⟨b, rfl, stored_of_cached h⟩
  | none =>
    cases ha : t.answer with
    | ok c => exact .inr (.inl ⟨c, rfl, rfl, stored_of_answer h ha⟩)
    | error cause => exact .inr (.inr ⟨rfl, ⟨cause, rfl⟩, stored_of_failure h ha⟩)

end Turn

/-- A turn of an autoscaler with three reserved replicas and a ceiling of twenty. Counts are cached
for half a minute, and the delay lasts ten. -/
def Turn.withThreeReserved (answer : Count) (now : Seconds) : Turn where
  engine := ⟨.ofSeconds 30, .ofSeconds 600⟩
  autoscaler :=
    { metadata := .fresh "ci" "builds"
      spec :=
        { targetName := "runners"
          minReplicas := none
          maxReplicas := some 20
          scaleDownDelay := none
          metrics := [.workflowRuns]
          reservations := [⟨3, 5000⟩] }
      status := .empty }
  target := ⟨.fresh "ci" "runners", .empty⟩
  answer := .ok answer
  now

def statusAfter (ts : List Turn) : AutoscalerStatus := ts.foldl (fun s t => t.stored s) .empty

theorem statusAfter_snoc (ts : List Turn) (t : Turn) :
    statusAfter (ts ++ [t]) = t.stored (statusAfter ts) := by
  simp only [statusAfter, List.foldl_append, List.foldl_cons, List.foldl_nil]

theorem cached?_singleton {p : Option Count} {grown : Option Seconds} {e : CacheEntry}
    {now : Seconds} {b : Count}
    (h : (⟨p, grown, [e]⟩ : AutoscalerStatus).cached? now = some b) : b = e.value := by
  unfold AutoscalerStatus.cached? at h
  rw [List.find?_singleton] at h
  split at h
  · exact (Option.some.inj h).symm
  · cases h

end RunnerFleet
