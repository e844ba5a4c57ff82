import RunnerFleet.Proofs.Decision.Bounds

/-!
# What an evaluation answers and what it reads

An evaluation ends at the first thing that is missing: a metric, recorded demand, demand that is
recent enough. Otherwise the first metric is applied to the demand. Nothing else of the store and of
the autoscaler is looked at, and no sum that is cut off changes an answer.
-/

namespace RunnerFleet

def Demand.IsStale (d : Demand) (staleness : Duration) (now : Seconds) : Prop :=
  d.observedAt.toNat + staleness.seconds.toNat < now.toNat

instance (d : Demand) (staleness : Duration) (now : Seconds) :
    Decidable (d.IsStale staleness now) :=
  inferInstanceAs (Decidable (_ < _))

namespace Snapshot

variable (staleness : Duration) (now : Seconds) (s : Store) (target : Deployment) (a : Autoscaler)

/-- The ways in which an evaluation may go, with the answer of each. -/
inductive Course : Except EvaluationError Count → Prop
  | noMetrics (hmetrics : a.spec.metrics = []) : Course (.error .noMetrics)
  | unreadable {metric : Metric} {cause : StoreError}
      (hmetric : a.spec.metrics.head? = some metric) (hread : s.demand? target.key = .error cause) :
      Course (.error (.unavailable cause.message))
  | noDemand {metric : Metric} (hmetric : a.spec.metrics.head? = some metric)
      (hread : s.demand? target.key = .ok none) : Course (.error (.noDemand target.key))
  | stale {metric : Metric} {d : Demand} (hmetric : a.spec.metrics.head? = some metric)
      (hread : s.demand? target.key = .ok (some d)) (hstale : d.IsStale staleness now) :
      Course (.error (.staleDemand target.key d.observedAt now))
  | invalid {policy : BusyPolicy} {d : Demand} {fault : BusyRule.Fault}
      (hmetric : a.spec.metrics.head? = some (.busyShare policy))
      (hread : s.demand? target.key = .ok (some d)) (hfresh : ¬ d.IsStale staleness now)
      (hfault : (BusyRule.ofPolicy policy).fault? = some fault) :
      Course (.error (.invalidMetric fault))
  | computed {metric : Metric} {d : Demand} {n : Count}
      (hmetric : a.spec.metrics.head? = some metric)
      (hread : s.demand? target.key = .ok (some d)) (hfresh : ¬ d.IsStale staleness now)
      (hcount : suggest target.replicas d metric = .ok n) : Course (.ok (clamp a.spec n))

theorem suggest_eq_error {current : Count} {d : Demand} {metric : Metric} {cause : EvaluationError}
    (h : suggest current d metric = .error cause) :
    ∃ policy fault, metric = .busyShare policy ∧
      (BusyRule.ofPolicy policy).fault? = some fault ∧ cause = .invalidMetric fault := by
  cases metric with
  | workflowRuns => cases h
  | busyShare policy =>
    unfold suggest at h
    dsimp only at h
    split at h
    · next fault hfault => exact ⟨policy, fault, rfl, hfault, (Except.error.inj h).symm⟩
    · cases h

theorem course_evaluate : Course staleness now s target a (evaluate staleness now s target a) := by
  unfold evaluate
  cases hmetrics : a.spec.metrics with
  | nil => exact .noMetrics hmetrics
  | cons metric rest =>
    have hmetric : a.spec.metrics.head? = some metric := by rw [hmetrics]; rfl
    unfold load
    cases hread : s.demand? target.key with
    | error cause => exact .unreadable hmetric hread
    | ok found =>
      cases found with
      | none => exact .noDemand hmetric hread
      | some d =>
        by_cases hstale : d.IsStale staleness now
        · simp only [Seconds.plus_lt_iff.2 hstale, if_true]
          exact .stale hmetric hread hstale
        · simp only [mt Seconds.plus_lt_iff.1 hstale, if_false]
          change Course _ _ _ _ _ (suggest target.replicas d metric >>= fun n =>
            .ok (clamp a.spec n))
          cases hcount : suggest target.replicas d metric with
          | ok n => exact .computed hmetric hread hstale hcount
          | error cause =>
            obtain ⟨policy, fault, rfl, hfault, rfl⟩ := suggest_eq_error hcount
            exact .invalid hmetric hread hstale hfault

def runsWithin (spec : AutoscalerSpec) (d : Demand) : Nat :=
  let raised :=
    max (min (d.queued.toNat + d.inProgress.toNat) Count.largest) (spec.minReplicas.getD 1).toNat
  match spec.maxReplicas with
  | some most => min raised most.toNat
  | none => raised

theorem toNat_clamp_runs (spec : AutoscalerSpec) (d : Demand) :
    (clamp spec (Count.plus d.queued d.inProgress)).toNat = runsWithin spec d := by
  unfold clamp runsWithin
  cases spec.maxReplicas with
  | none => simp only [Count.toNat_max, Count.toNat_plus]
  | some most => simp only [Count.toNat_min, Count.toNat_max, Count.toNat_plus]

structure AnswersFresh (r : Except EvaluationError Count) : Prop where
  noMetrics : r = .error .noMetrics ↔ a.spec.metrics = []
  noDemand : ∀ key, r = .error (.noDemand key) ↔
    a.spec.metrics ≠ [] ∧ s.demand? target.key = .ok none ∧ target.key = key
  staleDemand : ∀ key observedAt clock, r = .error (.staleDemand key observedAt clock) ↔
    a.spec.metrics ≠ [] ∧ ∃ d, s.demand? target.key = .ok (some d) ∧ d.IsStale staleness now ∧
      target.key = key ∧ d.observedAt = observedAt ∧ now = clock
  unavailable : ∀ reason, r = .error (.unavailable reason) ↔
    a.spec.metrics ≠ [] ∧ ∃ cause, s.demand? target.key = .error cause ∧ cause.message = reason
  runs : ∀ d, a.spec.metrics.head? = some .workflowRuns → s.demand? target.key = .ok (some d) →
    ¬ d.IsStale staleness now → ∃ n, r = .ok n ∧ n.toNat = runsWithin a.spec d

theorem answersFresh_of_course {r : Except EvaluationError Count}
    (h : Course staleness now s target a r) : AnswersFresh staleness now s target a r := by
  have hne : ∀ {metric}, a.spec.metrics.head? = some metric → a.spec.metrics ≠ [] := by
    rintro metric h hnil
    rw [hnil] at h
    cases h
  cases h with
  | noMetrics hmetrics => constructor <;> simp [hmetrics]
  | unreadable hmetric hread => constructor <;> simp [hne hmetric, hread]
  | noDemand hmetric hread => constructor <;> simp [hne hmetric, hread]
  | stale hmetric hread hstale => constructor <;> simp [hne hmetric, hread, hstale]
  | invalid hmetric hread hfresh hfault =>
    constructor <;> simp [hmetric, hne hmetric, hread, hfresh]
  | computed hmetric hread hfresh hcount =>
    constructor
    case runs =>
      intro d hruns hd _
      rw [hmetric] at hruns
      rw [hread] at hd
      cases hruns
      cases hd
      cases hcount
      exact ⟨_, rfl, toNat_clamp_runs a.spec _⟩
    all_goals simp [hne hmetric, hread, hfresh]

/-- Two evaluations find the same. -/
structure FindsSame (s s' : Store) (target target' : Deployment) (a a' : Autoscaler) : Prop where
  metric : a.spec.metrics.head? = a'.spec.metrics.head?
  minReplicas : a.spec.minReplicas = a'.spec.minReplicas
  maxReplicas : a.spec.maxReplicas = a'.spec.maxReplicas
  key : target.key = target'.key
  replicas : target.replicas = target'.replicas
  demand : s.demand? target.key = s'.demand? target'.key

variable {staleness now s target a}

theorem evaluate_congr {staleness' : Duration} {s' : Store} {target' : Deployment}
    {a' : Autoscaler} (hstaleness : staleness.seconds = staleness'.seconds)
    (h : FindsSame s s' target target' a a') :
    evaluate staleness now s target a = evaluate staleness' now s' target' a' := by
  have hload : load s target.key staleness.seconds now =
      load s' target'.key staleness'.seconds now := by
    unfold load
    rw [h.demand, h.key, hstaleness]
  have hclamp : clamp a.spec = clamp a'.spec := by
    funext n
    unfold clamp
    rw [h.minReplicas, h.maxReplicas]
  have hmetric := h.metric
  unfold evaluate
  cases hmetrics : a.spec.metrics with
  | nil =>
    rw [hmetrics] at hmetric
    rw [List.head?_eq_none_iff.1 hmetric.symm]
  | cons metric rest =>
    rw [hmetrics] at hmetric
    obtain ⟨rest', hmetrics'⟩ := List.head?_eq_some_iff.1 hmetric.symm
    simp only [hmetrics', hload, hclamp, h.replicas]

/-- An evaluation answers from fresh demand alone, with the sums as they are in whole numbers, and
its answer depends on nothing but the first metric, the bounds, the target and its own demand. -/
theorem evaluate_from_fresh_demand (staleness : Duration) (now : Seconds) (s : Store)
    (target : Deployment) (a : Autoscaler) :
    AnswersFresh staleness now s target a (evaluate staleness now s target a) ∧
    ∀ staleness' s' target' a', staleness.seconds = staleness'.seconds →
      FindsSame s s' target target' a a' →
      evaluate staleness now s target a = evaluate staleness' now s' target' a' :=
  ⟨answersFresh_of_course _ _ _ _ _ (course_evaluate _ _ _ _ _),
    fun _ _ _ _ => evaluate_congr⟩

def futureDemand : Demand := ⟨"ci/runners", 4294967290, 7, 2, 1, 18446744073709551615⟩

def invertedBounds (more : List Metric) : Autoscaler where
  metadata := .fresh "ci" "builds"
  spec := ⟨"runners", some 9, some 5, none, .workflowRuns :: more, []⟩
  status := .empty

theorem evaluate_from_fresh_demand_futureDemand :
    ∃ n, evaluate (.ofSeconds 300) 1000 (Store.empty.putDemand futureDemand)
        ⟨.fresh "ci" "runners", .empty⟩ (invertedBounds []) = .ok n ∧ n.toNat = 5 ∧
      evaluate ⟨300, 5⟩ 1000
        ((Store.empty.putDemand ⟨"ci/linux", 1, 1, 1, 1, 1⟩).putDemand futureDemand)
        ⟨.fresh "ci" "runners", ⟨some 1, none, ["linux"]⟩⟩ (invertedBounds [.workflowRuns]) =
        .ok n := by
  obtain ⟨answers, same⟩ := evaluate_from_fresh_demand (.ofSeconds 300) 1000
    (Store.empty.putDemand futureDemand) ⟨.fresh "ci" "runners", .empty⟩ (invertedBounds [])
  have hread : (Store.empty.putDemand futureDemand).demand? "ci/runners" =
      .ok (some futureDemand) := by
    decide +kernel
  obtain ⟨n, hok, hn⟩ := answers.runs futureDemand rfl hread (by decide)
  refine ⟨n, hok, hn, ?_⟩
  exact (same _ _ _ _ rfl ⟨rfl, rfl, rfl, rfl, rfl, by decide +kernel⟩).symm.trans hok

end Snapshot

end RunnerFleet
