import RunnerFleet.Proofs.Decision.Count
import RunnerFleet.Proofs.Reconcile.Course

/-!
# What a pass does to the store

Apart from what other writers do, a pass that stops before its target write leaves the store alone,
and otherwise it changes one replica count, one status and their versions, and tells by an event of
every change of a count and of every failure to compute one. Storing a status also stores the
metrics anew as they have been read, so their doubles stay the same only if reading gives them back.
-/

namespace RunnerFleet

def Deployment.Rescaled (d d' : Deployment) : Prop :=
  d' = { metadata := { d.metadata with version := d'.metadata.version }
         spec := { d.spec with replicas := d'.spec.replicas } }

def Autoscaler.Restated (a a' : Autoscaler) : Prop :=
  a' = { a with
    metadata := { a.metadata with version := a'.metadata.version }
    status := a'.status }

/-- Every normal event of `t'` is one of `t`. -/
def NoNormalAdded (t t' : Table (Row Event)) : Prop :=
  ∀ key row e, t'.get? key = some row → row.read = .ok e → e.kind = .normal → t.get? key = some row

theorem NoNormalAdded.of_eventAdded {e : Event} {t t' : Table (Row Event)} (h : EventAdded e t t')
    (hkind : e.kind = .warning) : NoNormalAdded t t' := by
  obtain ⟨seq, hfree, rfl⟩ := h
  intro key row e' hrow hread hnormal
  rw [Table.get?_insert] at hrow
  by_cases hkey : key = e.tableKey seq
  · rw [if_pos hkey] at hrow
    cases hrow
    cases hread
    change e.kind = .normal at hnormal
    rw [hkind] at hnormal
    cases hnormal
  · rwa [if_neg hkey] at hrow

theorem NoNormalAdded.refl (t : Table (Row Event)) : NoNormalAdded t t := fun _ _ _ h _ _ => h

namespace Pass

structure WroteTarget (p : Pass) (w : World) (a : Autoscaler) (target : Deployment) (d : Decision)
    (replicas : Count) : Prop where
  stage_three : p.stageAt w 3 = .decided a target d
  patch : d.targetPatch = some replicas
  stage_four : p.stageAt w 4 = .scaled a d

/-- All that a pass may do apart from what the other writers do, but for the spec of its
autoscaler. -/
structure Accounted (p : Pass) (w : World) : Prop where
  notLoaded : ∀ r, p.stageAt w 2 = .finished r → p.after w = p.others w
  targetRefused : ∀ a target d r, p.stageAt w 3 = .decided a target d →
    p.stageAt w 4 = .finished r → p.after w = p.others w
  undecided : ∀ a target cause, p.stageAt w 2 = .targeted a target →
    p.engine.decide a target (p.evaluate w.store target a) p.now = .error cause →
    EventAdded (failureEvent a cause p.now) (p.others w).events (p.after w).events ∧
      p.after w = { p.others w with events := (p.after w).events }
  scaled : ∀ a target d replicas, p.WroteTarget w a target d replicas →
    ∃ before after, (p.othersAt w 4).deployment? a.targetKey = .ok (some before) ∧
      (p.worldAt w 4).store.deployment? a.targetKey = .ok (some after) ∧
      EventAdded (scaledEvent a before.replicas after.replicas p.now) (p.others w).events
        (p.after w).events
  notScaled : (¬ ∃ a target d replicas, p.WroteTarget w a target d replicas) →
    NoNormalAdded (p.others w).events (p.after w).events
  applied : ∀ d, (p.reconcile w).1 = .ok (.applied d) →
    ∃ a target, (p.after w).autoscaler? p.key = .ok (some a) ∧
      a.status.desired = some d.desired ∧
      (p.after w).deployment? a.targetKey = .ok (some target) ∧
      target.replicas = d.desired
  events : (p.after w).events = (p.others w).events ∨
    ∃ e, EventAdded e (p.others w).events (p.after w).events
  demand : (p.after w).demand = (p.others w).demand
  deployments : ∀ key,
    (p.after w).deployments.get? key = (p.others w).deployments.get? key ∨
      ∃ a target d d', p.stageAt w 2 = .targeted a target ∧ key = a.targetKey ∧
        (p.others w).deployment? key = .ok (some d) ∧
        (p.after w).deployment? key = .ok (some d') ∧ d.Rescaled d'
  autoscalers : ∀ key, key ≠ p.key →
    (p.after w).autoscalers.get? key = (p.others w).autoscalers.get? key

/-- All that a pass may do apart from what the other writers do. -/
structure Allowed (p : Pass) (w : World) : Prop extends p.Accounted w where
  autoscaler : (p.after w).autoscalers.get? p.key = (p.others w).autoscalers.get? p.key ∨
    ∃ a a', (p.others w).autoscaler? p.key = .ok (some a) ∧
      (p.after w).autoscaler? p.key = .ok (some a') ∧ a.Restated a'

section

variable {p : Pass} {w : World} {a : Autoscaler} {target : Deployment} {d : Decision}

theorem Scaled.work_end (h : p.Scaled w a target d)
    (store : p.after w = { (p.worldAt w 4).store with autoscalers := (p.after w).autoscalers })
    (others : p.others w = { p.othersAt w 4 with autoscalers := (p.others w).autoscalers }) :
    (p.others w).deployment? a.targetKey = .ok (some target) ∧
      TargetWork p a target d (p.others w) (p.after w) := by
  rw [store, others]
  exact ⟨h.target_found, h.work.of_tables _ _⟩

inductive Work (p : Pass) (w : World) : Prop
  | none (store : p.after w = p.others w)
  | warning {a : Autoscaler} {cause : EvaluationError}
      (store : p.after w = (p.others w).recordEvent (failureEvent a cause p.now))
  | writes {a : Autoscaler} {target : Deployment} {d : Decision} (scaled : p.Scaled w a target d)
      (found : (p.others w).deployment? a.targetKey = .ok (some target))
      (work : TargetWork p a target d (p.others w) (p.after w))
      (status : StatusWork p a d (p.others w) (p.after w) (p.reconcile w).1)

theorem work (p : Pass) (w : World) : p.Work w := by
  cases p.course w with
  | notLoaded stage notApplied result store others => exact .none (by rw [store, others])
  | undecided loaded failure stage result store others =>
    exact .warning (by rw [store, others])
  | targetRefused decided patch stage result store => exact .none store
  | scaled scaled store others status =>
    obtain ⟨found, work⟩ := scaled.work_end store others
    exact .writes scaled found work status

theorem deployment?_of_written {s : Store} {o : Table (Row Deployment)} {key : String}
    {replicas : Count}
    (h : s.deployments = o.insert key (.written (target.scaledTo replicas))) :
    s.deployment? key = .ok (some (target.scaledTo replicas)) := by
  rw [Store.deployment?, h, Table.read?_insert_written, if_pos rfl]
  rfl

theorem autoscaler?_of_written {s : Store} {o : Table (Row Autoscaler)} {key : String}
    {status : AutoscalerStatus}
    (h : s.autoscalers = o.insert key (.written (a.publishing status))) :
    s.autoscaler? key = .ok (some (a.reread.publishing status)) := by
  rw [Store.autoscaler?, h, Table.read?_insert_written, if_pos rfl]
  rfl

theorem TargetWork.desired {o after : Store} (h : TargetWork p a target d o after)
    (found : o.deployment? a.targetKey = .ok (some target))
    (decision : d.targetPatch.getD target.replicas = d.desired) :
    ∃ target', after.deployment? a.targetKey = .ok (some target') ∧
      target'.replicas = d.desired := by
  cases h with
  | untouched patch deployments demand events =>
    refine ⟨target, ?_, ?_⟩
    · rw [Store.deployment?, deployments]
      exact found
    · rw [patch] at decision
      exact decision
  | @written replicas patch deployments demand events =>
    refine ⟨target.scaledTo replicas, deployment?_of_written deployments, ?_⟩
    rw [patch] at decision
    exact decision

theorem StatusWork.applied {o after : Store} {r : PassResult} {d' : Decision}
    (h : StatusWork p a d o after r) (hr : r = .ok (.applied d')) :
    d' = d ∧ o.autoscaler? p.key = .ok (some a) ∧
      (d.statusPatch = none ∧ after.autoscalers = o.autoscalers ∨
        ∃ status, d.statusPatch = some status ∧ after.autoscalers =
          o.autoscalers.insert p.key (.written (a.publishing status))) := by
  cases h with
  | refused patch autoscalers => exact absurd hr (notApplied_refusedStatus _ _ d')
  | untouched patch found autoscalers =>
    cases hr
    exact ⟨rfl, found, .inl ⟨patch, autoscalers⟩⟩
  | written patch found autoscalers =>
    cases hr
    exact ⟨rfl, found, .inr ⟨_, patch, autoscalers⟩⟩

theorem StatusWork.desired {o after : Store} {r : PassResult} {d' : Decision}
    (h : StatusWork p a d o after r) (hr : r = .ok (.applied d'))
    (decision : (d.statusPatch.getD a.status).desired = some d.desired) :
    ∃ a', after.autoscaler? p.key = .ok (some a') ∧ a'.status.desired = some d'.desired ∧
      a'.targetKey = a.targetKey := by
  obtain ⟨rfl, found, ⟨patch, autoscalers⟩ | ⟨status, patch, autoscalers⟩⟩ := h.applied hr
  · rw [patch] at decision
    refine ⟨a, ?_, decision, rfl⟩
    rw [Store.autoscaler?, autoscalers]
    exact found
  · rw [patch] at decision
    exact ⟨a.reread.publishing status, autoscaler?_of_written autoscalers, decision, rfl⟩

theorem stage_of_finished {r : PassResult} (h : p.stageAt w 2 = .finished r) :
    p.stageAt w 3 = .finished r ∧ p.stageAt w 4 = .finished r :=
  ⟨(idle_of_finished h 1).1, (idle_of_finished h 2).1⟩

theorem after_eq_others_of_notLoaded {r : PassResult} (h : p.stageAt w 2 = .finished r) :
    p.after w = p.others w := by
  cases p.course w with
  | notLoaded stage notApplied result store others => rw [store, others]
  | undecided loaded failure stage result store others =>
    rw [loaded.stage_two] at h
    cases h
  | targetRefused decided patch stage result store => exact store
  | scaled scaled store others status =>
    rw [scaled.stage_two] at h
    cases h

theorem after_eq_others_of_targetRefused {r : PassResult}
    (hdecided : p.stageAt w 3 = .decided a target d) (h : p.stageAt w 4 = .finished r) :
    p.after w = p.others w := by
  cases p.course w with
  | notLoaded stage notApplied result store others => rw [store, others]
  | undecided loaded failure stage result store others =>
    rw [stage] at hdecided
    cases hdecided
  | targetRefused decided patch stage result store => exact store
  | scaled scaled store others status =>
    rw [scaled.stage_four] at h
    cases h

/-- An evaluator that fails leads to a warning and to nothing else. -/
theorem warning_of_undecided {cause : EvaluationError}
    (hloaded : p.stageAt w 2 = .targeted a target)
    (h : p.engine.decide a target (p.evaluate w.store target a) p.now = .error cause) :
    EventAdded (failureEvent a cause p.now) (p.others w).events (p.after w).events ∧
      p.after w = { p.others w with events := (p.after w).events } := by
  cases p.course w with
  | notLoaded stage notApplied result store others =>
    rw [stage] at hloaded
    cases hloaded
  | undecided loaded failure stage result store others =>
    rw [loaded.stage_two] at hloaded
    cases hloaded
    rw [h] at failure
    cases failure
    rw [store, others]
    exact ⟨Store.eventAdded_recordEvent _ _, rfl⟩
  | targetRefused decided patch stage result store =>
    rw [decided.stage_two] at hloaded
    cases hloaded
    rw [decided.decision] at h
    cases h
  | scaled scaled store others status =>
    rw [scaled.stage_two] at hloaded
    cases hloaded
    rw [scaled.decision] at h
    cases h

/-- A target write that is made is told by an event with the counts just before and after. -/
theorem event_of_wroteTarget {replicas : Count} (h : p.WroteTarget w a target d replicas) :
    ∃ before after, (p.othersAt w 4).deployment? a.targetKey = .ok (some before) ∧
      (p.worldAt w 4).store.deployment? a.targetKey = .ok (some after) ∧
      EventAdded (scaledEvent a before.replicas after.replicas p.now) (p.others w).events
        (p.after w).events := by
  cases p.course w with
  | notLoaded stage notApplied result store others =>
    have hstage := (stage_of_finished stage).1
    rw [h.stage_three] at hstage
    cases hstage
  | undecided loaded failure stage result store others =>
    rw [h.stage_three] at stage
    cases stage
  | targetRefused decided patch stage result store =>
    rw [h.stage_four] at stage
    cases stage
  | scaled scaled store others status =>
    have hstage := scaled.stage_three
    rw [h.stage_three] at hstage
    cases hstage
    refine ⟨target, target.scaledTo replicas, scaled.target_found, ?_, ?_⟩
    · cases scaled.work with
      | untouched patch deployments demand events =>
        rw [h.patch] at patch
        cases patch
      | written patch deployments demand events =>
        rw [h.patch] at patch
        cases patch
        exact deployment?_of_written deployments
    · cases (scaled.work_end store others).2 with
      | untouched patch deployments demand events =>
        rw [h.patch] at patch
        cases patch
      | written patch deployments demand events =>
        rw [h.patch] at patch
        cases patch
        exact events

theorem noNormalAdded_of_not_wroteTarget
    (h : ¬ ∃ a target d replicas, p.WroteTarget w a target d replicas) :
    NoNormalAdded (p.others w).events (p.after w).events := by
  cases p.work w with
  | none store =>
    rw [store]
    exact .refl _
  | warning store =>
    rw [store]
    exact .of_eventAdded (Store.eventAdded_recordEvent _ _) rfl
  | @writes a target d scaled found work status =>
    cases work with
    | untouched patch deployments demand events =>
      rw [events]
      exact .refl _
    | @written replicas patch deployments demand events =>
      exact absurd ⟨a, target, d, replicas, scaled.stage_three, patch, scaled.stage_four⟩ h

/-- What an applied pass has decided stands in the store. -/
theorem desired_of_applied (h : (p.reconcile w).1 = .ok (.applied d)) :
    ∃ a target, (p.after w).autoscaler? p.key = .ok (some a) ∧
      a.status.desired = some d.desired ∧
      (p.after w).deployment? a.targetKey = .ok (some target) ∧ target.replicas = d.desired := by
  cases p.course w with
  | notLoaded stage notApplied result store others =>
    rw [result] at h
    exact absurd h (notApplied d)
  | undecided loaded failure stage result store others =>
    rw [result] at h
    cases h
  | targetRefused decided patch stage result store =>
    rw [result] at h
    exact absurd h (notApplied_refusedTarget _ _ d)
  | scaled scaled store others status =>
    obtain ⟨htarget, hstatus⟩ := p.engine.desired_of_decide _ _ scaled.decision
    obtain ⟨found, work⟩ := scaled.work_end store others
    obtain ⟨rfl, -, -⟩ := status.applied h
    obtain ⟨a', ha, hdesired, hkey⟩ := status.desired h hstatus
    obtain ⟨target', htarget', hreplicas⟩ := work.desired found htarget
    rw [← hkey] at htarget'
    exact ⟨a', target', ha, hdesired, htarget', hreplicas⟩

theorem demand_after (p : Pass) (w : World) : (p.after w).demand = (p.others w).demand := by
  cases p.work w with
  | none store => rw [store]
  | warning store =>
    rw [store]
    rfl
  | writes scaled found work status =>
    cases work with
    | untouched patch deployments demand events => exact demand
    | written patch deployments demand events => exact demand

theorem events_after (p : Pass) (w : World) :
    (p.after w).events = (p.others w).events ∨
      ∃ e, EventAdded e (p.others w).events (p.after w).events := by
  cases p.work w with
  | none store => exact .inl (by rw [store])
  | warning store =>
    rw [store]
    exact .inr ⟨_, Store.eventAdded_recordEvent _ _⟩
  | writes scaled found work status =>
    cases work with
    | untouched patch deployments demand events => exact .inl events
    | written patch deployments demand events => exact .inr ⟨_, events⟩

theorem deployments_after (p : Pass) (w : World) (key : String) :
    (p.after w).deployments.get? key = (p.others w).deployments.get? key ∨
      ∃ a target d d', p.stageAt w 2 = .targeted a target ∧ key = a.targetKey ∧
        (p.others w).deployment? key = .ok (some d) ∧
        (p.after w).deployment? key = .ok (some d') ∧ d.Rescaled d' := by
  cases p.work w with
  | none store => exact .inl (by rw [store])
  | warning store =>
    rw [store]
    exact .inl rfl
  | @writes a target d scaled found work status =>
    cases work with
    | untouched patch deployments demand events => exact .inl (by rw [deployments])
    | @written replicas patch deployments demand events =>
      by_cases hkey : key = a.targetKey
      · subst hkey
        exact .inr ⟨a, target, target, target.scaledTo replicas, scaled.stage_two, rfl,
          found, deployment?_of_written deployments, rfl⟩
      · rw [deployments, Table.get?_insert, if_neg hkey]
        exact .inl rfl

/-- The table of autoscalers after a pass: as it was, or with one row stored anew. -/
theorem autoscalers_after (p : Pass) (w : World) :
    (p.after w).autoscalers = (p.others w).autoscalers ∨
      ∃ a d status, (p.others w).autoscaler? p.key = .ok (some a) ∧
        p.stageAt w 4 = .scaled a d ∧ d.statusPatch = some status ∧
        (p.reconcile w).1 = .ok (.applied d) ∧
        (p.after w).autoscalers =
          (p.others w).autoscalers.insert p.key (.written (a.publishing status)) := by
  cases p.work w with
  | none store => exact .inl (by rw [store])
  | warning store =>
    rw [store]
    exact .inl rfl
  | @writes a target d scaled found work status =>
    generalize (p.reconcile w).1 = r at status
    cases status with
    | refused patch autoscalers => exact .inl autoscalers
    | untouched patch found autoscalers => exact .inl autoscalers
    | @written s patch found autoscalers =>
      exact .inr ⟨a, d, s, found, scaled.stage_four, patch, rfl, autoscalers⟩

theorem accounted (p : Pass) (w : World) : p.Accounted w where
  notLoaded _ h := after_eq_others_of_notLoaded h
  targetRefused _ _ _ _ hdecided h := after_eq_others_of_targetRefused hdecided h
  undecided _ _ _ hloaded h := warning_of_undecided hloaded h
  scaled _ _ _ _ h := event_of_wroteTarget h
  notScaled h := noNormalAdded_of_not_wroteTarget h
  applied _ h := desired_of_applied h
  events := p.events_after w
  demand := p.demand_after w
  deployments := p.deployments_after w
  autoscalers key hkey := by
    obtain heq | ⟨a, d, status, -, -, -, -, heq⟩ := p.autoscalers_after w
    · rw [heq]
    · rw [heq, Table.get?_insert, if_neg hkey]

/-- A pass that stores a status has read metrics that reading gives back as they are. -/
def MetricsSurvive (p : Pass) (w : World) : Prop :=
  ∀ a d, p.stageAt w 4 = .scaled a d → d.statusPatch.isSome →
    (p.reconcile w).1 = .ok (.applied d) → a.reread = a

theorem restated_publishing_iff (a : Autoscaler) (status : AutoscalerStatus) :
    a.Restated (a.reread.publishing status) ↔ a.reread = a := by
  constructor
  · intro h
    have hspec := congrArg Autoscaler.spec h
    change a.reread.spec = a.spec at hspec
    change { a with spec := a.reread.spec } = a
    rw [hspec]
  · intro h
    rw [h]
    rfl

theorem written_of_applied (hstage : p.stageAt w 4 = .scaled a d) (hpatch : d.statusPatch.isSome)
    (h : (p.reconcile w).1 = .ok (.applied d)) :
    (p.others w).autoscaler? p.key = .ok (some a) ∧
      ∃ status, (p.after w).autoscalers =
        (p.others w).autoscalers.insert p.key (.written (a.publishing status)) := by
  cases p.course w with
  | notLoaded stage notApplied result store others =>
    rw [(stage_of_finished stage).2] at hstage
    cases hstage
  | undecided loaded failure stage result store others =>
    rw [result] at h
    cases h
  | targetRefused decided patch stage result store =>
    rw [stage] at hstage
    cases hstage
  | scaled scaled store others status =>
    rw [scaled.stage_four] at hstage
    cases hstage
    obtain ⟨-, found, ⟨patch, -⟩ | ⟨s, -, autoscalers⟩⟩ := status.applied h
    · rw [patch] at hpatch
      cases hpatch
    · exact ⟨found, s, autoscalers⟩

/-- A pass does nothing but what it may exactly if the metrics that it stores anew are read back as
they were. -/
theorem allowed_iff (p : Pass) (w : World) : p.Allowed w ↔ p.MetricsSurvive w := by
  constructor
  · intro h a d hstage hpatch hresult
    obtain ⟨found, status, autoscalers⟩ := written_of_applied hstage hpatch hresult
    have hread := autoscaler?_of_written autoscalers
    obtain hsame | ⟨x, x', hx, hx', restated⟩ := h.autoscaler
    -- the row cannot have been so before, since it has another version now
    · have hback : (p.others w).autoscaler? p.key = (p.after w).autoscaler? p.key := by
        rw [Store.autoscaler?, Store.autoscaler?, Table.read?, Table.read?, hsame]
      rw [found, hread] at hback
      have hversion := congrArg (fun a => a.metadata.version)
        (Option.some.inj (Except.ok.inj hback))
      exact absurd hversion.symm (nextVersion_ne _)
    · rw [found] at hx
      rw [hread] at hx'
      cases hx
      cases hx'
      exact (restated_publishing_iff a status).1 restated
  · intro h
    refine ⟨p.accounted w, ?_⟩
    obtain heq | ⟨a, d, status, found, hstage, hpatch, hresult, heq⟩ := p.autoscalers_after w
    · exact .inl (by rw [heq])
    · have hsurvive := h a d hstage (by rw [hpatch]; rfl) hresult
      exact .inr ⟨a, a.reread.publishing status, found, autoscaler?_of_written heq,
        (restated_publishing_iff a status).2 hsurvive⟩

end

def threeNeeded : Pass where
  key := "ci/builds"
  now := 100
  engine := ⟨.ofSeconds 60, .ofSeconds 600⟩
  evaluate _ _ _ := .ok 3

/-- One deployment, and an autoscaler that shrinks it below a busy share of 5.591287406077752e-8.
This double and its neighbour 5.5912874060777524e-8 are each read as the other. -/
def neighbouringShares : World :=
  .ofStore <| Store.empty.run
    [.createDeployment ⟨.fresh "ci" "runners", .empty⟩,
     .createAutoscaler
      { metadata := .fresh "ci" "builds"
        spec :=
          { targetName := "runners"
            minReplicas := none
            maxReplicas := none
            scaleDownDelay := none
            metrics := [.busyShare ⟨none, some (.ofBits 4498538143126001387), none, none⟩]
            reservations := [] }
        status := .empty }]

theorem not_allowed_neighbouringShares : ¬ threeNeeded.Allowed neighbouringShares := by
  intro h
  obtain hsame | ⟨a, a', ha, ha', restated⟩ := h.autoscaler
  · exact absurd hsame (by decide +kernel)
  · have hspec : ((threeNeeded.after neighbouringShares).autoscaler? threeNeeded.key).map
          (Option.map Autoscaler.spec) =
        ((threeNeeded.others neighbouringShares).autoscaler? threeNeeded.key).map
          (Option.map Autoscaler.spec) := by
      rw [ha, ha', restated]
      rfl
    exact absurd hspec (by decide +kernel)

end Pass

end RunnerFleet
