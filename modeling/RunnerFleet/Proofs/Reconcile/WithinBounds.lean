import RunnerFleet.Proofs.Decision.Bounds
import RunnerFleet.Proofs.Reconcile.Convergence

/-!
# Counts within the bounds over whole runs

An autoscaler starts with an empty status, and only passes with the evaluator of recorded demand
write its status. Between two passes anyone may do anything else, as long as its bounds stay. Then
every count that a pass decides on, publishes or writes to the target lies within the bounds, also
where earlier passes were interfered with or failed halfway.
-/

namespace RunnerFleet

structure Autoscaler.Bounded (b : Bounds) (a : Autoscaler) : Prop where
  bounds : a.spec.bounds = b
  counts : ∀ n ∈ a.status.counts, b.Contains n

/-- The autoscaler under `key`, if there is one, keeps to the bounds. -/
def Store.Bounded (key : String) (b : Bounds) (s : Store) : Prop :=
  ∀ ⦃a⦄, s.autoscaler? key = .ok (some a) → a.Bounded b

theorem Autoscaler.Bounded.of_status {b : Bounds} {a a' : Autoscaler} (h : a.Bounded b)
    (hbounds : a'.spec.bounds = b) (hstatus : a'.status = a.status) : a'.Bounded b :=
  ⟨hbounds, by rw [hstatus]; exact h.counts⟩

theorem Autoscaler.Bounded.of_empty {b : Bounds} {a : Autoscaler} (hbounds : a.spec.bounds = b)
    (hstatus : a.status = .empty) : a.Bounded b := by
  refine ⟨hbounds, ?_⟩
  rw [hstatus]
  exact nofun

namespace Pass

def AsksDemand (p : Pass) : Prop :=
  ∃ staleness clock, p.evaluate = Snapshot.evaluate staleness clock

variable {p : Pass} {w : World} {b : Bounds} {a : Autoscaler} {target : Deployment} {d : Decision}

/-- The other writers at the writes of a pass at most put its autoscaler back. -/
theorem rewritten_of_othersAt {n : Nat}
    (h : (p.othersAt w n).autoscaler? p.key = .ok (some a)) :
    ∃ x, w.store.autoscaler? p.key = .ok (some x) ∧ Versioned.Rewritten x a := by
  induction n generalizing a with
  | zero => exact ⟨a, h, .refl a⟩
  | succ n ih =>
    rw [othersAt_succ] at h
    have hstep : ∃ x, (p.othersAt w n).autoscaler? p.key = .ok (some x) ∧
        Versioned.Rewritten x a := by
      unfold meanwhile at h
      split at h
      · split at h <;> exact ⟨a, h, .refl a⟩
      · split at h
        · by_cases hdelete : ((p.worldAt w n).next .status p.key).1 = .delete
          · rw [hdelete, Store.autoscaler?, Interference.onTable, Table.read?_erase,
              if_pos rfl] at h
            cases h
          · exact Interference.rewritten_of_onTable hdelete h
        · exact ⟨a, h, .refl a⟩
      · exact ⟨a, h, .refl a⟩
    obtain ⟨y, hy, hrewritten⟩ := hstep
    obtain ⟨x, hx, hfirst⟩ := ih hy
    exact ⟨x, hx, hfirst.trans hrewritten⟩

theorem bounded_others (h : w.store.Bounded p.key b) : (p.others w).Bounded p.key b := by
  intro a ha
  obtain ⟨x, hx, hrewritten⟩ := rewritten_of_othersAt ha
  have hbounded := h hx
  have heq := Autoscaler.eq_of_rewritten hrewritten
  refine hbounded.of_status ?_ (by rw [heq])
  rw [← hbounded.bounds, heq]
  rfl

theorem Decided.contains (h : p.Decided w a target d) (hasks : p.AsksDemand)
    (hstore : w.store.Bounded p.key b) :
    b.Contains d.desired ∧ ∀ n ∈ (d.statusPatch.getD a.status).counts, b.Contains n := by
  obtain ⟨rfl, hcounts⟩ := hstore h.autoscaler_read
  obtain ⟨staleness, clock, hevaluate⟩ := hasks
  refine p.engine.contains_of_decide a target hcounts (fun c hc => ?_) h.decision
  rw [hevaluate] at hc
  exact Snapshot.contains_of_evaluate hc

theorem bounded_after (hasks : p.AsksDemand) (h : w.store.Bounded p.key b) :
    (p.after w).Bounded p.key b := by
  have hothers := bounded_others h
  intro x hx
  cases p.work w with
  | none store =>
    rw [store] at hx
    exact hothers hx
  | warning store =>
    rw [store] at hx
    exact hothers hx
  | @writes a target d scaled found work status =>
    generalize (p.reconcile w).1 = r at status
    cases status with
    | refused patch autoscalers =>
      rw [Store.autoscaler?, autoscalers] at hx
      exact hothers hx
    | untouched patch found autoscalers =>
      rw [Store.autoscaler?, autoscalers] at hx
      exact hothers hx
    | @written status patch found autoscalers =>
      rw [autoscaler?_of_written autoscalers] at hx
      cases hx
      obtain ⟨-, hcounts⟩ := scaled.contains hasks h
      rw [patch] at hcounts
      exact ⟨(h scaled.autoscaler_read).bounds, hcounts⟩

theorem decided_of_stage (h : p.stageAt w 3 = .decided a target d) : p.Decided w a target d := by
  cases p.course w with
  | notLoaded stage notApplied result store others =>
    rw [(stage_of_finished stage).1] at h
    cases h
  | undecided loaded failure stage result store others =>
    rw [stage] at h
    cases h
  | targetRefused decided patch stage result store =>
    have hstage := decided.stage_three
    rw [h] at hstage
    cases hstage
    exact decided
  | scaled scaled store others status =>
    have hstage := scaled.stage_three
    rw [h] at hstage
    cases hstage
    exact scaled.toDecided

/-- Everything that the pass decides, publishes or writes to the target lies within the bounds. -/
structure KeepsWithin (p : Pass) (w : World) (b : Bounds) : Prop where
  decided : ∀ a target d, p.stageAt w 3 = .decided a target d → b.Contains d.desired
  applied : ∀ d, (p.reconcile w).1 = .ok (.applied d) → b.Contains d.desired
  published : ∀ a n, (p.after w).autoscaler? p.key = .ok (some a) → a.status.desired = some n →
    b.Contains n
  written : ∀ key,
    (p.after w).deployments.get? key = (p.others w).deployments.get? key ∨
      ∃ target, (p.after w).deployments.get? key = some (.written target) ∧
        b.Contains target.replicas

theorem deployments_within (hasks : p.AsksDemand) (h : w.store.Bounded p.key b) (key : String) :
    (p.after w).deployments.get? key = (p.others w).deployments.get? key ∨
      ∃ target, (p.after w).deployments.get? key = some (.written target) ∧
        b.Contains target.replicas := by
  cases p.work w with
  | none store => exact .inl (by rw [store])
  | warning store =>
    rw [store]
    exact .inl rfl
  | @writes a target d scaled found work status =>
    cases work with
    | untouched patch deployments demand events => exact .inl (by rw [deployments])
    | @written replicas patch deployments demand events =>
      rw [deployments, Table.get?_insert]
      by_cases hkey : key = a.targetKey
      · have hdesired := (p.engine.desired_of_decide _ _ scaled.decision).1
        rw [patch] at hdesired
        refine .inr ⟨target.scaledTo replicas, if_pos hkey, ?_⟩
        change b.Contains replicas
        rw [show replicas = d.desired from hdesired]
        exact (scaled.contains hasks h).1
      · exact .inl (if_neg hkey)

theorem keepsWithin (hasks : p.AsksDemand) (h : w.store.Bounded p.key b) : p.KeepsWithin w b where
  decided _ _ _ hstage := ((decided_of_stage hstage).contains hasks h).1
  applied d happlied := by
    obtain ⟨a, target, ha, hdesired, -, -⟩ := desired_of_applied happlied
    refine (bounded_after hasks h ha).counts _ (List.mem_append_left _ ?_)
    rw [hdesired]
    exact List.mem_singleton_self _
  published a n ha hdesired := by
    refine (bounded_after hasks h ha).counts n (List.mem_append_left _ ?_)
    rw [hdesired]
    exact List.mem_singleton_self n
  written := deployments_within hasks h

end Pass

/-- The worlds of a run in which the autoscaler under `key` starts with an empty status and is
driven by recorded demand alone. Between two passes all else may change: the demand, the metrics,
the reservations, the target and whatever waits to interfere with the next pass. -/
inductive Driven (key : String) (b : Bounds) : World → Prop
  | start {w : World}
      (fresh : ∀ a, w.store.autoscaler? key = .ok (some a) →
        a.spec.bounds = b ∧ a.status = .empty) : Driven key b w
  | pass {w : World} {p : Pass} (earlier : Driven key b w) (about : p.key = key)
      (asks : p.AsksDemand) : Driven key b (p.reconcile w).2
  | others {w w' : World} (earlier : Driven key b w)
      (kept : ∀ a', w'.store.autoscaler? key = .ok (some a') →
        a'.spec.bounds = b ∧ (a'.status = .empty ∨
          ∃ a, w.store.autoscaler? key = .ok (some a) ∧ a'.status = a.status)) : Driven key b w'

theorem Driven.bounded {key : String} {b : Bounds} {w : World} (h : Driven key b w) :
    w.store.Bounded key b := by
  induction h with
  | start fresh =>
    intro a ha
    obtain ⟨hbounds, hstatus⟩ := fresh a ha
    exact .of_empty hbounds hstatus
  | pass earlier about asks ih =>
    rw [← about] at ih ⊢
    exact Pass.bounded_after asks ih
  | others earlier kept ih =>
    intro a' ha'
    obtain ⟨hbounds, hstatus | ⟨a, ha, hstatus⟩⟩ := kept a' ha'
    · exact .of_empty hbounds hstatus
    · exact (ih ha).of_status hbounds hstatus

/-- No decision exceeds the ceiling, whatever stands in the status. And no pass of a run by recorded
demand decides on, publishes or writes to the target a count outside the bounds. -/
theorem counts_within_bounds {key : String} {b : Bounds} {w : World} (h : Driven key b w)
    {p : Pass} (hkey : p.key = key) (hasks : p.AsksDemand) :
    (∀ (e : Engine) (a : Autoscaler) (target : Deployment)
      (candidate : Except EvaluationError Count) (now : Seconds) (d : Decision),
      e.decide a target candidate now = .ok d →
        ∀ most, a.spec.maxReplicas = some most → d.desired ≤ most) ∧
    p.KeepsWithin w b := by
  refine ⟨fun e a target candidate now d hd most hmost => ?_, ?_⟩
  · exact e.desired_le_of_decide a target hd hmost
  · have hbounded := h.bounded
    rw [← hkey] at hbounded
    exact Pass.keepsWithin hasks hbounded

def invertedBounds : World :=
  .ofStore <| Store.empty.run
    [.createDeployment ⟨.fresh "ci" "runners", .empty⟩,
     .createAutoscaler
      ⟨.fresh "ci" "builds", ⟨"runners", some 5, some 3, none, [.workflowRuns], []⟩, .empty⟩,
     .putDemand ⟨"ci/runners", 9, 0, 0, 0, 90⟩]

def Pass.byDemand (now : Seconds) : Pass :=
  ⟨"ci/builds", now, ⟨.ofSeconds 60, .ofSeconds 600⟩, Snapshot.evaluate (.ofSeconds 300) now⟩

/-- After a first pass four replicas are reserved, no run waits any more, and another writer is
about to put the autoscaler back. -/
def invertedBoundsLater : World :=
  { store := ((Pass.byDemand 100).after invertedBounds).run
      [.addReservation "ci/builds" ⟨4, 900⟩ 120, .putDemand ⟨"ci/runners", 0, 0, 0, 0, 190⟩]
    pending := [⟨.status, "ci/builds", .touch⟩]
    evaluations := 0 }

theorem counts_within_invertedBounds :
    Driven "ci/builds" ⟨some 5, some 3⟩ invertedBoundsLater ∧
      (Pass.byDemand 200).KeepsWithin invertedBoundsLater ⟨some 5, some 3⟩ := by
  have hstart : invertedBounds.store.autoscaler? "ci/builds" =
      .ok (some ⟨⟨"ci", "builds", 1, none⟩,
        ⟨"runners", some 5, some 3, none, [.workflowRuns], []⟩, .empty⟩) := by
    decide +kernel
  have hfirst : ((Pass.byDemand 100).after invertedBounds).autoscaler? "ci/builds" =
      .ok (some ⟨⟨"ci", "builds", 2, none⟩,
        ⟨"runners", some 5, some 3, none, [.workflowRuns], []⟩,
        ⟨some 3, some 100, [⟨.desiredReplicas, 3, 160⟩]⟩⟩) := by
    decide +kernel
  have hlater : invertedBoundsLater.store.autoscaler? "ci/builds" =
      .ok (some ⟨⟨"ci", "builds", 3, none⟩,
        ⟨"runners", some 5, some 3, none, [.workflowRuns], [⟨4, 900⟩]⟩,
        ⟨some 3, some 100, [⟨.desiredReplicas, 3, 160⟩]⟩⟩) := by
    decide +kernel
  have hstarted : Driven "ci/builds" ⟨some 5, some 3⟩ invertedBounds := by
    refine .start fun a ha => ?_
    rw [hstart] at ha
    cases ha
    exact ⟨rfl, rfl⟩
  have hpassed := hstarted.pass (p := .byDemand 100) rfl ⟨_, 100, rfl⟩
  have hdriven : Driven "ci/builds" ⟨some 5, some 3⟩ invertedBoundsLater := by
    refine hpassed.others fun a' ha' => ?_
    rw [hlater] at ha'
    cases ha'
    exact ⟨rfl, .inr ⟨_, hfirst, rfl⟩⟩
  exact ⟨hdriven, (counts_within_bounds hdriven rfl ⟨_, 200, rfl⟩).2⟩

end RunnerFleet
