import RunnerFleet.Proofs.Reconcile.Gateway
import RunnerFleet.Proofs.Store.Event
import RunnerFleet.Reconcile.Pass

/-!
# The courses of a pass

A pass fails to load, fails to decide, is refused at one of its two writes, or is applied. Beside
its steps runs the store that the other writers alone would have left, so that what the pass itself
has done is the difference of two stores.
-/

namespace RunnerFleet

namespace Pass

section

variable (p : Pass) (w : World)

def stageAt (n : Nat) : Stage := (p.steps n (.begun, w)).1

def worldAt (n : Nat) : World := (p.steps n (.begun, w)).2

def meanwhile (stage : Stage) (w : World) (s : Store) : Store :=
  match stage with
  | .decided a _ d =>
    if d.targetPatch.isSome then
      { s with deployments := (w.next .target a.targetKey).1.onTable a.targetKey s.deployments }
    else s
  | .scaled _ d =>
    if d.statusPatch.isSome then
      { s with autoscalers := (w.next .status p.key).1.onTable p.key s.autoscalers }
    else s
  | _ => s

def othersAt : Nat → Store
  | 0 => w.store
  | n + 1 => p.meanwhile (p.stageAt w n) (p.worldAt w n) (othersAt n)

theorem steps_succ (n : Nat) (x : Stage × World) :
    p.steps (n + 1) x = p.step (p.steps n x).1 (p.steps n x).2 := by
  induction n generalizing x with
  | zero => rfl
  | succ n ih => exact ih (p.step x.1 x.2)

theorem stageAt_succ (n : Nat) :
    p.stageAt w (n + 1) = (p.step (p.stageAt w n) (p.worldAt w n)).1 := by
  unfold stageAt
  rw [steps_succ]
  rfl

theorem worldAt_succ (n : Nat) :
    p.worldAt w (n + 1) = (p.step (p.stageAt w n) (p.worldAt w n)).2 := by
  unfold worldAt
  rw [steps_succ]
  rfl

theorem othersAt_succ (n : Nat) :
    p.othersAt w (n + 1) = p.meanwhile (p.stageAt w n) (p.worldAt w n) (p.othersAt w n) := rfl

theorem reconcile_eq : p.reconcile w = (result (p.stageAt w length), p.worldAt w length) := rfl

variable {p w} {n : Nat} {r : PassResult}

/-- Nothing happens in the steps that are left once a pass has finished. -/
theorem idle_of_finished (h : p.stageAt w n = .finished r) (k : Nat) :
    p.stageAt w (n + k) = .finished r ∧ p.worldAt w (n + k) = p.worldAt w n ∧
      p.othersAt w (n + k) = p.othersAt w n := by
  induction k with
  | zero => exact ⟨h, rfl, rfl⟩
  | succ k ih =>
    obtain ⟨hs, hw, ho⟩ := ih
    rw [← Nat.add_assoc, stageAt_succ, worldAt_succ, othersAt_succ, hs, hw, ho]
    exact ⟨rfl, rfl, rfl⟩

end

variable (p : Pass) (w : World)

def NotApplied (r : PassResult) : Prop := ∀ d, r ≠ .ok (.applied d)

structure Loaded (a : Autoscaler) (target : Deployment) : Prop where
  stage_two : p.stageAt w 2 = .targeted a target
  world_two : p.worldAt w 2 = w
  others_two : p.othersAt w 2 = w.store
  autoscaler_read : w.store.autoscaler? p.key = .ok (some a)
  autoscaler_stays : a.metadata.isDeleting = false
  target_read : w.store.deployment? a.targetKey = .ok (some target)
  target_stays : target.metadata.isDeleting = false

structure Decided (a : Autoscaler) (target : Deployment) (d : Decision) : Prop
    extends p.Loaded w a target where
  decision : p.engine.decide a target (p.evaluate w.store target a) p.now = .ok d
  stage_three : p.stageAt w 3 = .decided a target d
  store_three : (p.worldAt w 3).store = w.store
  others_three : p.othersAt w 3 = w.store

def refusedTarget (key : String) : StoreError → PassResult
  | .notFound _ => .ok (.skipped .targetNotFound)
  | e => .error (.ofWrite key e)

def refusedStatus (key : String) : StoreError → PassResult
  | .notFound _ => .ok (.skipped .autoscalerNotFound)
  | e => .error (.ofWrite key e)

theorem notApplied_refusedTarget (key : String) (e : StoreError) :
    NotApplied (refusedTarget key e) := by
  cases e <;> exact nofun

theorem notApplied_refusedStatus (key : String) (e : StoreError) :
    NotApplied (refusedStatus key e) := by
  cases e <;> exact nofun

inductive TargetWork (p : Pass) (a : Autoscaler) (target : Deployment) (d : Decision)
    (o after : Store) : Prop
  | untouched (patch : d.targetPatch = none) (deployments : after.deployments = o.deployments)
      (demand : after.demand = o.demand) (events : after.events = o.events)
  | written {replicas : Count} (patch : d.targetPatch = some replicas)
      (deployments : after.deployments =
        o.deployments.insert a.targetKey (.written (target.scaledTo replicas)))
      (demand : after.demand = o.demand)
      (events : EventAdded (scaledEvent a target.replicas replicas p.now) o.events after.events)

theorem TargetWork.of_tables {p : Pass} {a : Autoscaler} {target : Deployment} {d : Decision}
    {o after : Store} (x y : Table (Row Autoscaler)) (h : TargetWork p a target d o after) :
    TargetWork p a target d { o with autoscalers := x } { after with autoscalers := y } := by
  cases h with
  | untouched patch deployments demand events => exact .untouched patch deployments demand events
  | written patch deployments demand events => exact .written patch deployments demand events

structure Scaled (a : Autoscaler) (target : Deployment) (d : Decision) : Prop
    extends p.Decided w a target d where
  stage_four : p.stageAt w 4 = .scaled a d
  autoscalers_four : (p.othersAt w 4).autoscalers = w.store.autoscalers
  target_found : (p.othersAt w 4).deployment? a.targetKey = .ok (some target)
  store_four : (p.worldAt w 4).store.autoscalers = w.store.autoscalers
  work : TargetWork p a target d (p.othersAt w 4) (p.worldAt w 4).store

inductive StatusWork (p : Pass) (a : Autoscaler) (d : Decision) (o after : Store) :
    PassResult → Prop
  | refused {e : StoreError} (patch : d.statusPatch.isSome)
      (autoscalers : after.autoscalers = o.autoscalers) :
      StatusWork p a d o after (refusedStatus p.key e)
  | untouched (patch : d.statusPatch = none) (found : o.autoscaler? p.key = .ok (some a))
      (autoscalers : after.autoscalers = o.autoscalers) :
      StatusWork p a d o after (.ok (.applied d))
  | written {status : AutoscalerStatus} (patch : d.statusPatch = some status)
      (found : o.autoscaler? p.key = .ok (some a))
      (autoscalers : after.autoscalers =
        o.autoscalers.insert p.key (.written (a.publishing status))) :
      StatusWork p a d o after (.ok (.applied d))

variable {p w} {a : Autoscaler} {target : Deployment} {d : Decision}

theorem readAutoscaler_cases (p : Pass) (s : Store) :
    (∃ r, p.readAutoscaler s = .finished r ∧ NotApplied r) ∨
      ∃ a, s.autoscaler? p.key = .ok (some a) ∧ a.metadata.isDeleting = false ∧
        p.readAutoscaler s = .loaded a := by
  unfold readAutoscaler
  cases s.autoscaler? p.key with
  | error e => exact .inl ⟨_, rfl, nofun⟩
  | ok found =>
    cases found with
    | none => exact .inl ⟨_, rfl, nofun⟩
    | some a =>
      cases hd : a.metadata.isDeleting with
      | true => exact .inl ⟨_, if_pos hd, nofun⟩
      | false => exact .inr ⟨a, rfl, hd, if_neg (by rw [hd]; exact Bool.false_ne_true)⟩

theorem readTarget_cases (a : Autoscaler) (s : Store) :
    (∃ r, readTarget a s = .finished r ∧ NotApplied r) ∨
      ∃ target, s.deployment? a.targetKey = .ok (some target) ∧
        target.metadata.isDeleting = false ∧ readTarget a s = .targeted a target := by
  unfold readTarget
  cases s.deployment? a.targetKey with
  | error e => exact .inl ⟨_, rfl, nofun⟩
  | ok found =>
    cases found with
    | none => exact .inl ⟨_, rfl, nofun⟩
    | some target =>
      cases hd : target.metadata.isDeleting with
      | true => exact .inl ⟨_, if_pos hd, nofun⟩
      | false => exact .inr ⟨target, rfl, hd, if_neg (by rw [hd]; exact Bool.false_ne_true)⟩

theorem finished_or_loaded (p : Pass) (w : World) :
    (∃ r, p.stageAt w 2 = .finished r ∧ NotApplied r ∧ p.worldAt w 2 = w ∧
        p.othersAt w 2 = w.store) ∨
      ∃ a target, p.Loaded w a target := by
  have hone : p.stageAt w 1 = p.readAutoscaler w.store := rfl
  have hworld : p.worldAt w 1 = w := rfl
  have hothers : p.othersAt w 1 = w.store := rfl
  obtain ⟨r, hr, hnot⟩ | ⟨a, hread, hstays, ha⟩ := p.readAutoscaler_cases w.store
  · obtain ⟨hs, hw, ho⟩ := idle_of_finished (hone.trans hr) 1
    exact .inl ⟨r, hs, hnot, hw.trans hworld, ho.trans hothers⟩
  · have htwo : p.stageAt w 2 = readTarget a w.store := by
      rw [stageAt_succ, hone, ha, hworld]
      rfl
    have hworld2 : p.worldAt w 2 = w := by
      rw [worldAt_succ, hone, ha, hworld]
      rfl
    have hothers2 : p.othersAt w 2 = w.store := by
      rw [othersAt_succ, hone, ha, hothers]
      rfl
    obtain ⟨r, hr, hnot⟩ | ⟨target, htarget, htstays, ht⟩ := readTarget_cases a w.store
    · exact .inl ⟨r, htwo.trans hr, hnot, hworld2, hothers2⟩
    · exact .inr ⟨a, target, htwo.trans ht, hworld2, hothers2, hread, hstays, htarget, htstays⟩

theorem Loaded.finished_or_decided (h : p.Loaded w a target) :
    (∃ cause, p.engine.decide a target (p.evaluate w.store target a) p.now = .error cause ∧
      p.stageAt w 3 = .finished (.error (.evaluation p.key cause)) ∧
      (p.worldAt w 3).store = w.store.recordEvent (failureEvent a cause p.now) ∧
      p.othersAt w 3 = w.store) ∨
    ∃ d, p.Decided w a target d := by
  have hothers : p.othersAt w 3 = w.store := by
    rw [othersAt_succ, h.stage_two, h.others_two]
    rfl
  have hstage : p.stageAt w 3 = (p.decide a target w).1 := by
    rw [stageAt_succ, h.stage_two, h.world_two]
    rfl
  have hworld : p.worldAt w 3 = (p.decide a target w).2 := by
    rw [worldAt_succ, h.stage_two, h.world_two]
    rfl
  cases hd : p.engine.decide a target (p.evaluate w.store target a) p.now with
  | error cause =>
    refine .inl ⟨cause, rfl, ?_, ?_, hothers⟩
    · rw [hstage, decide_eq, hd]
    · rw [hworld, decide_eq, hd]
      exact congrArg (Store.recordEvent · _) (p.store_asking a w)
  | ok d =>
    refine .inr ⟨d, h, hd, ?_, ?_, hothers⟩
    · rw [hstage, decide_eq, hd]
    · rw [hworld, decide_eq, hd]
      exact p.store_asking a w

namespace Decided

theorem stage_next (h : p.Decided w a target d) :
    p.stageAt w 4 = (p.scaleTarget a target d (p.worldAt w 3)).1 := by
  rw [stageAt_succ, h.stage_three]
  rfl

theorem world_next (h : p.Decided w a target d) :
    p.worldAt w 4 = (p.scaleTarget a target d (p.worldAt w 3)).2 := by
  rw [worldAt_succ, h.stage_three]
  rfl

theorem others_next (h : p.Decided w a target d) :
    p.othersAt w 4 = p.meanwhile (.decided a target d) (p.worldAt w 3) w.store := by
  rw [othersAt_succ, h.stage_three, h.others_three]

theorem scaled_of_no_patch (h : p.Decided w a target d) (hpatch : d.targetPatch = none) :
    p.Scaled w a target d := by
  have hothers : p.othersAt w 4 = w.store := by
    rw [h.others_next, meanwhile, hpatch]
    rfl
  have hstore : (p.worldAt w 4).store = w.store := by
    rw [h.world_next, scaleTarget, hpatch]
    exact h.store_three
  refine ⟨h, ?_, ?_, ?_, ?_, ?_⟩
  · rw [h.stage_next, scaleTarget, hpatch]
  · rw [hothers]
  · rw [hothers]
    exact h.target_read
  · rw [hstore]
  · rw [hstore, hothers]
    exact .untouched hpatch rfl rfl rfl

theorem finished_or_scaled_of_patch (h : p.Decided w a target d) {replicas : Count}
    (hpatch : d.targetPatch = some replicas) :
    (∃ e, p.stageAt w 4 = .finished (refusedTarget a.targetKey e) ∧
      (p.worldAt w 4).store = p.othersAt w 4) ∨
    p.Scaled w a target d := by
  have hstage := h.stage_next
  have hworld := h.world_next
  have hbefore : p.othersAt w 4 = (p.worldAt w 3).beforeTarget a.targetKey := by
    rw [h.others_next, meanwhile, hpatch, World.beforeTarget, h.store_three]
    rfl
  have hread : (p.worldAt w 3).store.deployment? a.targetKey = .ok (some target) := by
    rw [h.store_three]
    exact h.target_read
  have hend := World.writeTarget_end hread replicas
  rw [← hbefore] at hend
  rw [scaleTarget, hpatch] at hstage hworld
  simp only at hstage hworld
  generalize (p.worldAt w 3).writeTarget a.targetKey target.metadata.version replicas = r
    at hend hstage hworld
  cases hend with
  | @refused e v hstore =>
    refine .inl ⟨e, ?_, ?_⟩
    · rw [hstage]
      cases e <;> rfl
    · rw [hworld]
      cases e <;> exact hstore
  | @done v found hstore =>
    have hautoscalers : (p.othersAt w 4).autoscalers = w.store.autoscalers := by
      rw [hbefore, World.beforeTarget, h.store_three]
    have hrecorded : (p.worldAt w 4).store =
        v.store.recordEvent (scaledEvent a target.replicas replicas p.now) := by
      rw [hworld]
      rfl
    refine .inr ⟨h, hstage, hautoscalers, found, ?_, ?_⟩
    · rw [hrecorded, hstore]
      exact hautoscalers
    · rw [hrecorded, hstore]
      exact .written hpatch rfl rfl (Store.eventAdded_recordEvent _ _)

theorem finished_or_scaled (h : p.Decided w a target d) :
    (∃ e, d.targetPatch.isSome ∧ p.stageAt w 4 = .finished (refusedTarget a.targetKey e) ∧
      (p.worldAt w 4).store = p.othersAt w 4) ∨
    p.Scaled w a target d := by
  cases hpatch : d.targetPatch with
  | none => exact .inr (h.scaled_of_no_patch hpatch)
  | some replicas =>
    obtain ⟨e, hstage, hstore⟩ | scaled := h.finished_or_scaled_of_patch hpatch
    · exact .inl ⟨e, rfl, hstage, hstore⟩
    · exact .inr scaled

end Decided

/-- The store that the other writers alone would have left at the end of a pass. -/
def others (p : Pass) (w : World) : Store := p.othersAt w length

def after (p : Pass) (w : World) : Store := (p.reconcile w).2.store

/-- Every course that a pass can take, with its result, the store that it leaves and the store that
the other writers alone would have left. -/
inductive Course (p : Pass) (w : World) : Prop
  | notLoaded {r : PassResult} (stage : p.stageAt w 2 = .finished r) (notApplied : NotApplied r)
      (result : (p.reconcile w).1 = r)
      (store : p.after w = w.store) (others : p.others w = w.store)
  | undecided {a : Autoscaler} {target : Deployment} {cause : EvaluationError}
      (loaded : p.Loaded w a target)
      (failure : p.engine.decide a target (p.evaluate w.store target a) p.now = .error cause)
      (stage : p.stageAt w 3 = .finished (.error (.evaluation p.key cause)))
      (result : (p.reconcile w).1 = .error (.evaluation p.key cause))
      (store : p.after w = w.store.recordEvent (failureEvent a cause p.now))
      (others : p.others w = w.store)
  | targetRefused {a : Autoscaler} {target : Deployment} {d : Decision} {e : StoreError}
      (decided : p.Decided w a target d) (patch : d.targetPatch.isSome)
      (stage : p.stageAt w 4 = .finished (refusedTarget a.targetKey e))
      (result : (p.reconcile w).1 = refusedTarget a.targetKey e)
      (store : p.after w = p.others w)
  | scaled {a : Autoscaler} {target : Deployment} {d : Decision}
      (scaled : p.Scaled w a target d)
      (store : p.after w = { (p.worldAt w 4).store with autoscalers := (p.after w).autoscalers })
      (others : p.others w = { p.othersAt w 4 with autoscalers := (p.others w).autoscalers })
      (status : StatusWork p a d (p.others w) (p.after w) (p.reconcile w).1)

/-- A pass that has finished ends with that result and with the stores as they are. -/
theorem end_of_finished {n : Nat} {r : PassResult} (h : p.stageAt w n = .finished r)
    (hn : n ≤ length) :
    (p.reconcile w).1 = r ∧ p.after w = (p.worldAt w n).store ∧ p.others w = p.othersAt w n := by
  obtain ⟨hstage, hworld, hothers⟩ := idle_of_finished h (length - n)
  rw [Nat.add_sub_cancel' hn] at hstage hworld hothers
  rw [after, reconcile_eq, hstage, hworld]
  exact ⟨rfl, rfl, hothers⟩

namespace Scaled

theorem result_next (h : p.Scaled w a target d) :
    (p.reconcile w).1 = result (p.publish a d (p.worldAt w 4)).1 := by
  rw [reconcile_eq, length, stageAt_succ, h.stage_four]
  rfl

theorem store_next (h : p.Scaled w a target d) :
    p.after w = (p.publish a d (p.worldAt w 4)).2.store := by
  rw [after, reconcile_eq, length, worldAt_succ, h.stage_four]
  rfl

theorem others_next (h : p.Scaled w a target d) :
    p.others w = p.meanwhile (.scaled a d) (p.worldAt w 4) (p.othersAt w 4) := by
  rw [others, length, othersAt_succ, h.stage_four]

theorem course_of_no_patch (h : p.Scaled w a target d) (hpatch : d.statusPatch = none) :
    p.Course w := by
  have hothers : p.others w = p.othersAt w 4 := by
    rw [h.others_next, meanwhile, hpatch]
    rfl
  have hafter : p.after w = (p.worldAt w 4).store := by rw [h.store_next, publish, hpatch]
  have hresult : (p.reconcile w).1 = .ok (.applied d) := by
    rw [h.result_next, publish, hpatch]
    rfl
  refine .scaled h (by rw [hafter]) (by rw [hothers]) ?_
  rw [hresult, hothers, hafter]
  refine .untouched hpatch ?_ (h.store_four.trans h.autoscalers_four.symm)
  rw [Store.autoscaler?, h.autoscalers_four]
  exact h.autoscaler_read

theorem course_of_patch (h : p.Scaled w a target d) {status : AutoscalerStatus}
    (hpatch : d.statusPatch = some status) : p.Course w := by
  have hresult := h.result_next
  have hstore := h.store_next
  have hrest : p.others w = { p.othersAt w 4 with autoscalers := (p.others w).autoscalers } := by
    rw [h.others_next, meanwhile, hpatch]
    rfl
  have hbefore : (p.others w).autoscalers =
      ((p.worldAt w 4).beforeStatus p.key).autoscalers := by
    rw [h.others_next, meanwhile, hpatch, World.beforeStatus, h.store_four, ← h.autoscalers_four]
    rfl
  have hread : (p.worldAt w 4).store.autoscaler? p.key = .ok (some a) := by
    rw [Store.autoscaler?, h.store_four]
    exact h.autoscaler_read
  have hend := World.writeStatus_end hread status
  rw [publish, hpatch] at hresult hstore
  simp only at hresult hstore
  generalize (p.worldAt w 4).writeStatus p.key a.metadata.version status = r
    at hend hresult hstore
  cases hend with
  | @refused e v hv =>
    have hafter : p.after w = (p.worldAt w 4).beforeStatus p.key := by
      rw [hstore]
      cases e <;> exact hv
    have hrefused : (p.reconcile w).1 = refusedStatus p.key e := by
      rw [hresult]
      cases e <;> rfl
    refine .scaled h (by rw [hafter, World.beforeStatus]) hrest ?_
    rw [hrefused]
    exact .refused (by rw [hpatch]; rfl) (by rw [hafter, hbefore])
  | done found hv =>
    rw [hv] at hstore
    refine .scaled h (by rw [hstore, World.beforeStatus]) hrest ?_
    rw [hresult]
    refine .written hpatch ?_ (by rw [hstore, hbefore])
    rw [Store.autoscaler?, hbefore]
    exact found

theorem course (h : p.Scaled w a target d) : p.Course w := by
  cases hpatch : d.statusPatch with
  | none => exact h.course_of_no_patch hpatch
  | some status => exact h.course_of_patch hpatch

end Scaled

theorem course (p : Pass) (w : World) : p.Course w := by
  obtain ⟨r, hstage, hnot, hworld, hothers⟩ | ⟨a, target, loaded⟩ := p.finished_or_loaded w
  · obtain ⟨hresult, hend, hrest⟩ := end_of_finished hstage (by decide)
    exact .notLoaded hstage hnot hresult (by rw [hend, hworld]) (hrest.trans hothers)
  · obtain ⟨cause, failure, hstage, hstore, hothers⟩ | ⟨d, decided⟩ := loaded.finished_or_decided
    · obtain ⟨hresult, hend, hrest⟩ := end_of_finished hstage (by decide)
      exact .undecided loaded failure hstage hresult (by rw [hend, hstore]) (hrest.trans hothers)
    · obtain ⟨e, patch, hstage, hstore⟩ | scaled := decided.finished_or_scaled
      · obtain ⟨hresult, hend, hrest⟩ := end_of_finished hstage (by decide)
        exact .targetRefused decided patch hstage hresult (by rw [hend, hstore, hrest])
      · exact scaled.course

end Pass

end RunnerFleet
