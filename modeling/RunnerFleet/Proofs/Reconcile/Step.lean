import RunnerFleet.Proofs.Reconcile.Edit
import RunnerFleet.Proofs.Store.Marked
import RunnerFleet.Proofs.Store.StaleWrite

/-!
# What a step asks of the store

Where no interference is queued, each step of a pass is a list of store operations. None of them
puts or deletes a deployment, and only the write to the target can change a replica count: it does
if the version that the pass has read is the one that stands.
-/

namespace RunnerFleet

namespace Store

def replicasAt (s : Store) (key : String) : Except StoreError (Option (Option Count)) :=
  (s.deployment? key).map fun d => d.map (·.spec.replicas)

theorem replicasAt_updateReplicas (s : Store) (k key : String) (expected : UInt64)
    (replicas : Count) :
    (s.after (.updateReplicas k expected replicas)).replicasAt key =
      if k = key ∧ s.versionAt ⟨.deployment, k⟩ = .ok (some expected) then
        .ok (some (some replicas))
      else s.replicasAt key := by
  have hperform : s.perform (.updateReplicas k expected replicas) =
      written .deployment (s.updateReplicas k expected replicas) := rfl
  unfold Store.after
  rw [hperform]
  cases hres : s.updateReplicas k expected replicas with
  | error e =>
    refine (if_neg fun hcurrent => ?_).symm
    have hok := ConditionalWrite.perform_of_current (w := .scale k replicas) hcurrent.2
    rw [ConditionalWrite.operation, hperform, hres] at hok
    cases hok
  | ok r =>
    obtain ⟨b, s'⟩ := r
    obtain ⟨d, hread, rfl, rfl, rfl⟩ := updateReplicas_eq_ok hres
    have hversion := versionAt_of_deployment? hread
    simp only [written, Except.map, replicasAt, deployment?, Table.read?_insert_written]
    by_cases hk : key = k
    · rw [if_pos hk, if_pos ⟨hk.symm, hversion⟩]
      rfl
    · rw [if_neg hk, if_neg fun h => hk h.1.symm]

theorem deployments_updateStatus (s : Store) (key : String) (expected : UInt64)
    (status : AutoscalerStatus) :
    (s.after (.updateStatus key expected status)).deployments = s.deployments := by
  have hperform : s.perform (.updateStatus key expected status) =
      written .autoscaler (s.updateStatus key expected status) := rfl
  unfold Store.after
  rw [hperform, updateStatus, onAutoscalers]
  generalize s.autoscalers.update key _ = r
  cases r <;> rfl

end Store

namespace World

variable {w : World}

/-- An attempt does what the operation does that it stands for, and succeeds together with it. -/
theorem attempt_eq {α : Type} {op : Store.Operation} (f : α → Store.Answer)
    {write : Store → Stored α} (h : w.store.perform op = Store.written f (write w.store)) :
    (w.attempt w.store write).2 = { w with store := w.store.after op } ∧
      (w.attempt w.store write).1.isOk = (w.store.perform op).isOk := by
  unfold attempt Store.after
  rw [h]
  cases write w.store <;> exact ⟨rfl, rfl⟩

theorem writeTarget_eq_operation (calm : w.pending = []) (key : String) (expected : UInt64)
    (replicas : Count) :
    let op := Store.Operation.updateReplicas key expected replicas
    (w.writeTarget key expected replicas).2 = { w with store := w.store.after op } ∧
      (w.writeTarget key expected replicas).1.isOk = (w.store.perform op).isOk := by
  rw [writeTarget, next_of_calm calm]
  exact attempt_eq .deployment rfl

theorem writeStatus_eq_operation (calm : w.pending = []) (key : String) (expected : UInt64)
    (status : AutoscalerStatus) :
    let op := Store.Operation.updateStatus key expected status
    (w.writeStatus key expected status).2 = { w with store := w.store.after op } ∧
      (w.writeStatus key expected status).1.isOk = (w.store.perform op).isOk := by
  rw [writeStatus, next_of_calm calm]
  exact attempt_eq .autoscaler rfl

end World

namespace Stage

def chosen? : Stage → Option (Autoscaler × Deployment)
  | .targeted a target | .decided a target _ => some (a, target)
  | _ => none

end Stage

namespace Pass

/-- The operations that a step asks of the store beside its reads. -/
def asked (p : Pass) (stage : Stage) (s : Store) : List Store.Operation :=
  match stage with
  | .targeted a target =>
    match p.engine.decide a target (p.evaluate s target a) p.now with
    | .ok _ => []
    | .error cause => [.recordEvent (failureEvent a cause p.now)]
  | .decided a target d =>
    match d.targetPatch with
    | none => []
    | some replicas =>
      let write := .updateReplicas a.targetKey target.metadata.version replicas
      if (s.perform write).isOk then
        [write, .recordEvent (scaledEvent a target.replicas replicas p.now)]
      else [write]
  | .scaled a d => d.statusPatch.toList.map (.updateStatus p.key a.metadata.version ·)
  | _ => []

variable {p : Pass} {stage : Stage} {w : World} {a : Autoscaler} {target : Deployment}

theorem store_decide (p : Pass) (a : Autoscaler) (target : Deployment) (w : World) :
    (p.decide a target w).2.store = w.store.run (p.asked (.targeted a target) w.store) := by
  simp only [decide_eq, asked]
  cases p.engine.decide a target (p.evaluate w.store target a) p.now with
  | ok d => exact p.store_asking a w
  | error cause =>
    change (p.asking a w).store.recordEvent _ = _
    rw [store_asking]
    rfl

theorem store_scaleTarget (p : Pass) (a : Autoscaler) (target : Deployment) (d : Decision)
    (calm : w.pending = []) :
    (p.scaleTarget a target d w).2.store =
      w.store.run (p.asked (.decided a target d) w.store) := by
  simp only [scaleTarget, asked]
  cases d.targetPatch with
  | none => rfl
  | some replicas =>
    obtain ⟨hworld, hok⟩ :=
      World.writeTarget_eq_operation calm a.targetKey target.metadata.version replicas
    simp only [← hok]
    generalize w.writeTarget _ _ _ = r at hworld ⊢
    obtain ⟨result, v⟩ := r
    obtain rfl : v = _ := hworld
    cases result with
    | ok _ => rfl
    | error e => cases e <;> rfl

theorem store_publish (p : Pass) (a : Autoscaler) (d : Decision) (calm : w.pending = []) :
    (p.publish a d w).2.store = w.store.run (p.asked (.scaled a d) w.store) := by
  simp only [publish, asked]
  cases d.statusPatch with
  | none => rfl
  | some status =>
    obtain ⟨hworld, -⟩ := World.writeStatus_eq_operation calm p.key a.metadata.version status
    simp only
    generalize w.writeStatus _ _ _ = r at hworld ⊢
    obtain ⟨result, v⟩ := r
    obtain rfl : v = _ := hworld
    cases result with
    | ok _ => rfl
    | error e => cases e <;> rfl

theorem store_step (p : Pass) (stage : Stage) (calm : w.pending = []) :
    (p.step stage w).2.store = w.store.run (p.asked stage w.store) := by
  cases stage with
  | begun | loaded a | finished r => rfl
  | targeted a target => exact p.store_decide a target w
  | decided a target d => exact p.store_scaleTarget a target d calm
  | scaled a d => exact p.store_publish a d calm

theorem not_replaces_of_asked {s : Store} {op : Store.Operation} (h : op ∈ p.asked stage s)
    (key : String) : ¬ op.Replaces key := by
  cases stage with
  | begun | loaded a | finished r => cases h
  | targeted a target =>
    simp only [asked] at h
    cases hd : p.engine.decide a target (p.evaluate s target a) p.now with
    | ok d =>
      rw [hd] at h
      cases h
    | error cause =>
      rw [hd] at h
      obtain rfl := List.mem_singleton.1 h
      exact id
  | decided a target d =>
    simp only [asked] at h
    cases hpatch : d.targetPatch with
    | none =>
      rw [hpatch] at h
      cases h
    | some replicas =>
      simp only [hpatch] at h
      split at h
      · obtain rfl | rfl := List.mem_pair.1 h <;> exact id
      · obtain rfl := List.mem_singleton.1 h
        exact id
  | scaled a d =>
    obtain ⟨status, -, rfl⟩ := List.mem_map.1 h
    exact id

theorem replicasAt_asked_of_patch (p : Pass) (a : Autoscaler) (target : Deployment)
    {d : Decision} {replicas : Count} (hpatch : d.targetPatch = some replicas) (s : Store)
    (key : String) :
    (s.run (p.asked (.decided a target d) s)).replicasAt key =
      (s.after (.updateReplicas a.targetKey target.metadata.version replicas)).replicasAt key := by
  simp only [asked, hpatch]
  split <;> rfl

/-- A step changes the replica count of a deployment only by the write to the target. -/
theorem replicasAt_asked_ne_iff (p : Pass) (stage : Stage) (s : Store) (key : String) :
    (s.run (p.asked stage s)).replicasAt key ≠ s.replicasAt key ↔
      ∃ a target d replicas, stage = .decided a target d ∧ a.targetKey = key ∧
        d.targetPatch = some replicas ∧ s.replicasAt key ≠ .ok (some (some replicas)) ∧
        s.versionAt ⟨.deployment, key⟩ = .ok (some target.metadata.version) := by
  constructor
  · intro hne
    cases stage with
    | begun | loaded a | finished r => exact absurd rfl hne
    | targeted a target =>
      refine absurd ?_ hne
      simp only [asked]
      cases p.engine.decide a target (p.evaluate s target a) p.now <;> rfl
    | scaled a d =>
      refine absurd ?_ hne
      simp only [asked]
      cases d.statusPatch with
      | none => rfl
      | some status =>
        simp only [Option.toList_some, List.map_cons, List.map_nil, Store.run, List.foldl_cons,
          List.foldl_nil, Store.replicasAt, Store.deployment?, Store.deployments_updateStatus]
    | decided a target d =>
      cases hpatch : d.targetPatch with
      | none =>
        refine absurd ?_ hne
        simp only [asked, hpatch]
        rfl
      | some replicas =>
        rw [replicasAt_asked_of_patch p a target hpatch, Store.replicasAt_updateReplicas] at hne
        split at hne
        · next hwritten =>
          obtain ⟨hkey, hversion⟩ := hwritten
          exact ⟨a, target, d, replicas, rfl, hkey, hpatch, hne.symm, hkey ▸ hversion⟩
        · exact absurd rfl hne
  · rintro ⟨a, target, d, replicas, rfl, rfl, hpatch, hne, hversion⟩
    rw [replicasAt_asked_of_patch p a target hpatch, Store.replicasAt_updateReplicas,
      if_pos ⟨rfl, hversion⟩]
    exact hne.symm

theorem chosen?_decide (p : Pass) (a : Autoscaler) (target : Deployment) (w : World) :
    (p.decide a target w).1.chosen? = some (a, target) ∨ (p.decide a target w).1.chosen? = none := by
  rw [decide_eq]
  cases p.engine.decide a target (p.evaluate w.store target a) p.now with
  | ok d => exact .inl rfl
  | error cause => exact .inr rfl

theorem chosen?_scaleTarget (p : Pass) (a : Autoscaler) (target : Deployment) (d : Decision)
    (w : World) : (p.scaleTarget a target d w).1.chosen? = none := by
  unfold scaleTarget
  cases d.targetPatch with
  | none => rfl
  | some replicas =>
    dsimp only
    split <;> rfl

theorem chosen?_publish (p : Pass) (a : Autoscaler) (d : Decision) (w : World) :
    (p.publish a d w).1.chosen? = none := by
  unfold publish
  cases d.statusPatch with
  | none => rfl
  | some status =>
    dsimp only
    split <;> rfl

/-- Where a pass stands that is about to decide or to write to its target: it stood there already,
or it has just read the target. -/
theorem chosen?_step (h : (p.step stage w).1.chosen? = some (a, target)) :
    stage.chosen? = some (a, target) ∨
      stage = .loaded a ∧ w.store.deployment? a.targetKey = .ok (some target) ∧
        target.metadata.isDeleting = false := by
  cases stage with
  | begun =>
    obtain ⟨r, hr, -⟩ | ⟨b, -, -, hb⟩ := p.readAutoscaler_cases w.store
    · rw [step, hr] at h
      cases h
    · rw [step, hb] at h
      cases h
  | loaded b =>
    obtain ⟨r, hr, -⟩ | ⟨found, hread, hstays, hfound⟩ := readTarget_cases b w.store
    · rw [step, hr] at h
      cases h
    · rw [step, hfound] at h
      cases h
      exact .inr ⟨rfl, hread, hstays⟩
  | targeted b found =>
    left
    obtain hkept | hended := p.chosen?_decide b found w
    · exact hkept.symm.trans h
    · cases hended.symm.trans h
  | decided b found d => cases (p.chosen?_scaleTarget b found d w).symm.trans h
  | scaled b d => cases (p.chosen?_publish b d w).symm.trans h
  | finished r => cases h

end Pass

end RunnerFleet
