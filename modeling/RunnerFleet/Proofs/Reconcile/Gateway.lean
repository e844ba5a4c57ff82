import RunnerFleet.Proofs.Store.Change
import RunnerFleet.Reconcile.World

/-!
# Writes through the gateway

A conditional write either does its work on the row as the caller has read it, or leaves nothing but
what another writer has done just before it. That writer can put the row back, which makes its
version another one, or delete it.
-/

namespace RunnerFleet

theorem nextVersion_ne (n : UInt64) : nextVersion n ≠ n := by
  intro h
  have hone : (1 : UInt64) = 0 :=
    (UInt64.add_right_inj n).1 (h.trans (UInt64.add_zero n).symm)
  exact absurd hone (by decide)

namespace Table

variable {α : Type} [Versioned α] {t : Table (Row α)} {key : String} {a b : α}

def touch (t : Table (Row α)) (key : String) : Table (Row α) :=
  match t.read? key with
  | .ok (some a) => match t.put a with
    | .ok (_, t) => t
    | .error _ => t
  | _ => t

theorem touch_cases (h : t.read? key = .ok (some a)) :
    t.touch key = t ∨ ∃ b, t.touch key = t.insert (Versioned.key a) (.written b) ∧
      t.Follows (Versioned.key a) b := by
  unfold touch
  simp only [h]
  cases hput : t.put a with
  | error e => exact .inl rfl
  | ok r =>
    obtain ⟨b, t'⟩ := r
    obtain ⟨⟨rfl, follows⟩, -⟩ := put_eq_ok hput
    exact .inr ⟨b, rfl, follows⟩

/-- A resource that is put back under its own key gets another version. One that names another key
goes there and leaves its row alone. -/
theorem read?_touch (h : t.read? key = .ok (some a)) (hb : (t.touch key).read? key = .ok (some b))
    (hversion : Versioned.version b = Versioned.version a) : b = a := by
  obtain heq | ⟨c, heq, old, hold, hnext⟩ := touch_cases h
  · rw [heq, h] at hb
    exact (Option.some.inj (Except.ok.inj hb)).symm
  · rw [heq, read?_insert_written] at hb
    by_cases hkey : key = Versioned.key a
    · rw [if_pos hkey] at hb
      rw [← hkey, versionAt, h] at hold
      cases hb
      cases hold
      rw [Versioned.version_reread, hnext] at hversion
      exact absurd hversion (nextVersion_ne _)
    · rw [if_neg hkey, h] at hb
      exact (Option.some.inj (Except.ok.inj hb)).symm

end Table

namespace Interference

variable {α : Type} [Versioned α] {t : Table (Row α)} {key : String} {a b : α}

def onTable (i : Interference) (key : String) (t : Table (Row α)) : Table (Row α) :=
  match i with
  | nothing => t
  | touch => t.touch key
  | delete => t.erase key
  | fail _ => t

/-- After any interference, a row under `key` with the version that was read is what was read. -/
theorem read?_onTable (i : Interference) (h : t.read? key = .ok (some a))
    (hb : (i.onTable key t).read? key = .ok (some b))
    (hversion : Versioned.version b = Versioned.version a) : b = a := by
  cases i with
  | nothing => exact (Option.some.inj (Except.ok.inj (h.symm.trans hb))).symm
  | touch => exact Table.read?_touch h hb hversion
  | delete =>
    rw [onTable, Table.read?_erase, if_pos rfl] at hb
    cases hb
  | fail reason => exact (Option.some.inj (Except.ok.inj (h.symm.trans hb))).symm

end Interference

def Deployment.scaledTo (d : Deployment) (replicas : Count) : Deployment :=
  Versioned.withVersion { d with spec := { d.spec with replicas := some replicas } }
    (nextVersion d.metadata.version)

def Autoscaler.publishing (a : Autoscaler) (status : AutoscalerStatus) : Autoscaler :=
  Versioned.withVersion { a with status } (nextVersion a.metadata.version)

namespace Store

variable (s : Store) (key : String)

theorem touchDeployment_eq :
    s.touchDeployment key = { s with deployments := s.deployments.touch key } := by
  unfold touchDeployment Table.touch deployment? putDeployment onDeployments
  cases s.deployments.read? key with
  | error e => rfl
  | ok found =>
    cases found with
    | none => rfl
    | some d => cases hput : s.deployments.put d <;> simp only [hput, Except.map]

theorem touchAutoscaler_eq :
    s.touchAutoscaler key = { s with autoscalers := s.autoscalers.touch key } := by
  unfold touchAutoscaler Table.touch autoscaler? putAutoscaler onAutoscalers
  cases s.autoscalers.read? key with
  | error e => rfl
  | ok found =>
    cases found with
    | none => rfl
    | some a => cases hput : s.autoscalers.put a <;> simp only [hput, Except.map]

theorem updateReplicas_eq_ok {s s' : Store} {key : String} {expected : UInt64} {replicas : Count}
    {b : Deployment} (h : s.updateReplicas key expected replicas = .ok (b, s')) :
    ∃ d, s.deployment? key = .ok (some d) ∧ d.metadata.version = expected ∧
      b = d.scaledTo replicas ∧
      s' = { s with deployments := s.deployments.insert key (.written (d.scaledTo replicas)) } := by
  obtain ⟨t, ht, rfl⟩ := onDeployments_eq_ok h
  obtain ⟨d, c, hread, hc, rfl, rfl⟩ := Table.update_eq_ok ht
  obtain ⟨_, hcheck, hc⟩ := Except.bind_eq_ok_iff.1 hc
  cases hc
  exact ⟨d, hread, (checkVersion_eq_ok_iff.1 hcheck).symm, rfl, rfl⟩

theorem updateStatus_eq_ok {s s' : Store} {key : String} {expected : UInt64}
    {status : AutoscalerStatus} {b : Autoscaler}
    (h : s.updateStatus key expected status = .ok (b, s')) :
    ∃ a, s.autoscaler? key = .ok (some a) ∧ a.metadata.version = expected ∧
      b = a.publishing status ∧
      s' = { s with autoscalers := s.autoscalers.insert key (.written (a.publishing status)) } := by
  obtain ⟨t, ht, rfl⟩ := onAutoscalers_eq_ok h
  obtain ⟨a, c, hread, hc, rfl, rfl⟩ := Table.update_eq_ok ht
  obtain ⟨_, hcheck, hc⟩ := Except.bind_eq_ok_iff.1 hc
  cases hc
  exact ⟨a, hread, (checkVersion_eq_ok_iff.1 hcheck).symm, rfl, rfl⟩

end Store

namespace World

variable (w : World) (key : String)

@[simp] theorem store_next (sort : WriteSort) : (w.next sort key).2.store = w.store := by
  unfold next
  split <;> rfl

def beforeTarget : Store :=
  { w.store with deployments := (w.next .target key).1.onTable key w.store.deployments }

def beforeStatus : Store :=
  { w.store with autoscalers := (w.next .status key).1.onTable key w.store.autoscalers }

def attemptOver {α : Type} (w : World) (i : Interference) (s : Store) (write : Store → Stored α) :
    Except StoreError Unit × World :=
  match i with
  | .fail reason => (.error (.writeFailed reason), w)
  | _ => w.attempt s write

theorem writeTarget_eq (expected : UInt64) (replicas : Count) :
    w.writeTarget key expected replicas = (w.next .target key).2.attemptOver (w.next .target key).1
      (w.beforeTarget key) (·.updateReplicas key expected replicas) := by
  have hstore := w.store_next key .target
  unfold writeTarget beforeTarget
  generalize w.next .target key = r at hstore ⊢
  obtain ⟨i, v⟩ := r
  simp only at hstore ⊢
  rw [hstore]
  cases i with
  | touch => rw [Store.touchDeployment_eq]; rfl
  | _ => rfl

theorem writeStatus_eq (expected : UInt64) (status : AutoscalerStatus) :
    w.writeStatus key expected status = (w.next .status key).2.attemptOver (w.next .status key).1
      (w.beforeStatus key) (·.updateStatus key expected status) := by
  have hstore := w.store_next key .status
  unfold writeStatus beforeStatus
  generalize w.next .status key = r at hstore ⊢
  obtain ⟨i, v⟩ := r
  simp only at hstore ⊢
  rw [hstore]
  cases i with
  | touch => rw [Store.touchAutoscaler_eq]; rfl
  | _ => rfl

end World

/-- How a write ends that finds the store `before`: it is refused and leaves that store, or it is
done where `Found` holds and leaves `after`. -/
inductive WriteEnd (before after : Store) (Found : Prop) : Except StoreError Unit × World → Prop
  | refused {e : StoreError} {w : World} (h : w.store = before) :
      WriteEnd before after Found (.error e, w)
  | done {w : World} (found : Found) (h : w.store = after) :
      WriteEnd before after Found (.ok (), w)

theorem WriteEnd.of_attemptOver {α : Type} {i : Interference} {w : World} {before after : Store}
    {Found : Prop} {write : Store → Stored α}
    (hfail : ∀ reason, i = .fail reason → w.store = before)
    (hwrite : ∀ a s, write before = .ok (a, s) → Found ∧ s = after) :
    WriteEnd before after Found (w.attemptOver i before write) := by
  have hattempt : WriteEnd before after Found (w.attempt before write) := by
    unfold World.attempt
    cases hres : write before with
    | error e => exact .refused rfl
    | ok r =>
      obtain ⟨found, hafter⟩ := hwrite r.1 r.2 hres
      exact .done found hafter
  cases i with
  | fail reason => exact .refused (hfail reason rfl)
  | _ => exact hattempt

namespace World

variable {w : World} {key : String}

/-- A replica count that was decided on a deployment is refused, or it is written over that very
deployment. -/
theorem writeTarget_end {d : Deployment} (hread : w.store.deployment? key = .ok (some d))
    (replicas : Count) :
    WriteEnd (w.beforeTarget key)
      { w.beforeTarget key with
        deployments :=
          (w.beforeTarget key).deployments.insert key (.written (d.scaledTo replicas)) }
      ((w.beforeTarget key).deployment? key = .ok (some d))
      (w.writeTarget key d.metadata.version replicas) := by
  rw [writeTarget_eq]
  refine .of_attemptOver (fun reason hfail => ?_) (fun b s hok => ?_)
  · rw [store_next, beforeTarget, hfail]
    rfl
  · obtain ⟨c, hc, hversion, rfl, rfl⟩ := Store.updateReplicas_eq_ok hok
    obtain rfl := (w.next .target key).1.read?_onTable hread hc hversion
    exact ⟨hc, rfl⟩

/-- A status that was decided on an autoscaler is refused, or it is written over that very
autoscaler. -/
theorem writeStatus_end {a : Autoscaler} (hread : w.store.autoscaler? key = .ok (some a))
    (status : AutoscalerStatus) :
    WriteEnd (w.beforeStatus key)
      { w.beforeStatus key with
        autoscalers :=
          (w.beforeStatus key).autoscalers.insert key (.written (a.publishing status)) }
      ((w.beforeStatus key).autoscaler? key = .ok (some a))
      (w.writeStatus key a.metadata.version status) := by
  rw [writeStatus_eq]
  refine .of_attemptOver (fun reason hfail => ?_) (fun b s hok => ?_)
  · rw [store_next, beforeStatus, hfail]
    rfl
  · obtain ⟨c, hc, hversion, rfl, rfl⟩ := Store.updateStatus_eq_ok hok
    obtain rfl := (w.next .status key).1.read?_onTable hread hc hversion
    exact ⟨hc, rfl⟩

end World

end RunnerFleet
