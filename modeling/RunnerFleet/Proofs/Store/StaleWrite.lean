import RunnerFleet.Proofs.Store.Performed

/-!
# Conditional writes with an old version

A client reads a row at some version, anyone does anything to the store, and then the client asks
for a write that names the version it has read. What has happened to the row in between is its fate:
it was kept with a number of writes, or deleted, or deleted and brought back with a number of writes
since. The fate determines the version that is stored, hence whether the write is refused. A row
that comes back counts from one again, so an old version can return.
-/

namespace RunnerFleet.Store

inductive Effect where
  | none
  | write
  | delete
  deriving DecidableEq, Repr

/-- What the operation does to the row at a place. An operation that is refused does nothing. -/
def effectOn (s : Store) (place : Place) (op : Operation) : Effect :=
  if op.deletes? = some place then .delete
  else if op.writes? = some place ∧ (s.perform op).isOk then .write
  else .none

inductive Fate where
  | kept (writes : Nat)
  | gone
  | reborn (writes : Nat)
  deriving DecidableEq, Repr

namespace Fate

def next : Fate → Effect → Fate
  | f, .none => f
  | _, .delete => gone
  | kept n, .write => kept (n + 1)
  | gone, .write => reborn 1
  | reborn n, .write => reborn (n + 1)

def version? (read : UInt64) : Fate → Option UInt64
  | kept n => some (read + UInt64.ofNat n)
  | gone => none
  | reborn n => some (UInt64.ofNat n)

/-- The version that was read stands again, though the row has been written since: the row came back
and has been written as often as that version says, or the 64 bits of the version have wrapped. -/
def Recurs (read : UInt64) : Fate → Prop
  | kept n => n ≠ 0 ∧ UInt64.ofNat n = 0
  | gone => False
  | reborn n => UInt64.ofNat n = read

instance (read : UInt64) : (f : Fate) → Decidable (f.Recurs read)
  | kept n => inferInstanceAs (Decidable (n ≠ 0 ∧ UInt64.ofNat n = 0))
  | gone => inferInstanceAs (Decidable False)
  | reborn n => inferInstanceAs (Decidable (UInt64.ofNat n = read))

theorem version?_next_write (read : UInt64) (f : Fate) :
    (f.next .write).version? read = some (nextVersion ((f.version? read).getD 0)) := by
  have hsucc : ∀ n : Nat, UInt64.ofNat (n + 1) = UInt64.ofNat n + 1 := fun n => UInt64.ofNat_add n 1
  cases f with
  | kept n =>
    simp only [next, version?, Option.getD_some, nextVersion, hsucc, UInt64.add_assoc]
  | gone => rfl
  | reborn n => simp only [next, version?, Option.getD_some, nextVersion, hsucc]

theorem version?_eq_read_iff (read : UInt64) (f : Fate) :
    f.version? read = some read ↔ f = kept 0 ∨ f.Recurs read := by
  cases f with
  | kept n =>
    have hround : read + UInt64.ofNat n = read ↔ UInt64.ofNat n = 0 := by
      constructor
      · intro h
        exact (UInt64.add_right_inj read).1 (h.trans (UInt64.add_zero read).symm)
      · intro h
        rw [h, UInt64.add_zero]
    simp only [version?, Option.some.injEq, hround, kept.injEq, Recurs]
    by_cases hn : n = 0
    · simp [hn]
    · simp [hn]
  | gone => simp [version?, Recurs]
  | reborn n => simp [version?, Recurs]

theorem not_recurs_kept_zero (read : UInt64) : ¬ (kept 0).Recurs read := fun h => h.1 rfl

end Fate

def fateFrom (place : Place) (f : Fate) (s : Store) : List Operation → Fate
  | [] => f
  | op :: ops => fateFrom place (f.next (s.effectOn place op)) (s.after op) ops

def fate (s : Store) (place : Place) (ops : List Operation) : Fate :=
  fateFrom place (.kept 0) s ops

def versionAt (s : Store) (place : Place) : Except StoreError (Option UInt64) :=
  match place.kind with
  | .autoscaler => s.autoscalers.versionAt place.key
  | .deployment => s.deployments.versionAt place.key

theorem versionAt_eq_readAt (s : Store) (place : Place) :
    s.versionAt place = s.readAt Resource.version place := by
  obtain ⟨kind, key⟩ := place
  cases kind with
  | autoscaler => exact (s.readAt_autoscaler Resource.version key).symm
  | deployment => exact (s.readAt_deployment Resource.version key).symm

section

variable {s s' : Store} {place target : Place} {op : Operation} {answer : Answer}

theorem deletes?_of_writes? (h : op.writes? = some place) : op.deletes? = none := by
  cases op <;> simp_all [Operation.writes?, Operation.deletes?]

theorem writes?_of_deletes? (h : op.deletes? = some place) : op.writes? = none := by
  cases op <;> simp_all [Operation.writes?, Operation.deletes?]

theorem isOk_of_deletes? (h : op.deletes? = some place) : (s.perform op).isOk := by
  cases op with
  | deleteAutoscaler key => rfl
  | deleteDeployment key => rfl
  | _ => cases h

theorem effectOn_of_writes? (h : op.writes? = some target) (hok : s.perform op = .ok (answer, s')) :
    s.effectOn place op = if place = target then .write else .none := by
  unfold effectOn
  rw [deletes?_of_writes? h, h, hok]
  by_cases hp : place = target
  · simp [hp, Except.isOk, Except.toBool]
  · simp [hp, Ne.symm hp]

theorem effectOn_of_deletes? (h : op.deletes? = some target) :
    s.effectOn place op = if place = target then .delete else .none := by
  unfold effectOn
  rw [h, writes?_of_deletes? h]
  by_cases hp : place = target
  · simp [hp]
  · simp [hp, Ne.symm hp]

theorem effectOn_of_error {e : StoreError} (h : s.perform op = .error e) :
    s.effectOn place op = .none := by
  unfold effectOn
  have hd : op.deletes? ≠ some place := fun hd => by
    have hok := isOk_of_deletes? (s := s) hd
    rw [h] at hok
    cases hok
  rw [h, if_neg hd, if_neg (fun h => nomatch h.2)]

theorem versionAt_after (s : Store) (place : Place) (op : Operation) :
    (s.after op).versionAt place =
      match s.effectOn place op with
      | .none => s.versionAt place
      | .delete => .ok none
      | .write => (s.versionAt place).map fun v => some (nextVersion (v.getD 0)) := by
  unfold after
  cases hop : s.perform op with
  | error e => rw [effectOn_of_error hop]
  | ok r =>
    obtain ⟨answer, s'⟩ := r
    simp only [versionAt_eq_readAt]
    cases changed_of_perform hop with
    | @wrote key r old hw hstood hversion =>
      rw [effectOn_of_writes? hw hop, readAt_file _ _ _ _ Resource.version_reread]
      by_cases hp : place = ⟨r.kind, key⟩
      · subst hp
        simp only [if_true, hstood, hversion, Except.map]
      · simp only [if_neg hp]
    | deleted hd =>
      rw [effectOn_of_deletes? hd, readAt_clear]
      split <;> rfl
    | neither hw hd ha hr =>
      have hnone : s.effectOn place op = .none := by
        unfold effectOn
        rw [hw, hd]
        rfl
      rw [hnone]
      simp only [readAt, resourceAt, autoscaler?, deployment?, ha, hr]

/-- The stored version over a run, by the fate of the row. -/
theorem versionAt_run {read : UInt64} {f : Fate} (ops : List Operation)
    (h : s.versionAt place = .ok (f.version? read)) :
    (s.run ops).versionAt place = .ok ((fateFrom place f s ops).version? read) := by
  induction ops generalizing s f with
  | nil => exact h
  | cons op ops ih =>
    apply ih
    rw [versionAt_after]
    cases s.effectOn place op with
    | none => exact h
    | delete => cases f <;> rfl
    | write =>
      rw [h, Fate.version?_next_write]
      rfl

theorem fateFrom_append (place : Place) (f : Fate) (s : Store) (ops ops' : List Operation) :
    fateFrom place f s (ops ++ ops') =
      fateFrom place (fateFrom place f s ops) (s.run ops) ops' := by
  induction ops generalizing f s with
  | nil => rfl
  | cons op ops ih => exact ih _ _

/-- What has been written or deleted is never as it was. -/
theorem fateFrom_ne_kept_zero {place : Place} {f : Fate} (h : f ≠ .kept 0)
    (ops : List Operation) : fateFrom place f s ops ≠ .kept 0 := by
  induction ops generalizing f s with
  | nil => exact h
  | cons op ops ih =>
    refine ih ?_
    cases s.effectOn place op with
    | none => exact h
    | delete => exact nofun
    | write => cases f <;> simp [Fate.next]

theorem versionAt_of_deployment? {d : Deployment} (h : s.deployment? key = .ok (some d)) :
    s.versionAt ⟨.deployment, key⟩ = .ok (some d.metadata.version) := by
  change (s.deployment? key).map _ = _
  rw [h]
  rfl

end

inductive ConditionalWrite where
  | publish (key : String) (status : AutoscalerStatus)
  | scale (key : String) (replicas : Count)
  deriving DecidableEq, Repr

namespace ConditionalWrite

def place : ConditionalWrite → Place
  | publish key _ => ⟨.autoscaler, key⟩
  | scale key _ => ⟨.deployment, key⟩

def operation (w : ConditionalWrite) (read : UInt64) : Operation :=
  match w with
  | publish key status => .updateStatus key read status
  | scale key replicas => .updateReplicas key read replicas

variable {s : Store} {w : ConditionalWrite} {read : UInt64}

theorem perform_of_absent (h : s.versionAt w.place = .ok none) :
    s.perform (w.operation read) = .error (.notFound w.place.key) := by
  cases w with
  | publish key status =>
    have hread : s.autoscalers.read? key = .ok none := Table.read?_of_versionAt_eq_none h
    simp only [operation, perform, updateStatus, onAutoscalers, Table.update_of_absent hread]
    rfl
  | scale key replicas =>
    have hread : s.deployments.read? key = .ok none := Table.read?_of_versionAt_eq_none h
    simp only [operation, perform, updateReplicas, onDeployments, Table.update_of_absent hread]
    rfl

theorem perform_of_current (h : s.versionAt w.place = .ok (some read)) :
    (s.perform (w.operation read)).isOk := by
  cases w with
  | publish key status =>
    obtain ⟨a, hread, rfl⟩ : ∃ a, s.autoscalers.read? key = .ok (some a) ∧ _ :=
      Table.read?_of_versionAt_eq_some h
    have hcheck : checkVersion key (Versioned.version a) a.metadata.version = .ok () :=
      checkVersion_eq_ok_iff.2 rfl
    simp only [operation, perform, updateStatus, onAutoscalers, Table.update_of_read hread, hcheck]
    rfl
  | scale key replicas =>
    obtain ⟨d, hread, rfl⟩ : ∃ d, s.deployments.read? key = .ok (some d) ∧ _ :=
      Table.read?_of_versionAt_eq_some h
    have hcheck : checkVersion key (Versioned.version d) d.metadata.version = .ok () :=
      checkVersion_eq_ok_iff.2 rfl
    simp only [operation, perform, updateReplicas, onDeployments, Table.update_of_read hread,
      hcheck]
    rfl

theorem perform_of_other {stored : UInt64} (h : s.versionAt w.place = .ok (some stored))
    (hne : read ≠ stored) :
    s.perform (w.operation read) = .error (.conflict w.place.key read stored) := by
  cases w with
  | publish key status =>
    obtain ⟨a, hread, rfl⟩ : ∃ a, s.autoscalers.read? key = .ok (some a) ∧ _ :=
      Table.read?_of_versionAt_eq_some h
    have hcheck : checkVersion key read a.metadata.version =
        .error (.conflict key read a.metadata.version) := if_neg hne
    simp only [operation, perform, updateStatus, onAutoscalers, Table.update_of_read hread, hcheck]
    rfl
  | scale key replicas =>
    obtain ⟨d, hread, rfl⟩ : ∃ d, s.deployments.read? key = .ok (some d) ∧ _ :=
      Table.read?_of_versionAt_eq_some h
    have hcheck : checkVersion key read d.metadata.version =
        .error (.conflict key read d.metadata.version) := if_neg hne
    simp only [operation, perform, updateReplicas, onDeployments, Table.update_of_read hread,
      hcheck]
    rfl

end ConditionalWrite

def withDeployment (ns name : String) : Store :=
  empty.after (.createDeployment ⟨.fresh ns name, .empty⟩)

/-- The write that was decided on version `read` is done after `ops` only if nothing has happened to
the row, and refused otherwise because the row is gone or has another version. -/
def StaleWriteFails (s : Store) (w : ConditionalWrite) (read : UInt64) (ops : List Operation) :
    Prop :=
  match (s.run ops).perform (w.operation read) with
  | .ok _ => s.fate w.place ops = .kept 0
  | .error e => e = .notFound w.place.key ∨ ∃ stored, e = .conflict w.place.key read stored

/-- After any operations by anyone, a conditional write is done exactly if nothing has happened to
the row or the version that was read stands again. So stale writes fail exactly if no version
recurs. -/
theorem staleWriteFails_iff (s : Store) (w : ConditionalWrite) (read : UInt64)
    (ops : List Operation) (hread : s.versionAt w.place = .ok (some read)) :
    (((s.run ops).perform (w.operation read)).isOk ↔
        s.fate w.place ops = .kept 0 ∨ (s.fate w.place ops).Recurs read) ∧
      (s.StaleWriteFails w read ops ↔ ¬ (s.fate w.place ops).Recurs read) := by
  have hstart : (Fate.kept 0).version? read = some read :=
    ((Fate.kept 0).version?_eq_read_iff read).2 (.inl rfl)
  have hrun : (s.run ops).versionAt w.place = .ok ((s.fate w.place ops).version? read) :=
    versionAt_run ops (by rw [hstart]; exact hread)
  have hiff := (s.fate w.place ops).version?_eq_read_iff read
  unfold StaleWriteFails
  -- what stands at the place then is nothing, the version that was read, or another one
  cases hv : (s.fate w.place ops).version? read with
  | none =>
    rw [hv] at hrun hiff
    have hnot := mt hiff.2 nofun
    rw [ConditionalWrite.perform_of_absent hrun]
    refine ⟨⟨nofun, fun h => absurd h hnot⟩, ⟨fun _ h => hnot (.inr h), fun _ => .inl rfl⟩⟩
  | some stored =>
    rw [hv] at hrun hiff
    by_cases hsame : stored = read
    · subst hsame
      have hok := ConditionalWrite.perform_of_current hrun
      have hfate := hiff.1 rfl
      refine ⟨⟨fun _ => hfate, fun _ => hok⟩, ?_⟩
      cases hres : (s.run ops).perform (w.operation stored) with
      | error e =>
        rw [hres] at hok
        cases hok
      | ok r =>
        constructor
        · intro hkept hrecurs
          rw [hkept] at hrecurs
          exact Fate.not_recurs_kept_zero stored hrecurs
        · intro hnot
          exact hfate.resolve_right hnot
    · have hnot : ¬ (s.fate w.place ops = .kept 0 ∨ (s.fate w.place ops).Recurs read) :=
        fun h => hsame (Option.some.inj (hiff.2 h))
      rw [ConditionalWrite.perform_of_other hrun (Ne.symm hsame)]
      refine ⟨⟨nofun, fun h => absurd h hnot⟩, ⟨fun _ h => hnot (.inr h), fun _ => ?_⟩⟩
      exact .inr ⟨stored, rfl⟩

theorem staleWriteFails_after_scaling :
    (withDeployment "ci" "runners").versionAt ⟨.deployment, "ci/runners"⟩ = .ok (some 1) ∧
      (withDeployment "ci" "runners").StaleWriteFails (.scale "ci/runners" 5) 1
        [.updateReplicas "ci/runners" 1 3] := by
  have hread : (withDeployment "ci" "runners").versionAt ⟨.deployment, "ci/runners"⟩ =
      .ok (some 1) := by decide +kernel
  have h := staleWriteFails_iff (withDeployment "ci" "runners") (.scale "ci/runners" 5) 1
    [.updateReplicas "ci/runners" 1 3] hread
  exact ⟨hread, h.2.2 (by decide +kernel)⟩

/-- A deployment that is deleted and put back has version one again. -/
theorem not_staleWriteFails_after_rebirth :
    (withDeployment "ci" "runners").versionAt ⟨.deployment, "ci/runners"⟩ = .ok (some 1) ∧
      ¬ (withDeployment "ci" "runners").StaleWriteFails (.scale "ci/runners" 5) 1
        [.deleteDeployment "ci/runners", .putDeployment ⟨.fresh "ci" "runners", .empty⟩] := by
  refine ⟨by decide +kernel, fun h => ?_⟩
  have hfate : (withDeployment "ci" "runners").fate ⟨.deployment, "ci/runners"⟩
      [.deleteDeployment "ci/runners", .putDeployment ⟨.fresh "ci" "runners", .empty⟩] =
        .kept 0 := h
  exact absurd hfate (by decide +kernel)

end RunnerFleet.Store
