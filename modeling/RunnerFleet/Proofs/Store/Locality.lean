import RunnerFleet.Proofs.Store.Event
import RunnerFleet.Proofs.Store.History

/-!
# Refused operations, and what the others leave alone

An operation on a store that operations have made is refused exactly if the one condition fails that
it puts on the row it names, and then nothing has changed. Otherwise it changes no row but this one.
A change of an autoscaler also writes anew what it leaves alone, and the doubles among that stay
what they were exactly if they are read back so.
-/

namespace RunnerFleet

namespace Table

theorem get?_insert_of_ne {α : Type} {t : Table α} {k key : String} {v : α} (h : k ≠ key) :
    (t.insert key v).get? k = t.get? k := by
  rw [get?_insert, if_neg h]

theorem get?_erase_of_ne {α : Type} {t : Table α} {k key : String} (h : k ≠ key) :
    (t.erase key).get? k = t.get? k := by
  rw [get?_erase, if_neg h]

variable {α : Type} [Versioned α] {t : Table (Row α)} {key : String} {expected : UInt64}
  {g : α → α} {e : StoreError}

theorem update_eq_error_iff_absent (own : t.OwnRows) :
    t.update key (fun a => return g a) = .error e ↔
      t.versionAt key = .ok none ∧ e = .notFound key := by
  rw [update_eq_error_iff own, versionAt_eq_none_iff]
  refine or_iff_left ?_
  rintro ⟨a, -, ⟨⟩⟩

theorem conditionalUpdate_eq_error_iff (own : t.OwnRows) :
    t.update key (fun a => do checkVersion key expected (Versioned.version a); return g a) =
        .error e ↔
      t.versionAt key = .ok none ∧ e = .notFound key ∨
        ∃ v, t.versionAt key = .ok (some v) ∧ expected ≠ v ∧ e = .conflict key expected v := by
  rw [update_eq_error_iff own, versionAt_eq_none_iff]
  have hcheck : ∀ a, (do checkVersion key expected (Versioned.version a); return g a) = .error e ↔
      expected ≠ Versioned.version a ∧ e = .conflict key expected (Versioned.version a) := by
    intro a
    rw [← checkVersion_eq_error_iff]
    cases checkVersion key expected (Versioned.version a) with
    | ok _ => exact ⟨nofun, nofun⟩
    | error e' =>
      change Except.error e' = Except.error e ↔ Except.error e' = Except.error e
      simp only [Except.error.injEq]
  refine or_congr_right ⟨?_, ?_⟩
  · rintro ⟨a, hread, herror⟩
    exact ⟨Versioned.version a, by rw [versionAt, hread]; rfl, (hcheck a).1 herror⟩
  · rintro ⟨v, hversion, herror⟩
    obtain ⟨a, hread, rfl⟩ := read?_of_versionAt_eq_some hversion
    exact ⟨a, hread, (hcheck a).2 herror⟩

end Table

namespace Store

/-- What an operation asks of the row that it names. -/
inductive Condition where
  | nothing
  | free (place : Place)
  | there (place : Place)
  | current (place : Place) (expected : UInt64)
  deriving DecidableEq, Repr

namespace Condition

/-- The condition does not hold, and this is the error that says so. -/
def Fails (s : Store) : Condition → StoreError → Prop
  | nothing, _ => False
  | free place, e => (∃ v, s.versionAt place = .ok (some v)) ∧ e = .alreadyExists place.key
  | there place, e => s.versionAt place = .ok none ∧ e = .notFound place.key
  | current place expected, e =>
    s.versionAt place = .ok none ∧ e = .notFound place.key ∨
      ∃ v, s.versionAt place = .ok (some v) ∧ expected ≠ v ∧ e = .conflict place.key expected v

end Condition

inductive RowName where
  | resource (place : Place)
  | demand (deploymentKey : String)
  | event (tableKey : String)
  deriving DecidableEq, Repr

namespace Operation

def condition : Operation → Condition
  | createAutoscaler a => .free ⟨.autoscaler, a.key⟩
  | createDeployment d => .free ⟨.deployment, d.key⟩
  | addReservation key _ _ | markAutoscaler key _ => .there ⟨.autoscaler, key⟩
  | markDeployment key _ => .there ⟨.deployment, key⟩
  | updateStatus key expected _ => .current ⟨.autoscaler, key⟩ expected
  | updateReplicas key expected _ => .current ⟨.deployment, key⟩ expected
  | _ => .nothing

/-- The row that the operation names. An event gets the first free key of its object and second. -/
def names? (s : Store) : Operation → Option RowName
  | putDemand d => some (.demand d.deploymentKey)
  | recordEvent e => some (.event (e.tableKey (s.freeSeq e)))
  | op => (op.writes?.or op.deletes?).map .resource

def autoscalerChange? : Operation → Option (String × (Autoscaler → Autoscaler))
  | updateStatus key _ status => some (key, fun a => { a with status })
  | addReservation key r now =>
    some (key, fun a => { a with
      spec := { a.spec with reservations := a.spec.reservations.filter (·.isActive now) ++ [r] } })
  | markAutoscaler key now => some (key, Versioned.marked now)
  | _ => none

def deploymentChange? : Operation → Option (String × (Deployment → Deployment))
  | updateReplicas key _ replicas =>
    some (key, fun d => { d with spec := { d.spec with replicas := some replicas } })
  | markDeployment key now => some (key, Versioned.marked now)
  | _ => none

end Operation

def SameAt (s s' : Store) : RowName → Prop
  | .resource ⟨.autoscaler, key⟩ => s'.autoscalers.get? key = s.autoscalers.get? key
  | .resource ⟨.deployment, key⟩ => s'.deployments.get? key = s.deployments.get? key
  | .demand key => s'.demand.get? key = s.demand.get? key
  | .event key => s'.events.get? key = s.events.get? key

/-- Every row but the one that the operation names is the same. -/
def Confined (s : Store) (op : Operation) (s' : Store) : Prop :=
  ∀ name, op.names? s ≠ some name → s.SameAt s' name

/-- A changed resource has a version one higher and what the change makes of it; the rest of an
autoscaler is as `carry` has it. -/
structure Keeps (carry : Autoscaler → Autoscaler) (s : Store) (op : Operation) (s' : Store) :
    Prop where
  autoscaler : ∀ key change, op.autoscalerChange? = some (key, change) →
    ∃ a, s.autoscaler? key = .ok (some a) ∧
      s'.autoscaler? key = .ok (some (Versioned.bumped (change (carry a))))
  deployment : ∀ key change, op.deploymentChange? = some (key, change) →
    ∃ d, s.deployment? key = .ok (some d) ∧
      s'.deployment? key = .ok (some (Versioned.bumped (change d)))

/-- The operation does all that it is to do, or nothing. -/
structure Atomic (carry : Autoscaler → Autoscaler) (s : Store) (op : Operation) : Prop where
  refused : ∀ e, s.perform op = .error e ↔ op.condition.Fails s e
  untouched : ∀ e, s.perform op = .error e → s.after op = s
  confined : ∀ answer s', s.perform op = .ok (answer, s') → s.Confined op s'
  keeps : ∀ answer s', s.perform op = .ok (answer, s') → s.Keeps carry op s'

/-- An autoscaler that the operation changes is read back as it is. -/
def MetricsSurvive (s : Store) (op : Operation) : Prop :=
  ∀ r key change a, s.perform op = .ok r → op.autoscalerChange? = some (key, change) →
    s.autoscaler? key = .ok (some a) → a.reread = a

section

variable {s s' : Store} {op : Operation} {answer : Answer} {e : StoreError} {key : String}

theorem written_autoscaler_eq_error_iff
    {f : Table (Row Autoscaler) → Except StoreError (Autoscaler × Table (Row Autoscaler))} :
    written .autoscaler (s.onAutoscalers f) = .error e ↔ f s.autoscalers = .error e := by
  unfold written onAutoscalers
  rw [Except.map_eq_error_iff, Except.map_eq_error_iff]

theorem written_deployment_eq_error_iff
    {f : Table (Row Deployment) → Except StoreError (Deployment × Table (Row Deployment))} :
    written .deployment (s.onDeployments f) = .error e ↔ f s.deployments = .error e := by
  unfold written onDeployments
  rw [Except.map_eq_error_iff, Except.map_eq_error_iff]

theorem seen_eq_error_iff {α : Type} {f : α → Answer} {r : Except StoreError α}
    (h : ∃ a, r = .ok a) : s.seen f r = .error e ↔ False := by
  obtain ⟨a, rfl⟩ := h
  exact ⟨nofun, nofun⟩

theorem eventsOf_isOk (own : s.events.OwnRows) (key : String) :
    ∃ es, s.eventsOf key = .ok es := by
  refine Row.readAll_isOk fun row hrow => ?_
  obtain ⟨⟨k, row⟩, hselected, rfl⟩ := List.mem_map.1 hrow
  have hget := Table.mem_rows_iff.1 (List.mem_of_mem_filter hselected)
  obtain ⟨e, rfl⟩ := own hget
  exact ⟨Encoded.reread e, rfl⟩

theorem perform_eq_error_iff (own : s.OwnRows) :
    s.perform op = .error e ↔ op.condition.Fails s e := by
  cases op with
  | createAutoscaler a =>
    exact written_autoscaler_eq_error_iff.trans (Table.create_eq_error_iff own.autoscalers)
  | putAutoscaler a =>
    obtain ⟨r, hr⟩ := Table.put_isOk (a := a) own.autoscalers
    refine written_autoscaler_eq_error_iff.trans ⟨fun h => ?_, nofun⟩
    rw [hr] at h
    cases h
  | updateStatus key expected status =>
    exact written_autoscaler_eq_error_iff.trans
      (Table.conditionalUpdate_eq_error_iff own.autoscalers)
  | addReservation key r now =>
    exact written_autoscaler_eq_error_iff.trans (Table.update_eq_error_iff_absent own.autoscalers)
  | markAutoscaler key now =>
    exact written_autoscaler_eq_error_iff.trans (Table.update_eq_error_iff_absent own.autoscalers)
  | createDeployment d =>
    exact written_deployment_eq_error_iff.trans (Table.create_eq_error_iff own.deployments)
  | putDeployment d =>
    obtain ⟨r, hr⟩ := Table.put_isOk (a := d) own.deployments
    refine written_deployment_eq_error_iff.trans ⟨fun h => ?_, nofun⟩
    rw [hr] at h
    cases h
  | updateReplicas key expected replicas =>
    exact written_deployment_eq_error_iff.trans
      (Table.conditionalUpdate_eq_error_iff own.deployments)
  | markDeployment key now =>
    exact written_deployment_eq_error_iff.trans (Table.update_eq_error_iff_absent own.deployments)
  | deleteAutoscaler key => exact ⟨nofun, nofun⟩
  | deleteDeployment key => exact ⟨nofun, nofun⟩
  | putDemand d => exact ⟨nofun, nofun⟩
  | recordEvent e => exact ⟨nofun, nofun⟩
  | getAutoscaler key => exact seen_eq_error_iff (own.autoscalers.read? key)
  | listAutoscalers =>
    exact seen_eq_error_iff (Table.readAll_isOk_iff.2 own.autoscalers.read?)
  | getDeployment key => exact seen_eq_error_iff (own.deployments.read? key)
  | listDeployments =>
    exact seen_eq_error_iff (Table.readAll_isOk_iff.2 own.deployments.read?)
  | getDemand key => exact seen_eq_error_iff (own.demand.read? key)
  | listEvents key => exact seen_eq_error_iff (eventsOf_isOk own.events key)

theorem after_of_perform_eq_error (h : s.perform op = .error e) : s.after op = s := by
  unfold Store.after
  rw [h]

theorem names?_of_writes? {place : Place} (h : op.writes? = some place) :
    op.names? s = some (.resource place) := by
  cases op <;> first | exact congrArg (Option.map RowName.resource) h | cases h

theorem confined_of_perform (h : s.perform op = .ok (answer, s')) : s.Confined op s' := by
  intro name hname
  cases performed_of_perform h with
  | wroteAutoscaler writes =>
    rw [names?_of_writes? writes.writes?] at hname
    match name with
    | .resource ⟨.autoscaler, k⟩ => exact Table.get?_insert_of_ne fun hk => hname (hk ▸ rfl)
    | .resource ⟨.deployment, _⟩ | .demand _ | .event _ => rfl
  | wroteDeployment writes =>
    rw [names?_of_writes? writes.writes?] at hname
    match name with
    | .resource ⟨.deployment, k⟩ => exact Table.get?_insert_of_ne fun hk => hname (hk ▸ rfl)
    | .resource ⟨.autoscaler, _⟩ | .demand _ | .event _ => rfl
  | deletedAutoscaler =>
    match name with
    | .resource ⟨.autoscaler, k⟩ => exact Table.get?_erase_of_ne fun hk => hname (hk ▸ rfl)
    | .resource ⟨.deployment, _⟩ | .demand _ | .event _ => rfl
  | deletedDeployment =>
    match name with
    | .resource ⟨.deployment, k⟩ => exact Table.get?_erase_of_ne fun hk => hname (hk ▸ rfl)
    | .resource ⟨.autoscaler, _⟩ | .demand _ | .event _ => rfl
  | tookDemand =>
    match name with
    | .demand k => exact Table.get?_insert_of_ne fun hk => hname (hk ▸ rfl)
    | .resource ⟨.autoscaler, _⟩ | .resource ⟨.deployment, _⟩ | .event _ => rfl
  | recorded =>
    match name with
    | .event k => exact Table.get?_insert_of_ne fun hk => hname (hk ▸ rfl)
    | .resource ⟨.autoscaler, _⟩ | .resource ⟨.deployment, _⟩ | .demand _ => rfl
  | looked =>
    match name with
    | .resource ⟨.autoscaler, _⟩ | .resource ⟨.deployment, _⟩ | .demand _ | .event _ => rfl

theorem changes_of_isRead (h : op.isRead = true) :
    op.autoscalerChange? = none ∧ op.deploymentChange? = none := by
  cases op <;> first | exact ⟨rfl, rfl⟩ | cases h

theorem keeps_of_perform (h : s.perform op = .ok (answer, s')) :
    s.Keeps Autoscaler.reread op s' := by
  refine ⟨fun key change hchange => ?_, fun key change hchange => ?_⟩
  · cases performed_of_perform h with
    | wroteAutoscaler writes =>
      cases writes with
      | created _ | put _ => cases hchange
      | statusUpdated read | reservationAdded read | marked read =>
        cases hchange
        refine ⟨_, read, ?_⟩
        rw [autoscaler?, Table.read?_insert_written, if_pos rfl]
        rfl
    | wroteDeployment writes => cases writes <;> cases hchange
    | deletedAutoscaler | deletedDeployment | tookDemand | recorded => cases hchange
    | looked read =>
      rw [(changes_of_isRead read).1] at hchange
      cases hchange
  · cases performed_of_perform h with
    | wroteDeployment writes =>
      cases writes with
      | created _ | put _ => cases hchange
      | replicasUpdated read | marked read =>
        cases hchange
        refine ⟨_, read, ?_⟩
        rw [deployment?, Table.read?_insert_written, if_pos rfl]
        rfl
    | wroteAutoscaler writes => cases writes <;> cases hchange
    | deletedAutoscaler | deletedDeployment | tookDemand | recorded => cases hchange
    | looked read =>
      rw [(changes_of_isRead read).2] at hchange
      cases hchange

theorem metrics_change {change : Autoscaler → Autoscaler}
    (h : op.autoscalerChange? = some (key, change)) (a : Autoscaler) :
    (Versioned.bumped (change a)).spec.metrics = a.spec.metrics := by
  cases op <;> cases h <;> rfl

/-- A change tells an autoscaler from what is read back of it by the metrics. -/
theorem bumped_change_reread_iff {change : Autoscaler → Autoscaler}
    (h : op.autoscalerChange? = some (key, change)) (a : Autoscaler) :
    Versioned.bumped (change a.reread) = Versioned.bumped (change a) ↔ a.reread = a := by
  constructor
  · intro heq
    have hmetrics : a.spec.metrics.map Metric.reread = a.spec.metrics := by
      calc a.spec.metrics.map Metric.reread = a.reread.spec.metrics := rfl
        _ = (Versioned.bumped (change a.reread)).spec.metrics := (metrics_change h a.reread).symm
        _ = (Versioned.bumped (change a)).spec.metrics := by rw [heq]
        _ = a.spec.metrics := metrics_change h a
    rw [Autoscaler.reread, hmetrics]
  · intro heq
    rw [heq]

theorem keeps_id_iff (h : s.perform op = .ok (answer, s')) :
    s.Keeps id op s' ↔ s.MetricsSurvive op := by
  have hkeeps := keeps_of_perform h
  constructor
  · intro hid r key change a _ hchange hread
    obtain ⟨b, hb, hafter⟩ := hkeeps.autoscaler key change hchange
    obtain ⟨c, hc, hafter'⟩ := hid.autoscaler key change hchange
    rw [hread] at hb hc
    cases hb
    cases hc
    rw [hafter] at hafter'
    exact (bumped_change_reread_iff hchange a).1 (Option.some.inj (Except.ok.inj hafter'))
  · refine fun survive => ⟨fun key change hchange => ?_, hkeeps.deployment⟩
    obtain ⟨a, hread, hafter⟩ := hkeeps.autoscaler key change hchange
    refine ⟨a, hread, ?_⟩
    rw [hafter, survive _ key change a h hchange hread]
    rfl

theorem atomic_reread (own : s.OwnRows) (op : Operation) : s.Atomic Autoscaler.reread op where
  refused _ := perform_eq_error_iff own
  untouched _ := after_of_perform_eq_error
  confined _ _ := confined_of_perform
  keeps _ _ := keeps_of_perform

theorem atomic_id_iff (own : s.OwnRows) (op : Operation) :
    s.Atomic id op ↔ s.MetricsSurvive op := by
  constructor
  · intro h r key change a hop
    exact (keeps_id_iff hop).1 (h.keeps r.1 r.2 hop) r key change a hop
  · intro survive
    exact { atomic_reread own op with keeps := fun _ _ hop => (keeps_id_iff hop).2 survive }

/-- In a store that operations have made, every operation is refused for one reason and then does
nothing, or does what it is to do to the row it names. It leaves all else alone exactly if the
autoscaler that it changes is read back as it was. -/
theorem operations_atomic (ops : List Operation) (op : Operation) :
    (empty.run ops).Atomic Autoscaler.reread op ∧
      ((empty.run ops).Atomic id op ↔ (empty.run ops).MetricsSurvive op) :=
  ⟨atomic_reread (ownRows_run ops) op, atomic_id_iff (ownRows_run ops) op⟩

/-- To publish the empty status leaves the neighbour of the share that it has found. -/
theorem not_atomic_neighbouringShare :
    ¬ (empty.run [.createAutoscaler neighbouringShare]).Atomic id
      (.updateStatus "ci/builds" 1 .empty) := by
  intro h
  have survive := (atomic_id_iff (ownRows_run _) _).1 h
  cases hop : (empty.run [.createAutoscaler neighbouringShare]).perform
      (.updateStatus "ci/builds" 1 .empty) with
  | error e =>
    have hok : ((empty.run [.createAutoscaler neighbouringShare]).perform
        (.updateStatus "ci/builds" 1 .empty)).isOk = true := by decide +kernel
    rw [hop] at hok
    cases hok
  | ok r =>
    have hread : (empty.run [.createAutoscaler neighbouringShare]).autoscaler? "ci/builds" =
        .ok (some (Versioned.withVersion neighbouringShare 1).reread) := by decide +kernel
    exact absurd (survive r "ci/builds" _ _ hop rfl hread) (by decide +kernel)

end

end Store

end RunnerFleet
