import RunnerFleet.Proofs.Store.Change

/-!
# What each store operation does, and when it is refused

A successful operation writes one row, deletes one row, adds an event, or looks at the store. What
it writes is determined by the operation and by the row that it has read. Statements about runs
follow from this by induction and open no operation. In a table whose rows are all its own a write
is refused exactly if the row that it is to create is there, if the row that it is to change is not,
or if that row has another version than the caller has read.
-/

namespace RunnerFleet

theorem Except.map_eq_error_iff {ε α β : Type} {f : α → β} {x : Except ε α} {e : ε} :
    x.map f = .error e ↔ x = .error e := by
  cases x <;> simp [Except.map]

namespace Versioned

variable {α : Type} [Versioned α]

def bumped (a : α) : α := withVersion a (nextVersion (version a))

theorem version_bumped (a : α) : version (bumped a) = nextVersion (version a) :=
  version_withVersion a _

@[simp] theorem key_bumped (a : α) : key (bumped a) = key a := key_withVersion a _

@[simp] theorem key_reread (a : α) : key (Encoded.reread a) = key a := by
  unfold key
  rw [metadata_reread]

@[simp] theorem key_marked (now : Seconds) (a : α) : key (marked now a) = key a := by
  unfold key marked
  rw [metadata_withMetadata]
  rfl

end Versioned

namespace Table

variable {α : Type}

/-- Every row of the table was written by the store, none by someone from outside. -/
def OwnRows (t : Table (Row α)) : Prop := ∀ ⦃key row⦄, t.get? key = some row → ∃ a, row = .written a

theorem OwnRows.empty : (empty : Table (Row α)).OwnRows := nofun

theorem OwnRows.insert {t : Table (Row α)} (h : t.OwnRows) (key : String) (a : α) :
    (t.insert key (.written a)).OwnRows := by
  intro k row hk
  rw [get?_insert] at hk
  split at hk
  · exact ⟨a, (Option.some.inj hk).symm⟩
  · exact h hk

theorem OwnRows.erase {t : Table (Row α)} (h : t.OwnRows) (key : String) :
    (t.erase key).OwnRows := by
  intro k row hk
  rw [get?_erase] at hk
  split at hk
  · cases hk
  · exact h hk

theorem OwnRows.read? [Encoded α] {t : Table (Row α)} (h : t.OwnRows) (key : String) :
    ∃ found, t.read? key = .ok found := by
  unfold Table.read?
  cases hget : t.get? key with
  | none => exact ⟨none, rfl⟩
  | some row =>
    obtain ⟨a, rfl⟩ := h hget
    exact ⟨some (Encoded.reread a), rfl⟩

variable [Versioned α] {t : Table (Row α)} {key : String} {a : α} {e : StoreError}

theorem versionAt_eq_none_iff : t.versionAt key = .ok none ↔ t.read? key = .ok none := by
  constructor
  · exact read?_of_versionAt_eq_none
  · intro h
    rw [versionAt, h]
    rfl

theorem written_of_create {b : α} {t' : Table (Row α)} (h : t.create a = .ok (b, t')) :
    t.read? (Versioned.key a) = .ok none ∧ b = Versioned.withVersion a 1 ∧
      t' = t.insert (Versioned.key a) (.written b) := by
  unfold create at h
  cases hget : t.get? (Versioned.key a) with
  | some row =>
    rw [hget] at h
    cases h
  | none =>
    rw [hget] at h
    cases h
    exact ⟨read?_of_get?_eq_none hget, rfl, rfl⟩

theorem written_of_put {b : α} {t' : Table (Row α)} (h : t.put a = .ok (b, t')) :
    ∃ old, t.read? (Versioned.key a) = .ok old ∧
      b = Versioned.withVersion a (nextVersion ((old.map Versioned.version).getD 0)) ∧
      t' = t.insert (Versioned.key a) (.written b) := by
  obtain ⟨old, hread, h⟩ := Except.bind_eq_ok_iff.1 h
  refine ⟨old, hread, ?_⟩
  cases old with
  | none =>
    cases h
    exact ⟨rfl, rfl⟩
  | some stored =>
    cases h
    exact ⟨rfl, rfl⟩

theorem create_eq_error_iff (h : t.OwnRows) :
    t.create a = .error e ↔
      (∃ v, t.versionAt (Versioned.key a) = .ok (some v)) ∧
        e = .alreadyExists (Versioned.key a) := by
  unfold create
  cases hget : t.get? (Versioned.key a) with
  | none =>
    have habsent := versionAt_eq_none_iff.2 (read?_of_get?_eq_none hget)
    simp [habsent]
  | some row =>
    obtain ⟨b, rfl⟩ := h hget
    have hthere : t.versionAt (Versioned.key a) =
        .ok (some (Versioned.version (Encoded.reread b))) := by
      simp only [versionAt, Table.read?, hget]
      rfl
    simp [hthere, eq_comm]

theorem put_isOk (h : t.OwnRows) : ∃ r, t.put a = .ok r := by
  obtain ⟨found, hread⟩ := h.read? (Versioned.key a)
  unfold put
  rw [hread]
  exact ⟨_, rfl⟩

theorem update_eq_error_iff {change : α → Except StoreError α} (h : t.OwnRows) :
    t.update key change = .error e ↔
      t.read? key = .ok none ∧ e = .notFound key ∨
        ∃ a, t.read? key = .ok (some a) ∧ change a = .error e := by
  obtain ⟨found, hread⟩ := h.read? key
  cases found with
  | none =>
    rw [update_of_absent hread]
    simp [hread, eq_comm]
  | some a =>
    rw [update_of_read hread, Except.map_eq_error_iff]
    simp [hread]

end Table

theorem checkVersion_eq_error_iff {key : String} {expected actual : UInt64} {e : StoreError} :
    checkVersion key expected actual = .error e ↔
      expected ≠ actual ∧ e = .conflict key expected actual := by
  unfold checkVersion
  split
  · simp_all
  · simp_all [eq_comm]

namespace Store

variable {s s' : Store} {op : Operation} {answer : Answer} {key : String}

/-- What a write leaves in the table of autoscalers, and under which key. -/
inductive WritesAutoscaler (t : Table (Row Autoscaler)) :
    Operation → String → Autoscaler → Prop
  | created {a : Autoscaler} (free : t.read? a.key = .ok none) :
      WritesAutoscaler t (.createAutoscaler a) a.key (Versioned.withVersion a 1)
  | put {a : Autoscaler} {old : Option Autoscaler} (read : t.read? a.key = .ok old) :
      WritesAutoscaler t (.putAutoscaler a) a.key
        (Versioned.withVersion a (nextVersion ((old.map Versioned.version).getD 0)))
  | statusUpdated {key : String} {status : AutoscalerStatus} {a : Autoscaler}
      (read : t.read? key = .ok (some a)) :
      WritesAutoscaler t (.updateStatus key (Versioned.version a) status) key
        (Versioned.bumped { a with status })
  | reservationAdded {key : String} {r : Reservation} {now : Seconds} {a : Autoscaler}
      (read : t.read? key = .ok (some a)) :
      WritesAutoscaler t (.addReservation key r now) key
        (Versioned.bumped { a with
          spec := { a.spec with
            reservations := a.spec.reservations.filter (·.isActive now) ++ [r] } })
  | marked {key : String} {now : Seconds} {a : Autoscaler} (read : t.read? key = .ok (some a)) :
      WritesAutoscaler t (.markAutoscaler key now) key (Versioned.bumped (Versioned.marked now a))

inductive WritesDeployment (t : Table (Row Deployment)) :
    Operation → String → Deployment → Prop
  | created {d : Deployment} (free : t.read? d.key = .ok none) :
      WritesDeployment t (.createDeployment d) d.key (Versioned.withVersion d 1)
  | put {d : Deployment} {old : Option Deployment} (read : t.read? d.key = .ok old) :
      WritesDeployment t (.putDeployment d) d.key
        (Versioned.withVersion d (nextVersion ((old.map Versioned.version).getD 0)))
  | replicasUpdated {key : String} {replicas : Count} {d : Deployment}
      (read : t.read? key = .ok (some d)) :
      WritesDeployment t (.updateReplicas key (Versioned.version d) replicas) key
        (Versioned.bumped { d with spec := { d.spec with replicas := some replicas } })
  | marked {key : String} {now : Seconds} {d : Deployment} (read : t.read? key = .ok (some d)) :
      WritesDeployment t (.markDeployment key now) key (Versioned.bumped (Versioned.marked now d))

theorem WritesAutoscaler.writes? {t : Table (Row Autoscaler)} {a : Autoscaler}
    (h : WritesAutoscaler t op key a) : op.writes? = some ⟨.autoscaler, key⟩ := by
  cases h <;> rfl

theorem WritesDeployment.writes? {t : Table (Row Deployment)} {d : Deployment}
    (h : WritesDeployment t op key d) : op.writes? = some ⟨.deployment, key⟩ := by
  cases h <;> rfl

/-- A write goes to the key of what it writes, if the row that it reads is under its own key. -/
theorem WritesAutoscaler.key_eq {t : Table (Row Autoscaler)} {a : Autoscaler}
    (h : WritesAutoscaler t op key a)
    (filed : ∀ b, t.read? key = .ok (some b) → Versioned.key b = key) : Versioned.key a = key := by
  cases h with
  | created free => exact Versioned.key_withVersion _ _
  | put read => exact Versioned.key_withVersion _ _
  | statusUpdated read =>
    have hkey := filed _ read
    exact (Versioned.key_bumped _).trans hkey
  | reservationAdded read =>
    have hkey := filed _ read
    exact (Versioned.key_bumped _).trans hkey
  | marked read =>
    exact (Versioned.key_bumped _).trans ((Versioned.key_marked _ _).trans (filed _ read))

theorem WritesDeployment.key_eq {t : Table (Row Deployment)} {d : Deployment}
    (h : WritesDeployment t op key d)
    (filed : ∀ b, t.read? key = .ok (some b) → Versioned.key b = key) : Versioned.key d = key := by
  cases h with
  | created free => exact Versioned.key_withVersion _ _
  | put read => exact Versioned.key_withVersion _ _
  | replicasUpdated read =>
    have hkey := filed _ read
    exact (Versioned.key_bumped _).trans hkey
  | marked read =>
    exact (Versioned.key_bumped _).trans ((Versioned.key_marked _ _).trans (filed _ read))

theorem WritesAutoscaler.follows {t : Table (Row Autoscaler)} {a : Autoscaler}
    (h : WritesAutoscaler t op key a) : t.Follows key a := by
  cases h with
  | created free =>
    exact ⟨none, Table.versionAt_eq_none_iff.2 free, Versioned.version_withVersion _ _⟩
  | put read =>
    refine ⟨_, ?_, Versioned.version_withVersion _ _⟩
    rw [Table.versionAt, read]
    rfl
  | statusUpdated read => exact Table.follows_of_read read (Versioned.version_bumped _)
  | reservationAdded read => exact Table.follows_of_read read (Versioned.version_bumped _)
  | marked read =>
    refine Table.follows_of_read read ((Versioned.version_bumped _).trans ?_)
    rw [Versioned.version_marked]

theorem WritesDeployment.follows {t : Table (Row Deployment)} {d : Deployment}
    (h : WritesDeployment t op key d) : t.Follows key d := by
  cases h with
  | created free =>
    exact ⟨none, Table.versionAt_eq_none_iff.2 free, Versioned.version_withVersion _ _⟩
  | put read =>
    refine ⟨_, ?_, Versioned.version_withVersion _ _⟩
    rw [Table.versionAt, read]
    rfl
  | replicasUpdated read => exact Table.follows_of_read read (Versioned.version_bumped _)
  | marked read =>
    refine Table.follows_of_read read ((Versioned.version_bumped _).trans ?_)
    rw [Versioned.version_marked]

def Operation.isRead : Operation → Bool
  | getAutoscaler _ | listAutoscalers | getDeployment _ | listDeployments | getDemand _
  | listEvents _ => true
  | _ => false

/-- All that a successful operation can answer and make of the store. -/
inductive Performed (s : Store) : Operation → Answer → Store → Prop
  | wroteAutoscaler {op : Operation} {key : String} {a : Autoscaler}
      (writes : WritesAutoscaler s.autoscalers op key a) :
      Performed s op (.autoscaler a)
        { s with autoscalers := s.autoscalers.insert key (.written a) }
  | wroteDeployment {op : Operation} {key : String} {d : Deployment}
      (writes : WritesDeployment s.deployments op key d) :
      Performed s op (.deployment d)
        { s with deployments := s.deployments.insert key (.written d) }
  | deletedAutoscaler {key : String} :
      Performed s (.deleteAutoscaler key) (.existed (s.autoscalers.get? key).isSome)
        { s with autoscalers := s.autoscalers.erase key }
  | deletedDeployment {key : String} :
      Performed s (.deleteDeployment key) (.existed (s.deployments.get? key).isSome)
        { s with deployments := s.deployments.erase key }
  | tookDemand {d : Demand} : Performed s (.putDemand d) .done (s.putDemand d)
  | recorded {e : Event} : Performed s (.recordEvent e) .done (s.recordEvent e)
  | looked {op : Operation} {answer : Answer} (read : op.isRead = true) : Performed s op answer s

theorem Performed.ofAutoscalers
    {f : Table (Row Autoscaler) → Except StoreError (Autoscaler × Table (Row Autoscaler))}
    (hf : ∀ a t, f s.autoscalers = .ok (a, t) →
      ∃ key, t = s.autoscalers.insert key (.written a) ∧ WritesAutoscaler s.autoscalers op key a)
    (h : written .autoscaler (s.onAutoscalers f) = .ok (answer, s')) :
    Performed s op answer s' := by
  obtain ⟨⟨a, s''⟩, hok, heq⟩ := Except.map_eq_ok_iff.1 h
  cases heq
  obtain ⟨t, ht, rfl⟩ := onAutoscalers_eq_ok hok
  obtain ⟨key, rfl, writes⟩ := hf a t ht
  exact .wroteAutoscaler writes

theorem Performed.ofDeployments
    {f : Table (Row Deployment) → Except StoreError (Deployment × Table (Row Deployment))}
    (hf : ∀ d t, f s.deployments = .ok (d, t) →
      ∃ key, t = s.deployments.insert key (.written d) ∧ WritesDeployment s.deployments op key d)
    (h : written .deployment (s.onDeployments f) = .ok (answer, s')) :
    Performed s op answer s' := by
  obtain ⟨⟨d, s''⟩, hok, heq⟩ := Except.map_eq_ok_iff.1 h
  cases heq
  obtain ⟨t, ht, rfl⟩ := onDeployments_eq_ok hok
  obtain ⟨key, rfl, writes⟩ := hf d t ht
  exact .wroteDeployment writes

theorem Performed.ofRead {α : Type} {f : α → Answer} {r : Except StoreError α}
    (hop : op.isRead = true) (h : s.seen f r = .ok (answer, s')) : Performed s op answer s' := by
  obtain ⟨a, -, heq⟩ := Except.map_eq_ok_iff.1 h
  cases heq
  exact .looked hop

theorem performed_of_perform (h : s.perform op = .ok (answer, s')) :
    Performed s op answer s' := by
  cases op with
  | createAutoscaler a =>
    refine .ofAutoscalers (fun b t hb => ⟨a.key, ?_⟩) h
    obtain ⟨hfree, rfl, rfl⟩ := Table.written_of_create hb
    exact ⟨rfl, .created hfree⟩
  | putAutoscaler a =>
    refine .ofAutoscalers (fun b t hb => ⟨a.key, ?_⟩) h
    obtain ⟨old, hread, rfl, rfl⟩ := Table.written_of_put hb
    exact ⟨rfl, .put hread⟩
  | updateStatus key expected status =>
    refine .ofAutoscalers (fun b t hb => ⟨key, ?_⟩) h
    obtain ⟨x, c, hread, hc, rfl, rfl⟩ := Table.update_eq_ok hb
    obtain ⟨_, hcheck, hc⟩ := Except.bind_eq_ok_iff.1 hc
    cases hc
    obtain rfl := checkVersion_eq_ok_iff.1 hcheck
    exact ⟨rfl, .statusUpdated hread⟩
  | addReservation key r now =>
    refine .ofAutoscalers (fun b t hb => ⟨key, ?_⟩) h
    obtain ⟨x, c, hread, hc, rfl, rfl⟩ := Table.update_eq_ok hb
    cases hc
    exact ⟨rfl, .reservationAdded hread⟩
  | markAutoscaler key now =>
    refine .ofAutoscalers (fun b t hb => ⟨key, ?_⟩) h
    obtain ⟨x, c, hread, hc, rfl, rfl⟩ := Table.update_eq_ok hb
    cases hc
    exact ⟨rfl, .marked hread⟩
  | createDeployment d =>
    refine .ofDeployments (fun b t hb => ⟨d.key, ?_⟩) h
    obtain ⟨hfree, rfl, rfl⟩ := Table.written_of_create hb
    exact ⟨rfl, .created hfree⟩
  | putDeployment d =>
    refine .ofDeployments (fun b t hb => ⟨d.key, ?_⟩) h
    obtain ⟨old, hread, rfl, rfl⟩ := Table.written_of_put hb
    exact ⟨rfl, .put hread⟩
  | updateReplicas key expected replicas =>
    refine .ofDeployments (fun b t hb => ⟨key, ?_⟩) h
    obtain ⟨x, c, hread, hc, rfl, rfl⟩ := Table.update_eq_ok hb
    obtain ⟨_, hcheck, hc⟩ := Except.bind_eq_ok_iff.1 hc
    cases hc
    obtain rfl := checkVersion_eq_ok_iff.1 hcheck
    exact ⟨rfl, .replicasUpdated hread⟩
  | markDeployment key now =>
    refine .ofDeployments (fun b t hb => ⟨key, ?_⟩) h
    obtain ⟨x, c, hread, hc, rfl, rfl⟩ := Table.update_eq_ok hb
    cases hc
    exact ⟨rfl, .marked hread⟩
  | deleteAutoscaler key =>
    cases h
    exact .deletedAutoscaler
  | deleteDeployment key =>
    cases h
    exact .deletedDeployment
  | putDemand d =>
    cases h
    exact .tookDemand
  | recordEvent e =>
    cases h
    exact .recorded
  | getAutoscaler key => exact .ofRead rfl h
  | listAutoscalers => exact .ofRead rfl h
  | getDeployment key => exact .ofRead rfl h
  | listDeployments => exact .ofRead rfl h
  | getDemand key => exact .ofRead rfl h
  | listEvents key => exact .ofRead rfl h

theorem places_of_isRead (h : op.isRead = true) : op.writes? = none ∧ op.deletes? = none := by
  cases op <;> first | exact ⟨rfl, rfl⟩ | cases h

theorem changed_of_perform (h : s.perform op = .ok (answer, s')) : Changed s op s' := by
  cases performed_of_perform h with
  | @wroteAutoscaler _ key a writes =>
    obtain ⟨old, hold, hversion⟩ := writes.follows
    have hstood := (s.readAt_autoscaler Resource.version key).trans hold
    exact Changed.wrote (r := .autoscaler a) writes.writes? hstood hversion
  | @wroteDeployment _ key d writes =>
    obtain ⟨old, hold, hversion⟩ := writes.follows
    have hstood := (s.readAt_deployment Resource.version key).trans hold
    exact Changed.wrote (r := .deployment d) writes.writes? hstood hversion
  | @deletedAutoscaler key =>
    have hdeletes : (Operation.deleteAutoscaler key).deletes? = some ⟨.autoscaler, key⟩ := rfl
    exact .deleted hdeletes
  | @deletedDeployment key =>
    have hdeletes : (Operation.deleteDeployment key).deletes? = some ⟨.deployment, key⟩ := rfl
    exact .deleted hdeletes
  | tookDemand => exact .neither rfl rfl rfl rfl
  | recorded => exact .neither rfl rfl rfl rfl
  | looked read => exact .neither (places_of_isRead read).1 (places_of_isRead read).2 rfl rfl

structure OwnRows (s : Store) : Prop where
  autoscalers : s.autoscalers.OwnRows
  deployments : s.deployments.OwnRows
  demand : s.demand.OwnRows
  events : s.events.OwnRows

theorem OwnRows.perform (h : s.OwnRows) (hop : s.perform op = .ok (answer, s')) : s'.OwnRows := by
  cases performed_of_perform hop with
  | wroteAutoscaler writes => exact { h with autoscalers := h.autoscalers.insert _ _ }
  | wroteDeployment writes => exact { h with deployments := h.deployments.insert _ _ }
  | deletedAutoscaler => exact { h with autoscalers := h.autoscalers.erase _ }
  | deletedDeployment => exact { h with deployments := h.deployments.erase _ }
  | tookDemand => exact { h with demand := h.demand.insert _ _ }
  | recorded => exact { h with events := h.events.insert _ _ }
  | looked => exact h

theorem OwnRows.after (h : s.OwnRows) (op : Operation) : (s.after op).OwnRows := by
  unfold Store.after
  split
  · next hop => exact h.perform hop
  · exact h

theorem ownRows_run (ops : List Operation) : (empty.run ops).OwnRows := by
  have hrun : ∀ s : Store, s.OwnRows → (s.run ops).OwnRows := by
    induction ops with
    | nil => exact fun s h => h
    | cons op ops ih => exact fun s h => ih _ (h.after op)
  exact hrun empty ⟨.empty, .empty, .empty, .empty⟩

end Store

end RunnerFleet
