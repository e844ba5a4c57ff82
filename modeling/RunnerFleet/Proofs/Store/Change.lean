import Mathlib.Tactic
import RunnerFleet.Store.Operation

/-!
# What a write to a table changes

A write to a table puts one row under one key, and its version is the one after the version that was
stored there, counted from zero where there was none. For the whole store this makes three outcomes:
a row at a place of the versioned tables is written, or deleted, or both tables stay as they are.
-/

namespace RunnerFleet

theorem Except.map_eq_ok_iff {ε α β : Type} {f : α → β} {x : Except ε α} {b : β} :
    x.map f = .ok b ↔ ∃ a, x = .ok a ∧ f a = b := by
  cases x with
  | ok a => simp [Except.map]
  | error e => simp [Except.map]

theorem Except.mapError_eq_ok_iff {ε ε' α : Type} {f : ε → ε'} {x : Except ε α} {a : α} :
    x.mapError f = .ok a ↔ x = .ok a := by
  cases x <;> simp [Except.mapError]

theorem Except.bind_eq_ok_iff {ε α β : Type} {f : α → Except ε β} {x : Except ε α} {b : β} :
    (x >>= f) = .ok b ↔ ∃ a, x = .ok a ∧ f a = .ok b := by
  cases x with
  | ok a => simp [bind, Except.bind]
  | error e => simp [bind, Except.bind]

theorem checkVersion_eq_ok_iff {key : String} {expected actual : UInt64} :
    checkVersion key expected actual = .ok () ↔ expected = actual := by
  unfold checkVersion
  split <;> simp_all

namespace Versioned

variable {α : Type} [Versioned α]

@[simp] theorem version_withVersion (a : α) (n : UInt64) : version (withVersion a n) = n := by
  unfold version withVersion
  rw [metadata_withMetadata]

@[simp] theorem key_withVersion (a : α) (n : UInt64) : key (withVersion a n) = key a := by
  unfold key withVersion
  rw [metadata_withMetadata]
  rfl

@[simp] theorem withVersion_withVersion (a : α) (m n : UInt64) :
    withVersion (withVersion a m) n = withVersion a n := by
  unfold withVersion
  rw [metadata_withMetadata, withMetadata_withMetadata]

@[simp] theorem withVersion_version (a : α) : withVersion a (version a) = a :=
  withMetadata_metadata a

theorem reread_withVersion (a : α) (n : UInt64) :
    Encoded.reread (withVersion a n) = withVersion (Encoded.reread a) n := by
  unfold withVersion
  rw [reread_withMetadata, metadata_reread]

@[simp] theorem version_reread (a : α) : version (Encoded.reread a) = version a := by
  unfold version
  rw [metadata_reread]

@[simp] theorem version_marked (now : Seconds) (a : α) : version (marked now a) = version a := by
  unfold version marked
  rw [metadata_withMetadata]

end Versioned

namespace Table

variable {α : Type}

theorem read?_of_get?_eq_none [Encoded α] {t : Table (Row α)} {key : String}
    (h : t.get? key = none) : t.read? key = .ok none := by
  simp only [read?, h]

@[simp] theorem read?_insert_written [Encoded α] (t : Table (Row α)) (key k : String) (a : α) :
    (t.insert key (.written a)).read? k =
      if k = key then .ok (some (Encoded.reread a)) else t.read? k := by
  unfold read?
  rw [get?_insert]
  by_cases hk : k = key
  · rw [if_pos hk, if_pos hk]
    rfl
  · rw [if_neg hk, if_neg hk]

@[simp] theorem read?_erase [Encoded α] (t : Table (Row α)) (key k : String) :
    (t.erase key).read? k = if k = key then .ok none else t.read? k := by
  unfold read?
  rw [get?_erase]
  by_cases hk : k = key
  · rw [if_pos hk, if_pos hk]
  · rw [if_neg hk, if_neg hk]

def versionAt [Versioned α] (t : Table (Row α)) (key : String) :
    Except StoreError (Option UInt64) :=
  (t.read? key).map fun a => a.map Versioned.version

def Follows [Versioned α] (t : Table (Row α)) (key : String) (a : α) : Prop :=
  ∃ old, t.versionAt key = .ok old ∧ Versioned.version a = nextVersion (old.getD 0)

variable [Versioned α] {t t' : Table (Row α)} {a b : α} {key k : String}

theorem put_eq_ok (h : t.put a = .ok (b, t')) :
    (t' = t.insert (Versioned.key a) (.written b) ∧ t.Follows (Versioned.key a) b) ∧
      ∃ n, b = Versioned.withVersion a n := by
  obtain ⟨old, hread, h⟩ := Except.bind_eq_ok_iff.1 h
  cases h
  refine ⟨⟨rfl, old.map Versioned.version, ?_, ?_⟩, _, rfl⟩
  · unfold versionAt
    rw [hread]
    rfl
  · rw [Versioned.version_withVersion]
    cases old <;> rfl

theorem update_eq_ok {change : α → Except StoreError α}
    (h : t.update key change = .ok (b, t')) :
    ∃ stored c, t.read? key = .ok (some stored) ∧ change stored = .ok c ∧
      b = Versioned.withVersion c (nextVersion (Versioned.version c)) ∧
      t' = t.insert key (.written b) := by
  obtain ⟨old, hread, h⟩ := Except.bind_eq_ok_iff.1 h
  cases old with
  | none => cases h
  | some stored =>
    obtain ⟨c, hc, h⟩ := Except.bind_eq_ok_iff.1 h
    cases h
    exact ⟨stored, c, hread, hc, rfl, rfl⟩

theorem update_of_absent {change : α → Except StoreError α} (h : t.read? key = .ok none) :
    t.update key change = .error (.notFound key) := by
  unfold update
  rw [h]
  rfl

theorem update_of_read {change : α → Except StoreError α} (h : t.read? key = .ok (some a)) :
    t.update key change = (change a).map fun c =>
      t.write key (Versioned.withVersion c (nextVersion (Versioned.version c))) := by
  unfold update
  rw [h]
  change (change a >>= _) = _
  cases change a <;> rfl

theorem read?_of_versionAt_eq_none (h : t.versionAt key = .ok none) : t.read? key = .ok none := by
  obtain ⟨old, hread, hold⟩ := Except.map_eq_ok_iff.1 h
  rw [hread, Option.map_eq_none_iff.1 hold]

theorem read?_of_versionAt_eq_some {n : UInt64} (h : t.versionAt key = .ok (some n)) :
    ∃ a, t.read? key = .ok (some a) ∧ Versioned.version a = n := by
  obtain ⟨old, hread, hold⟩ := Except.map_eq_ok_iff.1 h
  obtain ⟨a, rfl, ha⟩ := Option.map_eq_some_iff.1 hold
  exact ⟨a, hread, ha⟩

theorem follows_of_read (h : t.read? key = .ok (some a))
    (hversion : Versioned.version b = nextVersion (Versioned.version a)) : t.Follows key b := by
  refine ⟨some (Versioned.version a), ?_, hversion⟩
  rw [versionAt, h]
  rfl

end Table

namespace Store

inductive Kind where
  | autoscaler
  | deployment
  deriving DecidableEq, Repr

structure Place where
  kind : Kind
  key : String
  deriving DecidableEq, Repr

namespace Operation

def writes? : Operation → Option Place
  | createAutoscaler a | putAutoscaler a => some ⟨.autoscaler, a.key⟩
  | updateStatus key _ _ | addReservation key _ _ | markAutoscaler key _ => some ⟨.autoscaler, key⟩
  | createDeployment d | putDeployment d => some ⟨.deployment, d.key⟩
  | updateReplicas key _ _ | markDeployment key _ => some ⟨.deployment, key⟩
  | _ => none

def deletes? : Operation → Option Place
  | deleteAutoscaler key => some ⟨.autoscaler, key⟩
  | deleteDeployment key => some ⟨.deployment, key⟩
  | _ => none

end Operation

inductive Resource where
  | autoscaler (a : Autoscaler)
  | deployment (d : Deployment)
  deriving DecidableEq, Repr

namespace Resource

def kind : Resource → Kind
  | autoscaler _ => .autoscaler
  | deployment _ => .deployment

def key : Resource → String
  | autoscaler a => a.key
  | deployment d => d.key

def version : Resource → UInt64
  | autoscaler a => a.metadata.version
  | deployment d => d.metadata.version

def reread : Resource → Resource
  | autoscaler a => autoscaler a.reread
  | deployment d => deployment d

@[simp] theorem key_reread (r : Resource) : r.reread.key = r.key := by
  cases r <;> rfl

theorem version_reread (r : Resource) : r.reread.version = r.version := by
  cases r <;> rfl

end Resource

/-- What a read of the row at a place returns. -/
def resourceAt (s : Store) (place : Place) : Except StoreError (Option Resource) :=
  match place.kind with
  | .autoscaler => (s.autoscaler? place.key).map (Option.map .autoscaler)
  | .deployment => (s.deployment? place.key).map (Option.map .deployment)

/-- What `f` tells of the resource at a place, if there is one. -/
def readAt {β : Type} (f : Resource → β) (s : Store) (place : Place) :
    Except StoreError (Option β) :=
  (s.resourceAt place).map (Option.map f)

def file (s : Store) (key : String) : Resource → Store
  | .autoscaler a => { s with autoscalers := s.autoscalers.insert key (.written a) }
  | .deployment d => { s with deployments := s.deployments.insert key (.written d) }

def clear (s : Store) (place : Place) : Store :=
  match place.kind with
  | .autoscaler => { s with autoscalers := s.autoscalers.erase place.key }
  | .deployment => { s with deployments := s.deployments.erase place.key }

section

variable {β : Type} (f : Resource → β) (s : Store) (place : Place) (key : String)

theorem readAt_autoscaler :
    s.readAt f ⟨.autoscaler, key⟩ =
      (s.autoscalers.read? key).map (Option.map fun a => f (.autoscaler a)) := by
  unfold readAt resourceAt autoscaler?
  cases s.autoscalers.read? key with
  | error e => rfl
  | ok found => cases found <;> rfl

theorem readAt_deployment :
    s.readAt f ⟨.deployment, key⟩ =
      (s.deployments.read? key).map (Option.map fun d => f (.deployment d)) := by
  unfold readAt resourceAt deployment?
  cases s.deployments.read? key with
  | error e => rfl
  | ok found => cases found <;> rfl

theorem resourceAt_file (r : Resource) :
    (s.file key r).resourceAt place =
      if place = ⟨r.kind, key⟩ then .ok (some r.reread) else s.resourceAt place := by
  obtain ⟨kind, k⟩ := place
  cases r with
  | autoscaler a =>
    cases kind with
    | autoscaler =>
      simp only [resourceAt, autoscaler?, file, Table.read?_insert_written, Resource.kind,
        Place.mk.injEq, true_and]
      split <;> rfl
    | deployment => simp [resourceAt, deployment?, file, Resource.kind]
  | deployment d =>
    cases kind with
    | autoscaler => simp [resourceAt, autoscaler?, file, Resource.kind]
    | deployment =>
      simp only [resourceAt, deployment?, file, Table.read?_insert_written, Resource.kind,
        Place.mk.injEq, true_and]
      split <;> rfl

theorem resourceAt_clear (target : Place) :
    (s.clear target).resourceAt place = if place = target then .ok none else s.resourceAt place := by
  obtain ⟨kind, k⟩ := place
  obtain ⟨kind', k'⟩ := target
  cases kind <;> cases kind'
  case autoscaler.deployment => simp [resourceAt, autoscaler?, clear]
  case deployment.autoscaler => simp [resourceAt, deployment?, clear]
  all_goals
    simp only [resourceAt, autoscaler?, deployment?, clear, Table.read?_erase, Place.mk.injEq,
      true_and]
    split <;> rfl

/-- What is told of a filed resource, where rereading it makes no difference. -/
theorem readAt_file (hf : ∀ r, f r.reread = f r) (r : Resource) :
    (s.file key r).readAt f place =
      if place = ⟨r.kind, key⟩ then .ok (some (f r)) else s.readAt f place := by
  unfold readAt
  rw [resourceAt_file]
  split
  · rw [← hf r]
    rfl
  · rfl

theorem readAt_clear (target : Place) :
    (s.clear target).readAt f place = if place = target then .ok none else s.readAt f place := by
  unfold readAt
  rw [resourceAt_clear]
  split <;> rfl

end

section

variable {s : Store} {place : Place} {key : String}

theorem resourceAt_of_autoscaler {a : Autoscaler} (h : s.autoscalers.read? key = .ok (some a)) :
    s.resourceAt ⟨.autoscaler, key⟩ = .ok (some (.autoscaler a)) := by
  rw [resourceAt, autoscaler?, h]
  rfl

theorem resourceAt_of_deployment {d : Deployment} (h : s.deployments.read? key = .ok (some d)) :
    s.resourceAt ⟨.deployment, key⟩ = .ok (some (.deployment d)) := by
  rw [resourceAt, deployment?, h]
  rfl

theorem readAt_of_resourceAt {β : Type} {f : Resource → β} {r : Resource}
    (h : s.resourceAt place = .ok (some r)) : s.readAt f place = .ok (some (f r)) := by
  rw [readAt, h]
  rfl

end

/-- All that a successful operation can make of the versioned tables. The version of what is written
is the one after the version that stood there. -/
inductive Changed (s : Store) (op : Operation) : Store → Prop
  | wrote {key : String} {r : Resource} {old : Option UInt64}
      (h : op.writes? = some ⟨r.kind, key⟩)
      (stood : s.readAt Resource.version ⟨r.kind, key⟩ = .ok old)
      (follows : r.version = nextVersion (old.getD 0)) : Changed s op (s.file key r)
  | deleted {place : Place} (h : op.deletes? = some place) : Changed s op (s.clear place)
  | neither {s' : Store} (hw : op.writes? = none) (hd : op.deletes? = none)
      (ha : s'.autoscalers = s.autoscalers) (hr : s'.deployments = s.deployments) :
      Changed s op s'

variable {s s' : Store} {op : Operation} {answer : Answer} {key : String}

theorem onAutoscalers_eq_ok {α : Type} {a : α}
    {f : Table (Row Autoscaler) → Except StoreError (α × Table (Row Autoscaler))}
    (h : s.onAutoscalers f = .ok (a, s')) :
    ∃ t, f s.autoscalers = .ok (a, t) ∧ s' = { s with autoscalers := t } := by
  obtain ⟨⟨b, t⟩, hf, heq⟩ := Except.map_eq_ok_iff.1 h
  cases heq
  exact ⟨t, hf, rfl⟩

theorem onDeployments_eq_ok {α : Type} {d : α}
    {f : Table (Row Deployment) → Except StoreError (α × Table (Row Deployment))}
    (h : s.onDeployments f = .ok (d, s')) :
    ∃ t, f s.deployments = .ok (d, t) ∧ s' = { s with deployments := t } := by
  obtain ⟨⟨b, t⟩, hf, heq⟩ := Except.map_eq_ok_iff.1 h
  cases heq
  exact ⟨t, hf, rfl⟩

end Store

end RunnerFleet
