import RunnerFleet.Proofs.Operator.CacheLifetime
import RunnerFleet.Proofs.Operator.Upsert
import RunnerFleet.Proofs.Store.EventScope
import RunnerFleet.Proofs.Store.History

/-!
# What only operators change

The mark for deletion and the reservations of a resource are the terms that operators set. No step
of a pass changes them, at whatever stage and however old what the pass has read, and neither does a
command that only records demand or shows a status. Reserving appends to them, marking keeps the
first mark, and applying a manifest takes both from the last entry that it stores.
-/

namespace RunnerFleet

open Versioned

namespace Store

/-- What operators decide about a resource and a controller has to respect. -/
structure Terms where
  deletedAt : Option Seconds
  reservations : List Reservation
  deriving DecidableEq, Repr

namespace Resource

def terms : Resource → Terms
  | autoscaler a => ⟨a.metadata.deletedAt, a.spec.reservations⟩
  | deployment d => ⟨d.metadata.deletedAt, []⟩

end Resource

def termsAt (s : Store) (place : Place) : Except StoreError (Option Terms) :=
  (s.resourceAt place).map (Option.map Resource.terms)

def Holds (s : Store) (place : Place) (P : Terms → Prop) : Prop :=
  ∃ terms, s.termsAt place = .ok (some terms) ∧ P terms

variable {s s' : Store} {place : Place} {key : String}

theorem termsAt_congr (hautoscalers : s'.autoscalers = s.autoscalers)
    (hdeployments : s'.deployments = s.deployments) : s'.termsAt = s.termsAt := by
  funext place
  simp only [termsAt, resourceAt, autoscaler?, deployment?, hautoscalers, hdeployments]

theorem termsAt_eq_readAt (s : Store) : s.termsAt = s.readAt Resource.terms := rfl

theorem terms_reread (r : Resource) : r.reread.terms = r.terms := by
  cases r <;> rfl

theorem termsAt_file (s : Store) (place : Place) (key : String) (r : Resource) :
    (s.file key r).termsAt place =
      if place = ⟨r.kind, key⟩ then .ok (some r.terms) else s.termsAt place :=
  readAt_file Resource.terms s place key terms_reread r

theorem exists_of_termsAt {terms : Terms} (h : s.termsAt place = .ok (some terms)) :
    ∃ r, s.resourceAt place = .ok (some r) ∧ r.terms = terms := by
  obtain ⟨found, hread, hfound⟩ := Except.map_eq_ok_iff.1 h
  obtain ⟨r, rfl, hterms⟩ := Option.map_eq_some_iff.1 hfound
  exact ⟨r, hread, hterms⟩

/-- Filing a resource with the terms of the one that it replaces changes no terms. -/
theorem termsAt_file_of_eq {r q : Resource} (h : s.resourceAt ⟨q.kind, key⟩ = .ok (some r))
    (hterms : q.terms = r.terms) : (s.file key q).termsAt = s.termsAt := by
  funext place
  rw [termsAt_file]
  split
  · next hplace =>
    rw [hplace, hterms]
    exact (readAt_of_resourceAt h).symm
  · rfl

theorem termsAt_updateReplicas {d : Deployment} {expected : UInt64} {replicas : Count}
    (h : s.updateReplicas key expected replicas = .ok (d, s')) : s'.termsAt = s.termsAt := by
  obtain ⟨t, ht, rfl⟩ := onDeployments_eq_ok h
  obtain ⟨stored, c, hread, hc, rfl, rfl⟩ := Table.update_eq_ok ht
  obtain ⟨_, -, hc⟩ := Except.bind_eq_ok_iff.1 hc
  obtain rfl := Except.ok.inj hc
  exact termsAt_file_of_eq (q := .deployment _) (resourceAt_of_deployment hread) rfl

theorem termsAt_updateStatus {a : Autoscaler} {expected : UInt64} {status : AutoscalerStatus}
    (h : s.updateStatus key expected status = .ok (a, s')) : s'.termsAt = s.termsAt := by
  obtain ⟨t, ht, rfl⟩ := onAutoscalers_eq_ok h
  obtain ⟨stored, c, hread, hc, rfl, rfl⟩ := Table.update_eq_ok ht
  obtain ⟨_, -, hc⟩ := Except.bind_eq_ok_iff.1 hc
  obtain rfl := Except.ok.inj hc
  exact termsAt_file_of_eq (q := .autoscaler _) (resourceAt_of_autoscaler hread) rfl

/-! ## Marks and deletions -/

namespace Place

def marking (place : Place) (now : Seconds) : Operation :=
  match place.kind with
  | .autoscaler => .markAutoscaler place.key now
  | .deployment => .markDeployment place.key now

def deleting (place : Place) : Operation :=
  match place.kind with
  | .autoscaler => .deleteAutoscaler place.key
  | .deployment => .deleteDeployment place.key

end Place

namespace Terms

def marked (terms : Terms) (now : Seconds) : Terms :=
  { terms with deletedAt := some (terms.deletedAt.getD now) }

def reserving (terms : Terms) (now : Seconds) (r : Reservation) : Terms :=
  { terms with reservations := terms.reservations.filter (·.isActive now) ++ [r] }

end Terms

theorem perform_markAutoscaler {a : Autoscaler} (h : s.autoscaler? key = .ok (some a))
    (now : Seconds) :
    s.perform (.markAutoscaler key now) =
      let b := Versioned.bumped (Versioned.marked now a)
      .ok (.autoscaler b, { s with autoscalers := s.autoscalers.insert key (.written b) }) := by
  change written .autoscaler (s.onAutoscalers (·.update key _)) = _
  rw [onAutoscalers, Table.update_of_read h]
  rfl

theorem perform_markDeployment {d : Deployment} (h : s.deployment? key = .ok (some d))
    (now : Seconds) :
    s.perform (.markDeployment key now) =
      let e := Versioned.bumped (Versioned.marked now d)
      .ok (.deployment e, { s with deployments := s.deployments.insert key (.written e) }) := by
  change written .deployment (s.onDeployments (·.update key _)) = _
  rw [onDeployments, Table.update_of_read h]
  rfl

theorem after_marking {r : Resource} (h : s.resourceAt place = .ok (some r)) (now : Seconds) :
    ∃ r', s.after (place.marking now) = s.file place.key r' ∧ place = ⟨r'.kind, place.key⟩ ∧
      r'.terms = r.terms.marked now := by
  obtain ⟨kind, key⟩ := place
  cases kind with
  | autoscaler =>
    obtain ⟨found, hread, hfound⟩ := Except.map_eq_ok_iff.1 h
    obtain ⟨a, rfl, rfl⟩ := Option.map_eq_some_iff.1 hfound
    refine ⟨.autoscaler (Versioned.bumped (Versioned.marked now a)), ?_, rfl, rfl⟩
    simp only [after, Place.marking, perform_markAutoscaler hread]
    rfl
  | deployment =>
    obtain ⟨found, hread, hfound⟩ := Except.map_eq_ok_iff.1 h
    obtain ⟨d, rfl, rfl⟩ := Option.map_eq_some_iff.1 hfound
    refine ⟨.deployment (Versioned.bumped (Versioned.marked now d)), ?_, rfl, rfl⟩
    simp only [after, Place.marking, perform_markDeployment hread]
    rfl

theorem termsAt_marking_self {terms : Terms} (h : s.termsAt place = .ok (some terms))
    (now : Seconds) :
    (s.after (place.marking now)).termsAt place = .ok (some (terms.marked now)) := by
  obtain ⟨r, hread, rfl⟩ := exists_of_termsAt h
  obtain ⟨r', hafter, hplace, hterms⟩ := after_marking hread now
  rw [hafter, termsAt_file, if_pos hplace, hterms]

/-- An operation leaves the terms of every place that it neither writes nor deletes. -/
theorem termsAt_after_of_ne {op : Operation} (hwrites : op.writes? ≠ some place)
    (hdeletes : op.deletes? ≠ some place) : (s.after op).termsAt place = s.termsAt place := by
  unfold after
  cases hop : s.perform op with
  | error e => rfl
  | ok r =>
    obtain ⟨answer, s'⟩ := r
    cases changed_of_perform hop with
    | wrote hw stood follows =>
      refine (termsAt_file _ _ _ _).trans (if_neg ?_)
      rintro rfl
      exact hwrites hw
    | deleted hd =>
      refine (readAt_clear Resource.terms _ _ _).trans (if_neg ?_)
      rintro rfl
      exact hdeletes hd
    | neither hw hd ha hr => exact congrFun (termsAt_congr ha hr) place

theorem termsAt_marking_of_ne {target : Place} (h : place ≠ target) (now : Seconds) :
    (s.after (target.marking now)).termsAt place = s.termsAt place := by
  obtain ⟨kind, key⟩ := target
  cases kind <;>
    exact termsAt_after_of_ne (fun hw => h (Option.some.inj hw).symm) nofun

theorem termsAt_deleting_of_ne {target : Place} (h : place ≠ target) :
    (s.after target.deleting).termsAt place = s.termsAt place := by
  obtain ⟨kind, key⟩ := target
  cases kind <;>
    exact termsAt_after_of_ne nofun (fun hd => h (Option.some.inj hd).symm)

end Store

/-! ## Passes -/

/-- Nobody interferes in the world, and every place has the terms that `f` tells. -/
structure World.Keeps (f : Store.Place → Except StoreError (Option Store.Terms)) (w : World) :
    Prop where
  calm : w.pending = []
  terms : w.store.termsAt = f

theorem World.keeps_ofStore (s : Store) : (ofStore s).Keeps s.termsAt := ⟨rfl, rfl⟩

section

variable {f : Store.Place → Except StoreError (Option Store.Terms)} {w : World}

namespace World.Keeps

theorem record (h : w.Keeps f) (e : Event) : (w.record e).Keeps f :=
  ⟨h.calm, (Store.termsAt_congr rfl rfl).trans h.terms⟩

theorem attempt {α : Type} (h : w.Keeps f) {write : Store → Stored α}
    (hwrite : ∀ a s', write w.store = .ok (a, s') → s'.termsAt = w.store.termsAt) :
    (w.attempt w.store write).2.Keeps f := by
  unfold World.attempt
  split
  · next a s' hok => exact ⟨h.calm, (hwrite a s' hok).trans h.terms⟩
  · exact ⟨h.calm, h.terms⟩

theorem writeTarget (h : w.Keeps f) (key : String) (expected : UInt64) (replicas : Count) :
    (w.writeTarget key expected replicas).2.Keeps f := by
  rw [World.writeTarget, next_of_calm h.calm]
  exact h.attempt fun _ _ => Store.termsAt_updateReplicas

theorem writeStatus (h : w.Keeps f) (key : String) (expected : UInt64)
    (status : AutoscalerStatus) : (w.writeStatus key expected status).2.Keeps f := by
  rw [World.writeStatus, next_of_calm h.calm]
  exact h.attempt fun _ _ => Store.termsAt_updateStatus

/-- Every step of a pass leaves the terms, whatever it has read before. -/
theorem step (h : w.Keeps f) (p : Pass) (stage : Stage) : (p.step stage w).2.Keeps f := by
  cases stage with
  | begun => exact h
  | loaded a => exact h
  | finished r => exact h
  | targeted a target =>
    have hasked : (p.asking a w).Keeps f :=
      ⟨by rw [Pass.pending_asking]; exact h.calm, by rw [Pass.store_asking]; exact h.terms⟩
    change (p.decide a target w).2.Keeps f
    rw [Pass.decide_eq]
    split
    · exact hasked
    · exact hasked.record _
  | decided a target d =>
    unfold Pass.step Pass.scaleTarget
    dsimp only
    cases d.targetPatch with
    | none => exact h
    | some replicas =>
      have hwritten := h.writeTarget a.targetKey target.metadata.version replicas
      dsimp only
      split
      · next heq =>
        rw [heq] at hwritten
        exact hwritten.record _
      · next heq =>
        rw [heq] at hwritten
        exact hwritten
      · next heq =>
        rw [heq] at hwritten
        exact hwritten
  | scaled a d =>
    unfold Pass.step Pass.publish
    dsimp only
    cases d.statusPatch with
    | none => exact h
    | some status =>
      have hwritten := h.writeStatus p.key a.metadata.version status
      dsimp only
      split <;> next heq =>
        rw [heq] at hwritten
        exact hwritten

theorem steps (h : w.Keeps f) (p : Pass) (n : Nat) (stage : Stage) :
    (p.steps n (stage, w)).2.Keeps f := by
  induction n generalizing stage w with
  | zero => exact h
  | succ n ih => exact ih (h.step p stage) _

theorem reconcile (h : w.Keeps f) (p : Pass) : (p.reconcile w).2.Keeps f :=
  h.steps p Pass.length .begun

end World.Keeps

namespace Controller

theorem termsAt_sync {c : Controller} {evaluate : Evaluator} {now : Seconds} {s : Store}
    {backoff : Table Backoff} {t : Tally}
    (h : c.sync evaluate now (.ofStore s) backoff = .ok t) :
    t.world.store.termsAt = s.termsAt := by
  have hkeeps : t.world.Keeps s.termsAt :=
    sync_preserves (fun p w hw => hw.reconcile p) h (World.keeps_ofStore s)
  exact hkeeps.terms

end Controller

end

/-! ## Commands -/

namespace Manifest

/-- The entry that applying the manifest stores last at a place. What is stored before a row that
cannot be read stays, and no autoscaler is stored after such a deployment. -/
def lastStored (m : Manifest) (s : Store) (place : Store.Place) : Option Store.Resource :=
  match place.kind with
  | .deployment =>
    ((entriesAt place.key (s.deployments.reached m.deployments)).getLast?).map .deployment
  | .autoscaler =>
    if s.deployments.reached m.deployments = m.deployments then
      ((entriesAt place.key (s.autoscalers.reached m.autoscalers)).getLast?).map .autoscaler
    else none

def entriesOf (m : Manifest) (place : Store.Place) : List Store.Resource :=
  match place.kind with
  | .autoscaler => (entriesAt place.key m.autoscalers).map .autoscaler
  | .deployment => (entriesAt place.key m.deployments).map .deployment

theorem lastStored_eq_none {m : Manifest} {place : Store.Place} (h : m.entriesOf place = [])
    (s : Store) : m.lastStored s place = none := by
  obtain ⟨kind, k⟩ := place
  cases kind with
  | autoscaler =>
    rw [lastStored, Table.entriesAt_reached_eq_nil _ (List.map_eq_nil_iff.1 h)]
    exact ite_self none
  | deployment =>
    rw [lastStored, Table.entriesAt_reached_eq_nil _ (List.map_eq_nil_iff.1 h)]
    rfl

theorem termsAt_apply (m : Manifest) (s : Store) (place : Store.Place) :
    (m.apply s).2.termsAt place =
      match m.lastStored s place with
      | some r => .ok (some r.terms)
      | none => s.termsAt place := by
  obtain ⟨kind, k⟩ := place
  cases kind with
  | deployment =>
    have hdeployments : (m.apply s).2.deployments =
        (s.deployments.mergeEach replicasKept m.deployments).2 := by
      rw [apply_eq]
      split <;> rfl
    rw [Store.termsAt_eq_readAt, Store.readAt_deployment, hdeployments,
      Table.map_read?_mergeEach, lastStored, Store.termsAt_eq_readAt, Store.readAt_deployment]
    · cases (entriesAt k (s.deployments.reached m.deployments)).getLast? <;> rfl
    · intro found d ds n
      rw [mergedAll_replicasKept]
      rfl
  | autoscaler =>
    rw [apply_eq, lastStored]
    by_cases hreached : s.deployments.reached m.deployments = m.deployments
    · rw [if_pos hreached, if_pos hreached, Store.termsAt_eq_readAt, Store.readAt_autoscaler,
        Table.map_read?_mergeEach, Store.termsAt_eq_readAt, Store.readAt_autoscaler]
      · cases (entriesAt k (s.autoscalers.reached m.autoscalers)).getLast? <;> rfl
      · intro found a as n
        rw [mergedAll_statusKept]
        rfl
    · rw [if_neg hreached, if_neg hreached]
      rfl

end Manifest

namespace Command

def lastStored (text : String) (s : Store) (place : Store.Place) : Option Store.Resource :=
  match Manifest.read text with
  | .ok m => m.lastStored s place
  | .error _ => none

theorem lastStored_of_read {text : String} {m : Manifest} (hm : Manifest.read text = .ok m)
    (s : Store) (place : Store.Place) : lastStored text s place = m.lastStored s place := by
  rw [lastStored, hm]

theorem lastStored_eq_none {text : String} {m : Manifest} {place : Store.Place}
    (hm : Manifest.read text = .ok m) (h : m.entriesOf place = []) (s : Store) :
    lastStored text s place = none :=
  (lastStored_of_read hm s place).trans (Manifest.lastStored_eq_none h s)

theorem termsAt_apply (text : String) (s : Store) (place : Store.Place) :
    (apply text s).2.termsAt place =
      match lastStored text s place with
      | some r => .ok (some r.terms)
      | none => s.termsAt place := by
  cases hm : Manifest.read text with
  | error e =>
    rw [apply, lastStored, hm]
  | ok m =>
    rw [apply_of_read hm, lastStored_of_read hm]
    exact Manifest.termsAt_apply m s place

theorem termsAt_apply_of_lastStored {text : String} {s : Store} {place : Store.Place}
    {r : Store.Resource} (h : lastStored text s place = some r) :
    (apply text s).2.termsAt place = .ok (some r.terms) := by
  rw [termsAt_apply, h]

theorem termsAt_demand (key : String) (counts : DemandCounts) (now : Seconds) (s : Store) :
    (demand key counts now s).2.termsAt = s.termsAt := by
  obtain heq | ⟨d, heq⟩ := demand_cases key counts now s
  · rw [heq]
  · rw [heq]
    exact Store.termsAt_congr rfl rfl

theorem status_snd (key : String) (s : Store) : (status key s).2 = s := by
  obtain ⟨e, heq⟩ | ⟨a, listed, -, -, heq⟩ := status_cases key s <;> rw [heq]

end Command

end RunnerFleet
