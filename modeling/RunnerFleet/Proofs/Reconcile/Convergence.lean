import RunnerFleet.Proofs.Reconcile.Edit
import RunnerFleet.Proofs.Reconcile.Effect

/-!
# Passes after failed ones

Passes that fail may have scaled the target, more than once and to different counts, while the
status is still the old one. The decision of a later pass depends on the autoscaler alone, of which
failed passes and writers that put it back leave everything but the version, and the metrics as
reading returns them. So the later pass ends as it would have ended at once.
-/

namespace RunnerFleet

namespace Versioned

variable {α : Type} [Versioned α] {a b c : α}

/-- `b` is what `a` becomes when it is read and written back a number of times. -/
def Rewritten (a b : α) : Prop := ∃ n, b = withVersion (Encoded.reread^[n] a) (version b)

namespace Rewritten

theorem refl (a : α) : Rewritten a a := ⟨0, (withVersion_version a).symm⟩

theorem once (a : α) (n : UInt64) : Rewritten a (Encoded.reread (withVersion a n)) := by
  refine ⟨1, ?_⟩
  rw [version_reread, version_withVersion, reread_withVersion]
  rfl

theorem trans (hab : Rewritten a b) (hbc : Rewritten b c) : Rewritten a c := by
  obtain ⟨m, hm⟩ := hab
  obtain ⟨n, hn⟩ := hbc
  have hcomm : Function.Commute (Encoded.reread : α → α) (withVersion · (version b)) :=
    fun x => reread_withVersion x _
  refine ⟨n + m, ?_⟩
  calc c = withVersion (Encoded.reread^[n] b) (version c) := hn
    _ = withVersion (Encoded.reread^[n] (withVersion (Encoded.reread^[m] a) (version b)))
          (version c) := by rw [← hm]
    _ = withVersion (withVersion (Encoded.reread^[n] (Encoded.reread^[m] a)) (version b))
          (version c) := by rw [(hcomm.iterate_left n) _]
    _ = withVersion (Encoded.reread^[n + m] a) (version c) := by
          rw [withVersion_withVersion, Function.iterate_add_apply]

end Rewritten

end Versioned

theorem Deployment.rescaled_of_rewritten {d d' : Deployment} (h : Versioned.Rewritten d d') :
    d.Rescaled d' := by
  obtain ⟨n, hn⟩ := h
  have hid : (Encoded.reread : Deployment → Deployment)^[n] d = d := by
    change id^[n] d = d
    rw [Function.iterate_id]
    rfl
  rw [hid] at hn
  rw [hn]
  rfl

/-- Nothing but the version and the metrics of an autoscaler changes when it is put back. -/
theorem Autoscaler.eq_of_rewritten {a b : Autoscaler} (h : Versioned.Rewritten a b) :
    b = { metadata := { a.metadata with version := b.metadata.version }
          spec := { a.spec with metrics := b.spec.metrics }
          status := a.status } := by
  obtain ⟨n, hn⟩ := h
  -- a reading changes the metrics alone, so any number of them does
  have hiterate : ∃ ms, (Encoded.reread : Autoscaler → Autoscaler)^[n] a =
      { a with spec := { a.spec with metrics := ms } } := by
    induction n generalizing b with
    | zero => exact ⟨a.spec.metrics, rfl⟩
    | succ n ih =>
      obtain ⟨ms, hms⟩ := ih (b := Versioned.withVersion (Encoded.reread^[n] a) 0)
        (by rw [Versioned.version_withVersion])
      refine ⟨ms.map Metric.reread, ?_⟩
      rw [Function.iterate_succ_apply', hms]
      rfl
  obtain ⟨ms, hms⟩ := hiterate
  rw [hms] at hn
  rw [hn]
  rfl

theorem Table.rewritten_of_touch {α : Type} [Versioned α] {t : Table (Row α)} {key : String}
    {b : α} (h : (t.touch key).read? key = .ok (some b)) :
    ∃ a, t.read? key = .ok (some a) ∧ Versioned.Rewritten a b := by
  unfold touch at h
  split at h
  · next a hread =>
    split at h
    · next r t' hput =>
      obtain ⟨⟨rfl, -⟩, n, rfl⟩ := put_eq_ok hput
      rw [read?_insert_written] at h
      split at h
      · cases h
        exact ⟨a, hread, .once a n⟩
      · exact ⟨b, h, .refl b⟩
    · exact ⟨b, h, .refl b⟩
  · exact ⟨b, h, .refl b⟩

/-- Any interference but a deletion at most puts a row back. -/
theorem Interference.rewritten_of_onTable {α : Type} [Versioned α] {i : Interference}
    {t : Table (Row α)} {key : String} {b : α} (hi : i ≠ .delete)
    (h : (i.onTable key t).read? key = .ok (some b)) :
    ∃ a, t.read? key = .ok (some a) ∧ Versioned.Rewritten a b := by
  cases i with
  | nothing => exact ⟨b, h, .refl b⟩
  | touch => exact Table.rewritten_of_touch h
  | delete => exact absurd rfl hi
  | fail reason => exact ⟨b, h, .refl b⟩

namespace World

variable {w : World}

def NoDeletion (w : World) : Prop := ∀ i ∈ w.pending, i.interference ≠ .delete

theorem NoDeletion.next_ne (h : w.NoDeletion) (sort : WriteSort) (key : String) :
    (w.next sort key).1 ≠ .delete := by
  unfold next
  split
  · exact nofun
  · next i hi => exact h i (List.mem_of_find?_eq_some hi)

theorem NoDeletion.of_subset {v : World} (h : w.NoDeletion) (hv : v.pending ⊆ w.pending) :
    v.NoDeletion := fun i hi => h i (hv hi)

theorem pending_next_subset (w : World) (sort : WriteSort) (key : String) :
    (w.next sort key).2.pending ⊆ w.pending := by
  unfold next
  split
  · exact List.Subset.refl _
  · exact List.eraseP_subset

theorem pending_attemptOver {α : Type} (w : World) (i : Interference) (s : Store)
    (write : Store → Stored α) : (w.attemptOver i s write).2.pending = w.pending := by
  have hattempt : (w.attempt s write).2.pending = w.pending := by
    unfold attempt
    split <;> rfl
  cases i with
  | fail reason => rfl
  | _ => exact hattempt

theorem pending_writeTarget_subset (w : World) (key : String) (expected : UInt64)
    (replicas : Count) : (w.writeTarget key expected replicas).2.pending ⊆ w.pending := by
  rw [writeTarget_eq, pending_attemptOver]
  exact w.pending_next_subset .target key

theorem pending_writeStatus_subset (w : World) (key : String) (expected : UInt64)
    (status : AutoscalerStatus) :
    (w.writeStatus key expected status).2.pending ⊆ w.pending := by
  rw [writeStatus_eq, pending_attemptOver]
  exact w.pending_next_subset .status key

end World

namespace Pass

variable {p : Pass} {w : World} {a : Autoscaler} {target : Deployment} {d : Decision}
  {e : PassError}

theorem pending_scaleTarget_subset (p : Pass) (a : Autoscaler) (target : Deployment) (d : Decision)
    (w : World) : (p.scaleTarget a target d w).2.pending ⊆ w.pending := by
  unfold scaleTarget
  split
  · exact List.Subset.refl _
  · next replicas hpatch =>
    have hsubset := w.pending_writeTarget_subset a.targetKey target.metadata.version replicas
    split
    all_goals
      next hwrite =>
        rw [hwrite] at hsubset
        exact hsubset

theorem pending_publish_subset (p : Pass) (a : Autoscaler) (d : Decision) (w : World) :
    (p.publish a d w).2.pending ⊆ w.pending := by
  unfold publish
  split
  · exact List.Subset.refl _
  · next status hpatch =>
    have hsubset := w.pending_writeStatus_subset p.key a.metadata.version status
    split
    all_goals
      next hwrite =>
        rw [hwrite] at hsubset
        exact hsubset

theorem pending_step_subset (p : Pass) (stage : Stage) (w : World) :
    (p.step stage w).2.pending ⊆ w.pending := by
  cases stage with
  | begun => exact List.Subset.refl _
  | loaded a => exact List.Subset.refl _
  | targeted a target =>
    have hasked : (p.decide a target w).2.pending = (p.asking a w).pending := by
      rw [decide_eq]
      cases p.engine.decide a target (p.evaluate w.store target a) p.now <;> rfl
    change (p.decide a target w).2.pending ⊆ w.pending
    rw [hasked, pending_asking]
    exact List.Subset.refl _
  | decided a target d => exact p.pending_scaleTarget_subset a target d w
  | scaled a d => exact p.pending_publish_subset a d w
  | finished r => exact List.Subset.refl _

theorem pending_worldAt_subset (p : Pass) (w : World) (n : Nat) :
    (p.worldAt w n).pending ⊆ w.pending := by
  induction n with
  | zero => exact List.Subset.refl _
  | succ n ih =>
    rw [worldAt_succ]
    exact List.Subset.trans (p.pending_step_subset _ _) ih

end Pass

/-- The autoscaler under `key` and its target stand in `s'` as in `s`, up to what writers that put
them back change and up to the replica count. -/
def Store.Retained (key : String) (s s' : Store) : Prop :=
  ∀ ⦃b target'⦄, s'.autoscaler? key = .ok (some b) →
    s'.deployment? b.targetKey = .ok (some target') →
    ∃ a target, s.autoscaler? key = .ok (some a) ∧ Versioned.Rewritten a b ∧
      s.deployment? a.targetKey = .ok (some target) ∧ target.Rescaled target'

namespace Store.Retained

variable {key : String} {s s' s'' : Store}

theorem refl (key : String) (s : Store) : Retained key s s :=
  fun b target' hb htarget => ⟨b, target', hb, .refl b, htarget, rfl⟩

theorem trans (h : Retained key s s') (h' : Retained key s' s'') : Retained key s s'' := by
  intro c target'' hc htarget''
  obtain ⟨b, target', hb, hbc, htarget', hscale'⟩ := h' hc htarget''
  obtain ⟨a, target, ha, hab, htarget, hscale⟩ := h hb htarget'
  refine ⟨a, target, ha, hab.trans hbc, htarget, ?_⟩
  unfold Deployment.Rescaled at hscale hscale' ⊢
  rw [hscale', hscale]

theorem targetKey_eq {a b : Autoscaler} (h : Versioned.Rewritten a b) :
    b.targetKey = a.targetKey := by
  rw [Autoscaler.eq_of_rewritten h]
  rfl

/-- Both rows have at most been put back. -/
theorem of_rewritten
    (hautoscaler : ∀ b, s'.autoscaler? key = .ok (some b) →
      ∃ a, s.autoscaler? key = .ok (some a) ∧ Versioned.Rewritten a b)
    (htarget : ∀ a target', s.autoscaler? key = .ok (some a) →
      s'.deployment? a.targetKey = .ok (some target') →
      ∃ target, s.deployment? a.targetKey = .ok (some target) ∧ target.Rescaled target') :
    Retained key s s' := by
  intro b target' hb ht
  obtain ⟨a, ha, hab⟩ := hautoscaler b hb
  rw [targetKey_eq hab] at ht
  obtain ⟨target, hread, hscale⟩ := htarget a target' ha ht
  exact ⟨a, target, ha, hab, hread, hscale⟩

theorem touchAutoscaler (key : String) (s : Store) : Retained key s (s.touchAutoscaler key) := by
  rw [touchAutoscaler_eq]
  exact of_rewritten (fun b hb => Table.rewritten_of_touch hb)
    (fun a target' ha ht => ⟨target', ht, rfl⟩)

theorem touchTarget {a : Autoscaler} (h : s.autoscaler? key = .ok (some a)) :
    Retained key s (s.touchDeployment a.targetKey) := by
  rw [touchDeployment_eq]
  refine of_rewritten (fun b hb => ⟨b, hb, .refl b⟩) (fun b target' hb ht => ?_)
  rw [h] at hb
  cases hb
  obtain ⟨target, hread, hrewritten⟩ := Table.rewritten_of_touch ht
  exact ⟨target, hread, Deployment.rescaled_of_rewritten hrewritten⟩

end Store.Retained

namespace Pass

variable {p : Pass} {w : World} {a : Autoscaler} {target target' : Deployment} {d : Decision}
  {e : PassError}

theorem TargetWork.rescaled {o after : Store} (h : TargetWork p a target d o after)
    (found : o.deployment? a.targetKey = .ok (some target))
    (hread : after.deployment? a.targetKey = .ok (some target')) : target.Rescaled target' := by
  cases h with
  | untouched patch deployments demand events =>
    rw [Store.deployment?, deployments] at hread
    rw [Store.deployment?, hread] at found
    cases found
    rfl
  | written patch deployments demand events =>
    rw [deployment?_of_written deployments] at hread
    cases hread
    rfl

/-- A pass that fails leaves its autoscaler and the target as they were, up to the replica count
and to what the other writers put back. -/
theorem retained_of_failed (h : w.NoDeletion) (hfailed : (p.reconcile w).1 = .error e) :
    Store.Retained p.key w.store (p.after w) := by
  cases p.course w with
  | notLoaded stage notApplied result store others =>
    rw [store]
    exact .refl _ _
  | undecided loaded failure stage result store others =>
    rw [store]
    exact Store.Retained.refl p.key w.store
  | @targetRefused a target d _ decided patch stage result store =>
    have hothers : p.after w = { w.store with
        deployments := ((p.worldAt w 3).next .target a.targetKey).1.onTable a.targetKey
          w.store.deployments } := by
      rw [store, (end_of_finished stage (by decide)).2.2, decided.others_next, meanwhile,
        if_pos patch]
    have hnext := (h.of_subset (p.pending_worldAt_subset w 3)).next_ne .target a.targetKey
    rw [hothers]
    refine .of_rewritten (fun b hb => ⟨b, hb, .refl b⟩) (fun b target' hb ht => ?_)
    rw [decided.autoscaler_read] at hb
    cases hb
    obtain ⟨x, hread, hrewritten⟩ := Interference.rewritten_of_onTable hnext ht
    exact ⟨x, hread, Deployment.rescaled_of_rewritten hrewritten⟩
  | @scaled a target d scaled store others status =>
    obtain ⟨found, work⟩ := scaled.work_end store others
    have hothers := scaled.others_next
    rw [hfailed] at status
    generalize hr : (.error e : PassResult) = r at status
    cases status with
    | refused patch autoscalers =>
      have hautoscalers : (p.after w).autoscalers =
          ((p.worldAt w 4).next .status p.key).1.onTable p.key w.store.autoscalers := by
        rw [autoscalers, hothers, meanwhile, if_pos patch, scaled.autoscalers_four]
      have hnext := (h.of_subset (p.pending_worldAt_subset w 4)).next_ne .status p.key
      -- the target write was made, so the target is rescaled; the autoscaler is at most put back
      refine .of_rewritten (fun b hb => ?_) (fun b target' hb ht => ?_)
      · rw [Store.autoscaler?, hautoscalers] at hb
        exact Interference.rewritten_of_onTable hnext hb
      · rw [scaled.autoscaler_read] at hb
        cases hb
        exact ⟨target, scaled.target_read, work.rescaled found ht⟩
    | untouched patch found autoscalers => cases hr
    | written patch found autoscalers => cases hr

end Pass

/-- What passes for one autoscaler that all fail make of a store, while other writers at most put
the autoscaler and its target back, before the writes of a pass and between passes. -/
inductive Interrupted (key : String) (s : Store) : Store → Prop
  | start : Interrupted key s s
  | pass {p : Pass} {w : World} {e : PassError} (earlier : Interrupted key s w.store)
      (about : p.key = key) (noDeletion : w.NoDeletion)
      (failed : (p.reconcile w).1 = .error e) : Interrupted key s (p.after w)
  | touchAutoscaler {s' : Store} (earlier : Interrupted key s s') :
      Interrupted key s (s'.touchAutoscaler key)
  | touchTarget {s' : Store} {a : Autoscaler} (earlier : Interrupted key s s')
      (read : s'.autoscaler? key = .ok (some a)) :
      Interrupted key s (s'.touchDeployment a.targetKey)

theorem Interrupted.retained {key : String} {s s' : Store} (h : Interrupted key s s') :
    s.Retained key s' := by
  induction h with
  | start => exact .refl key s
  | pass earlier about noDeletion failed ih =>
    rw [← about] at ih ⊢
    exact ih.trans (Pass.retained_of_failed noDeletion failed)
  | touchAutoscaler earlier ih => exact ih.trans (.touchAutoscaler key _)
  | touchTarget earlier read ih => exact ih.trans (.touchTarget read)

structure Standing where
  spec : AutoscalerSpec
  status : AutoscalerStatus
  replicas : Count
  deriving DecidableEq, Repr

def Store.standing? (s : Store) (key : String) : Option Standing :=
  match s.autoscaler? key with
  | .ok (some a) => match s.deployment? a.targetKey with
    | .ok (some target) => some ⟨a.spec, a.status, target.replicas⟩
    | _ => none
  | _ => none

theorem Decision.left_of_rewritten (d : Decision) {a b : Autoscaler}
    (h : Versioned.Rewritten a b) :
    (d.left b).spec = { (d.left a).spec with metrics := (d.left b).spec.metrics } ∧
      (d.left b).status = (d.left a).status := by
  rw [Autoscaler.eq_of_rewritten h]
  unfold left
  cases d.statusPatch <;> exact ⟨rfl, rfl⟩

theorem Engine.conclude_of_rewritten (e : Engine) {a b : Autoscaler}
    (h : Versioned.Rewritten a b) (target target' : Deployment) (baseline : Count)
    (fromCache : Bool) (now : Seconds) :
    (e.conclude a target baseline fromCache now).desired =
        (e.conclude b target' baseline fromCache now).desired ∧
      (e.conclude a target baseline fromCache now).statusPatch =
        (e.conclude b target' baseline fromCache now).statusPatch := by
  rw [Autoscaler.eq_of_rewritten h]
  exact ⟨rfl, rfl⟩

/-- A decision looks neither at the version nor at the metrics, and the target matters to its target
patch alone. -/
theorem Engine.decide_of_rewritten (e : Engine) {a b : Autoscaler} (h : Versioned.Rewritten a b)
    (target target' : Deployment) {ε : Type} {candidate : Except ε Count} {now : Seconds}
    {d : Decision} (hd : e.decide b target' candidate now = .ok d) :
    ∃ d', e.decide a target candidate now = .ok d' ∧ d'.desired = d.desired ∧
      d'.statusPatch = d.statusPatch := by
  have hstatus : b.status = a.status := by rw [Autoscaler.eq_of_rewritten h]
  cases hcached : a.status.cached? now with
  | some baseline =>
    rw [e.decide_of_cached b target' candidate (by rw [hstatus, hcached])] at hd
    cases hd
    exact ⟨_, e.decide_of_cached a target candidate hcached, e.conclude_of_rewritten h ..⟩
  | none =>
    rw [e.decide_of_not_cached b target' candidate (by rw [hstatus, hcached])] at hd
    cases candidate with
    | error cause => cases hd
    | ok c =>
      have hbaseline : e.baselineOf b c now = e.baselineOf a c now := by
        rw [Autoscaler.eq_of_rewritten h]
        rfl
      rw [Except.map, hbaseline] at hd
      cases hd
      exact ⟨_, e.decide_of_not_cached a target (.ok c) hcached, e.conclude_of_rewritten h ..⟩

namespace Pass

variable {p : Pass} {w : World} {s : Store} {c : Count} {d : Decision}

/-- An applied pass leaves what its decision says. -/
theorem standing_of_applied (h : (p.reconcile w).1 = .ok (.applied d)) :
    ∃ a target, p.load w.store = .ok (a, target) ∧
      p.engine.decide a target (p.evaluate w.store target a) p.now = .ok d ∧
      (p.after w).standing? p.key = some ⟨(d.left a).spec, (d.left a).status, d.desired⟩ := by
  cases p.course w with
  | notLoaded stage notApplied result store others =>
    rw [result] at h
    exact absurd h (notApplied d)
  | undecided loaded failure stage result store others =>
    rw [result] at h
    cases h
  | targetRefused decided patch stage result store =>
    rw [result] at h
    exact absurd h (notApplied_refusedTarget _ _ d)
  | @scaled a target d' scaled store others status =>
    obtain ⟨found, work⟩ := scaled.work_end store others
    obtain ⟨rfl, hread, hwritten⟩ := status.applied h
    obtain ⟨target', htarget', hreplicas⟩ :=
      work.desired found (p.engine.desired_of_decide _ _ scaled.decision).1
    have hload : p.load w.store = .ok (a, target) :=
      load_eq_ok_iff.2 ⟨⟨scaled.autoscaler_read, scaled.autoscaler_stays⟩, scaled.target_read,
        scaled.target_stays⟩
    have hleft : (p.after w).autoscaler? p.key = .ok (some (d.left a)) := by
      unfold Decision.left
      obtain ⟨patch, autoscalers⟩ | ⟨status, patch, autoscalers⟩ := hwritten
      · rw [patch, Store.autoscaler?, autoscalers]
        exact hread
      · rw [patch]
        exact autoscaler?_of_written autoscalers
    refine ⟨a, target, hload, scaled.decision, ?_⟩
    unfold Store.standing?
    simp only [hleft, d.targetKey_left, htarget', hreplicas]

def Answers (p : Pass) (s : Store) (c : Count) : Prop :=
  ∀ a target, p.load s = .ok (a, target) → a.status.cached? p.now = none →
    p.evaluate s target a = .ok c

def answering (p : Pass) (c : Count) : Pass := { p with evaluate := fun _ _ _ => .ok c }

theorem decide_of_answers {a : Autoscaler} {target : Deployment} (h : p.Answers s c)
    (hload : p.load s = .ok (a, target)) :
    p.engine.decide a target (p.evaluate s target a) p.now =
      p.engine.decide a target (.ok c) p.now := by
  unfold Engine.decide Engine.consult
  cases hcached : a.status.cached? p.now with
  | some baseline => rfl
  | none => rw [h a target hload hcached]

/-- The pass leaves of its autoscaler and the target what it would have left of them in `s`. -/
def Converges (p : Pass) (w : World) (s : Store) (c : Count) : Prop :=
  (p.after w).standing? p.key = ((p.answering c).after (.ofStore s)).standing? p.key

/-- A pass that is applied after failed ones leaves the status and the replica count that it would
have left at once, and also the spec exactly if its metrics have come through all rewriting. -/
theorem converges_iff (h : Interrupted p.key s w.store) (hc : p.Answers w.store c)
    (happlied : (p.reconcile w).1 = .ok (.applied d)) :
    ∃ a b x, s.autoscaler? p.key = .ok (some a) ∧ w.store.autoscaler? p.key = .ok (some b) ∧
      Versioned.Rewritten a b ∧
      ((p.answering c).after (.ofStore s)).standing? p.key = some x ∧
      (p.after w).standing? p.key =
        some { x with spec := { x.spec with metrics := (d.left b).spec.metrics } } ∧
      (p.Converges w s c ↔ (d.left b).spec.metrics = (d.left a).spec.metrics) := by
  obtain ⟨b, target', hload, hdecide, hleft⟩ := standing_of_applied happlied
  obtain ⟨⟨hb, hstays⟩, htarget', htstays⟩ := load_eq_ok_iff.1 hload
  obtain ⟨a, target, ha, hab, htarget, hscale⟩ := h.retained hb htarget'
  have hload' : (p.answering c).load s = .ok (a, target) := by
    refine load_eq_ok_iff.2 ⟨⟨ha, ?_⟩, htarget, ?_⟩
    · rw [Autoscaler.eq_of_rewritten hab] at hstays
      exact hstays
    · rw [hscale] at htstays
      exact htstays
  rw [decide_of_answers hc hload] at hdecide
  obtain ⟨d', hdecide', hdesired, hpatch⟩ :=
    p.engine.decide_of_rewritten hab target target' hdecide
  have happlied' : ((p.answering c).reconcile (.ofStore s)).1 = .ok (.applied d') := by
    rw [reconcile_of_calm rfl]
    exact congrArg Prod.fst (plan_of_decided hload' hdecide')
  obtain ⟨a', x, hloaded, -, hleft'⟩ := standing_of_applied happlied'
  have hsame : a' = a := by
    have hpair := Except.ok.inj (hloaded.symm.trans hload')
    exact congrArg Prod.fst hpair
  have hleft_eq : d'.left a = d.left a := by
    unfold Decision.left
    rw [hpatch]
  rw [hsame, hleft_eq, hdesired] at hleft'
  obtain ⟨hspec, hstatus⟩ := d.left_of_rewritten hab
  have hleft_b : (p.after w).standing? p.key = some
      ⟨{ (d.left a).spec with metrics := (d.left b).spec.metrics }, (d.left a).status,
        d.desired⟩ := by
    rw [hleft, ← hspec, hstatus]
  refine ⟨a, b, _, ha, hb, hab, hleft', hleft_b, ?_⟩
  unfold Converges
  rw [hleft_b]
  change _ = ((p.answering c).after (.ofStore s)).standing? (p.answering c).key ↔ _
  rw [hleft']
  constructor
  · intro heq
    exact congrArg (fun x => x.spec.metrics) (Option.some.inj heq)
  · intro heq
    rw [heq]

def needing (n : Count) (now : Seconds) : Pass :=
  { threeNeeded with now, evaluate := fun _ _ _ => .ok n }

def touchedBefore (w : World) : World := { w with pending := [⟨.status, "ci/builds", .touch⟩] }

theorem noDeletion_touchedBefore (w : World) : (touchedBefore w).NoDeletion := by
  intro i hi
  rw [List.mem_singleton.1 hi]
  exact nofun

def countedRuns : World :=
  .ofStore <| Store.empty.run
    [.createDeployment ⟨.fresh "ci" "runners", .empty⟩,
     .createAutoscaler
      ⟨.fresh "ci" "builds", ⟨"runners", none, none, none, [.workflowRuns], []⟩, .empty⟩]

/-- A first pass scales the target to three and loses its status write. The second one, which needs
seven, ends as if there had been no other. -/
theorem converges_countedRuns :
    Interrupted "ci/builds" countedRuns.store ((needing 3 100).after (touchedBefore countedRuns)) ∧
      (needing 7 200).Converges (.ofStore ((needing 3 100).after (touchedBefore countedRuns)))
        countedRuns.store 7 := by
  have hconflict : ((needing 3 100).reconcile (touchedBefore countedRuns)).1 =
      .error (.writeConflict "ci/builds") := by
    decide +kernel
  have hinterrupted : Interrupted "ci/builds" countedRuns.store
      ((needing 3 100).after (touchedBefore countedRuns)) :=
    .pass .start rfl (noDeletion_touchedBefore _) hconflict
  have happlied : ((needing 7 200).reconcile
      (.ofStore ((needing 3 100).after (touchedBefore countedRuns)))).1 =
      .ok (.applied ⟨7, 7, false, some 7, some ⟨some 7, some 200, [⟨.desiredReplicas, 7, 260⟩]⟩⟩) := by
    decide +kernel
  obtain ⟨a, b, x, ha, hb, -, -, -, hiff⟩ :=
    converges_iff (p := needing 7 200) hinterrupted (fun _ _ _ _ => rfl) happlied
  have hmetrics : ∀ s : Store, (s.autoscaler? "ci/builds").map (Option.map (·.spec.metrics)) =
      .ok (some [.workflowRuns]) → ∀ a, s.autoscaler? "ci/builds" = .ok (some a) →
      a.spec.metrics = [.workflowRuns] := by
    intro s hs a ha
    rw [ha] at hs
    exact Option.some.inj (Except.ok.inj hs)
  have hma := hmetrics _ (by decide +kernel) a ha
  have hmb := hmetrics _ (by decide +kernel) b hb
  refine ⟨hinterrupted, hiff.2 ?_⟩
  change b.spec.metrics.map _ = a.spec.metrics.map _
  rw [hma, hmb]

/-- The doubles that are each read as the other do not come through: the other writer exchanges
them once, and the status write exchanges them back. -/
theorem not_converges_neighbouringShares :
    Interrupted "ci/builds" neighbouringShares.store
        ((needing 3 100).after (touchedBefore neighbouringShares)) ∧
      (∃ d, ((needing 3 200).reconcile
        (.ofStore ((needing 3 100).after (touchedBefore neighbouringShares)))).1 =
          .ok (.applied d)) ∧
      ¬ (needing 3 200).Converges
        (.ofStore ((needing 3 100).after (touchedBefore neighbouringShares)))
        neighbouringShares.store 3 := by
  have hconflict : ((needing 3 100).reconcile (touchedBefore neighbouringShares)).1 =
      .error (.writeConflict "ci/builds") := by
    decide +kernel
  refine ⟨.pass .start rfl (noDeletion_touchedBefore _) hconflict,
    ⟨⟨3, 3, false, none, some ⟨some 3, some 200, [⟨.desiredReplicas, 3, 260⟩]⟩⟩, by decide +kernel⟩, ?_⟩
  unfold Converges
  decide +kernel

end Pass

end RunnerFleet
