import RunnerFleet.Evaluation.Snapshot
import RunnerFleet.Proofs.Decision.Count
import RunnerFleet.Proofs.Store.Change

/-!
# Counts within the bounds of an autoscaler

The floor is applied to a newly computed count alone, the ceiling to that count and once more to the
desired one. That the published count keeps to both is a property of the status: as long as every
count in it lies within the bounds, so does every count that a decision takes from it or puts there.
Where the floor exceeds the ceiling, the ceiling stands for both.
-/

namespace RunnerFleet

structure Bounds where
  floor : Option Count
  ceiling : Option Count
  deriving DecidableEq, Repr

namespace Bounds

def most (b : Bounds) : Nat :=
  match b.ceiling with
  | some n => n.toNat
  | none => Count.largest

/-- The least that the bounds let through: the floor, which is one if absent, or the ceiling if
that is lower. -/
def least (b : Bounds) : Nat := min (b.floor.getD 1).toNat b.most

def Contains (b : Bounds) (n : Count) : Prop := b.least ≤ n.toNat ∧ n.toNat ≤ b.most

end Bounds

def AutoscalerSpec.bounds (s : AutoscalerSpec) : Bounds := ⟨s.minReplicas, s.maxReplicas⟩

theorem Autoscaler.ceiling_eq_most (a : Autoscaler) : a.ceiling = a.spec.bounds.most := rfl

def AutoscalerStatus.counts (s : AutoscalerStatus) : List Count :=
  s.desired.toList ++ s.cache.map (·.value)

namespace Snapshot

theorem contains_clamp (spec : AutoscalerSpec) (n : Count) :
    spec.bounds.Contains (clamp spec n) := by
  unfold Bounds.Contains Bounds.least Bounds.most AutoscalerSpec.bounds clamp
  cases spec.maxReplicas with
  | none =>
    have hlargest := (max n (spec.minReplicas.getD 1)).toNat_le_largest
    simp only [Count.toNat_max] at hlargest ⊢
    omega
  | some most =>
    simp only [Count.toNat_min, Count.toNat_max]
    omega

/-- Whatever the demand is and whatever the metric makes of it. -/
theorem contains_of_evaluate {staleness : Duration} {now : Seconds} {s : Store}
    {target : Deployment} {a : Autoscaler} {c : Count}
    (h : evaluate staleness now s target a = .ok c) : a.spec.bounds.Contains c := by
  unfold evaluate at h
  cases hmetrics : a.spec.metrics with
  | nil =>
    rw [hmetrics] at h
    cases h
  | cons metric rest =>
    rw [hmetrics] at h
    obtain ⟨d, -, h⟩ := Except.bind_eq_ok_iff.1 h
    obtain ⟨n, -, h⟩ := Except.bind_eq_ok_iff.1 h
    cases h
    exact contains_clamp a.spec n

end Snapshot

namespace Engine

variable {ε : Type} (e : Engine) (a : Autoscaler) (target : Deployment) {now : Seconds}

/-- Reservations only add to a baseline, and the ceiling that cuts off the sum lets the least count
through. -/
theorem contains_desiredCount {baseline : Count} (h : a.spec.bounds.Contains baseline) :
    a.spec.bounds.Contains (desiredCount a baseline now) := by
  have hleast : a.spec.bounds.least ≤ a.spec.bounds.most := min_le_right _ _
  have hbaseline := h.1
  unfold Bounds.Contains
  rw [toNat_desiredCount, a.ceiling_eq_most]
  omega

theorem contains_baselineOf {candidate : Count}
    (hstatus : ∀ n ∈ a.status.counts, a.spec.bounds.Contains n)
    (hcandidate : a.spec.bounds.Contains candidate) :
    a.spec.bounds.Contains (e.baselineOf a candidate now) := by
  unfold baselineOf
  rw [acceptCount_eq_keptCount]
  cases hkept : keptCount a.status.desired candidate a.status.lastScaleOut
      (e.delayOf a).seconds now with
  | none => exact hcandidate
  | some previous =>
    refine hstatus previous (List.mem_append_left _ ?_)
    unfold keptCount at hkept
    split at hkept
    · next hdesired _ =>
      split at hkept
      · cases hkept
        simp [hdesired]
      · cases hkept
    · cases hkept

theorem contains_of_cached {baseline : Count}
    (hstatus : ∀ n ∈ a.status.counts, a.spec.bounds.Contains n)
    (h : a.status.cached? now = some baseline) : a.spec.bounds.Contains baseline := by
  obtain ⟨entry, hfind, rfl⟩ := Option.map_eq_some_iff.1 h
  have hmem := List.mem_of_find?_eq_some hfind
  exact hstatus entry.value (List.mem_append_right _ (List.mem_map_of_mem hmem))

/-- A decision over a status within the bounds, with a computed count within the bounds, desires a
count within the bounds and leaves the status so. -/
theorem contains_of_decide {candidate : Except ε Count} {d : Decision}
    (hstatus : ∀ n ∈ a.status.counts, a.spec.bounds.Contains n)
    (hcandidate : ∀ c, candidate = .ok c → a.spec.bounds.Contains c)
    (h : e.decide a target candidate now = .ok d) :
    a.spec.bounds.Contains d.desired ∧
      ∀ n ∈ (d.statusPatch.getD a.status).counts, a.spec.bounds.Contains n := by
  have hconclude : ∀ baseline fromCache, a.spec.bounds.Contains baseline →
      a.spec.bounds.Contains (e.conclude a target baseline fromCache now).desired ∧
        ∀ n ∈ ((e.conclude a target baseline fromCache now).statusPatch.getD a.status).counts,
          a.spec.bounds.Contains n := by
    intro baseline fromCache hbaseline
    have hdesired : a.spec.bounds.Contains (desiredCount a baseline now) :=
      contains_desiredCount a hbaseline
    refine ⟨hdesired, fun n hn => ?_⟩
    change n ∈ ((e.statusPatch a.status baseline (desiredCount a baseline now) fromCache
      now).getD a.status).counts at hn
    rw [getD_statusPatch] at hn
    obtain hn | hn := List.mem_append.1 hn
    · rw [List.mem_singleton.1 hn]
      exact hdesired
    · cases fromCache with
      | true => exact hstatus n (List.mem_append_right _ hn)
      | false =>
        rw [List.mem_singleton.1 hn]
        exact hbaseline
  cases hcached : a.status.cached? now with
  | some baseline =>
    rw [e.decide_of_cached a target candidate hcached] at h
    cases h
    exact hconclude baseline true (contains_of_cached a hstatus hcached)
  | none =>
    rw [e.decide_of_not_cached a target candidate hcached] at h
    cases hc : candidate with
    | error cause =>
      rw [hc] at h
      cases h
    | ok c =>
      rw [hc] at h
      cases h
      exact hconclude _ false (e.contains_baselineOf a hstatus (hcandidate c hc))

/-- Whatever stands in the status, no decision exceeds the ceiling. -/
theorem desired_le_of_decide {candidate : Except ε Count} {d : Decision} {most : Count}
    (h : e.decide a target candidate now = .ok d) (hmost : a.spec.maxReplicas = some most) :
    d.desired ≤ most := by
  obtain ⟨baseline, fromCache, rfl⟩ := e.conclude_of_decide a target h
  have hceiling : a.ceiling = most.toNat := by rw [Autoscaler.ceiling, hmost]
  have hdesired := toNat_desiredCount a baseline now
  rw [hceiling] at hdesired
  refine UInt32.le_iff_toNat_le.2 ?_
  change (desiredCount a baseline now).toNat ≤ most.toNat
  omega

end Engine

end RunnerFleet
