import Mathlib.Tactic
import RunnerFleet.Decision.Engine

/-!
# Replica counts as whole numbers

The count that a decision publishes is an exact sum cut off at the autoscaler's ceiling, and the
status that it stores differs from the old one in known fields. Later statements about decisions
rest on these equations and open no definition of the engine.
-/

namespace RunnerFleet

namespace Reservation

/-- The replicas of the active reservations, summed without a limit. -/
def activeTotal (rs : List Reservation) (now : Seconds) : Nat :=
  ((rs.filter (·.isActive now)).map (·.replicas.toNat)).sum

theorem toNat_foldl_plus (rs : List Reservation) (n : Count) :
    (rs.foldl (fun sum r => Count.plus sum r.replicas) n).toNat =
      min (n.toNat + (rs.map (·.replicas.toNat)).sum) Count.largest := by
  induction rs generalizing n with
  | nil =>
    have hn := n.toNat_le_largest
    simp only [List.foldl_nil, List.map_nil, List.sum_nil]
    omega
  | cons r rs ih =>
    rw [List.foldl_cons, ih, Count.toNat_plus]
    simp only [List.map_cons, List.sum_cons]
    omega

theorem toNat_activeSum (rs : List Reservation) (now : Seconds) :
    (activeSum rs now).toNat = min (activeTotal rs now) Count.largest := by
  unfold activeSum activeTotal
  rw [toNat_foldl_plus, UInt32.toNat_zero, Nat.zero_add]

theorem toNat_overlay (baseline : Count) (rs : List Reservation) (now : Seconds) :
    (overlay baseline rs now).toNat =
      min (baseline.toNat + activeTotal rs now) Count.largest := by
  unfold overlay
  rw [Count.toNat_plus, toNat_activeSum]
  omega

end Reservation

/-- The most that the autoscaler may publish; without a ceiling of its own, the largest count. -/
def Autoscaler.ceiling (a : Autoscaler) : Nat :=
  match a.spec.maxReplicas with
  | some most => most.toNat
  | none => Count.largest

theorem Autoscaler.ceiling_le_largest (a : Autoscaler) : a.ceiling ≤ Count.largest := by
  unfold ceiling
  split
  · exact Count.toNat_le_largest _
  · exact le_rfl

/-- The published count is the baseline with the reservations on top, cut off at the ceiling. -/
theorem Engine.toNat_desiredCount (a : Autoscaler) (baseline : Count) (now : Seconds) :
    (desiredCount a baseline now).toNat =
      min (baseline.toNat + Reservation.activeTotal a.spec.reservations now) a.ceiling := by
  unfold desiredCount Autoscaler.ceiling
  cases hmax : a.spec.maxReplicas with
  | none => exact Reservation.toNat_overlay _ _ _
  | some most =>
    have hmost := most.toNat_le_largest
    simp only [Count.toNat_min, Reservation.toNat_overlay]
    omega

/-- The published count that the delay keeps in place of a new one, if it keeps it. -/
def keptCount (previous : Option Count) (candidate : Count) (lastScaleOut : Option Seconds)
    (delay now : Seconds) : Option Count :=
  match previous, lastScaleOut with
  | some previous, some grown =>
    if candidate ≤ previous ∧ now < Seconds.plus grown delay then some previous else none
  | _, _ => none

theorem acceptCount_eq_keptCount (previous : Option Count) (candidate : Count)
    (lastScaleOut : Option Seconds) (delay now : Seconds) :
    acceptCount previous candidate lastScaleOut delay now =
      (keptCount previous candidate lastScaleOut delay now).getD candidate := by
  unfold acceptCount keptCount
  cases previous <;> cases lastScaleOut <;> try rfl
  simp only
  split <;> rfl

/-- Inside the delay the accepted count is not below the published one. -/
theorem le_acceptCount {previous candidate : Count} {grown delay now : Seconds}
    (hdelay : now.toNat < grown.toNat + delay.toNat) (hnow : now.toNat < Seconds.largest) :
    previous.toNat ≤ (acceptCount (some previous) candidate (some grown) delay now).toNat := by
  have hlt : now < Seconds.plus grown delay := (Seconds.lt_plus_iff hnow).2 hdelay
  unfold acceptCount
  simp only [hlt, and_true]
  split
  · exact le_rfl
  · next h =>
    have hle : ¬ candidate.toNat ≤ previous.toNat := fun hle => h (UInt32.le_iff_toNat_le.2 hle)
    omega

namespace Engine

variable {ε : Type} (e : Engine) (a : Autoscaler) (target : Deployment)

theorem decide_of_cached (candidate : Except ε Count) {baseline : Count} {now : Seconds}
    (h : a.status.cached? now = some baseline) :
    e.decide a target candidate now = .ok (e.conclude a target baseline true now) := by
  simp only [decide, consult, h]
  rfl

theorem decide_of_not_cached (candidate : Except ε Count) {now : Seconds}
    (h : a.status.cached? now = none) :
    e.decide a target candidate now =
      candidate.map fun c => e.conclude a target (e.baselineOf a c now) false now := by
  simp only [decide, consult, h]
  rfl

/-- The status after a decision has been stored: nothing of the patch is left open, and a status
without a patch already is what a patch would make of it. -/
theorem getD_statusPatch (status : AutoscalerStatus) (baseline desired : Count) (fromCache : Bool)
    (now : Seconds) :
    (e.statusPatch status baseline desired fromCache now).getD status =
      { desired := some desired
        lastScaleOut := if isScaleOut status.desired desired then some now else status.lastScaleOut
        cache := if fromCache then status.cache
          else [.fresh baseline now e.cacheDuration.seconds] } := by
  obtain ⟨previous, grown, cache⟩ := status
  by_cases hsame : previous = some desired
  · have hgrown : isScaleOut (some desired) desired = false := by
      simp [isScaleOut]
    subst hsame
    cases fromCache <;> simp [statusPatch, refreshed, hgrown]
  · cases fromCache <;> simp [statusPatch, refreshed, published, hsame]

theorem statusPatch_eq_none_iff {status : AutoscalerStatus} {baseline desired : Count}
    {fromCache : Bool} {now : Seconds} :
    e.statusPatch status baseline desired fromCache now = none ↔
      status.desired = some desired ∧ fromCache = true := by
  by_cases hsame : status.desired = some desired <;> cases fromCache <;> simp [statusPatch, hsame]

theorem conclude_of_decide {candidate : Except ε Count} {now : Seconds} {d : Decision}
    (h : e.decide a target candidate now = .ok d) :
    ∃ baseline fromCache, d = e.conclude a target baseline fromCache now := by
  cases hcached : a.status.cached? now with
  | some b =>
    rw [e.decide_of_cached a target candidate hcached] at h
    exact ⟨b, true, (Except.ok.inj h).symm⟩
  | none =>
    rw [e.decide_of_not_cached a target candidate hcached] at h
    cases candidate with
    | error cause => cases h
    | ok c => exact ⟨e.baselineOf a c now, false, (Except.ok.inj h).symm⟩

/-- The target and the status carry the desired count once both patches are written. -/
theorem desired_of_decide {candidate : Except ε Count} {now : Seconds} {d : Decision}
    (h : e.decide a target candidate now = .ok d) :
    d.targetPatch.getD target.replicas = d.desired ∧
      (d.statusPatch.getD a.status).desired = some d.desired := by
  obtain ⟨baseline, fromCache, rfl⟩ := e.conclude_of_decide a target h
  constructor
  · change (if _ = target.replicas then none else some _).getD _ = _
    split
    · next heq => exact heq.symm
    · rfl
  · exact congrArg AutoscalerStatus.desired (e.getD_statusPatch a.status baseline _ fromCache now)

theorem isLive_fresh_iff {value : Count} {now ttl later : Seconds} :
    (CacheEntry.fresh value now ttl).isLive later = true ↔
      later.toNat < min (now.toNat + ttl.toNat) Seconds.largest := by
  unfold CacheEntry.isLive CacheEntry.fresh
  rw [decide_eq_true_iff, UInt64.lt_iff_toNat_lt, Seconds.toNat_plus]

theorem cached?_fresh {p : Option Count} {grown : Option Seconds} {value : Count}
    {now ttl later : Seconds}
    (h : later.toNat < min (now.toNat + ttl.toNat) Seconds.largest) :
    (⟨p, grown, [.fresh value now ttl]⟩ : AutoscalerStatus).cached? later = some value := by
  have hlive : (CacheEntry.fresh value now ttl).isLive later = true := isLive_fresh_iff.2 h
  unfold AutoscalerStatus.cached?
  rw [List.find?_cons, hlive]
  rfl

/-- Every engine caches for at least a second. -/
theorem cacheDuration_ofSettings_pos (s : Settings) :
    0 < (ofSettings s).cacheDuration.seconds.toNat := by
  by_cases h : s.cacheDuration.seconds = 0
  · simp only [ofSettings, if_pos h]
    decide
  · have hne : s.cacheDuration.seconds.toNat ≠ 0 := fun hzero => h (UInt64.toNat_inj.1 hzero)
    simp only [ofSettings, if_neg h]
    omega

/-- What is cached once the status patch is written: the same, unless it was not used. -/
theorem cache_of_decide {candidate : Except ε Count} {now : Seconds} {d : Decision}
    (h : e.decide a target candidate now = .ok d) :
    (d.statusPatch.getD a.status).cache =
      if d.fromCache then a.status.cache
      else [.fresh d.baseline now e.cacheDuration.seconds] := by
  obtain ⟨baseline, fromCache, rfl⟩ := e.conclude_of_decide a target h
  exact congrArg AutoscalerStatus.cache (e.getD_statusPatch a.status baseline _ fromCache now)

/-- The baseline of a decision is found in the cache once its status patch is written. -/
theorem cached?_of_decide {candidate : Except ε Count} {now : Seconds} {d : Decision}
    (h : e.decide a target candidate now = .ok d) (hcache : 0 < e.cacheDuration.seconds.toNat)
    (hnow : now.toNat < Seconds.largest) :
    (d.statusPatch.getD a.status).cached? now = some d.baseline ∧
      d.desired = desiredCount a d.baseline now := by
  cases hcached : a.status.cached? now with
  | some b =>
    rw [e.decide_of_cached a target candidate hcached] at h
    cases h
    refine ⟨?_, rfl⟩
    change ((e.statusPatch a.status b _ true now).getD a.status).cached? now = some b
    rw [e.getD_statusPatch]
    exact hcached
  | none =>
    rw [e.decide_of_not_cached a target candidate hcached] at h
    cases candidate with
    | error cause => cases h
    | ok c =>
      cases h
      refine ⟨?_, rfl⟩
      change ((e.statusPatch a.status (e.baselineOf a c now) _ false now).getD a.status).cached? now
        = some (e.baselineOf a c now)
      rw [e.getD_statusPatch]
      exact cached?_fresh (by omega)

end Engine

end RunnerFleet
