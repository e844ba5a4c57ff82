import RunnerFleet.Proofs.Decision.Count
import RunnerFleet.Reconcile.Pass

/-!
# Decisions in whole numbers

Counts and times stop at their largest values, reservations are added up one by one, and the status
to write is put together from two conditions. A decision shows none of this: it is the one that
whole numbers without a limit lead to, where only the desired count and the end of a cached count
are cut off, each once.
-/

namespace RunnerFleet

namespace Exact

structure Lease where
  amount : Nat
  expiresAt : Nat

structure Status where
  desired : Option Nat
  lastScaleOut : Option Nat
  cache : List Lease

structure Decision where
  baseline : Nat
  desired : Nat
  fromCache : Bool
  targetPatch : Option Nat
  statusPatch : Option Status

structure Case where
  status : Status
  reservations : List Lease
  maxReplicas : Option Nat
  replicas : Option Nat
  ttl : Nat
  delay : Nat
  now : Nat

def Lease.Holds (l : Lease) (now : Nat) : Prop := now < l.expiresAt

instance (l : Lease) (now : Nat) : Decidable (l.Holds now) :=
  inferInstanceAs (Decidable (now < l.expiresAt))

namespace Case

variable (c : Case)

def Asks : Prop := ∀ l ∈ c.status.cache, ¬ l.Holds c.now

instance : Decidable c.Asks :=
  inferInstanceAs (Decidable (∀ l ∈ c.status.cache, ¬ l.Holds c.now))

def accepted (candidate : Nat) : Nat :=
  match c.status.desired, c.status.lastScaleOut with
  | some previous, some grown =>
    if c.now < grown + c.delay then max previous candidate else candidate
  | _, _ => candidate

def reserved : Nat := ((c.reservations.filter (·.Holds c.now)).map (·.amount)).sum

def desired (baseline : Nat) : Nat :=
  match c.maxReplicas with
  | some most => min (min (baseline + c.reserved) most) Count.largest
  | none => min (baseline + c.reserved) Count.largest

def statusPatch (baseline : Nat) (fromCache : Bool) : Option Status :=
  if c.status.desired = some (c.desired baseline) ∧ fromCache = true then none
  else some {
    desired := some (c.desired baseline)
    lastScaleOut :=
      if c.status.desired.getD 1 < c.desired baseline then some c.now else c.status.lastScaleOut
    cache :=
      if fromCache then c.status.cache else [⟨baseline, min (c.now + c.ttl) Seconds.largest⟩] }

def conclude (baseline : Nat) (fromCache : Bool) : Decision where
  baseline
  desired := c.desired baseline
  fromCache
  targetPatch := if c.desired baseline = c.replicas.getD 1 then none else some (c.desired baseline)
  statusPatch := c.statusPatch baseline fromCache

def decide {ε : Type} (answer : Except ε Nat) : Except ε Decision :=
  match c.status.cache.find? (·.Holds c.now) with
  | some l => .ok (c.conclude l.amount true)
  | none => answer.map fun candidate => c.conclude (c.accepted candidate) false

end Case

end Exact

/-! ## Decisions as whole numbers -/

def CacheEntry.exact (l : CacheEntry) : Exact.Lease := ⟨l.value.toNat, l.expiresAt.toNat⟩

def Reservation.exact (r : Reservation) : Exact.Lease := ⟨r.replicas.toNat, r.expiresAt.toNat⟩

def AutoscalerStatus.exact (s : AutoscalerStatus) : Exact.Status where
  desired := s.desired.map UInt32.toNat
  lastScaleOut := s.lastScaleOut.map UInt64.toNat
  cache := s.cache.map CacheEntry.exact

def Decision.exact (d : Decision) : Exact.Decision where
  baseline := d.baseline.toNat
  desired := d.desired.toNat
  fromCache := d.fromCache
  targetPatch := d.targetPatch.map UInt32.toNat
  statusPatch := d.statusPatch.map AutoscalerStatus.exact

/-- What an engine decides on. An autoscaler's own delay goes before that of the engine. -/
def Engine.case (e : Engine) (a : Autoscaler) (target : Deployment) (now : Seconds) :
    Exact.Case where
  status := a.status.exact
  reservations := a.spec.reservations.map Reservation.exact
  maxReplicas := a.spec.maxReplicas.map UInt32.toNat
  replicas := target.spec.replicas.map UInt32.toNat
  ttl := e.cacheDuration.seconds.toNat
  delay := (a.spec.scaleDownDelay.getD e.scaleDownDelay.seconds).toNat
  now := now.toNat

theorem CacheEntry.decide_holds (l : CacheEntry) (now : Seconds) :
    decide (l.exact.Holds now.toNat) = l.isLive now :=
  decide_eq_decide.2 UInt64.lt_iff_toNat_lt.symm

theorem Reservation.decide_holds (r : Reservation) (now : Seconds) :
    decide (r.exact.Holds now.toNat) = r.isActive now :=
  decide_eq_decide.2 UInt64.lt_iff_toNat_lt.symm

theorem CacheEntry.exact_fresh (value : Count) (now ttl : Seconds) :
    (CacheEntry.fresh value now ttl).exact =
      ⟨value.toNat, min (now.toNat + ttl.toNat) Seconds.largest⟩ := by
  rw [exact, fresh, Seconds.toNat_plus]

theorem map_toNat_eq_some_iff {o : Option Count} {n : Count} :
    o.map UInt32.toNat = some n.toNat ↔ o = some n := by
  rw [← Option.map_some, Option.map_inj_right fun _ _ => UInt32.toNat_inj.1]

namespace Engine

variable {ε : Type} (e : Engine) (a : Autoscaler) (target : Deployment) (now : Seconds)

theorem find?_case :
    (e.case a target now).status.cache.find? (·.Holds (e.case a target now).now) =
      (a.status.cache.find? (·.isLive now)).map CacheEntry.exact := by
  change (a.status.cache.map CacheEntry.exact).find? (·.Holds now.toNat) = _
  simp only [List.find?_map, Function.comp_def, CacheEntry.decide_holds]

theorem asks_case_iff : (e.case a target now).Asks ↔ a.status.cached? now = none := by
  unfold Exact.Case.Asks
  rw [AutoscalerStatus.cached?_eq, Option.map_eq_none_iff, List.find?_eq_none]
  change (∀ l ∈ a.status.cache.map CacheEntry.exact, ¬ l.Holds now.toNat) ↔ _
  simp only [List.forall_mem_map, ← CacheEntry.decide_holds, decide_eq_true_iff]

theorem reserved_case :
    (e.case a target now).reserved = Reservation.activeTotal a.spec.reservations now := by
  unfold Exact.Case.reserved Reservation.activeTotal
  change (((a.spec.reservations.map Reservation.exact).filter (·.Holds now.toNat)).map _).sum = _
  simp only [List.filter_map, List.map_map, Function.comp_def, Reservation.decide_holds]
  rfl

theorem desired_case (baseline : Count) :
    (e.case a target now).desired baseline.toNat = (desiredCount a baseline now).toNat := by
  have hmax : (e.case a target now).maxReplicas = a.spec.maxReplicas.map UInt32.toNat := rfl
  rw [toNat_desiredCount, Exact.Case.desired, reserved_case, Autoscaler.ceiling, hmax]
  cases a.spec.maxReplicas with
  | none => rfl
  | some most =>
    have hmost := most.toNat_le_largest
    simp only [Option.map_some, Count.largest] at hmost ⊢
    omega

/-- What the delay keeps is the larger of the two counts. -/
theorem accepted_case (hnow : now.toNat < Seconds.largest) (candidate : Count) :
    (e.case a target now).accepted candidate.toNat = (e.baselineOf a candidate now).toNat := by
  have hdelay : (a.spec.scaleDownDelay.getD e.scaleDownDelay.seconds) = (e.delayOf a).seconds := by
    unfold delayOf
    cases a.spec.scaleDownDelay <;> rfl
  unfold Exact.Case.accepted case AutoscalerStatus.exact baselineOf acceptCount
  rw [hdelay]
  cases a.status.desired with
  | none => rfl
  | some previous =>
    cases a.status.lastScaleOut with
    | none => rfl
    | some grown =>
      simp only [Option.map_some, Seconds.lt_plus_iff hnow, UInt32.le_iff_toNat_le]
      by_cases hopen : now.toNat < grown.toNat + (e.delayOf a).seconds.toNat
      · by_cases hle : candidate.toNat ≤ previous.toNat
        · rw [if_pos hopen, if_pos ⟨hle, hopen⟩, max_eq_left hle]
        · rw [if_pos hopen, if_neg fun h => hle h.1, max_eq_right (by omega)]
      · rw [if_neg hopen, if_neg fun h => hopen h.2]

theorem isScaleOut_iff {previous : Option Count} {next : Count} :
    isScaleOut previous next = true ↔ (previous.map UInt32.toNat).getD 1 < next.toNat := by
  rw [isScaleOut, decide_eq_true_iff, UInt32.lt_iff_toNat_lt]
  cases previous <;> rfl

/-- A status that is written differs from the old one as the two conditions say, each on its own. -/
theorem statusPatch_eq_some {status next : AutoscalerStatus} {baseline desired : Count}
    {fromCache : Bool} {now : Seconds}
    (h : e.statusPatch status baseline desired fromCache now = some next) :
    next = ⟨some desired,
      if isScaleOut status.desired desired then some now else status.lastScaleOut,
      if fromCache then status.cache else [.fresh baseline now e.cacheDuration.seconds]⟩ := by
  have hwritten := e.getD_statusPatch status baseline desired fromCache now
  rwa [h, Option.getD_some] at hwritten

theorem statusPatch_case (baseline : Count) (fromCache : Bool) :
    (e.case a target now).statusPatch baseline.toNat fromCache =
      (e.statusPatch a.status baseline (desiredCount a baseline now) fromCache now).map
        AutoscalerStatus.exact := by
  have hsame : (e.case a target now).status.desired = some (desiredCount a baseline now).toNat ↔
      a.status.desired = some (desiredCount a baseline now) := map_toNat_eq_some_iff
  unfold Exact.Case.statusPatch
  rw [desired_case]
  cases hpatch : e.statusPatch a.status baseline (desiredCount a baseline now) fromCache now with
  | none =>
    obtain ⟨hdesired, rfl⟩ := e.statusPatch_eq_none_iff.1 hpatch
    rw [if_pos ⟨hsame.2 hdesired, rfl⟩]
    rfl
  | some next =>
    have hnot : ¬ (a.status.desired = some (desiredCount a baseline now) ∧ fromCache = true) := by
      intro h
      rw [e.statusPatch_eq_none_iff.2 h] at hpatch
      cases hpatch
    rw [if_neg fun h => hnot ⟨hsame.1 h.1, h.2⟩, e.statusPatch_eq_some hpatch]
    refine congrArg some ?_
    unfold AutoscalerStatus.exact
    congr 1
    · by_cases hgrown : isScaleOut a.status.desired (desiredCount a baseline now) = true
      · rw [if_pos hgrown]
        exact if_pos (isScaleOut_iff.1 hgrown)
      · rw [if_neg hgrown]
        exact if_neg (mt isScaleOut_iff.2 hgrown)
    · cases fromCache with
      | true => rfl
      | false => exact congrArg (fun l => [l]) (CacheEntry.exact_fresh baseline now _).symm

theorem conclude_case (baseline : Count) (fromCache : Bool) :
    (e.case a target now).conclude baseline.toNat fromCache =
      (e.conclude a target baseline fromCache now).exact := by
  have hreplicas : (e.case a target now).replicas.getD 1 = target.replicas.toNat := by
    unfold case Deployment.replicas
    cases target.spec.replicas <;> rfl
  unfold Exact.Case.conclude conclude Decision.exact
  simp only [desired_case, statusPatch_case, hreplicas, UInt32.toNat_inj]
  congr 1
  split <;> rfl

theorem decide_case (hnow : now.toNat < Seconds.largest) (answer : Except ε Count) :
    (e.case a target now).decide (answer.map UInt32.toNat) =
      (e.decide a target answer now).map Decision.exact := by
  have hcached : a.status.cached? now =
      (a.status.cache.find? (·.isLive now)).map (·.value) := a.status.cached?_eq now
  unfold Exact.Case.decide
  rw [find?_case]
  cases hlive : a.status.cache.find? (·.isLive now) with
  | some l =>
    rw [hlive, Option.map_some] at hcached
    rw [e.decide_of_cached a target answer hcached]
    exact congrArg Except.ok (e.conclude_case a target now l.value true)
  | none =>
    rw [hlive, Option.map_none] at hcached
    rw [e.decide_of_not_cached a target answer hcached]
    cases answer with
    | error cause => rfl
    | ok candidate =>
      change Except.ok ((e.case a target now).conclude ((e.case a target now).accepted _) _) = _
      rw [accepted_case e a target now hnow, conclude_case]
      rfl

/-- The order in which reservations are added up cannot be told from their total. -/
theorem decide_of_perm {rs : List Reservation} (h : rs.Perm a.spec.reservations)
    (answer : Except ε Count) :
    e.decide { a with spec := { a.spec with reservations := rs } } target answer now =
      e.decide a target answer now := by
  have htotal : Reservation.activeTotal rs now =
      Reservation.activeTotal a.spec.reservations now :=
    ((h.filter _).map _).sum_eq
  have hdesired : ∀ baseline, desiredCount { a with spec := { a.spec with reservations := rs } }
      baseline now = desiredCount a baseline now := by
    intro baseline
    rw [← UInt32.toNat_inj, toNat_desiredCount, toNat_desiredCount, htotal]
    rfl
  unfold decide consult conclude
  simp only [hdesired]
  rfl

/-- A pass asks the evaluator exactly where no cached count holds. -/
theorem evaluations_decide (key : String) (evaluate : Evaluator) (w : World) :
    ((Pass.mk key now e evaluate).decide a target w).2.evaluations =
      w.evaluations + if (e.case a target now).Asks then 1 else 0 := by
  have hcounted : (Pass.asking ⟨key, now, e, evaluate⟩ a w).evaluations =
      w.evaluations + if (e.case a target now).Asks then 1 else 0 := by
    unfold Pass.asking
    simp only [asks_case_iff]
    cases a.status.cached? now <;> rfl
  rw [Pass.decide_eq]
  split
  · exact hcounted
  · exact hcounted

/-- A decision is the one in whole numbers, whatever the order of the reservations. The evaluator is
asked where no cached count holds, and not otherwise. -/
theorem decide_eq_exact (answer : Except ε Count) (hnow : now.toNat < Seconds.largest) :
    (e.decide a target answer now).map Decision.exact =
      (e.case a target now).decide (answer.map UInt32.toNat) ∧
    (∀ rs, rs.Perm a.spec.reservations →
      e.decide { a with spec := { a.spec with reservations := rs } } target answer now =
        e.decide a target answer now) ∧
    ∀ key evaluate w, ((Pass.mk key now e evaluate).decide a target w).2.evaluations =
      w.evaluations + if (e.case a target now).Asks then 1 else 0 :=
  ⟨(e.decide_case a target now hnow answer).symm,
    fun _ h => e.decide_of_perm a target now h answer,
    e.evaluations_decide a target now⟩

def atLimits : Autoscaler where
  metadata := .fresh "ci" "builds"
  spec :=
    { targetName := "runners"
      minReplicas := none
      maxReplicas := none
      scaleDownDelay := none
      metrics := [.workflowRuns]
      reservations := [⟨9, 18446744073709551615⟩, ⟨4294967295, 18446744073709551614⟩] }
  status := ⟨some 7, some 18446744073709551600, [⟨.desiredReplicas, 8, 18446744073709551612⟩]⟩

/-- Just before the end of time a low count is kept up by the delay, and everything is cut off. -/
theorem decide_eq_exact_atLimits :
    (18446744073709551612 : Seconds).toNat < Seconds.largest ∧
    (Engine.decide ⟨.ofSeconds 600, .ofSeconds 600⟩ atLimits ⟨.fresh "ci" "runners", .empty⟩
        (.ok 1 : Except EvaluationError Count) 18446744073709551612).map Decision.exact =
      .ok ⟨7, 4294967295, false, some 4294967295, some ⟨some 4294967295,
        some 18446744073709551612, [⟨7, 18446744073709551615⟩]⟩⟩ := by
  have hnow : (18446744073709551612 : Seconds).toNat < Seconds.largest := by decide
  refine ⟨hnow, ?_⟩
  rw [(decide_eq_exact _ _ _ _ _ hnow).1]
  rfl

end Engine

end RunnerFleet
