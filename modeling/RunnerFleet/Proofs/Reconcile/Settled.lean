import RunnerFleet.Proofs.Decision.Count
import RunnerFleet.Proofs.Reconcile.Visit

/-!
# Passes over a settled system

A visit leaves its autoscaler at rest: put off after a failure, without a target, or with everything
published and the baseline in the cache. Visits of others do not disturb that, and as long as
nothing lapses a visit of an autoscaler at rest does nothing but count it. So the next pass over all
autoscalers changes nothing.
-/

namespace RunnerFleet

namespace Table

variable {α : Type} {t : Table α} {k : String}

theorem nodup_keys (t : Table α) : t.keys.Nodup := by
  rw [keys, List.nodup_iff_pairwise_ne, List.pairwise_map]
  apply t.ordered.imp
  intro r q hlt heq
  rw [heq] at hlt
  exact String.lt_irrefl _ hlt

theorem erase_of_get?_eq_none (h : t.get? k = none) : t.erase k = t := by
  apply ext
  intro l
  rw [get?_erase]
  split
  · next hl => rw [hl, h]
  · rfl

end Table

namespace Controller

variable {as bs : List Autoscaler}

theorem eq_of_isSome_iff {x y : Option Unit} (h : x.isSome ↔ y.isSome) : x = y := by
  cases x <;> cases y <;> simp_all

theorem get?_foldl_insert_key (as : List Autoscaler) (t : Table Unit) (k : String) :
    ((as.foldl (fun (t : Table Unit) a => t.insert a.key ()) t).get? k).isSome ↔
      (t.get? k).isSome ∨ ∃ a ∈ as, a.key = k := by
  induction as generalizing t with
  | nil => simp
  | cons a as ih =>
    rw [List.foldl_cons, ih, Table.get?_insert]
    by_cases hk : k = a.key
    · simp [hk]
    · have hne : a.key ≠ k := fun h => hk h.symm
      simp [hk, hne]

theorem nodup_keysOf (as : List Autoscaler) : (keysOf as).Nodup := Table.nodup_keys _

theorem keysOf_congr (h : ∀ k, (∃ a ∈ as, a.key = k) ↔ ∃ b ∈ bs, b.key = k) :
    keysOf as = keysOf bs := by
  unfold keysOf
  congr 1
  apply Table.ext
  intro k
  have hsome := (get?_foldl_insert_key as .empty k).trans
    ((or_congr_right (h k)).trans (get?_foldl_insert_key bs .empty k).symm)
  exact eq_of_isSome_iff hsome

end Controller

/-- The store lists autoscalers under the same keys as long as none of them changes its identity. -/
theorem Store.keysOf_congr {s s' : Store} {as bs : List Autoscaler}
    (h : s.listAutoscalers = .ok as) (h' : s'.listAutoscalers = .ok bs)
    (hs : s'.identityAt = s.identityAt) : Controller.keysOf bs = Controller.keysOf as := by
  have hkeys : ∀ {s : Store} {as : List Autoscaler}, s.listAutoscalers = .ok as →
      ∀ k, (∃ a ∈ as, a.key = k) ↔ ∃ l y, s.identityAt l = .ok (some (k, y)) := by
    intro s as h k
    constructor
    · rintro ⟨a, hmem, rfl⟩
      obtain ⟨l, hread⟩ := (Table.mem_of_readAll h).1 hmem
      exact ⟨l, _, identityAt_of_read hread⟩
    · rintro ⟨l, y, hid⟩
      obtain ⟨a, hread, hkey, -⟩ := read_of_identityAt hid
      exact ⟨a, (Table.mem_of_readAll h).2 ⟨l, hread⟩, hkey⟩
  apply Controller.keysOf_congr
  intro k
  rw [hkeys h', hkeys h, hs]

theorem Store.listAutoscalers_congr {s s' : Store} {as : List Autoscaler}
    (h : s.listAutoscalers = .ok as) (hs : s'.identityAt = s.identityAt) :
    ∃ bs, s'.listAutoscalers = .ok bs := by
  refine Table.readAll_isOk_iff.2 fun k => ?_
  have hread := Table.readAll_isOk_iff.1 ⟨as, h⟩ k
  rw [← Store.autoscaler?, ← isOk_identityAt_iff] at hread ⊢
  rwa [hs]

namespace Pass

/-- The autoscaler of the pass is at rest: a visit at the time of the pass or, as long as nothing
lapses, later reports this and does nothing else. -/
inductive Rests (p : Pass) (s : Store) (backoff : Table Backoff) : SyncReport → Prop
  | deferred (h : Controller.isDeferred backoff p.key p.now = true) :
      Rests p s backoff (.ofVisit none)
  | skipped {why : Skip} (free : backoff.get? p.key = none)
      (load : p.load s = .error (.ok (.skipped why))) :
      Rests p s backoff (.ofVisit (some (.ok (.skipped why))))
  | published {a : Autoscaler} {target : Deployment} {baseline : Count}
      (free : backoff.get? p.key = none) (load : p.load s = .ok (a, target))
      (cached : a.status.cached? p.now = some baseline)
      (desired : a.status.desired = some (Engine.desiredCount a baseline p.now))
      (replicas : target.replicas = Engine.desiredCount a baseline p.now) :
      Rests p s backoff { SyncReport.zero with applied := 1 }

end Pass

def SyncReport.settled (r : SyncReport) : SyncReport where
  applied := r.applied
  scaled := 0
  skipped := r.skipped
  conflicts := 0
  failed := 0
  deferred := r.deferred + r.failed

theorem SyncReport.settled_plus (r q : SyncReport) :
    (r.plus q).settled = r.settled.plus q.settled := by
  simp only [settled, plus, SyncReport.mk.injEq, true_and]
  omega

instance : RightCommutative SyncReport.plus := ⟨SyncReport.plus_right_comm⟩

namespace Controller

variable {c : Controller} {evaluate : Evaluator} {now : Seconds} {t : Tally} {key k : String}

theorem not_isDeferred {backoff : Table Backoff} (h : backoff.get? key = none) :
    isDeferred backoff key now = false := by
  simp only [isDeferred, h]

def wait (c : Controller) (failures : Nat) : Nat :=
  min c.maxBackoff.seconds.toNat (max 1 c.syncInterval.seconds.toNat * 2 ^ min failures 32)

theorem toNat_backoffFactor (failures : UInt32) :
    ((1 : UInt64) <<< (min failures 32).toUInt64).toNat = 2 ^ min failures.toNat 32 := by
  have hmin : (min failures 32).toNat = min failures.toNat 32 := Count.toNat_min failures 32
  have hshift : min failures.toNat 32 % 64 = min failures.toNat 32 := Nat.mod_eq_of_lt (by omega)
  have hpow : 2 ^ min failures.toNat 32 < 2 ^ 64 := Nat.pow_lt_pow_right (by decide) (by omega)
  rw [UInt64.toNat_shiftLeft, UInt32.toNat_toUInt64, hmin, hshift, UInt64.toNat_one,
    Nat.one_shiftLeft, Nat.mod_eq_of_lt hpow]

/-- Where the product stops at the largest time, it is beyond the longest wait. -/
theorem toNat_backoffDelay (c : Controller) (failures : UInt32) :
    (c.backoffDelay failures).toNat = c.wait failures.toNat := by
  have hlongest := c.maxBackoff.seconds.toNat_le_largest
  have hbase : (max c.syncInterval.seconds 1).toNat = max 1 c.syncInterval.seconds.toNat :=
    (Seconds.toNat_max _ _).trans (Nat.max_comm _ _)
  unfold backoffDelay wait
  dsimp only
  rw [Seconds.toNat_min, Seconds.toNat_times, hbase, toNat_backoffFactor]
  omega

/-- A failure puts the autoscaler off, if only for a second. -/
theorem isDeferred_of_failed {backoff : Table Backoff} {earlier : Option Backoff}
    (h : backoff.get? key = some (c.fail earlier now)) (hwait : 0 < c.maxBackoff.seconds.toNat)
    (hnow : now.toNat < Seconds.largest) : isDeferred backoff key now = true := by
  have hdelay : ∀ n, 0 < (c.backoffDelay n).toNat := by
    intro n
    have hprod : 0 < max 1 c.syncInterval.seconds.toNat * 2 ^ min n.toNat 32 :=
      Nat.mul_pos (by omega) (Nat.pow_pos (by decide))
    rw [toNat_backoffDelay, wait]
    omega
  simp only [isDeferred, h, fail, decide_eq_true_iff, UInt64.lt_iff_toNat_lt, Seconds.toNat_plus]
  have := hdelay ((earlier.map (·.failures)).getD 0 + 1)
  omega

/-- After a visit its autoscaler is at rest. -/
theorem rests_visit (evaluate : Evaluator) (key : String) (h : t.world.pending = [])
    (hcache : 0 < c.engine.cacheDuration.seconds.toNat) (hwait : 0 < c.maxBackoff.seconds.toNat)
    (hnow : now.toNat < Seconds.largest) :
    Pass.Rests ⟨key, now, c.engine, evaluate⟩ (c.visit evaluate now t key).world.store
      (c.visit evaluate now t key).backoff
      (SyncReport.ofVisit (c.finding evaluate now t key).1).settled := by
  rw [visit_of_calm h]
  have hbackoff : (c.revise t.backoff key now (c.finding evaluate now t key).1).get? key =
      c.revised (t.backoff.get? key) now (c.finding evaluate now t key).1 := by
    rw [get?_revise, if_pos rfl]
  let p : Pass := ⟨key, now, c.engine, evaluate⟩
  by_cases hdeferred : isDeferred t.backoff key now = true
  · simp only [finding, hdeferred, if_true] at hbackoff ⊢
    exact .deferred hdeferred
  · have hfinding : c.finding evaluate now t key =
        (some (p.plan t.world.store).1, (p.plan t.world.store).2) := if_neg hdeferred
    rw [hfinding] at hbackoff ⊢
    obtain ⟨r, hload, hplan⟩ | ⟨a, target, cause, -, -, hplan⟩ | ⟨a, target, d, hload, hd, hplan⟩ :=
      p.plan_cases t.world.store
    · rw [hplan] at hbackoff ⊢
      obtain ⟨why, rfl, -⟩ | ⟨e, rfl, -⟩ := Pass.load_eq_error hload
      · exact .skipped hbackoff hload
      · exact .deferred (isDeferred_of_failed hbackoff hwait hnow)
    · rw [hplan] at hbackoff ⊢
      exact .deferred (isDeferred_of_failed hbackoff hwait hnow)
    · rw [hplan] at hbackoff ⊢
      obtain ⟨hcached, hdesired⟩ := c.engine.cached?_of_decide a target hd hcache hnow
      obtain ⟨hreplicas, hpublished⟩ := c.engine.desired_of_decide a target hd
      have hunit : (SyncReport.ofVisit (some (.ok (.applied d)))).settled =
          { SyncReport.zero with applied := 1 } := by
        cases hpatch : d.targetPatch <;> rfl
      rw [← d.status_left] at hcached hpublished
      rw [hunit]
      refine .published hbackoff (Pass.load_edit hload d _) hcached ?_ ?_
      · rw [hpublished, d.desiredCount_left, hdesired]
      · rw [d.replicas_leftTarget, hreplicas, d.desiredCount_left, hdesired]

/-- A visit of an autoscaler at rest changes nothing but the report. -/
theorem visit_of_rests (h : t.world.pending = []) {u : SyncReport}
    (hrests : Pass.Rests ⟨key, now, c.engine, evaluate⟩ t.world.store t.backoff u) :
    c.visit evaluate now t key = { t with report := t.report.plus u } := by
  let p : Pass := ⟨key, now, c.engine, evaluate⟩
  cases hrests with
  | deferred hdeferred =>
    simp only at hdeferred
    rw [visit, if_pos hdeferred]
    rfl
  | @skipped why free load =>
    have hfinding : c.finding evaluate now t key = (some (.ok (.skipped why)), .none) := by
      simp only [finding, not_isDeferred free, Bool.false_eq_true, if_false,
        Pass.plan_of_not_loaded load]
    rw [visit_of_calm h, hfinding]
    simp only [revise, settle, Table.erase_of_get?_eq_none free, Edit.onWorld_none]
  | @published a target baseline free load cached desired replicas =>
    let d := c.engine.conclude a target baseline true now
    have hd : p.engine.decide a target (p.evaluate t.world.store target a) p.now = .ok d :=
      c.engine.decide_of_cached a target _ cached
    have htarget : d.targetPatch = none := if_pos replicas.symm
    have hstatus : d.statusPatch = none := by
      simp only [d, Engine.conclude, Engine.statusPatch, desired, if_true]
    have hfinding : c.finding evaluate now t key = (some (.ok (.applied d)), .none) := by
      have hplan := Pass.plan_of_decided load hd
      rw [Pass.edit, htarget, hstatus, Pass.evaluations, cached] at hplan
      simp only [finding, not_isDeferred free, Bool.false_eq_true, if_false, hplan]
      rfl
    have hunit : SyncReport.ofVisit (some (.ok (.applied d))) =
        { SyncReport.zero with applied := 1 } := by
      simp only [SyncReport.ofVisit, count, htarget]
      rfl
    rw [visit_of_calm h, hfinding]
    simp only [revise, settle, Table.erase_of_get?_eq_none free, Edit.onWorld_none, hunit]

end Controller

namespace Tally.SameFor

variable {t t' t'' : Tally} {key : String} {p : Pass} {u : SyncReport}

theorem refl (key : String) (t : Tally) : t.SameFor key t := ⟨rfl, fun _ _ => rfl, rfl, rfl⟩

theorem trans (h : t.SameFor key t') (h' : t'.SameFor key t'') : t.SameFor key t'' where
  autoscaler := h'.autoscaler.trans h.autoscaler
  target a ha := by
    have ha' : t'.world.store.autoscaler? key = .ok (some a) := h.autoscaler.trans ha
    exact (h'.target a ha').trans (h.target a ha)
  demand := h'.demand.trans h.demand
  backoff := h'.backoff.trans h.backoff

theorem rests (h : t.SameFor p.key t') (hrests : p.Rests t.world.store t.backoff u) :
    p.Rests t'.world.store t'.backoff u := by
  have hload : p.load t'.world.store = p.load t.world.store :=
    Pass.load_congr h.autoscaler h.target
  cases hrests with
  | deferred hdeferred =>
    refine .deferred ?_
    rw [← hdeferred]
    simp only [Controller.isDeferred, h.backoff]
  | skipped free load => exact .skipped (h.backoff.trans free) (hload.trans load)
  | published free load cached desired replicas =>
    exact .published (h.backoff.trans free) (hload.trans load) cached desired replicas

end Tally.SameFor

namespace Controller

variable {c : Controller} {evaluate : Evaluator} {now : Seconds} {t : Tally} {key k : String}
  {order : List String} {us : List SyncReport}

theorem pending_visitAll (h : t.world.pending = []) (order : List String) :
    (c.visitAll evaluate now order t).world.pending = [] := by
  induction order generalizing t with
  | nil => exact h
  | cons k rest ih => exact ih (pending_visit h)

theorem identityAt_visitAll (h : t.world.pending = []) (order : List String) :
    (c.visitAll evaluate now order t).world.store.identityAt = t.world.store.identityAt := by
  induction order generalizing t with
  | nil => rfl
  | cons k rest ih => exact (ih (pending_visit h)).trans (identityAt_visit h)

theorem sameFor_visitAll (h : t.world.pending = []) (targets : t.world.store.TargetsDistinct)
    (hkey : key ∉ order) : t.SameFor key (c.visitAll evaluate now order t) := by
  induction order generalizing t with
  | nil => exact .refl key t
  | cons k rest ih =>
    rw [List.mem_cons, not_or] at hkey
    have hvisit : t.SameFor key (c.visit evaluate now t k) := sameFor_visit h targets hkey.1
    have hid : (c.visit evaluate now t k).world.store.identityAt = t.world.store.identityAt :=
      identityAt_visit h
    exact hvisit.trans (ih (pending_visit h) (targets.congr hid) hkey.2)

/-- After a pass over all autoscalers each of them is at rest. -/
theorem rests_visitAll (c : Controller) (evaluate : Evaluator) (h : t.world.pending = [])
    (targets : t.world.store.TargetsDistinct)
    (hcache : 0 < c.engine.cacheDuration.seconds.toNat) (hwait : 0 < c.maxBackoff.seconds.toNat)
    (hnow : now.toNat < Seconds.largest) (hnodup : order.Nodup) :
    ∃ us, List.Forall₂ (fun key u => Pass.Rests ⟨key, now, c.engine, evaluate⟩
        (c.visitAll evaluate now order t).world.store
        (c.visitAll evaluate now order t).backoff u) order us ∧
      (c.visitAll evaluate now order t).report.settled =
        us.foldl SyncReport.plus t.report.settled := by
  induction order generalizing t with
  | nil => exact ⟨[], .nil, rfl⟩
  | cons k rest ih =>
    obtain ⟨hk, hrest⟩ := List.nodup_cons.1 hnodup
    let v := c.visit evaluate now t k
    have hv : v.world.pending = [] := pending_visit h
    have hid : v.world.store.identityAt = t.world.store.identityAt := identityAt_visit h
    obtain ⟨us, hrests, hreport⟩ := ih hv (targets.congr hid) hrest
    have hfirst := rests_visit evaluate k h hcache hwait hnow
    have hsame : v.SameFor k (c.visitAll evaluate now rest v) :=
      sameFor_visitAll hv (targets.congr hid) hk
    have hplus : v.report.settled =
        t.report.settled.plus (SyncReport.ofVisit (c.finding evaluate now t k).1).settled := by
      simp only [v, visit_of_calm h, SyncReport.settled_plus]
    refine ⟨_ :: us, .cons (hsame.rests hfirst) hrests, ?_⟩
    rw [List.foldl_cons, ← hplus]
    exact hreport

/-- A pass over autoscalers that are all at rest adds up what they report. -/
theorem visitAll_of_rests {w : World} {backoff : Table Backoff} (h : w.pending = [])
    (hrests : List.Forall₂
      (fun key u => Pass.Rests ⟨key, now, c.engine, evaluate⟩ w.store backoff u) order us)
    (r : SyncReport) :
    c.visitAll evaluate now order ⟨w, backoff, r⟩ = ⟨w, backoff, us.foldl SyncReport.plus r⟩ := by
  induction hrests generalizing r with
  | nil => rfl
  | cons hfirst hrest ih =>
    rw [visitAll, List.foldl_cons, visit_of_rests h hfirst]
    exact ih _

theorem retain_eq_iff {backoff : Table Backoff} {keys : List String} :
    retain backoff keys = backoff ↔ ∀ k, k ∉ keys → backoff.get? k = none := by
  have hget : ∀ k, (retain backoff keys).get? k = if k ∈ keys then backoff.get? k else none := by
    intro k
    simp only [retain, Table.get?_restrict, List.contains_iff_mem]
  constructor
  · intro h k hk
    rw [← h, hget, if_neg hk]
  · intro h
    apply Table.ext
    intro k
    rw [hget]
    split
    · rfl
    · next hk => exact (h k hk).symm

/-- A pass adds no back-offs of autoscalers that it does not visit. -/
theorem retain_visitAll (h : t.world.pending = []) (targets : t.world.store.TargetsDistinct)
    {keys : List String} (hperm : order.Perm keys) (hretain : retain t.backoff keys = t.backoff) :
    retain (c.visitAll evaluate now order t).backoff keys =
      (c.visitAll evaluate now order t).backoff := by
  refine retain_eq_iff.2 fun k hk => ?_
  have hvisit : k ∉ order := fun hmem => hk (hperm.mem_iff.1 hmem)
  have hsame : t.SameFor k (c.visitAll evaluate now order t) := sameFor_visitAll h targets hvisit
  rw [hsame.backoff]
  exact retain_eq_iff.1 hretain k hk

theorem retain_retain (backoff : Table Backoff) (keys : List String) :
    retain (retain backoff keys) keys = retain backoff keys := by
  refine retain_eq_iff.2 fun k hk => ?_
  rw [retain, Table.get?_restrict, if_neg]
  rwa [List.contains_iff_mem]

/-- One pass over all stored autoscalers, in any order of their keys. -/
def Syncs (c : Controller) (evaluate : Evaluator) (now : Seconds) (w : World)
    (backoff : Table Backoff) (t : Tally) : Prop :=
  ∃ as order, w.store.listAutoscalers = .ok as ∧ order.Perm (keysOf as) ∧
    t = c.visitAll evaluate now order ⟨w, retain backoff (keysOf as), .zero⟩

theorem syncs_sync {w : World} {backoff : Table Backoff}
    (h : c.sync evaluate now w backoff = .ok t) : c.Syncs evaluate now w backoff t := by
  obtain ⟨as, has, ht⟩ := Except.bind_eq_ok_iff.1 h
  exact ⟨as, keysOf as, has, .refl _, (Except.ok.inj ht).symm⟩

end Controller

/-- Every cached count, reservation and back-off that is in force at `now` still is at `later`. -/
structure Tally.StillInForce (t : Tally) (now later : Seconds) : Prop where
  cached : ∀ k a, t.world.store.autoscaler? k = .ok (some a) →
    ∀ e ∈ a.status.cache, e.isLive now → e.isLive later
  reserved : ∀ k a, t.world.store.autoscaler? k = .ok (some a) →
    ∀ r ∈ a.spec.reservations, r.isActive now → r.isActive later
  deferred : ∀ k, Controller.isDeferred t.backoff k now → Controller.isDeferred t.backoff k later

theorem AutoscalerStatus.cached?_congr {s : AutoscalerStatus} {now later : Seconds}
    (h : now ≤ later) (hlive : ∀ e ∈ s.cache, e.isLive now → e.isLive later) :
    s.cached? later = s.cached? now := by
  have hsame : ∀ e ∈ s.cache, e.isLive later = e.isLive now := by
    intro e he
    rw [Bool.eq_iff_iff]
    refine ⟨fun hlater => ?_, hlive e he⟩
    simp only [CacheEntry.isLive, decide_eq_true_iff] at hlater ⊢
    exact UInt64.lt_of_le_of_lt h hlater
  rw [cached?_eq, cached?_eq, List.find?_congr hsame]

theorem Reservation.activeSum_congr {rs : List Reservation} {now later : Seconds}
    (h : now ≤ later) (hactive : ∀ r ∈ rs, r.isActive now → r.isActive later) :
    activeSum rs later = activeSum rs now := by
  have hsame : ∀ r ∈ rs, r.isActive later = r.isActive now := by
    intro r hr
    rw [Bool.eq_iff_iff]
    refine ⟨fun hlater => ?_, hactive r hr⟩
    simp only [isActive, decide_eq_true_iff] at hlater ⊢
    exact UInt64.lt_of_le_of_lt h hlater
  unfold activeSum
  rw [List.filter_congr hsame]

/-- As long as nothing lapses an autoscaler stays at rest, whatever the evaluator has become. -/
theorem Pass.Rests.later {t : Tally} {now later : Seconds} {key : String} {e : Engine}
    {evaluate : Evaluator} (evaluate' : Evaluator) {u : SyncReport} (hlater : now ≤ later)
    (hforce : t.StillInForce now later)
    (h : Pass.Rests ⟨key, now, e, evaluate⟩ t.world.store t.backoff u) :
    Pass.Rests ⟨key, later, e, evaluate'⟩ t.world.store t.backoff u := by
  cases h with
  | deferred hdeferred => exact .deferred (hforce.deferred key hdeferred)
  | skipped free load => exact .skipped free load
  | @published a target baseline free load cached desired replicas =>
    obtain ⟨⟨hread, -⟩, -, -⟩ := Pass.load_eq_ok_iff.1 load
    have hcached := AutoscalerStatus.cached?_congr hlater (hforce.cached key a hread)
    have hactive := Reservation.activeSum_congr hlater (hforce.reserved key a hread)
    have hcount : Engine.desiredCount a baseline later = Engine.desiredCount a baseline now := by
      simp only [Engine.desiredCount, Reservation.overlay, hactive]
    refine .published free load (hcached.trans cached) ?_ ?_
    · rw [desired, hcount]
    · rw [replicas, hcount]

namespace Controller

/-- After a pass over all autoscalers, a later one before anything lapses asks no evaluator and
writes nothing. It finds the failed ones put off, and all others as they were. -/
theorem syncs_again_iff {settings : Settings} (hwait : 0 < settings.maxBackoff.seconds.toNat)
    {evaluate evaluate' : Evaluator} {now later : Seconds} (hlater : now ≤ later)
    (hlast : later.toNat < Seconds.largest) {w : World} (calm : w.pending = [])
    (targets : w.store.TargetsDistinct) {backoff : Table Backoff} {t : Tally}
    (h : (ofSettings settings).Syncs evaluate now w backoff t)
    (hforce : t.StillInForce now later) (t' : Tally) :
    (ofSettings settings).Syncs evaluate' later t.world t.backoff t' ↔
      t' = { t with report := t.report.settled } := by
  let c := ofSettings settings
  obtain ⟨as, order, hlist, hperm, rfl⟩ := h
  let start : Tally := ⟨w, retain backoff (keysOf as), .zero⟩
  let t := c.visitAll evaluate now order start
  have hnow : now.toNat < Seconds.largest := by
    have := UInt64.le_iff_toNat_le.1 hlater
    omega
  obtain ⟨us, hrests, hreport⟩ := rests_visitAll c evaluate (t := start) calm targets
    (Engine.cacheDuration_ofSettings_pos settings) hwait hnow
    (hperm.nodup_iff.2 (nodup_keysOf as))
  have hrests' := hrests.imp fun key u h => h.later evaluate' hlater hforce
  have hid : t.world.store.identityAt = w.store.identityAt := identityAt_visitAll calm order
  have hpending : t.world.pending = [] := pending_visitAll calm order
  have hretain : retain t.backoff (keysOf as) = t.backoff :=
    retain_visitAll calm targets hperm (retain_retain _ _)
  -- whatever the order of the second pass, it adds up the same reports
  have hall : ∀ order' : List String, order'.Perm (keysOf as) →
      c.visitAll evaluate' later order' ⟨t.world, t.backoff, .zero⟩ =
        { t with report := t.report.settled } := by
    intro order' hperm'
    obtain ⟨us', hvisits, hus⟩ := List.perm_comp_forall₂ (hperm'.trans hperm.symm) hrests'
    have hadded : us'.foldl SyncReport.plus .zero = t.report.settled :=
      (hus.foldl_eq SyncReport.zero).trans hreport.symm
    rw [visitAll_of_rests hpending hvisits, hadded]
  constructor
  · rintro ⟨bs, order', hlist', hperm', rfl⟩
    rw [Store.keysOf_congr hlist hlist' hid] at hperm' ⊢
    rw [hretain]
    exact hall order' hperm'
  · intro heq
    obtain ⟨bs, hlist'⟩ := Store.listAutoscalers_congr hlist hid
    have hkeys := Store.keysOf_congr hlist hlist' hid
    refine ⟨bs, keysOf bs, hlist', .refl _, ?_⟩
    rw [hkeys, hretain, heq]
    exact (hall _ (.refl _)).symm

def threeFates : Store :=
  Store.empty.run
    [.createDeployment ⟨.fresh "ci" "linux", .empty⟩,
     .createDeployment ⟨.fresh "ci" "mac", .empty⟩,
     .createAutoscaler
      ⟨.fresh "ci" "builds", ⟨"linux", none, some 4, none, [.workflowRuns], [⟨2, 5000⟩]⟩, .empty⟩,
     .createAutoscaler
      ⟨.fresh "ci" "docs", ⟨"mac", none, none, none, [.workflowRuns], []⟩, .empty⟩,
     .createAutoscaler
      ⟨.fresh "ci" "site", ⟨"gone", none, none, none, [.workflowRuns], []⟩, .empty⟩,
     .putDemand ⟨"ci/linux", 3, 0, 0, 0, 90⟩]

/-- The first pass scales one autoscaler, fails for one and skips one. Within half a minute the next
pass does nothing. -/
theorem syncs_again_threeFates :
    ∃ t, (ofSettings .default).Syncs (Snapshot.evaluate (.ofSeconds 300) 100) 100
        (.ofStore threeFates) .empty t ∧
      t.report = ⟨1, 1, 1, 0, 1, 0⟩ ∧
      ∀ t', (ofSettings .default).Syncs (Snapshot.evaluate (.ofSeconds 300) 120) 120 t.world
        t.backoff t' ↔ t' = { t with report := ⟨1, 0, 1, 0, 0, 1⟩ } := by
  let c := ofSettings .default
  let evaluate := Snapshot.evaluate (.ofSeconds 300) 100
  have hsync : ((c.sync evaluate 100 (.ofStore threeFates) .empty).map fun t =>
      (t.report, t.world.store.listAutoscalers.map fun as => as.all fun a =>
        a.status.cache.all (·.isLive 120) && a.spec.reservations.all (·.isActive 120),
        t.backoff.values.all (120 < ·.retryAt))) =
      .ok (⟨1, 1, 1, 0, 1, 0⟩, .ok true, true) := by
    decide +kernel
  obtain ⟨t, hsync, hfacts⟩ := Except.map_eq_ok_iff.1 hsync
  simp only [Prod.mk.injEq] at hfacts
  obtain ⟨hreport, hlisted, hbackoff⟩ := hfacts
  obtain ⟨as, hlist, hlast⟩ := Except.map_eq_ok_iff.1 hlisted
  have targets : threeFates.TargetsDistinct := by
    have hlist : ∃ as, threeFates.listAutoscalers = .ok as ∧
        (as.map Autoscaler.targetKey).Nodup := by
      refine ⟨_, rfl, ?_⟩
      decide
    obtain ⟨as, hlist, hnodup⟩ := hlist
    exact Store.targetsDistinct_of_nodup hlist hnodup
  have hforce : t.StillInForce 100 120 := by
    simp only [List.all_eq_true, Bool.and_eq_true] at hlast hbackoff
    refine ⟨fun k a ha e he _ => ?_, fun k a ha r hr _ => ?_, fun k hk => ?_⟩
    · exact (hlast a ((Table.mem_of_readAll hlist).2 ⟨k, ha⟩)).1 e he
    · exact (hlast a ((Table.mem_of_readAll hlist).2 ⟨k, ha⟩)).2 r hr
    · unfold isDeferred at hk ⊢
      split at hk
      · next b hb => exact hbackoff b (List.mem_map.2 ⟨_, Table.mem_rows_iff.2 hb, rfl⟩)
      · cases hk
  refine ⟨t, syncs_sync hsync, hreport, fun t' => ?_⟩
  rw [syncs_again_iff (by decide) (by decide) (by decide) rfl targets (syncs_sync hsync) hforce,
    hreport]
  rfl

end Controller

end RunnerFleet
