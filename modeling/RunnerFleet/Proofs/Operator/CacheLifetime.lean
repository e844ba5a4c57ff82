import RunnerFleet.Proofs.Decision.Count
import RunnerFleet.Proofs.Operator.Procedure
import RunnerFleet.Proofs.Reconcile.Visit

/-!
# The lifetime of a cached count

A count that a pass has computed is cached in the status of its autoscaler, which every manifest,
reservation and demand carries along. So until it expires it is the baseline of every later pass,
whatever the evaluator would say and whatever has become of the spec.
-/

namespace RunnerFleet

namespace World

inductive Action where
  | pass (p : Pass)
  | apply (manifest : String)
  | reserve (key : String) (replicas : Count) (length : String) (now : Seconds)
  | demand (key : String) (counts : DemandCounts) (now : Seconds)

def Action.time? : Action → Option Seconds
  | pass p => some p.now
  | apply _ => none
  | reserve _ _ _ now => some now
  | demand _ _ now => some now

def act (w : World) : Action → World
  | .pass p => (p.reconcile w).2
  | .apply manifest => { w with store := (Command.apply manifest w.store).2 }
  | .reserve key replicas length now =>
    { w with store := (Command.reserve key replicas length now w.store).2 }
  | .demand key counts now => { w with store := (Command.demand key counts now w.store).2 }

def run (w : World) (actions : List Action) : World := actions.foldl act w

theorem pending_act {w : World} (h : w.pending = []) (x : Action) : (w.act x).pending = [] := by
  cases x with
  | pass p =>
    rw [act, Pass.reconcile_of_calm h]
    exact h
  | apply manifest => exact h
  | reserve key replicas length now => exact h
  | demand key counts now => exact h

theorem pending_run {w : World} (h : w.pending = []) (actions : List Action) :
    (w.run actions).pending = [] := by
  induction actions generalizing w with
  | nil => exact h
  | cons x rest ih => exact ih (pending_act h x)

end World

namespace Manifest

/-- What holds of the store and outlasts every item of a manifest holds after all of them. -/
theorem applyEach_preserves {α : Type} {f : Store → α → Except StoreError Store}
    {P : Store → Prop} (hstep : ∀ s a s', P s → f s a = .ok s' → P s') {s : Store} (h : P s)
    (as : List α) : P (applyEach f s as).2 := by
  induction as generalizing s with
  | nil => exact h
  | cons a as ih =>
    unfold applyEach
    cases hf : f s a with
    | error e => exact h
    | ok s' => exact ih (hstep s a s' h hf)

theorem apply_preserves {P : Store → Prop}
    (hdeployment : ∀ s d s', P s → applyDeployment s d = .ok s' → P s')
    (hautoscaler : ∀ s a s', P s → applyAutoscaler s a = .ok s' → P s') {s : Store} (h : P s)
    (m : Manifest) : P (m.apply s).2 := by
  have hfirst := applyEach_preserves hdeployment h m.deployments
  unfold apply
  split
  · next s' heq =>
    rw [heq] at hfirst
    exact applyEach_preserves hautoscaler hfirst m.autoscalers
  · next r hne => exact hfirst

theorem applyDeployment_eq_ok {s s' : Store} {d : Deployment} (h : applyDeployment s d = .ok s') :
    ∃ d', s' = { s with deployments := s.deployments.insert d.key (.written d') } := by
  have hput : ∃ replicas b,
      s.putDeployment { d with spec := { d.spec with replicas } } = .ok (b, s') := by
    unfold applyDeployment at h
    split at h
    · obtain ⟨replicas, -, h⟩ := Except.bind_eq_ok_iff.1 h
      obtain ⟨⟨b, s''⟩, hput, h⟩ := Except.bind_eq_ok_iff.1 h
      cases h
      exact ⟨replicas, b, hput⟩
    · obtain ⟨stored, -, h⟩ := Except.bind_eq_ok_iff.1 h
      obtain ⟨replicas, -, h⟩ := Except.bind_eq_ok_iff.1 h
      obtain ⟨⟨b, s''⟩, hput, h⟩ := Except.bind_eq_ok_iff.1 h
      cases h
      exact ⟨replicas, b, hput⟩
  obtain ⟨replicas, b, hput⟩ := hput
  obtain ⟨t, ht, rfl⟩ := Store.onDeployments_eq_ok hput
  obtain ⟨⟨rfl, -⟩, -⟩ := Table.put_eq_ok ht
  exact ⟨b, rfl⟩

/-- A manifest leaves the status that it finds. -/
theorem applyAutoscaler_eq_ok {s s' : Store} {a : Autoscaler} (h : applyAutoscaler s a = .ok s') :
    ∃ found b, s.autoscaler? a.key = .ok found ∧
      b.status = (found.map (·.status)).getD a.status ∧
      s' = { s with autoscalers := s.autoscalers.insert a.key (.written b) } := by
  obtain ⟨found, hread, h⟩ := Except.bind_eq_ok_iff.1 h
  obtain ⟨⟨b, s''⟩, hput, h⟩ := Except.bind_eq_ok_iff.1 h
  cases h
  obtain ⟨t, ht, rfl⟩ := Store.onAutoscalers_eq_ok hput
  obtain ⟨⟨rfl, -⟩, n, rfl⟩ := Table.put_eq_ok ht
  refine ⟨found, _, hread, ?_, rfl⟩
  cases found <;> rfl

end Manifest

namespace Command

theorem apply_preserves {P : Store → Prop}
    (hdeployment : ∀ s d s', P s → Manifest.applyDeployment s d = .ok s' → P s')
    (hautoscaler : ∀ s a s', P s → Manifest.applyAutoscaler s a = .ok s' → P s') {s : Store}
    (h : P s) (manifest : String) : P (apply manifest s).2 := by
  unfold apply
  cases Manifest.read manifest with
  | error e => exact h
  | ok m =>
    have hm := Manifest.apply_preserves hdeployment hautoscaler h m
    simp only
    split
    · next heq =>
      rw [heq] at hm
      exact hm
    · next heq =>
      rw [heq] at hm
      exact hm

end Command

namespace Store

def Caches (s : Store) (key : String) (entry : CacheEntry) : Prop :=
  ∃ a, s.autoscaler? key = .ok (some a) ∧ a.status.cache = [entry]

/-- Every deployment that cannot be read in `s'` cannot be read in `s` either. -/
def NoneSpoiled (s s' : Store) : Prop :=
  ∀ k e, s'.deployment? k = .error e → s.deployment? k = .error e

variable {r s s' : Store} {key k : String} {entry : CacheEntry}

theorem Caches.of_insert {b : Autoscaler} (h : s.Caches key entry)
    (hb : ∀ a, s.autoscaler? k = .ok (some a) → b.status.cache = a.status.cache)
    (hs : s'.autoscalers = s.autoscalers.insert k (.written b)) : s'.Caches key entry := by
  obtain ⟨a, hread, hcache⟩ := h
  by_cases hk : key = k
  · subst hk
    refine ⟨Encoded.reread b, ?_, ?_⟩
    · rw [autoscaler?, hs, Table.read?_insert_written, if_pos rfl]
    · rw [← hcache]
      exact hb a hread
  · refine ⟨a, ?_, hcache⟩
    rw [autoscaler?, hs, Table.read?_insert_written, if_neg hk]
    exact hread

theorem NoneSpoiled.of_insert {d : Deployment} (h : r.NoneSpoiled s)
    (hs : s'.deployments = s.deployments.insert k (.written d)) : r.NoneSpoiled s' := by
  intro l e hl
  rw [deployment?, hs, Table.read?_insert_written] at hl
  split at hl
  · cases hl
  · exact h l e hl

end Store

theorem AutoscalerStatus.cached?_of_single {s : AutoscalerStatus} {entry : CacheEntry}
    {now : Seconds} (h : s.cache = [entry]) (hlive : entry.isLive now = true) :
    s.cached? now = some entry.value := by
  rw [cached?, h, List.find?_cons, hlive]
  rfl

namespace Pass

variable {p : Pass} {s : Store} {a : Autoscaler} {target : Deployment} {b : Count} {d : Decision}
  {entry : CacheEntry}

theorem plan_of_cached (h : p.load s = .ok (a, target))
    (hcached : a.status.cached? p.now = some b) :
    ∃ d, d.fromCache = true ∧ d.baseline = b ∧
      p.plan s = (.ok (.applied d), p.edit a target d 0) := by
  have hd := p.engine.decide_of_cached a target (p.evaluate s target a) hcached
  have hplan := plan_of_decided h hd
  rw [evaluations, hcached] at hplan
  exact ⟨_, rfl, rfl, hplan⟩

theorem plan_of_computed {c : Count} (h : p.load s = .ok (a, target))
    (hmiss : a.status.cached? p.now = none) (hc : p.evaluate s target a = .ok c) :
    ∃ d, d.fromCache = false ∧ d.baseline = p.engine.baselineOf a c p.now ∧
      (p.plan s).1 = .ok (.applied d) := by
  have hd := p.engine.decide_of_not_cached a target (p.evaluate s target a) hmiss
  rw [hc, Except.map] at hd
  rw [← hc] at hd
  exact ⟨_, rfl, rfl, congrArg Prod.fst (plan_of_decided h hd)⟩

theorem cache_of_applied (h : (p.plan s).1 = .ok (.applied d)) :
    ∃ a a', s.autoscaler? p.key = .ok (some a) ∧
      ((p.plan s).2.onStore s).autoscaler? p.key = .ok (some a') ∧
      a'.status.cache = if d.fromCache then a.status.cache
        else [.fresh d.baseline p.now p.engine.cacheDuration.seconds] := by
  obtain ⟨r, hload, hplan⟩ | ⟨a, target, cause, -, -, hplan⟩ | ⟨a, target, d', hload, hd, hplan⟩ :=
    p.plan_cases s
  · rw [hplan] at h
    obtain ⟨why, rfl, -⟩ | ⟨e, rfl, -⟩ := load_eq_error hload
    · cases h
    · cases h
  · rw [hplan] at h
    cases h
  · rw [hplan] at h ⊢
    cases h
    obtain ⟨⟨hread, -⟩, -, -⟩ := load_eq_ok_iff.1 hload
    refine ⟨a, d.left a, hread, autoscaler?_edit hread target d _, ?_⟩
    rw [d.status_left]
    exact p.engine.cache_of_decide a target hd

/-- A pass keeps a count that is still in force. -/
theorem caches_of_live (h : s.Caches p.key entry) (hlive : entry.isLive p.now = true) :
    ((p.plan s).2.onStore s).Caches p.key entry := by
  obtain ⟨a, hread, hcache⟩ := h
  cases hload : p.load s with
  | error r =>
    rw [plan_of_not_loaded hload]
    exact ⟨a, hread, hcache⟩
  | ok found =>
    obtain ⟨b, target⟩ := found
    obtain ⟨⟨hb, -⟩, -, -⟩ := load_eq_ok_iff.1 hload
    rw [hread] at hb
    cases hb
    obtain ⟨d, hfrom, -, hplan⟩ :=
      plan_of_cached hload (AutoscalerStatus.cached?_of_single hcache hlive)
    obtain ⟨x, a', hx, ha', hcache'⟩ := cache_of_applied (congrArg Prod.fst hplan)
    rw [hread] at hx
    cases hx
    refine ⟨a', ha', ?_⟩
    rw [hcache', if_pos hfrom, hcache]

theorem noneSpoiled_plan {r : Store} (h : r.NoneSpoiled s) :
    r.NoneSpoiled ((p.plan s).2.onStore s) := by
  cases hrow : (p.plan s).2.target with
  | none =>
    intro k e hk
    rw [Store.deployment?, Edit.onStore, hrow] at hk
    exact h k e hk
  | some row =>
    have hs : ((p.plan s).2.onStore s).deployments =
        s.deployments.insert row.1 (.written row.2) := by
      rw [Edit.onStore, hrow]
      rfl
    exact h.of_insert hs

end Pass

namespace World

variable {w : World} {key : String} {entry : CacheEntry} {s : Store}

/-- Every action carries a cached count along, as long as it is in force. -/
theorem caches_act (calm : w.pending = []) (h : w.store.Caches key entry) {x : Action}
    (hlive : ∀ now, x.time? = some now → entry.isLive now = true) :
    (w.act x).store.Caches key entry := by
  cases x with
  | pass p =>
    rw [act, Pass.reconcile_of_calm calm]
    by_cases hkey : p.key = key
    · subst hkey
      exact Pass.caches_of_live h (hlive p.now rfl)
    · obtain ⟨a, hread, hcache⟩ := h
      refine ⟨a, ?_, hcache⟩
      rw [← hread]
      exact (p.within_plan w.store).autoscaler?_of_ne (Ne.symm hkey)
  | apply manifest =>
    refine Command.apply_preserves (P := fun s => s.Caches key entry)
      (fun s d s' hs hok => ?_) (fun s a s' hs hok => ?_) h manifest
    · obtain ⟨d', rfl⟩ := Manifest.applyDeployment_eq_ok hok
      exact hs
    · obtain ⟨found, b, hread, hstatus, rfl⟩ := Manifest.applyAutoscaler_eq_ok hok
      refine hs.of_insert (fun x hx => ?_) rfl
      rw [hread] at hx
      cases hx
      rw [hstatus]
      rfl
  | reserve k replicas length now =>
    obtain ⟨e, heq⟩ | ⟨d, a, -, hread, heq⟩ :=
      Command.reserve_cases k replicas length now w.store
    · rw [act, heq]
      exact h
    · rw [act, heq]
      refine h.of_insert (fun x hx => ?_) rfl
      rw [hread] at hx
      cases hx
      rfl
  | demand k counts now =>
    obtain heq | ⟨d, heq⟩ := Command.demand_cases k counts now w.store
    · rw [act, heq]
      exact h
    · rw [act, heq]
      exact h

theorem caches_run (calm : w.pending = []) (h : w.store.Caches key entry) {actions : List Action}
    (hlive : ∀ now ∈ actions.filterMap Action.time?, entry.isLive now = true) :
    (w.run actions).store.Caches key entry := by
  induction actions generalizing w with
  | nil => exact h
  | cons x rest ih =>
    refine ih (pending_act calm x) (caches_act calm h fun now hx => ?_) fun now hnow => ?_
    · exact hlive now (List.mem_filterMap.2 ⟨x, List.mem_cons_self, hx⟩)
    · obtain ⟨y, hy, hnow⟩ := List.mem_filterMap.1 hnow
      exact hlive now (List.mem_filterMap.2 ⟨y, List.mem_cons_of_mem x hy, hnow⟩)

theorem noneSpoiled_act (calm : w.pending = []) (h : s.NoneSpoiled w.store) (x : Action) :
    s.NoneSpoiled (w.act x).store := by
  cases x with
  | pass p =>
    rw [act, Pass.reconcile_of_calm calm]
    exact Pass.noneSpoiled_plan h
  | apply manifest =>
    refine Command.apply_preserves (fun r d r' hr hok => ?_) (fun r a r' hr hok => ?_) h manifest
    · obtain ⟨d', rfl⟩ := Manifest.applyDeployment_eq_ok hok
      exact hr.of_insert rfl
    · obtain ⟨found, b, -, -, rfl⟩ := Manifest.applyAutoscaler_eq_ok hok
      exact hr
  | reserve k replicas length now =>
    obtain ⟨e, heq⟩ | ⟨d, a, -, -, heq⟩ := Command.reserve_cases k replicas length now w.store
    · rw [act, heq]
      exact h
    · rw [act, heq]
      exact h
  | demand k counts now =>
    obtain heq | ⟨d, heq⟩ := Command.demand_cases k counts now w.store
    · rw [act, heq]
      exact h
    · rw [act, heq]
      exact h

theorem noneSpoiled_run (calm : w.pending = []) (h : s.NoneSpoiled w.store)
    (actions : List Action) : s.NoneSpoiled (w.run actions).store := by
  induction actions generalizing w with
  | nil => exact h
  | cons x rest ih => exact ih (pending_act calm x) (noneSpoiled_act calm h x)

end World

/-- The pass asks no evaluator, and what it applies rests on the cached count `b`. It can only skip
for what the store says of the autoscaler or its target, and only fail to read a target that could
not be read in `s` either. -/
structure Pass.Served (p : Pass) (w : World) (s : Store) (b : Count) : Prop where
  evaluations : (p.reconcile w).2.evaluations = w.evaluations
  result : (∃ why, (p.reconcile w).1 = .ok (.skipped why) ∧ why.AppliesTo p.key w.store ∧
      why ≠ .autoscalerNotFound) ∨
    (∃ d, (p.reconcile w).1 = .ok (.applied d) ∧ d.fromCache = true ∧ d.baseline = b) ∨
    ∃ e k, (p.reconcile w).1 = .error (.store e) ∧ s.deployment? k = .error e

theorem Pass.served_of_caches {p : Pass} {w : World} {s : Store} {entry : CacheEntry}
    (calm : w.pending = []) (h : w.store.Caches p.key entry) (hlive : entry.isLive p.now = true)
    (hreadable : s.NoneSpoiled w.store) : p.Served w s entry.value := by
  obtain ⟨a, hread, hcache⟩ := h
  cases hload : p.load w.store with
  | error r =>
    have hreconcile := reconcile_of_not_loaded hload
    refine ⟨by rw [hreconcile], ?_⟩
    rw [hreconcile]
    obtain ⟨why, rfl, hwhy⟩ | ⟨e, rfl, hrow | ⟨b, -, htarget⟩⟩ := load_eq_error hload
    · refine .inl ⟨why, rfl, hwhy, ?_⟩
      rintro rfl
      rw [Skip.AppliesTo, hread] at hwhy
      cases hwhy
    · rw [hread] at hrow
      cases hrow
    · exact .inr (.inr ⟨e, b.targetKey, rfl, hreadable _ e htarget⟩)
  | ok found =>
    obtain ⟨b, target⟩ := found
    obtain ⟨⟨hb, -⟩, -, -⟩ := load_eq_ok_iff.1 hload
    rw [hread] at hb
    cases hb
    obtain ⟨d, hfrom, hbaseline, hplan⟩ :=
      plan_of_cached hload (AutoscalerStatus.cached?_of_single hcache hlive)
    have hreconcile := reconcile_of_calm (p := p) calm
    rw [hplan] at hreconcile
    exact ⟨by rw [hreconcile]; rfl, .inr (.inl ⟨d, by rw [hreconcile], hfrom, hbaseline⟩)⟩

namespace World

theorem run_append (w : World) (xs ys : List Action) : w.run (xs ++ ys) = (w.run xs).run ys :=
  List.foldl_append

theorem run_cons (w : World) (x : Action) (xs : List Action) :
    w.run (x :: xs) = (w.act x).run xs := rfl

/-- No action happens at an earlier time than one before it. -/
def InOrder (actions : List Action) : Prop := (actions.filterMap Action.time?).Pairwise (· ≤ ·)

theorem InOrder.le_last {x : Action} {between : List Action} {q : Pass} {now : Seconds}
    (h : InOrder (x :: between ++ [.pass q])) (hnow : now ∈ between.filterMap Action.time?) :
    now ≤ q.now := by
  unfold InOrder at h
  rw [List.cons_append, ← List.singleton_append, List.filterMap_append, List.filterMap_append] at h
  have hlast := (List.pairwise_append.1 (List.pairwise_append.1 h).2.1).2.2
  exact hlast now hnow q.now (List.mem_filterMap.2 ⟨.pass q, List.mem_singleton_self _, rfl⟩)

/-- A pass that has asked its evaluator leaves its baseline in the cache, and nothing else. Until
that expires every later pass is served from it, whatever happens in between. -/
theorem served_until_expiry {w : World} (calm : w.pending = []) (before : List Action) (p : Pass) :
    (∀ d, (p.reconcile (w.run before)).1 = .ok (.applied d) → d.fromCache = false →
      ∃ entry, (w.run (before ++ [.pass p])).store.Caches p.key entry) ∧
    ∀ a target c, p.load (w.run before).store = .ok (a, target) →
      a.status.cached? p.now = none → p.evaluate (w.run before).store target a = .ok c →
      ∀ (between : List Action) (q : Pass), q.key = p.key →
        InOrder (.pass p :: between ++ [.pass q]) →
        q.now.toNat < min (p.now.toNat + p.engine.cacheDuration.seconds.toNat) Seconds.largest →
        q.Served (w.run (before ++ .pass p :: between)) w.store
          (p.engine.baselineOf a c p.now) := by
  let v := w.run before
  have hv : v.pending = [] := pending_run calm before
  have hcaches : ∀ d, (p.reconcile v).1 = .ok (.applied d) → d.fromCache = false →
      (v.act (.pass p)).store.Caches p.key
        (.fresh d.baseline p.now p.engine.cacheDuration.seconds) := by
    intro d happlied hmiss
    rw [Pass.reconcile_of_calm hv] at happlied
    obtain ⟨a, a', -, ha', hcache⟩ := Pass.cache_of_applied happlied
    rw [act, Pass.reconcile_of_calm hv]
    refine ⟨a', ha', ?_⟩
    rw [hcache, hmiss]
    rfl
  refine ⟨fun d happlied hmiss => ?_, ?_⟩
  · rw [run_append, run_cons]
    exact ⟨_, hcaches d happlied hmiss⟩
  · intro a target c hload hmiss hc between q hkey htimes hexpiry
    obtain ⟨d, hfrom, hbaseline, hplan⟩ := Pass.plan_of_computed hload hmiss hc
    rw [← hbaseline, run_append, run_cons]
    have happlied : (p.reconcile v).1 = .ok (.applied d) := by
      rw [Pass.reconcile_of_calm hv]
      exact hplan
    have hlive : ∀ now, now ≤ q.now → CacheEntry.isLive
        (.fresh d.baseline p.now p.engine.cacheDuration.seconds) now = true := by
      intro now hnow
      have := UInt64.le_iff_toNat_le.1 hnow
      exact Engine.isLive_fresh_iff.2 (by omega)
    have hpass : (v.act (.pass p)).pending = [] := pending_act hv _
    have hkept := caches_run hpass (hcaches d happlied hfrom) fun now hnow =>
      hlive now (htimes.le_last hnow)
    have hreadable : w.store.NoneSpoiled ((v.act (.pass p)).run between).store :=
      noneSpoiled_run hpass (noneSpoiled_act hv (noneSpoiled_run calm (fun _ _ h => h) before) _)
        between
    rw [← hkey] at hkept
    exact Pass.served_of_caches (pending_run hpass between) hkept (hlive q.now UInt64.le_rfl)
      hreadable

def waitingRuns : World :=
  .ofStore <| Store.empty.run
    [.createDeployment ⟨.fresh "ci" "linux", .empty⟩,
     .createAutoscaler
      ⟨.fresh "ci" "builds", ⟨"linux", none, none, none, [.workflowRuns], []⟩, .empty⟩,
     .putDemand ⟨"ci/linux", 3, 0, 0, 0, 90⟩]

/-- An engine that is to cache for half a second, and so caches for ten minutes. -/
def halfSecondCached : Engine :=
  .ofSettings { Settings.default with cacheDuration := .ofMillis 500 }

def lowerCeiling : String :=
  "\x7b\"autoscalers\": [\x7b" ++
    "\"metadata\": \x7b\"namespace\": \"ci\", \"name\": \"builds\"\x7d, " ++
    "\"spec\": \x7b\"scaleTargetRef\": \x7b\"name\": \"linux\"\x7d, \"maxReplicas\": 2\x7d\x7d]\x7d"

/-- The baseline of three stays for ten minutes, under a new ceiling, a reservation, more demand and
an evaluator that fails. -/
theorem served_waitingRuns :
    let q : Pass := ⟨"ci/builds", 699, halfSecondCached, fun _ _ _ => .error .noMetrics⟩
    let w := waitingRuns.run
      [.pass ⟨"ci/builds", 100, halfSecondCached, Snapshot.evaluate (.ofSeconds 300) 100⟩,
       .apply lowerCeiling,
       .reserve "ci/builds" 2 "10m" 150,
       .demand "ci/linux" ⟨9, 0, 0, 0⟩ 160]
    q.Served w waitingRuns.store 3 ∧
      ∃ d, (q.reconcile w).1 = .ok (.applied d) ∧ d.fromCache = true ∧ d.baseline = 3 := by
  intro q w
  let p : Pass := ⟨"ci/builds", 100, halfSecondCached, Snapshot.evaluate (.ofSeconds 300) 100⟩
  let a : Autoscaler :=
    ⟨⟨"ci", "builds", 1, none⟩, ⟨"linux", none, none, none, [.workflowRuns], []⟩, .empty⟩
  let target : Deployment := ⟨⟨"ci", "linux", 1, none⟩, .empty⟩
  have hload : p.load waitingRuns.store = .ok (a, target) := by decide +kernel
  have hc : p.evaluate waitingRuns.store target a = .ok 3 := by decide +kernel
  have hbaseline : p.engine.baselineOf a 3 100 = 3 := by decide
  have htimes : InOrder (.pass p :: [.apply lowerCeiling, .reserve "ci/builds" 2 "10m" 150,
      .demand "ci/linux" ⟨9, 0, 0, 0⟩ 160] ++ [.pass q]) := by
    unfold InOrder
    decide
  have hserved : q.Served w waitingRuns.store (p.engine.baselineOf a 3 100) :=
    (served_until_expiry rfl [] p).2 a target 3 hload rfl hc
      [.apply lowerCeiling, .reserve "ci/builds" 2 "10m" 150, .demand "ci/linux" ⟨9, 0, 0, 0⟩ 160]
      q rfl htimes (by decide)
  rw [hbaseline] at hserved
  refine ⟨hserved, ?_⟩
  have happlied : (SyncReport.ofVisit (some (q.reconcile w).1)).applied = 1 := by decide +kernel
  obtain ⟨why, hskip, -⟩ | hfrom | ⟨e, k, herror, -⟩ := hserved.result
  · rw [hskip] at happlied
    cases happlied
  · exact hfrom
  · rw [herror] at happlied
    cases happlied

end World

end RunnerFleet
