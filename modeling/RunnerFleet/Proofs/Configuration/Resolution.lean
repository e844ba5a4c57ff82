import RunnerFleet.Config
import RunnerFleet.Proofs.Decision.Count

/-!
# What settings a configuration comes to

A configuration has a list of faults, in the order in which they are looked for. The first of them
is the error; without any, each timing is what its text says or its default. Both guards against a
cache that keeps nothing, here and in the engine, then agree: what passes the first one needs no
second.
-/

namespace RunnerFleet

namespace Config

/-! ## Faults in their order -/

def verdict {α : Type} (faults : List Fault) (a : α) : Except Fault α :=
  match faults with
  | [] => .ok a
  | fault :: _ => .error fault

theorem verdict_bind {α β : Type} {fs gs : List Fault} {a : α} {b : β} {k : α → Except Fault β}
    (h : k a = verdict gs b) : verdict fs a >>= k = verdict (fs ++ gs) b := by
  cases fs with
  | nil => exact h
  | cons fault fs => rfl

section

variable {α : Type} {faults : List Fault} {a b : α} {fault : Fault}

theorem verdict_eq_ok_iff : verdict faults a = .ok b ↔ faults = [] ∧ b = a := by
  cases faults <;> simp [verdict, eq_comm]

theorem verdict_eq_error_iff : verdict faults a = .error fault ↔ faults.head? = some fault := by
  cases faults <;> simp [verdict]

end

def unreadable (key : String) (text : Option String) : List Fault :=
  match text with
  | none => []
  | some s => if Duration.parse? s = none then [.badDuration key s] else []

def fractional (key : String) (d : Duration) : List Fault :=
  if d.nanos = 0 then [] else [.notWhole key d]

def overrideFaults (text : Option String) : List Fault :=
  match text with
  | none => []
  | some s =>
    match Duration.parse? s with
    | none => [.badOverride s]
    | some d => if d.isZero then [.zeroOverride] else []

def resolved (text : Option String) (default : Duration) : Duration :=
  (text.bind Duration.parse?).getD default

variable (c : Config) (override : Option String)

def fileCacheDuration : Duration := resolved c.cacheDuration Settings.defaultCacheDuration

def fileScaleDownDelay : Duration := resolved c.scaleDownDelay Settings.defaultScaleDownDelay

def fileSyncInterval : Duration := resolved c.syncInterval Settings.defaultSyncInterval

def fileFaults : List Fault :=
  [unreadable "cache_duration" c.cacheDuration, fractional "cache_duration" c.fileCacheDuration,
    unreadable "scale_down_delay" c.scaleDownDelay,
    fractional "scale_down_delay" c.fileScaleDownDelay,
    unreadable "sync_interval" c.syncInterval, unreadable "max_backoff" c.maxBackoff,
    unreadable "demand_staleness" c.demandStaleness,
    if c.fileSyncInterval.isZero then [.zeroInterval] else []].flatten

def faults : List Fault := c.fileFaults ++ overrideFaults override

def resolvedSettings : Settings where
  cacheDuration :=
    if c.fileCacheDuration.isZero then Settings.defaultCacheDuration else c.fileCacheDuration
  scaleDownDelay := c.fileScaleDownDelay
  syncInterval := resolved (override.or c.syncInterval) Settings.defaultSyncInterval
  maxBackoff := resolved c.maxBackoff Settings.defaultMaxBackoff
  demandStaleness := resolved c.demandStaleness Settings.defaultDemandStaleness

theorem timing_eq_verdict (key : String) (text : Option String) (default : Duration) :
    timing key text default = verdict (unreadable key text) (resolved text default) := by
  unfold timing unreadable resolved
  cases text with
  | none => rfl
  | some s => cases hparse : Duration.parse? s <;> simp [hparse, verdict]

theorem wholeTiming_eq_verdict (key : String) (text : Option String) (default : Duration) :
    wholeTiming key text default =
      verdict (unreadable key text ++ fractional key (resolved text default))
        (resolved text default) := by
  unfold wholeTiming
  rw [timing_eq_verdict]
  apply verdict_bind
  unfold fractional Duration.isWhole
  by_cases hwhole : (resolved text default).nanos = 0 <;> simp [hwhole, verdict] <;> rfl

theorem overriding_eq_verdict (s : String) :
    overriding s =
      verdict (overrideFaults (some s)) (resolved (some s) Settings.defaultSyncInterval) := by
  cases hparse : Duration.parse? s with
  | none => simp [overriding, overrideFaults, hparse, verdict]
  | some d =>
    cases hzero : d.isZero <;> simp [overriding, overrideFaults, resolved, hparse, hzero, verdict]

theorem fileSettings_eq_verdict :
    c.fileSettings = verdict c.fileFaults (c.resolvedSettings none) := by
  unfold fileSettings fileFaults
  simp only [wholeTiming_eq_verdict, timing_eq_verdict, List.flatten_cons, List.flatten_nil,
    ← List.append_assoc (unreadable _ _) (fractional _ _)]
  refine verdict_bind (verdict_bind (verdict_bind (verdict_bind (verdict_bind ?_))))
  unfold fileSyncInterval
  split <;> rfl

theorem settings_eq_verdict :
    c.settings override = verdict (c.faults override) (c.resolvedSettings override) := by
  unfold settings
  rw [fileSettings_eq_verdict]
  refine verdict_bind ?_
  cases override with
  | none => rfl
  | some s =>
    rw [← List.append_nil (overrideFaults (some s))]
    change overriding s >>= _ = _
    rw [overriding_eq_verdict]
    exact verdict_bind rfl

/-! ## Configurations without faults -/

structure Acceptable : Prop where
  /-- Every text that is there is a duration. -/
  readable : ∀ s, some s ∈ c.controllerTexts → ∃ d, Duration.parse? s = some d
  wholeCacheDuration : c.fileCacheDuration.nanos = 0
  wholeScaleDownDelay : c.fileScaleDownDelay.nanos = 0
  syncInterval : c.fileSyncInterval.isZero = false
  override : ∀ s, override = some s → ∃ d, Duration.parse? s = some d ∧ d.isZero = false

theorem unreadable_eq_nil_iff {key : String} {text : Option String} :
    unreadable key text = [] ↔ ∀ s, text = some s → ∃ d, Duration.parse? s = some d := by
  cases text with
  | none => simp [unreadable]
  | some s => cases hparse : Duration.parse? s <;> simp [unreadable, hparse]

theorem fractional_eq_nil_iff {key : String} {d : Duration} :
    fractional key d = [] ↔ d.nanos = 0 := by
  by_cases h : d.nanos = 0 <;> simp [fractional, h]

theorem overrideFaults_eq_nil_iff {override : Option String} :
    overrideFaults override = [] ↔
      ∀ s, override = some s → ∃ d, Duration.parse? s = some d ∧ d.isZero = false := by
  cases override with
  | none => simp [overrideFaults]
  | some s =>
    cases hparse : Duration.parse? s with
    | none => simp [overrideFaults, hparse]
    | some d => cases hzero : d.isZero <;> simp [overrideFaults, hparse, hzero]

theorem faults_eq_nil_iff : c.faults override = [] ↔ c.Acceptable override := by
  have hzero : (if c.fileSyncInterval.isZero then [Fault.zeroInterval] else []) = [] ↔
      c.fileSyncInterval.isZero = false := by
    cases c.fileSyncInterval.isZero <;> simp
  simp only [faults, fileFaults, List.append_eq_nil_iff, List.flatten_eq_nil_iff,
    List.forall_mem_cons, unreadable_eq_nil_iff, fractional_eq_nil_iff, overrideFaults_eq_nil_iff,
    hzero]
  constructor
  · rintro ⟨⟨hcache, hwholeCache, hdelay, hwholeDelay, hsync, hbackoff, hstaleness, hinterval, -⟩,
      hoverride⟩
    refine ⟨fun s hs => ?_, hwholeCache, hwholeDelay, hinterval, hoverride⟩
    simp only [controllerTexts, List.mem_cons, List.not_mem_nil, or_false] at hs
    obtain hs | hs | hs | hs | hs := hs
    exacts [hcache s hs.symm, hdelay s hs.symm, hsync s hs.symm, hbackoff s hs.symm,
      hstaleness s hs.symm]
  · intro h
    have htext : ∀ {text}, text ∈ c.controllerTexts →
        ∀ s, text = some s → ∃ d, Duration.parse? s = some d :=
      fun hmem s hs => h.readable s (hs ▸ hmem)
    refine ⟨⟨htext ?_, h.wholeCacheDuration, htext ?_, h.wholeScaleDownDelay, htext ?_, htext ?_,
      htext ?_, h.syncInterval, nofun⟩, h.override⟩
    all_goals simp [controllerTexts]

end Config

/-- What the engine relies on: its two timings are whole seconds, so that cutting them off changes
nothing, and a count that is cached holds in the second in which it is computed. -/
structure Settings.SafeForEngine (s : Settings) : Prop where
  positive : 0 < s.cacheDuration.seconds.toNat
  wholeCacheDuration : .ofSeconds s.cacheDuration.seconds = s.cacheDuration
  wholeScaleDownDelay : .ofSeconds s.scaleDownDelay.seconds = s.scaleDownDelay
  kept : Engine.ofSettings s = ⟨s.cacheDuration, s.scaleDownDelay⟩
  live : ∀ {ε : Type} (a : Autoscaler) (target : Deployment) (answer : Except ε Count)
    (now : Seconds) (d : Decision), now.toNat < Seconds.largest →
    (Engine.ofSettings s).decide a target answer now = .ok d → d.fromCache = false →
    ∃ status entry, d.statusPatch = some status ∧ status.cache = [entry] ∧
      entry.value = d.baseline ∧ entry.isLive now = true

theorem Engine.live_of_decide {ε : Type} {s : Settings} {a : Autoscaler} {target : Deployment}
    {answer : Except ε Count} {now : Seconds} {d : Decision} (hnow : now.toNat < Seconds.largest)
    (h : (Engine.ofSettings s).decide a target answer now = .ok d) (hmiss : d.fromCache = false) :
    ∃ status entry, d.statusPatch = some status ∧ status.cache = [entry] ∧
      entry.value = d.baseline ∧ entry.isLive now = true := by
  have hcache := (Engine.ofSettings s).cache_of_decide a target h
  have hpos := Engine.cacheDuration_ofSettings_pos s
  rw [hmiss] at hcache
  cases hpatch : d.statusPatch with
  | none =>
    obtain ⟨baseline, fromCache, rfl⟩ := (Engine.ofSettings s).conclude_of_decide a target h
    obtain ⟨-, rfl⟩ := (Engine.ofSettings s).statusPatch_eq_none_iff.1 hpatch
    cases hmiss
  | some status =>
    rw [hpatch, Option.getD_some] at hcache
    exact ⟨status, _, rfl, hcache, rfl, Engine.isLive_fresh_iff.2 (by omega)⟩

theorem Duration.ofSeconds_seconds {d : Duration} (h : d.nanos = 0) : .ofSeconds d.seconds = d := by
  obtain ⟨seconds, nanos⟩ := d
  obtain rfl : nanos = 0 := h
  rfl

theorem Config.safeForEngine {c : Config} {override : Option String} (h : c.Acceptable override) :
    (c.resolvedSettings override).SafeForEngine := by
  have hwhole : (c.resolvedSettings override).cacheDuration.nanos = 0 := by
    change (if c.fileCacheDuration.isZero then _ else c.fileCacheDuration).nanos = 0
    split
    · rfl
    · exact h.wholeCacheDuration
  have hne : (c.resolvedSettings override).cacheDuration.seconds ≠ 0 := by
    change (if c.fileCacheDuration.isZero then _ else c.fileCacheDuration).seconds ≠ 0
    split
    · decide
    · next hnonzero =>
      intro hzero
      simp [Duration.isZero, hzero, h.wholeCacheDuration] at hnonzero
  have hpos : 0 < (c.resolvedSettings override).cacheDuration.seconds.toNat :=
    Nat.pos_of_ne_zero fun hzero => hne (UInt64.toNat_inj.1 hzero)
  exact {
    positive := hpos
    wholeCacheDuration := Duration.ofSeconds_seconds hwhole
    wholeScaleDownDelay := Duration.ofSeconds_seconds h.wholeScaleDownDelay
    kept := by rw [Engine.ofSettings, if_neg hne]
    live := fun _ _ _ _ _ => Engine.live_of_decide }

/-- A configuration is accepted exactly if it has no fault, and refused for the first one in a fixed
order. The settings that it comes to are those that its texts say, and the engine takes their
timings as they are. -/
theorem Config.settings_resolve (c : Config) (override : Option String) :
    ((∃ s, c.settings override = .ok s) ↔ c.Acceptable override) ∧
    (∀ fault, c.settings override = .error fault ↔ (c.faults override).head? = some fault) ∧
    ∀ s, c.settings override = .ok s → s = c.resolvedSettings override ∧ s.SafeForEngine := by
  simp only [settings_eq_verdict, verdict_eq_ok_iff, faults_eq_nil_iff]
  refine ⟨?_, fun fault => verdict_eq_error_iff, ?_⟩
  · exact ⟨fun ⟨_, h, _⟩ => h, fun h => ⟨_, h, rfl⟩⟩
  · rintro s ⟨h, rfl⟩
    exact ⟨rfl, safeForEngine h⟩

def Config.zeroCache : Config where
  cacheDuration := some "0ms"
  scaleDownDelay := some "2000 ms"
  syncInterval := some "1m"
  maxBackoff := none
  demandStaleness := some "1500ms"
  dataDir := none

/-- The default takes the place of a cache duration of nothing. A third of a second may be the
interval, but not the delay. -/
theorem Config.settings_resolve_zeroCache :
    (∃ s, zeroCache.settings (some " +333ms ") = .ok s ∧ s.SafeForEngine ∧
      s = ⟨.ofSeconds 600, .ofSeconds 2, ⟨0, 333000000⟩, .ofSeconds 300, ⟨1, 500000000⟩⟩) ∧
    { zeroCache with scaleDownDelay := some "333ms", maxBackoff := some "soon" }.settings none =
      .error (.notWhole "scale_down_delay" ⟨0, 333000000⟩) := by
  have hok : zeroCache.settings (some " +333ms ") =
      .ok ⟨.ofSeconds 600, .ofSeconds 2, ⟨0, 333000000⟩, .ofSeconds 300, ⟨1, 500000000⟩⟩ := by
    decide
  refine ⟨⟨_, hok, ((settings_resolve _ _).2.2 _ hok).2, rfl⟩, ?_⟩
  exact ((settings_resolve _ _).2.1 _).2 (by decide)

end RunnerFleet
