import RunnerFleet.Decision.Parts
import RunnerFleet.Resource.Deployment
import RunnerFleet.Settings

/-!
# Deciding the replica count

The baseline is the cached count or, if none holds, a newly computed one that respects the
scale-down delay. Reservations and then the ceiling turn it into the desired count. The decision
says which writes are needed and makes none.
-/

namespace RunnerFleet

structure Decision where
  baseline : Count
  desired : Count
  fromCache : Bool
  /-- The replica count to write to the target, if it differs. -/
  targetPatch : Option Count
  /-- The status to write, if it differs or the cache has to be refreshed. -/
  statusPatch : Option AutoscalerStatus
  deriving DecidableEq, Repr

def Decision.isNoop (d : Decision) : Bool := d.targetPatch.isNone && d.statusPatch.isNone

/-- The two timings that decisions depend on. -/
structure Engine where
  cacheDuration : Duration
  scaleDownDelay : Duration
  deriving DecidableEq, Repr

namespace Engine

/-- A cache duration below one second would end in the second in which it starts, so the default
takes its place. -/
def ofSettings (s : Settings) : Engine where
  cacheDuration := if s.cacheDuration.seconds = 0 then Settings.defaultCacheDuration
    else s.cacheDuration
  scaleDownDelay := s.scaleDownDelay

/-- The scale-down delay of an autoscaler: its own, else the default. -/
def delayOf (e : Engine) (a : Autoscaler) : Duration :=
  match a.spec.scaleDownDelay with
  | some s => .ofSeconds s
  | none => e.scaleDownDelay

/-- The count with reservations on top and the ceiling applied. -/
def desiredCount (a : Autoscaler) (baseline : Count) (now : Seconds) : Count :=
  let reserved := Reservation.overlay baseline a.spec.reservations now
  match a.spec.maxReplicas with
  | some most => min reserved most
  | none => reserved

def published (status : AutoscalerStatus) (desired : Count) (now : Seconds) : AutoscalerStatus :=
  { status with
    desired := some desired
    lastScaleOut := if isScaleOut status.desired desired then some now else status.lastScaleOut }

def refreshed (e : Engine) (status : AutoscalerStatus) (baseline : Count) (now : Seconds) :
    AutoscalerStatus :=
  { status with
    cache := CacheEntry.append status.cache (.fresh baseline now e.cacheDuration.seconds) now }

/-- The status to write: the first publication counts as a difference, and so does a newly computed
baseline. -/
def statusPatch (e : Engine) (status : AutoscalerStatus) (baseline desired : Count)
    (fromCache : Bool) (now : Seconds) : Option AutoscalerStatus :=
  let next := if status.desired = some desired then status else published status desired now
  if fromCache then if status.desired = some desired then none else some next
  else some (e.refreshed next baseline now)

def conclude (e : Engine) (a : Autoscaler) (target : Deployment) (baseline : Count)
    (fromCache : Bool) (now : Seconds) : Decision :=
  let desired := desiredCount a baseline now
  { baseline
    desired
    fromCache
    targetPatch := if desired = target.replicas then none else some desired
    statusPatch := e.statusPatch a.status baseline desired fromCache now }

/-- The baseline that a newly computed count leads to. -/
def baselineOf (e : Engine) (a : Autoscaler) (candidate : Count) (now : Seconds) : Count :=
  acceptCount a.status.desired candidate a.status.lastScaleOut (e.delayOf a).seconds now

/-- Decides for a target. A newly computed count is asked for only if no cached one holds; if it
cannot be computed there is no decision. -/
def consult {m : Type → Type} [Monad m] {ε : Type} (e : Engine) (a : Autoscaler)
    (target : Deployment) (ask : m (Except ε Count)) (now : Seconds) : m (Except ε Decision) :=
  match a.status.cached? now with
  | some baseline => return .ok (e.conclude a target baseline true now)
  | none => do
    let candidate ← ask
    return candidate.map fun c => e.conclude a target (e.baselineOf a c now) false now

def decide {ε : Type} (e : Engine) (a : Autoscaler) (target : Deployment)
    (candidate : Except ε Count) (now : Seconds) : Except ε Decision :=
  Id.run (e.consult a target (pure candidate) now)

end Engine

end RunnerFleet
