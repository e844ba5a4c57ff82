import RunnerFleet.Resource.Autoscaler

/-!
# The parts of a replica decision

A computed count stays in the status for a while and is found again there. A new count may lower
the published one only some time after the last growth. Reservations come on top.
-/

namespace RunnerFleet

def CacheEntry.isLive (e : CacheEntry) (now : Seconds) : Bool := now < e.expiresAt

/-- The first cached count that still holds. -/
def AutoscalerStatus.cached? (s : AutoscalerStatus) (now : Seconds) : Option Count :=
  (s.cache.find? fun e => e.key = .desiredReplicas && e.isLive now).map (·.value)

def CacheEntry.fresh (value : Count) (now ttl : Seconds) : CacheEntry :=
  ⟨.desiredReplicas, value, Seconds.plus now ttl⟩

/-- The entries with `e` behind those that still hold and have another key. -/
def CacheEntry.append (entries : List CacheEntry) (e : CacheEntry) (now : Seconds) :
    List CacheEntry :=
  entries.filter (fun old => old.isLive now && old.key ≠ e.key) ++ [e]

theorem CacheKey.eq_desiredReplicas (k : CacheKey) : k = .desiredReplicas := by
  cases k
  rfl

theorem AutoscalerStatus.cached?_eq (s : AutoscalerStatus) (now : Seconds) :
    s.cached? now = (s.cache.find? (·.isLive now)).map (·.value) := by
  simp [cached?, CacheKey.eq_desiredReplicas]

/-- As there is one key, a new entry takes the place of all older ones. -/
@[simp] theorem CacheEntry.append_eq (entries : List CacheEntry) (e : CacheEntry) (now : Seconds) :
    append entries e now = [e] := by
  simp [append, CacheKey.eq_desiredReplicas]

/-- The count that becomes the baseline: `candidate`, unless that would lower the published count
before `delay` seconds have passed since the last growth. -/
def acceptCount (previous : Option Count) (candidate : Count) (lastScaleOut : Option Seconds)
    (delay now : Seconds) : Count :=
  match previous, lastScaleOut with
  | some previous, some grown =>
    if candidate ≤ previous ∧ now < Seconds.plus grown delay then previous else candidate
  | _, _ => candidate

/-- Whether publishing `next` is growth. Where nothing was published, one replica is not. -/
def isScaleOut (previous : Option Count) (next : Count) : Bool := previous.getD 1 < next

def Reservation.activeSum (rs : List Reservation) (now : Seconds) : Count :=
  (rs.filter (·.isActive now)).foldl (fun sum r => Count.plus sum r.replicas) 0

/-- The baseline with the active reservations on top. -/
def Reservation.overlay (baseline : Count) (rs : List Reservation) (now : Seconds) : Count :=
  Count.plus baseline (activeSum rs now)

end RunnerFleet
