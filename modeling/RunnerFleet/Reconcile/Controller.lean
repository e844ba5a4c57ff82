import RunnerFleet.Reconcile.Pass

/-!
# Passes over all autoscalers

The controller visits every stored autoscaler. One that failed is left alone for a while, twice as
long after every further failure. A write conflict is tried again at once from a fresh read, one
time; it neither counts as a failure nor ends one.
-/

namespace RunnerFleet

structure Backoff where
  failures : UInt32
  retryAt : Seconds
  deriving DecidableEq, Repr

structure SyncReport where
  applied : Nat
  scaled : Nat
  skipped : Nat
  /-- Autoscalers still in conflict after the second try. -/
  conflicts : Nat
  failed : Nat
  deferred : Nat
  deriving DecidableEq, Repr

def SyncReport.zero : SyncReport := ⟨0, 0, 0, 0, 0, 0⟩

structure Controller where
  engine : Engine
  syncInterval : Duration
  maxBackoff : Duration
  deriving DecidableEq, Repr

structure Tally where
  world : World
  backoff : Table Backoff
  report : SyncReport
  deriving DecidableEq

namespace Controller

def ofSettings (s : Settings) : Controller := ⟨.ofSettings s, s.syncInterval, s.maxBackoff⟩

/-- The wait after a number of failures in a row: the interval, doubled each time, at most 32
times, and never above the longest wait. -/
def backoffDelay (c : Controller) (failures : UInt32) : Seconds :=
  let base := max c.syncInterval.seconds 1
  let factor : UInt64 := 1 <<< (min failures 32).toUInt64
  min (Seconds.times base factor) c.maxBackoff.seconds

/-- The back-off after one more failure. -/
def fail (c : Controller) (earlier : Option Backoff) (now : Seconds) : Backoff :=
  let failures := (earlier.map (·.failures)).getD 0 + 1
  ⟨failures, Seconds.plus now (c.backoffDelay failures)⟩

def isDeferred (backoff : Table Backoff) (key : String) (now : Seconds) : Bool :=
  match backoff.get? key with
  | some b => now < b.retryAt
  | none => false

/-- The passes for one autoscaler: a second one if the first ends in a conflict. -/
def attempt (p : Pass) (w : World) : PassResult × World :=
  match p.reconcile w with
  | (.error e, w) => if e.isConflict then p.reconcile w else (.error e, w)
  | r => r

def count (r : SyncReport) : PassResult → SyncReport
  | .ok (.applied d) =>
    { r with
      applied := r.applied + 1
      scaled := if d.targetPatch.isSome then r.scaled + 1 else r.scaled }
  | .ok (.skipped _) => { r with skipped := r.skipped + 1 }
  | .error (.writeConflict _) => { r with conflicts := r.conflicts + 1 }
  | .error _ => { r with failed := r.failed + 1 }

def settle (c : Controller) (backoff : Table Backoff) (key : String) (now : Seconds) :
    PassResult → Table Backoff
  | .ok _ => backoff.erase key
  | .error (.writeConflict _) => backoff
  | .error _ => backoff.insert key (c.fail (backoff.get? key) now)

def visit (c : Controller) (evaluate : Evaluator) (now : Seconds) (t : Tally) (key : String) :
    Tally :=
  if isDeferred t.backoff key now then
    { t with report := { t.report with deferred := t.report.deferred + 1 } }
  else
    let (result, world) := attempt ⟨key, now, c.engine, evaluate⟩ t.world
    { world
      backoff := c.settle t.backoff key now result
      report := count t.report result }

def visitAll (c : Controller) (evaluate : Evaluator) (now : Seconds) (order : List String)
    (t : Tally) : Tally := order.foldl (c.visit evaluate now) t

/-- The keys of autoscalers, each once, in order. -/
def keysOf (as : List Autoscaler) : List String :=
  (as.foldl (fun (t : Table Unit) a => t.insert a.key ()) .empty).keys

/-- Forgets the back-offs of autoscalers that are gone. -/
def retain (backoff : Table Backoff) (keys : List String) : Table Backoff :=
  backoff.restrict (keys.contains ·)

/-- One pass over all stored autoscalers, in the order of their keys. It fails only if they cannot
be listed, and then nothing has happened. -/
def sync (c : Controller) (evaluate : Evaluator) (now : Seconds) (w : World)
    (backoff : Table Backoff) : Except StoreError Tally := do
  let keys := keysOf (← w.store.listAutoscalers)
  return c.visitAll evaluate now keys ⟨w, retain backoff keys, .zero⟩

end Controller

end RunnerFleet
