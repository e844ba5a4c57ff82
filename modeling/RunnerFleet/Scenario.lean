import RunnerFleet.Operator.Command
import RunnerFleet.Reconcile.Controller
import RunnerFleet.Store.Operation

/-!
# Scenarios

A scenario plays steps against one store: store operations by any client, passes of the
controller, operator commands, and things that happen from outside. Replica counts may be scripted
for single autoscalers; the others are computed from recorded demand.
-/

namespace RunnerFleet

/-- Where the store of a scenario lives. Only a store on disk can be closed and opened again. -/
inductive Backend where
  | memory
  | disk
  deriving DecidableEq, Repr

inductive TableName where
  | autoscalers
  | deployments
  | demand
  | events
  deriving DecidableEq, Repr

structure Scenario where
  backend : Backend
  settings : Settings
  world : World
  backoff : Table Backoff
  answers : Table (Except EvaluationError Count)

namespace Scenario

inductive Step where
  | operate (op : Store.Operation)
  /-- Scripts the replica count of an autoscaler, or takes the script back. -/
  | script (key : String) (answer : Option (Except EvaluationError Count))
  | interfere (sort : WriteSort) (key : String) (is : List Interference)
  | reconcile (key : String) (now clock : Seconds)
  | sync (now clock : Seconds)
  | apply (text : String)
  | reserve (key : String) (replicas : Count) (length : String) (now : Seconds)
  | demand (key : String) (counts : DemandCounts) (now : Seconds)
  | status (key : String)
  | reopen
  | overwrite (table : TableName) (key text : String)

inductive Report where
  | operated (r : Except StoreError Store.Answer)
  | reconciled (r : PassResult) (evaluations : Nat)
  | synced (r : Except StoreError SyncReport) (evaluations : Nat)
      (autoscalers : Except StoreError (List Autoscaler))
      (deployments : Except StoreError (List Deployment))
  | ran (r : Except CommandError String)
  | done
  | refused

def start (backend : Backend) (settings : Settings) : Scenario where
  backend
  settings
  world := .ofStore .empty
  backoff := .empty
  answers := .empty

def evaluator (c : Scenario) (clock : Seconds) : Evaluator := fun s target a =>
  match c.answers.get? a.key with
  | some answer => answer
  | none => Snapshot.evaluate c.settings.demandStaleness clock s target a

def withStore (c : Scenario) (s : Store) : Scenario :=
  { c with world := { c.world with store := s } }

/-- The scenario after the store `s` has been opened. -/
def reopened (c : Scenario) (s : Store) : Scenario :=
  { c with world := .ofStore s, backoff := .empty, answers := .empty }

def overwritten (s : Store) (key text : String) : TableName → Store
  | .autoscalers => { s with autoscalers := s.autoscalers.insert key (.foreign text) }
  | .deployments => { s with deployments := s.deployments.insert key (.foreign text) }
  | .demand => { s with demand := s.demand.insert key (.foreign text) }
  | .events => { s with events := s.events.insert key (.foreign text) }

def command (c : Scenario) (f : Store → Ran) : Report × Scenario :=
  let (r, s) := f c.world.store
  (.ran r, c.withStore s)

def play (c : Scenario) : Step → Report × Scenario
  | .operate op =>
    match c.world.store.perform op with
    | .ok (answer, s) => (.operated (.ok answer), c.withStore s)
    | .error e => (.operated (.error e), c)
  | .script key (some answer) => (.done, { c with answers := c.answers.insert key answer })
  | .script key none => (.done, { c with answers := c.answers.erase key })
  | .interfere sort key is => (.done, { c with world := c.world.queue sort key is })
  | .reconcile key now clock =>
    let (r, world) :=
      Pass.reconcile ⟨key, now, .ofSettings c.settings, c.evaluator clock⟩ c.world
    (.reconciled r world.evaluations, { c with world })
  | .sync now clock =>
    match (Controller.ofSettings c.settings).sync (c.evaluator clock) now c.world c.backoff with
    | .error e => (.synced (.error e) c.world.evaluations (.error e) (.error e), c)
    | .ok t =>
      (.synced (.ok t.report) t.world.evaluations t.world.store.listAutoscalers
        t.world.store.listDeployments, { c with world := t.world, backoff := t.backoff })
  | .apply text => c.command (Command.apply text)
  | .reserve key replicas length now => c.command (Command.reserve key replicas length now)
  | .demand key counts now => c.command (Command.demand key counts now)
  | .status key => c.command (Command.status key)
  | .reopen =>
    match c.backend with
    | .memory => (.refused, c)
    | .disk => (.done, c.reopened c.world.store)
  | .overwrite table key text =>
    match c.backend with
    | .memory => (.refused, c)
    | .disk => (.done, c.reopened (overwritten c.world.store key text table))

end Scenario

end RunnerFleet
