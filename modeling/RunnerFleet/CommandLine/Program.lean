import RunnerFleet.CommandLine.Arguments
import RunnerFleet.Config
import RunnerFleet.Reconcile.Controller

/-!
# The program

What the program does with its arguments, told over the few things it needs of the machine it runs
on. Arguments come first, then the configuration, then the timings of a daemon, then the store, and
last the command itself. A daemon passes over all autoscalers again and again until it is stopped;
nobody scripts its replica counts or interferes with its writes. Only the back-offs are kept from
pass to pass; all else is in the store.
-/

namespace RunnerFleet

structure Daemon where
  settings : Settings
  backoff : Table Backoff

namespace Daemon

def start (c : Config) (syncInterval : Option String) : Except Config.Fault Daemon :=
  (c.settings syncInterval).map (⟨·, .empty⟩)

/-- One pass over all autoscalers at `now`. If they cannot be listed, nothing happens. -/
def pass (d : Daemon) (now : Seconds) (s : Store) : Daemon × Store :=
  let evaluate := Snapshot.evaluate d.settings.demandStaleness now
  match (Controller.ofSettings d.settings).sync evaluate now (.ofStore s) d.backoff with
  | .ok t => ({ d with backoff := t.backoff }, t.world.store)
  | .error _ => (d, s)

end Daemon

namespace CommandLine

def storeFile : String := "runnerscale.redb"

def storePath (directory : String) : String :=
  if directory = "" ∨ directory.toList.getLast? = some '/' then directory ++ storeFile
  else directory ++ "/" ++ storeFile

inductive OpenError where
  | noDirectory
  /-- What is there is not a store. -/
  | broken
  deriving DecidableEq, Repr

def OpenError.message (directory : String) : OpenError → String
  | noDirectory => "creating data directory " ++ directory
  | broken => "opening state store at " ++ storePath directory

structure Host (m : Type → Type) where
  readText : String → m (Option String)
  openStore : String → m (Except OpenError Store)
  saveStore : String → Store → m Unit
  now : m Seconds

inductive Exit where
  | printed (text : String)
  | failed (message : String)
  | misused
  | serving (directory : String) (d : Daemon)

def programName : String := "runnerscaled"

def versionNumber : String := "0.1.0"

def versionText (c : Option CommandName) : String :=
  let name := match c with
    | none => programName
    | some c => programName ++ "-" ++ c.name
  name ++ " " ++ versionNumber ++ "\n"

def usageText : String :=
  "Usage: " ++ programName ++ " [--config PATH] [--data-dir PATH] COMMAND\n\n" ++
  "Commands:\n" ++
  "  run [--sync-interval DURATION]\n" ++
  "  apply --file PATH\n" ++
  "  reserve NAMESPACE/NAME --replicas N --duration DURATION\n" ++
  "  demand NAMESPACE/NAME [--queued N] [--in-progress N] [--busy N] [--registered N]\n" ++
  "  status NAMESPACE/NAME\n"

variable {m : Type → Type} [Monad m]

def loadConfig (h : Host m) : Option String → m (Except String Config)
  | none => return .ok .empty
  | some path => do
    match (← h.readText path).bind Config.parse? with
    | some c => return .ok c
    | none => return .error ("loading config from " ++ path)

def onStore (h : Host m) (directory : String) (f : Store → m Ran) : m Exit := do
  match ← h.openStore directory with
  | .error e => return .failed (e.message directory)
  | .ok s =>
    let (result, s) ← f s
    h.saveStore directory s
    match result with
    | .ok text => return .printed text
    | .error e => return .failed e.message

def applyFile (h : Host m) (directory path : String) : m Exit := do
  match ← h.openStore directory with
  | .error e => return .failed (e.message directory)
  | .ok s =>
    match ← h.readText path with
    | none => return .failed ("reading manifest " ++ path)
    | some text =>
      let (result, s) := Command.apply text s
      h.saveStore directory s
      match result with
      | .ok text => return .printed text
      | .error (.manifest _) => return .failed ("parsing manifest " ++ path)
      | .error e => return .failed e.message

/-- Starts the daemon. Its timings are looked at before the store is. -/
def startDaemon (h : Host m) (directory : String) (c : Config) (syncInterval : Option String) :
    m Exit := do
  match Daemon.start c syncInterval with
  | .error f => return .failed f.message
  | .ok d =>
    match ← h.openStore directory with
    | .error e => return .failed (e.message directory)
    | .ok _ => return .serving directory d

def perform (h : Host m) (directory : String) (c : Config) : Action → m Exit
  | .run syncInterval => startDaemon h directory c syncInterval
  | .apply file => applyFile h directory file
  | .reserve key replicas length =>
    onStore h directory fun s => return Command.reserve key replicas length (← h.now) s
  | .demand key counts => onStore h directory fun s => return Command.demand key counts (← h.now) s
  | .status key => onStore h directory fun s => return Command.status key s

def invoke (h : Host m) (i : Invocation) : m Exit := do
  match ← loadConfig h i.config with
  | .error message => return .failed message
  | .ok c => perform h (i.dataDir.getD c.dataDirectory) c i.action

def run (h : Host m) (args : List String) : m Exit :=
  match read args with
  | .misused => return .misused
  | .version c => return .printed (versionText c)
  | .help => return .printed usageText
  | .invoked i => invoke h i

/-- The exit code. A daemon that is stopped has done its work. -/
def Exit.code : Exit → UInt32
  | printed _ | serving .. => 0
  | failed _ => 1
  | misused => 2

def Exit.output : Exit → String
  | printed text => text
  | _ => ""

def Exit.errorOutput : Exit → String
  | failed message => "Error: " ++ message ++ "\n"
  | misused => usageText
  | _ => ""

end CommandLine

end RunnerFleet
