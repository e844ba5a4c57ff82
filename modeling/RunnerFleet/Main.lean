import RunnerFleet.CommandLine.Program
import RunnerFleet.Store.Archive
import Std.Time.DateTime.Timestamp

/-!
# The command line

The program on a real machine. The store is a file in the data directory, and the daemon reads it
again before every pass, so that commands take effect while it runs.
-/

namespace RunnerFleet.CommandLine.Machine

def orNothing {α : Type} (action : IO α) : IO (Option α) := do
  try
    return some (← action)
  catch _ =>
    return none

def readStore (directory : String) : IO (Option String) := do
  try
    return some (← IO.FS.readFile (storePath directory))
  catch e =>
    match e with
    | .noFileOrDirectory .. => return some ""
    | _ => return none

def openStore (directory : String) : IO (Except OpenError Store) := do
  if directory ≠ "" then
    if (← orNothing (IO.FS.createDirAll directory)).isNone then return .error .noDirectory
  match ← readStore directory with
  | some "" => return .ok .empty
  | some text =>
    match Store.ofArchive? text with
    | some s => return .ok s
    | none => return .error .broken
  | none => return .error .broken

def host : Host IO where
  readText path := orNothing (IO.FS.readFile path)
  openStore := openStore
  saveStore directory s := IO.FS.writeFile (storePath directory) s.archive
  now := return (← Std.Time.Timestamp.now).toSecondsSinceUnixEpoch.val.toNat.toUInt64

def pause (d : Duration) : UInt32 :=
  UInt32.ofNat (min (d.seconds.toNat * 1000 + d.nanos.toNat / 1000000) (UInt32.size - 1))

partial def serve (directory : String) (d : Daemon) : IO Unit := do
  let mut d := d
  match ← openStore directory with
  | .error _ => pure ()
  | .ok s =>
    let (next, s) := d.pass (← host.now) s
    host.saveStore directory s
    d := next
  IO.sleep (pause d.settings.syncInterval)
  serve directory d

end RunnerFleet.CommandLine.Machine

open RunnerFleet CommandLine in
def main (args : List String) : IO UInt32 := do
  let exit ← run Machine.host args
  IO.print exit.output
  IO.eprint exit.errorOutput
  match exit with
  | .serving directory d => Machine.serve directory d
  | _ => pure ()
  return exit.code
