import RunnerFleet.Settings
import RunnerFleet.Text.Quoted
import RunnerFleet.Toml.Parser

/-!
# The configuration file

The file has two sections of texts, all optional: timings of the controller and the place of the
store. It is read whatever the timings say; only resolving them to settings finds their faults, and
it reports the first one in a fixed order.
-/

namespace RunnerFleet

structure Config where
  cacheDuration : Option String
  scaleDownDelay : Option String
  syncInterval : Option String
  maxBackoff : Option String
  demandStaleness : Option String
  dataDir : Option String
  deriving DecidableEq, Repr

namespace Config

def empty : Config := ⟨none, none, none, none, none, none⟩

/-! ## Reading and writing -/

def controllerKeys : List String :=
  ["cache_duration", "scale_down_delay", "sync_interval", "max_backoff", "demand_staleness"]

def storeKeys : List String := ["data_dir"]

/-- The values of the keys of a section. A section may also be an array of its values in order. A
date has none of the keys. -/
def sectionValues? (keys : List String) : Option Toml.Node → Option (List (Option Toml.Node))
  | none | some .moment => some (keys.map fun _ => none)
  | some (.table _ members) => some (keys.map fun key => members.lookup key)
  | some (.array items) => some ((List.range keys.length).map (items[·]?))
  | some _ => none

def text? : Option Toml.Node → Option (Option String)
  | none => some none
  | some (.text s) => some (some s)
  | some _ => none

def ofMembers? (members : Toml.Members) : Option Config := do
  let controller ← sectionValues? controllerKeys (members.lookup "controller")
  let store ← sectionValues? storeKeys (members.lookup "store")
  match ← controller.mapM text?, ← store.mapM text? with
  | [cacheDuration, scaleDownDelay, syncInterval, maxBackoff, demandStaleness], [dataDir] =>
    some { cacheDuration, scaleDownDelay, syncInterval, maxBackoff, demandStaleness, dataDir }
  | _, _ => none

/-- The configuration in a file of the given text, if it can be read. Unknown keys do not matter. -/
def parse? (s : String) : Option Config := (Toml.parse? s).bind ofMembers?

def entryChars (key : String) (text : Option String) : List Char :=
  match text with
  | none => []
  | some s => key.toList ++ " = ".toList ++ Toml.quoted s ++ ['\n']

def sectionChars (name : String) (keys : List String) (texts : List (Option String)) :
    List Char :=
  ['['] ++ name.toList ++ [']', '\n'] ++ (List.zipWith entryChars keys texts).flatten

def controllerTexts (c : Config) : List (Option String) :=
  [c.cacheDuration, c.scaleDownDelay, c.syncInterval, c.maxBackoff, c.demandStaleness]

def render (c : Config) : String :=
  String.ofList (sectionChars "controller" controllerKeys c.controllerTexts ++ ['\n'] ++
    sectionChars "store" storeKeys [c.dataDir])

/-! ## What it says -/

def defaultDataDir : String := "/var/lib/runnerscale"

def dataDirectory (c : Config) : String := c.dataDir.getD defaultDataDir

/-- Why the timings are refused. -/
inductive Fault where
  | badDuration (key text : String)
  | notWhole (key : String) (d : Duration)
  | zeroInterval
  | badOverride (text : String)
  | zeroOverride
  deriving DecidableEq, Repr

def Fault.message : Fault → String
  | badDuration key text =>
    "invalid duration for \x60" ++ key ++ "\x60: " ++ Text.quoted text
  | notWhole key d =>
    "invalid value for \x60" ++ key ++ "\x60: " ++ d.render ++ " is not a whole number of seconds"
  | zeroInterval => "invalid value for \x60sync_interval\x60: must be greater than zero"
  | badOverride text => "invalid --sync-interval " ++ Text.quoted text
  | zeroOverride => "--sync-interval must be greater than zero"

def timing (key : String) (text : Option String) (default : Duration) : Except Fault Duration :=
  match text with
  | none => .ok default
  | some s => match Duration.parse? s with
    | some d => .ok d
    | none => .error (.badDuration key s)

/-- A duration that is compared with time stamps has no part of a second. -/
def wholeTiming (key : String) (text : Option String) (default : Duration) :
    Except Fault Duration := do
  let d ← timing key text default
  if d.isWhole then return d else throw (.notWhole key d)

/-- The settings that the file asks for. A cache that would keep nothing is taken as not
configured. -/
def fileSettings (c : Config) : Except Fault Settings := do
  let cache ← wholeTiming "cache_duration" c.cacheDuration Settings.defaultCacheDuration
  let settings : Settings := {
    cacheDuration := if cache.isZero then Settings.defaultCacheDuration else cache
    scaleDownDelay :=
      ← wholeTiming "scale_down_delay" c.scaleDownDelay Settings.defaultScaleDownDelay
    syncInterval := ← timing "sync_interval" c.syncInterval Settings.defaultSyncInterval
    maxBackoff := ← timing "max_backoff" c.maxBackoff Settings.defaultMaxBackoff
    demandStaleness :=
      ← timing "demand_staleness" c.demandStaleness Settings.defaultDemandStaleness }
  if settings.syncInterval.isZero then throw .zeroInterval
  return settings

def overriding (text : String) : Except Fault Duration :=
  match Duration.parse? text with
  | none => .error (.badOverride text)
  | some d => if d.isZero then .error .zeroOverride else .ok d

/-- The settings that the file asks for, with the sync interval given from outside if there is one.
The file's own interval must be good all the same. -/
def settings (c : Config) (syncInterval : Option String) : Except Fault Settings := do
  let settings ← c.fileSettings
  match syncInterval with
  | none => return settings
  | some text => return { settings with syncInterval := ← overriding text }

end Config

end RunnerFleet
