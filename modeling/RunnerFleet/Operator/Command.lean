import RunnerFleet.Duration
import RunnerFleet.Json.Printer
import RunnerFleet.Operator.Manifest

/-!
# Operator commands

The commands that edit or show the store: apply a manifest, reserve capacity, record demand, and
show the status of an autoscaler. Each returns what it prints. They name an object as
`namespace/name`, both parts not empty and exactly one slash.
-/

namespace RunnerFleet

/-- The part before the first slash, and the part after it if there is a slash. -/
def splitSlash (cs : List Char) : List Char × Option (List Char) :=
  match cs.dropWhile (· ≠ '/') with
  | [] => (cs, none)
  | _ :: rest => (cs.takeWhile (· ≠ '/'), some rest)

/-- Whether `s` names an object. -/
def isObjectReference (s : String) : Bool :=
  match splitSlash s.toList with
  | (ns, some name) => ns ≠ [] && name ≠ [] && !name.contains '/'
  | (_, none) => false

inductive CommandError where
  | badReference (text : String)
  | badDuration (text : String)
  | zeroDuration
  | tooManyBusy (busy registered : Count)
  | noDeployment (key : String)
  | noAutoscaler (key : String)
  | reserving (key : String) (cause : StoreError)
  | store (cause : StoreError)
  | manifest (cause : Manifest.ReadError)
  deriving DecidableEq, Repr

namespace CommandError

def message : CommandError → String
  | badReference text => "expected namespace/name, got " ++ Text.quoted text
  | badDuration text => "invalid duration " ++ Text.quoted text
  | zeroDuration => "reservation duration must be greater than zero"
  | tooManyBusy busy registered =>
    "busy runners (" ++ toString busy.toNat ++ ") exceed registered runners (" ++
      toString registered.toNat ++ ")"
  | noDeployment key => "runner deployment " ++ key ++ " not found"
  | noAutoscaler key => "autoscaler " ++ key ++ " not found"
  | reserving key _ => "reserving capacity on " ++ key
  | store cause => cause.message
  | manifest (.fault f) => f.message
  | manifest .notJson => "invalid JSON"

def storeError? : CommandError → Option StoreError
  | reserving _ cause => some cause
  | store cause => some cause
  | _ => none

def fullMessage : CommandError → String
  | reserving key cause => (reserving key cause).message ++ ": " ++ cause.message
  | e => e.message

end CommandError

structure DemandCounts where
  queued : Count
  inProgress : Count
  busy : Count
  registered : Count
  deriving DecidableEq, Repr

def DemandCounts.seenAt (c : DemandCounts) (key : String) (now : Seconds) : Demand where
  deploymentKey := key
  queued := c.queued
  inProgress := c.inProgress
  busyRunners := c.busy
  registeredRunners := c.registered
  observedAt := now

abbrev Ran := Except CommandError String × Store

namespace Command

/-- What a command does step by step. An error ends it and takes nothing back. -/
abbrev Procedure := ExceptT CommandError (StateM Store)

def run {α : Type} (s : Store) (x : Procedure α) : Except CommandError α × Store :=
  (ExceptT.run x).run s

def require (holds : Bool) (e : CommandError) : Procedure Unit :=
  if holds then pure () else throw e

def look {α : Type} (f : Store → Except StoreError α) : Procedure α := do
  match f (← get) with
  | .ok a => return a
  | .error e => throw (.store e)

/-- A write, which the store may refuse as a whole. -/
def write {α : Type} (refusal : StoreError → CommandError) (f : Store → Stored α) :
    Procedure α := do
  match f (← get) with
  | .ok (a, s) =>
    set s
    return a
  | .error e => throw (refusal e)

def checkReference (text : String) : Except CommandError Unit :=
  if isObjectReference text then .ok () else .error (.badReference text)

def appliedText (m : Manifest) : String :=
  "applied " ++ toString m.autoscalers.length ++ " autoscaler(s) and " ++
    toString m.deployments.length ++ " deployment(s)\n"

def apply (text : String) (s : Store) : Ran :=
  match Manifest.read text with
  | .error e => (.error (.manifest e), s)
  | .ok m => match m.apply s with
    | (.ok (), s) => (.ok (appliedText m), s)
    | (.error e, s) => (.error (.store e), s)

def reservedText (key : String) (r : Reservation) : String :=
  "reserved " ++ toString r.replicas.toNat ++ " replica(s) on " ++ key ++ " until " ++
    toString r.expiresAt.toNat ++ "\n"

def reservationLength (text : String) : Except CommandError Duration :=
  match Duration.parse? text with
  | none => .error (.badDuration text)
  | some d => if d.isZero then .error .zeroDuration else .ok d

def reserve (key : String) (replicas : Count) (length : String) (now : Seconds) (s : Store) :
    Ran :=
  run s do
    ofExcept (checkReference key)
    let d ← ofExcept (reservationLength length)
    let r : Reservation := ⟨replicas, Seconds.plus now d.seconds⟩
    let _ ← write (.reserving key) (·.addReservation key r now)
    return reservedText key r

def demand (key : String) (c : DemandCounts) (now : Seconds) (s : Store) : Ran :=
  run s do
    ofExcept (checkReference key)
    require (c.busy ≤ c.registered) (.tooManyBusy c.busy c.registered)
    let found ← look (·.deployment? key)
    require found.isSome (.noDeployment key)
    modify (·.putDemand (c.seenAt key now))
    return ""

def shownEvents : Nat := 10

def statusJson (a : Autoscaler) (events : List Event) : Json :=
  .ofFields
    [("autoscaler", some a.toJson),
     ("events", some (.array ((events.drop (events.length - shownEvents)).map Event.toJson)))]

def status (key : String) (s : Store) : Ran :=
  run s do
    ofExcept (checkReference key)
    let some a ← look (·.autoscaler? key) | throw (.noAutoscaler key)
    let events ← look (·.eventsOf key)
    return (statusJson a events).indented ++ "\n"

end Command

end RunnerFleet
