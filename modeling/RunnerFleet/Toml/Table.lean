/-!
# TOML tables

A document fills one tree of tables. Headers and dotted keys lead to a table in it and make the
tables on the way; how a table came about decides what may still reach it. Of a number or a truth
value only its being one is kept, and likewise of a date or time.
-/

namespace RunnerFleet.Toml

/-- How a table came about. -/
inductive Origin where
  /-- Written between braces; nothing can be added. -/
  | inline
  /-- By a header of its own. -/
  | header
  /-- On the way to the table of a header. -/
  | implied
  /-- On the way along a dotted key. -/
  | dotted
  deriving DecidableEq, Repr

inductive Node where
  | text (s : String)
  | moment
  | plain
  | array (items : List Node)
  | table (origin : Origin) (members : List (String × Node))
  | tables (last : List (String × Node)) (earlier : List (List (String × Node)))
  deriving Repr

abbrev Members := List (String × Node)

namespace Members

/-- Puts `n` in the place of the member `key`, or at the end. -/
def set (key : String) (n : Node) : Members → Members
  | [] => [(key, n)]
  | (k, m) :: ms => if k = key then (key, n) :: ms else (k, m) :: set key n ms

def add? (key : String) (n : Node) (ms : Members) : Option Members :=
  match ms.lookup key with
  | some _ => none
  | none => some (ms.set key n)

/-- The tables that a dotted key, or else a header, may lead through. -/
def passes (dotted : Bool) : Origin → Bool
  | .inline => false
  | .header => !dotted
  | _ => true

/-- Changes the table at the end of a path, told how it came about. Tables that are not there yet
are made on the way. Of tables with a common header the latest is taken. -/
def reach? (dotted : Bool) (f : Origin → Members → Option Members) :
    List String → Origin → Members → Option Members
  | [], origin, ms => f origin ms
  | key :: path, _, ms =>
    match ms.lookup key with
    | none =>
      let origin := if dotted then Origin.dotted else .implied
      (reach? dotted f path origin []).map fun inner => ms.set key (.table origin inner)
    | some (.table origin inner) =>
      if passes dotted origin then
        (reach? dotted f path origin inner).map fun inner => ms.set key (.table origin inner)
      else none
    | some (.tables last earlier) =>
      (reach? dotted f path .header last).map fun last => ms.set key (.tables last earlier)
    | some _ => none

/-- Gives the value of a key that stands in the table itself, after the other parts of a dotted
key. A dotted key ends in a table that dotted keys have made. -/
def assign? (path : List String) (key : String) (n : Node) (ms : Members) : Option Members :=
  reach? true (fun origin ms => if origin = .dotted ∨ path = [] then ms.add? key n else none)
    path .header ms

/-- Gives the value of a key that stands below the header `heading`. -/
def assignBelow? (heading path : List String) (key : String) (n : Node) (ms : Members) :
    Option Members :=
  reach? false (fun _ ms => ms.assign? path key n) heading .header ms

/-- Begins the table of a header. It may have been made on the way to another one before. -/
def openTable? (path : List String) (key : String) (ms : Members) : Option Members :=
  reach? false (fun _ ms =>
    match ms.lookup key with
    | none => some (ms.set key (.table .header []))
    | some (.table .implied inner) => some (ms.set key (.table .header inner))
    | some _ => none) path .header ms

def openAnother? (path : List String) (key : String) (ms : Members) : Option Members :=
  reach? false (fun _ ms =>
    match ms.lookup key with
    | none => some (ms.set key (.tables [] []))
    | some (.tables last earlier) => some (ms.set key (.tables [] (last :: earlier)))
    | some _ => none) path .header ms

end Members

end RunnerFleet.Toml
