import RunnerFleet.Resource.Metric

/-!
# Scaling by the share of busy runners

When the busy share reaches the upper threshold the count grows by a factor, rounded up; below the
lower threshold it shrinks by a factor, rounded down. A policy is refused if its numbers make no
sense, whether or not they would be used.
-/

namespace RunnerFleet

structure BusyRule where
  upThreshold : Float
  downThreshold : Float
  upFactor : Float
  downFactor : Float

namespace BusyRule

def ofPolicy (p : BusyPolicy) : BusyRule where
  upThreshold := p.upThreshold.getD 0.8
  downThreshold := p.downThreshold.getD 0.3
  upFactor := p.upFactor.getD 1.3
  downFactor := p.downFactor.getD 0.7

def inUnit (x : Float) : Bool := 0 ≤ x && x ≤ 1

inductive Fault where
  | thresholdOutside
  | thresholdsReversed
  | factorOutside
  deriving DecidableEq, Repr

def Fault.message : Fault → String
  | thresholdOutside => "thresholds must be between 0 and 1"
  | thresholdsReversed => "scale-down threshold exceeds scale-up threshold"
  | factorOutside => "scale-up factor must be >= 1 and scale-down factor within 0..=1"

def fault? (r : BusyRule) : Option Fault :=
  if !inUnit r.upThreshold || !inUnit r.downThreshold then some .thresholdOutside
  else if r.upThreshold < r.downThreshold then some .thresholdsReversed
  else if r.upFactor < 1 || !inUnit r.downFactor then some .factorOutside
  else none

def toCount (x : Float) : Count :=
  if x < 4294967295 then x.toUInt32 else UInt32.ofNat Count.largest

def next (r : BusyRule) (current busy registered : Count) : Count :=
  if registered = 0 then current
  else
    let share := busy.toFloat / registered.toFloat
    if r.upThreshold ≤ share then toCount (current.toFloat * r.upFactor).ceil
    else if share < r.downThreshold then toCount (current.toFloat * r.downFactor).floor
    else current

end BusyRule

end RunnerFleet
