import RunnerFleet.Duration

/-!
# Controller settings

The timings of the controller with every default in place.
-/

namespace RunnerFleet

structure Settings where
  cacheDuration : Duration
  /-- How long after growing an autoscaler may not shrink, unless it says otherwise itself. -/
  scaleDownDelay : Duration
  syncInterval : Duration
  maxBackoff : Duration
  demandStaleness : Duration
  deriving DecidableEq, Repr

namespace Settings

def defaultCacheDuration : Duration := .ofSeconds 600

def defaultScaleDownDelay : Duration := .ofSeconds 600

def defaultSyncInterval : Duration := .ofSeconds 30

def defaultMaxBackoff : Duration := .ofSeconds 300

def defaultDemandStaleness : Duration := .ofSeconds 300

def default : Settings where
  cacheDuration := defaultCacheDuration
  scaleDownDelay := defaultScaleDownDelay
  syncInterval := defaultSyncInterval
  maxBackoff := defaultMaxBackoff
  demandStaleness := defaultDemandStaleness

end Settings

end RunnerFleet
