import CallGuard.Error
import CallGuard.Limiter.Basic

/-!
# Limiter settings
-/

namespace CallGuard.Limiter

/-- A rule and its parameters: tokens per second and the size of a bucket, requests per window and its length, or
requests per second and how many may come at once. -/
inductive Algorithm where
  | tokenBucket (rate capacity : Float)
  | slidingWindow (rate : UInt32) (window : Span)
  | cellRate (rate : Float) (burst : UInt32)
deriving DecidableEq

/-- The settings of a limiter. Sweeps are further apart than the interval, and drop keys that were idle for longer
than the threshold. -/
structure Config where
  algorithm : Algorithm
  cleanupInterval : Span
  inactiveThreshold : Span
deriving DecidableEq

/-- One hundred requests per second, all of them at once if need be. -/
def Algorithm.standard : Algorithm := .tokenBucket 100.0 100.0

/-- The default settings. -/
def Config.standard : Config := ⟨.standard, Store.defaultInterval, Store.defaultThreshold⟩

instance : Inhabited Config := ⟨Config.standard⟩

/-- A rate per second is a positive number. -/
def isPositive (x : Float) : Bool := 0.0 < x && x.isFinite

/-- A bucket holds at least one token. -/
def holdsToken (x : Float) : Bool := 1.0 ≤ x && x.isFinite

/-- Rules that would admit nothing, or everything, are refused. -/
def Algorithm.validate : Algorithm → Except CallError Unit
  | .tokenBucket rate capacity =>
    if !isPositive rate then .error (.invalidConfig "limiter.rate" "must be a positive number")
    else if !holdsToken capacity then .error (.invalidConfig "limiter.capacity" "must be at least 1")
    else .ok ()
  | .slidingWindow rate window =>
    if rate = 0 then .error (.invalidConfig "limiter.rate" "must be at least 1")
    else if window = .zero then .error (.invalidConfig "limiter.window" "must be non-zero")
    else .ok ()
  | .cellRate rate _ =>
    if !isPositive rate then .error (.invalidConfig "limiter.rate" "must be a positive number")
    else .ok ()

/-- The settings are refused if the rule is. -/
def Config.validate (c : Config) : Except CallError Unit := c.algorithm.validate

/-- **The limiter of the settings**, without keys. -/
def Config.build (c : Config) (now : Instant) : Limiter :=
  match c.algorithm with
  | .tokenBucket rate capacity =>
    ofTokenBucket ⟨rate, capacity⟩ now c.cleanupInterval c.inactiveThreshold
  | .slidingWindow rate window =>
    ofSlidingWindow ⟨rate, window⟩ now c.cleanupInterval c.inactiveThreshold
  | .cellRate rate burst =>
    ofCellRate (.ofRate rate burst) now c.cleanupInterval c.inactiveThreshold

end CallGuard.Limiter
