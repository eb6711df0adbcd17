import Cofferwire.Library.Machine
import Cofferwire.Library.Table
import Cofferwire.Types.Basic

namespace Cofferwire

-- In a debug build an arithmetic overflow panics, and in a release build it wraps around.
class Profile where
  overflowChecks : Bool

structure RateLimiter.Window (κ : Type) where
  key     : κ
  entries : List UInt64
deriving DecidableEq, Repr

-- The map of windows is behind a lock, which a panic leaves poisoned.
structure RateLimiter (κ : Type) where
  windowSecs     : UInt64
  maxRequests    : Nat
  maxTrackedKeys : Nat
  windows        : List (RateLimiter.Window κ)
  poisoned       : Bool
deriving DecidableEq, Repr

namespace RateLimiter

variable [Profile] [DecidableEq κ]

def new (windowSecs : UInt64) (maxRequests maxTrackedKeys : Nat) : RateLimiter κ where
  windowSecs     := windowSecs
  maxRequests    := maxRequests
  maxTrackedKeys := maxTrackedKeys
  windows        := []
  poisoned       := false

-- Whether an entry has left the window. The comparison does not return if its sum panics.
def hasLeft (windowSecs now oldest : UInt64) : Option Bool :=
  if (checkedAdd oldest windowSecs).isNone ∧ Profile.overflowChecks then
    none
  else
    some (oldest + windowSecs ≤ now)

def popFront (windowSecs now : UInt64) : List UInt64 → Option (List UInt64)
  | []             => some []
  | oldest :: rest => do
    if ← hasLeft windowSecs now oldest then
      popFront windowSecs now rest
    else
      return oldest :: rest

def setEntries (limiter : RateLimiter κ) (key : κ) (entries : List UInt64) : RateLimiter κ :=
  { limiter with windows := Table.update (·.key = key) ({ · with entries }) limiter.windows }

-- Without a verdict, the call has panicked. The windows of a poisoned limiter are never read again.
def admits (limiter : RateLimiter κ) (key : κ) (now : UInt64) : Option Bool × RateLimiter κ :=
  if limiter.poisoned then
    (some false, limiter)
  else
    match Table.lookup Window.key key limiter.windows with
    | some window =>
      match popFront limiter.windowSecs now window.entries with
      | none         => (none, { limiter with poisoned := true })
      | some entries =>
        if entries.length ≥ limiter.maxRequests then
          (some false, limiter.setEntries key entries)
        else
          (some true, limiter.setEntries key (entries ++ [now]))
    | none =>
      if limiter.windows.length ≥ limiter.maxTrackedKeys then
        (some false, limiter)
      else
        (some true, { limiter with windows := limiter.windows ++ [⟨key, [now]⟩] })

-- A limiter which is called with keys and times.
def machine (windowSecs : UInt64) (maxRequests maxTrackedKeys : Nat) :
    Machine (RateLimiter κ) (κ × UInt64) (Option Bool) where
  init := new windowSecs maxRequests maxTrackedKeys
  step := fun (key, now) limiter => limiter.admits key now

end RateLimiter
end Cofferwire
