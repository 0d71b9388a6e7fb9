import Aioduct.Bandwidth.Limiter
import Aioduct.Http.Header
import Aioduct.Error

/-!
# Throttled bodies

`bandwidth/body.rs`: a body whose data frames wait until the limiter has bytes for them.
-/

namespace Aioduct.Bandwidth

open Wire Wire.TokenBucket Http

inductive Poll (α : Type) where
  | pending
  | ready (value : α)
  deriving DecidableEq

abbrev Item := Except Error Frame

/-- `inner` are the answers of the wrapped body to the next polls, after which it is over; `sleep`
is the moment at which the timer runs out. -/
structure BandwidthBody where
  limiter : BandwidthLimiter
  inner : List (Poll Item)
  pending : Option Bytes := none
  sleep : Option Nat := none

/-- The two times at which a poll uses the limiter, and what others do to the bucket between
them. -/
structure Visit where
  now : Nat
  now' : Nat
  meanwhile : Bucket → Bucket

def Visit.alone (now : Nat) : Visit := ⟨now, now, id⟩

structure Polled where
  answer : Poll (Option Item)
  body : BandwidthBody
  bucket : Bucket

namespace BandwidthBody

def new (inner : List (Poll Item)) (limiter : BandwidthLimiter) : BandwidthBody where
  limiter := limiter
  inner := inner

variable (self : BandwidthBody) (visit : Visit)

/-- The frame that was kept is handed on or waits for longer. -/
def pollPending (bucket : Bucket) (data : Bytes) : Polled :=
  let (wait, bucket) := self.limiter.waitAt bucket visit.now data.length
  if wait = 0 then
    let (_, bucket) := self.limiter.consumeAt (visit.meanwhile bucket) visit.now' data.length
    ⟨.ready (some (.ok (.data data))), { self with pending := none }, bucket⟩
  else ⟨.pending, { self with sleep := some (visit.now + wait) }, bucket⟩

end BandwidthBody

end Aioduct.Bandwidth
