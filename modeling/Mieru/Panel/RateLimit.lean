import Mathlib.Algebra.Order.Ring.Unbundled.Rat
import Mieru.Panel.Token

/-!
# The token buckets of the panel

A bucket per key holds at most `burst` tokens and is refilled with the time
that passes.  Tokens are rational numbers here.
-/

namespace Mieru.Panel

open Mieru.Foundation

structure Bucket where
  tokens : ℚ
  lastFill : Int
  deriving DecidableEq

structure Limiter where
  buckets : Bytes → Option Bucket := fun _ => none
  burst : ℚ
  rate : ℚ
  expireAt : Int

namespace Limiter

def new (burst : Int) (perSecond : ℚ) (keepFor : Int) : Limiter where
  burst := if burst ≤ 0 then 1 else burst
  rate := if perSecond ≤ 0 then 1 else perSecond
  expireAt := keepFor

def refilled (l : Limiter) (key : Bytes) (now : Int) : Bucket :=
  match l.buckets key with
  | none => { tokens := l.burst, lastFill := now }
  | some b =>
    let elapsed : ℚ := ((now - b.lastFill : Int) : ℚ) / (second : ℚ)
    { tokens := min (b.tokens + elapsed * l.rate) l.burst
      lastFill := now }

def setBucket (l : Limiter) (key : Bytes) (b : Bucket) : Limiter :=
  { l with buckets := fun other =>
      if other = key then some b else l.buckets other }

def reap (l : Limiter) (now : Int) : Limiter :=
  { l with buckets := fun key =>
      (l.buckets key).filter fun b => now - b.lastFill ≤ l.expireAt }

def allow (l : Limiter) (key : Bytes) (now : Int) : Limiter × Bool :=
  let b := l.refilled key now
  if b.tokens < 1 then ((l.setBucket key b).reap now, false)
  else ((l.setBucket key { b with tokens := b.tokens - 1 }).reap now, true)

end Limiter

def allow (limiter : Option Limiter) (key : Bytes) (now : Int) : Option Limiter × Bool :=
  match limiter with
  | none => (none, true)
  | some l =>
    match l.allow key now with
    | (l, allowed) => (some l, allowed)

end Mieru.Panel
