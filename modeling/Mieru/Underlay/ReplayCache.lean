import Mieru.Foundation.Bytes

/-!
# The replay cache

`ReplayCache` of `replay.go`: two generations of packet signatures, each with
the tag it was first seen under.  A signature is the 64-bit FNV-1a hash of the
first bytes of a packet, so two different packets may share one.  A map is an
association list, and each call reads the clock once.
-/

namespace Mieru.Protocol

open Mieru.Foundation

def emptyTag : String := ""

structure ReplayCache where
  capacity : Nat
  expireTime : Int
  expireInterval : Int
  current : List (UInt64 × String) := []
  previous : List (UInt64 × String) := []
  deriving DecidableEq, Repr

namespace ReplayCache

def computeSignature (data : Bytes) : UInt64 :=
  data.foldl (fun hash byte => (hash ^^^ byte.toUInt64) * 1099511628211) 14695981039346656037

def expire (c : ReplayCache) (now : Int) : ReplayCache :=
  if c.expireInterval < now - c.expireTime then
    { c with
      current := []
      previous := []
      expireTime := now + c.expireInterval }
  else c

def rotate (c : ReplayCache) (now : Int) : ReplayCache :=
  if c.capacity ≤ c.current.length ∨ c.expireTime < now then
    { c with
      previous := c.current
      current := []
      expireTime := now + c.expireInterval }
  else c

def isReplay (existingTag tag : String) : Bool :=
  existingTag == emptyTag || tag == emptyTag || existingTag != tag

def isDuplicate (c : ReplayCache) (data : Bytes) (tag : String) (now : Int) : Bool × ReplayCache :=
  if c.capacity = 0 then (false, c)
  else
    let signature := computeSignature data
    let c := (c.expire now).rotate now
    match c.current.lookup signature with
    | some existingTag => (isReplay existingTag tag, c)
    | none =>
      let stored := { c with current := (signature, tag) :: c.current }
      match c.previous.lookup signature with
      | some existingTag => (isReplay existingTag tag, stored)
      | none => (false, stored)

end ReplayCache

end Mieru.Protocol
