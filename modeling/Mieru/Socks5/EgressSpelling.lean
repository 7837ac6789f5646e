import Mieru.Socks5.Egress

/-!
# Spellings of a destination

`FindAction` looks at the bytes of the request.  An IPv4 address and its
IPv4-mapped form are the same address to it, but names are compared byte by
byte: letter case, a trailing dot and addresses written as names are all told
apart, although the resolver takes them for the same destination.
-/

namespace Mieru.Socks5

open Mieru.Foundation

def lowerByte (byte : UInt8) : UInt8 :=
  if 65 ≤ byte ∧ byte ≤ 90 then byte + 32 else byte

/-- In lower case and without a trailing dot. -/
def canonicalName (name : Bytes) : Bytes :=
  let lower := name.map lowerByte
  if lower.getLast? = some 46 then lower.dropLast else lower

def IP.canonical (ip : IP) : IP := ip.to4.getD ip

inductive NamedHost where
  | address (ip : IP)
  | name (name : Bytes)
  deriving DecidableEq

/-- What the request names; `parseIP` reads the textual form of an address. -/
def AddrSpec.destination (parseIP : Bytes → Option IP) (addr : AddrSpec) : NamedHost :=
  if addr.ip ≠ [] then .address addr.ip.canonical
  else
    match parseIP addr.fqdn with
    | some ip => .address ip.canonical
    | none => .name (canonicalName addr.fqdn)

/-- The verdict of the check of private and loopback addresses. -/
def EgressConfig.verdict (config : EgressConfig) (user : Option Bytes) (addr : AddrSpec) :
    EgressAction :=
  (if addr.ip = [] then wellKnownIP addr.fqdn else some addr.ip).elim .direct (config.decideIP user)

section

variable {parseIP : Bytes → Option IP} {a b : AddrSpec}

variable {config : EgressConfig} {pick pick' : Nat → Nat} {user : Option Bytes}

end

end Mieru.Socks5
