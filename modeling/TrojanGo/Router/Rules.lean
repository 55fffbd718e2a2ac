import Mathlib.Algebra.Order.Ring.Nat
import Mathlib.Data.List.Basic
import TrojanGo.Tunnel.Address

/-!
# The router

A lookup of a domain name asks the outside, so its result is an argument. An address that has been
looked up keeps the result.
-/
namespace TrojanGo.Router

open Tunnel

inductive Policy where
  | block
  | bypass
  | proxy
  deriving DecidableEq

inductive Strategy where
  | asIs
  | ipIfNonMatch
  | ipOnDemand
  deriving DecidableEq

/-! ### Domain names -/

inductive RuleType where
  | plain
  | regex
  | domain
  | full
  | unknown
  deriving DecidableEq

structure Domain where
  type : RuleType
  value : Bytes
  deriving DecidableEq

/-- `strings.Index`. -/
def index (target sub : Bytes) : Option Nat :=
  (List.range (target.length + 1)).find? fun k => sub.isPrefixOf (target.drop k)

def dot : UInt8 := 46

/-- The rule names the target or a domain above it. Only the first place where the value occurs
in the target is looked at. -/
def underDomain (value target : Bytes) : Bool :=
  value.isSuffixOf target &&
    match index target value with
    | none => false
    | some k => k = 0 || target.getD (k - 1) 0 = dot

/-- `matchDomain`; `regex` is `regexp.Match`, which fails on an invalid expression. -/
def matchDomain (regex : Bytes → Bytes → Option Bool) (target : Bytes) : List Domain → Bool
  | [] => false
  | d :: list =>
    match d.type with
    | .full => d.value = target || matchDomain regex target list
    | .domain => underDomain d.value target || matchDomain regex target list
    | .plain => (index target d.value).isSome || matchDomain regex target list
    | .regex =>
      match regex d.value target with
      -- the rules behind an invalid one are not looked at
      | none => false
      | some matched => matched || matchDomain regex target list
    | .unknown => matchDomain regex target list

/-! ### Networks -/

structure CIDR where
  ip : IP
  ones : Nat
  deriving DecidableEq

/-- A byte of `net.CIDRMask`: the mask has `ones` bits, eight of them before each byte. -/
def maskByte (ones k : Nat) : UInt8 := UInt8.ofNat (256 - 2 ^ (8 - min 8 (ones - 8 * k)))

/-- The addresses agree on the first `ones` bits. -/
def agree (ones : Nat) (a b : IP) : Bool :=
  a.length = b.length &&
    (List.range a.length).all fun k =>
      a.getD k 0 &&& maskByte ones k = b.getD k 0 &&& maskByte ones k

/-- `matchIP`: networks of the other family are passed over. A network whose mask is longer than
the address is empty, and an empty network contains an empty address. -/
def matchIP (list : List CIDR) (target : IP) : Bool :=
  list.any fun c =>
    match to4 target, to4 c.ip with
    | some short, some net => c.ones ≤ 32 && agree c.ones net short
    | none, none =>
      if c.ones ≤ 128 ∧ c.ip.length = 16 then agree c.ones c.ip target else target = []
    | _, _ => false

/-! ### Routing -/

/-- `Address.ResolveIP`, with what a lookup of its name would give. -/
def resolveIP (lookup : Option IP) (a : Address) : Option IP × Address :=
  if a.addressType ≠ .domainName then (some a.ip, a)
  else if a.ip ≠ [] then (some a.ip, a)
  else
    match lookup with
    | none => (none, a)
    | some ip => (some ip, { a with ip := ip })

structure Client where
  domains : Policy → List Domain
  cidrs : Policy → List CIDR
  defaultPolicy : Policy
  domainStrategy : Strategy

section Routing

variable (regex : Bytes → Bytes → Option Bool) (c : Client)

/-- The order in which the rules are tried. -/
def policies : List Policy := [.block, .bypass, .proxy]

def Client.byIP (ip : IP) : Option Policy := policies.find? fun p => matchIP (c.cidrs p) ip

def Client.byName (name : Bytes) : Option Policy :=
  policies.find? fun p => matchDomain regex name (c.domains p)

def Client.byLookup (lookup : Option IP) (a : Address) : Option Policy × Address :=
  match resolveIP lookup a with
  | (some ip, a) => (c.byIP ip, a)
  | (none, a) => (none, a)

/-- `Client.Route`. -/
def Client.route (lookup : Option IP) (a : Address) : Policy × Address :=
  if a.addressType = .domainName then
    match c.domainStrategy with
    | .asIs => ((c.byName regex a.domainName).getD c.defaultPolicy, a)
    | .ipOnDemand =>
      let (found, a) := c.byLookup lookup a
      ((found.or (c.byName regex a.domainName)).getD c.defaultPolicy, a)
    | .ipIfNonMatch =>
      match c.byName regex a.domainName with
      | some policy => (policy, a)
      | none =>
        let (found, a) := c.byLookup lookup a
        (found.getD c.defaultPolicy, a)
  else ((c.byIP a.ip).getD c.defaultPolicy, a)

end Routing

/-! ### Datagrams -/

/-- Where a datagram leaves the router. -/
inductive Sent where
  /-- through the underlying tunnel -/
  | proxied (address : Address) (payload : Bytes)
  | direct (ip : IP) (port : Int) (payload : Bytes)
  deriving DecidableEq

inductive WriteError where
  | blocked (address : Address)
  | resolve
  /-- from the connection behind the router -/
  | underlay
  deriving DecidableEq

/-- What happens outside while a datagram is routed: what the lookup of the rules and the one
before a direct write give, and whether the write succeeds. -/
structure Outside where
  routed : Option IP := none
  resolved : Option IP := none
  writes : Bool := true

/-- `PacketConn.WriteWithMetadata`. -/
def Client.writeWithMetadata (c : Client) (regex : Bytes → Bytes → Option Bool) (o : Outside)
    (payload : Bytes) (address : Address) : Except WriteError Sent :=
  match c.route regex o.routed address with
  | (.proxy, address) => if o.writes then .ok (.proxied address payload) else .error .underlay
  | (.block, address) => .error (.blocked address)
  | (.bypass, address) =>
    match (resolveIP o.resolved address).1 with
    | none => .error .resolve
    | some ip => if o.writes then .ok (.direct ip address.port payload) else .error .underlay

end TrojanGo.Router
