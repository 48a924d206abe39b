/-
# Targets of a route

A route is configured with targets that have an id, a host name, a port and a tls
flag. The load balancing works on another representation, where the host carries
the port unless it is the default one, and the id is the only tag.

Older configurations are written in the second representation. They are converted
to the first one, and a target without a tag takes its host as id.
-/

import Mathlib.Data.List.AList
import Otoroshi.Foundation.Long

namespace Otoroshi

/-- The exceptions of the gateway. -/
inductive GatewayException
  | indexOutOfBounds
  | illegalArgument
  | unsupportedOperation
  | noSuchElement
  | numberFormat
  deriving DecidableEq

/-- Certificates and switches of a tls connection. -/
structure MtlsConfig where
  certs : List Str := []
  trustedCerts : List Str := []
  mtls : Bool := false
  loose : Bool := false
  trustAll : Bool := false
  deriving DecidableEq

structure NgTlsConfig where
  certs : List Str := []
  trustedCerts : List Str := []
  enabled : Bool := false
  loose : Bool := false
  trustAll : Bool := false
  deriving DecidableEq

def NgTlsConfig.legacy (config : NgTlsConfig) : MtlsConfig where
  certs := config.certs
  trustedCerts := config.trustedCerts
  mtls := config.enabled
  loose := config.loose
  trustAll := config.trustAll

def NgTlsConfig.fromLegacy (config : MtlsConfig) : NgTlsConfig where
  certs := config.certs
  trustedCerts := config.trustedCerts
  enabled := config.mtls
  loose := config.loose
  trustAll := config.trustAll

/-- A target of the load balancing. Its predicate is a condition on requests. -/
structure Target (Predicate : Type) where
  host : Str
  scheme : Str := "https".toList
  weight : Int := 1
  /-- the value of the protocol -/
  protocol : Str := "HTTP/1.1".toList
  predicate : Predicate
  ipAddress : Option Str := none
  mtlsConfig : MtlsConfig := {}
  backup : Bool := false
  tags : List Str := []
  metadata : AList fun _ : Str => Str := ∅
  port : Option Int := none
  deriving DecidableEq

namespace Target

variable {Predicate : Type} (target : Target Predicate)

def asKey : Str :=
  target.protocol ++ ':' :: target.scheme ++ "://".toList ++ target.host ++
    '@' :: target.ipAddress.getD target.host

def asCleanTarget : Str :=
  target.scheme ++ "://".toList ++ target.host ++
    ((target.ipAddress.map fun ip => '@' :: ip).getD [])

def isPrimary : Bool := !target.backup

/-- `thePort`, with the digits of the platform. -/
def thePort (digit : Char → Option Nat) : Except GatewayException Int :=
  match target.port with
  | some value => .ok value
  | none =>
      if ':' ∈ target.host then
        match (split ':' target.host).getLast? with
        | none => .error .noSuchElement
        | some text => match (parseLong digit text).filter fun n => longToInt n = n with
          | some port => .ok port
          | none => .error .numberFormat
      else if target.scheme.map Char.toLower = "https".toList then .ok 443
      else .ok 80

/-- `theHost`; a host of colons only has no pieces. -/
def theHost : Except GatewayException Str :=
  if ':' ∈ target.host then
    if (split ':' target.host).isEmpty then .error .unsupportedOperation
    else .ok (split ':' target.host).dropLast.flatten
  else .ok target.host

end Target

/-- A target of a route. -/
structure NgTarget (Predicate : Type) where
  id : Str
  hostname : Str
  port : Int
  tls : Bool
  weight : Int := 1
  protocol : Str := "HTTP/1.1".toList
  predicate : Predicate
  ipAddress : Option Str := none
  tlsConfig : NgTlsConfig := {}
  backup : Bool := false
  deriving DecidableEq

namespace NgTarget

variable {Predicate : Type}

/-- The port can only be left out when it is the default port of the scheme. -/
def defaultPortString (target : NgTarget Predicate) : Str :=
  if target.tls = true ∧ target.port = 443 ∨ target.tls = false ∧ target.port = 80 then []
  else ':' :: longText target.port

def toTarget (target : NgTarget Predicate) : Target Predicate where
  host := target.hostname ++ target.defaultPortString
  scheme := (if target.tls then "https" else "http").toList
  weight := target.weight
  protocol := target.protocol
  predicate := target.predicate
  ipAddress := target.ipAddress
  mtlsConfig := target.tlsConfig.legacy
  tags := [target.id]
  metadata := ∅
  backup := target.backup

/-- The conversion of older configurations. -/
def fromTarget (digit : Char → Option Nat) (target : Target Predicate) :
    Except GatewayException (NgTarget Predicate) := do
  let hostname ← target.theHost
  let port ← target.thePort digit
  return {
    id := target.tags.head?.getD target.host
    hostname, port
    tls := target.scheme.map Char.toLower = "https".toList
    weight := target.weight
    protocol := target.protocol
    predicate := target.predicate
    ipAddress := target.ipAddress
    tlsConfig := NgTlsConfig.fromLegacy target.mtlsConfig
    backup := target.backup }

@[simp]
theorem tags_toTarget (target : NgTarget Predicate) : target.toTarget.tags = [target.id] := rfl

@[simp]
theorem weight_toTarget (target : NgTarget Predicate) : target.toTarget.weight = target.weight :=
  rfl

end NgTarget

end Otoroshi
