/-
# The client address of a request

A request has the address of the peer that opened the connection, and a header
in which clients and proxies write what they like. `resolveClientIpAddress`
believes the header only as far as trusted proxies vouch for it.

The results are about two requests that differ in what was written on the left
of an untrusted hop, and about connections that do not come from a trusted
proxy: neither can choose its own address. Without any trusted proxy the leftmost
address is taken as it is, on purpose, and then the client can.
-/

import Mathlib.Algebra.Ring.Nat
import Otoroshi.Network.IpAddress

namespace Otoroshi

variable (P : AddressPlatform)

/-! ## Resolving a hop -/

namespace IpAddresses

/-- The index of the hop resolved in the chain. -/
def resolveIndex (socketAddress : Str) (chain : List Str) (trustedProxies : IpAddressMatcher P) :
    Option Nat :=
  if trustedProxies.isEmpty || !trustedProxies.matchesAddress socketAddress then none
  else some ((lastIndexWhere (fun address => !trustedProxies.matchesAddress address) chain).getD 0)

/-- `IpAddresses.resolveFromChain`. -/
def resolveFromChain (socketAddress : Str) (chain : List Str)
    (trustedProxies : IpAddressMatcher P) : Option Str :=
  match resolveIndex P socketAddress chain trustedProxies with
  | none => none
  | some idx =>
      -- with an empty chain the trusted proxy is the peer
      if chain.isEmpty then some (normalize P socketAddress)
      else chain[idx]?.filter (isAddress P)

/-- `IpAddresses.resolveForwardedElement`. -/
def resolveForwardedElement (socketAddress : Str) (elements : List ForwardedElement)
    (trustedProxies : IpAddressMatcher P) : Option ForwardedElement :=
  (resolveIndex P socketAddress (elements.map (·.address)) trustedProxies).bind (elements[·]?)

variable {P} {trustedProxies : IpAddressMatcher P} {socketAddress : Str}

/-- Some hop of the chain is not a trusted proxy. -/
def HasUntrusted (trustedProxies : IpAddressMatcher P) (chain : List Str) : Prop :=
  ∃ hop ∈ chain, trustedProxies.matchesAddress hop = false

theorem resolveIndex_append {left right : List Str} (h : HasUntrusted trustedProxies right) :
    resolveIndex P socketAddress (left ++ right) trustedProxies =
      (resolveIndex P socketAddress right trustedProxies).map (left.length + ·) := by
  have huntrusted : ∃ hop ∈ right, (!trustedProxies.matchesAddress hop) = true := by
    obtain ⟨hop, hmem, hhop⟩ := h
    exact ⟨hop, hmem, by rw [hhop]; rfl⟩
  obtain ⟨i, hi⟩ := exists_lastIndexWhere huntrusted
  rw [resolveIndex, resolveIndex, lastIndexWhere_append huntrusted, hi]
  split
  · rfl
  · rfl

/-- What stands on the left of an untrusted hop does not change the address. -/
theorem resolveFromChain_append {left right : List Str} (h : HasUntrusted trustedProxies right) :
    resolveFromChain P socketAddress (left ++ right) trustedProxies =
      resolveFromChain P socketAddress right trustedProxies := by
  have hright : right ≠ [] := by
    obtain ⟨hop, hmem, -⟩ := h
    exact List.ne_nil_of_mem hmem
  rw [resolveFromChain, resolveFromChain, resolveIndex_append h]
  cases resolveIndex P socketAddress right trustedProxies with
  | none => rfl
  | some idx => simp [hright, List.getElem?_append_right]

/-- A connection that does not come from a trusted proxy proves nothing. -/
theorem resolveFromChain_of_untrusted (h : trustedProxies.matchesAddress socketAddress = false)
    (chain : List Str) : resolveFromChain P socketAddress chain trustedProxies = none := by
  have hindex : resolveIndex P socketAddress chain trustedProxies = none := by
    rw [resolveIndex, h, Bool.not_false, Bool.or_true, if_pos rfl]
  rw [resolveFromChain, hindex]

/-- A header that grows on its left by any text resolves to the same address, as
long as an untrusted hop was in it before. -/
theorem resolveFromChain_prepend (header : ClientAddressHeader) (before : List Str)
    (text value : Str) (more : List Str)
    (h : HasUntrusted trustedProxies (parseChain P header (value :: more))) :
    resolveFromChain P socketAddress
        (parseChain P header (before ++ (text ++ ',' :: value) :: more)) trustedProxies =
      resolveFromChain P socketAddress (parseChain P header (before ++ value :: more))
        trustedProxies := by
  rw [parseChain_append, parseChain_prepend, ← List.append_assoc, resolveFromChain_append h,
    parseChain_append, resolveFromChain_append h]

end IpAddresses

/-! ## Requests -/

/-- The part of a request the resolution reads. -/
structure RequestHeader where
  remoteAddress : Str
  /-- `headers.getAll` -/
  getAll : Str → List Str

/-- The part of the global configuration the resolution reads. -/
structure GlobalConfig where
  trustXForwarded : Bool
  trustedProxies : List Str
  clientAddressHeader : Str
  useLegacyClientIpAddress : Bool

/-- The address of the client, with the one that trusted proxies vouch for and
the chain it was read from. -/
structure ClientIpAddress where
  address : Str
  safe : Str
  forwardedChain : List Str
  deriving DecidableEq

/-- The options of the process. -/
structure Env where
  /-- `otoroshi.options.trustedProxies` -/
  trustedProxies : Option Str
  /-- `otoroshi.options.trustedProxiesSources`, in the order of the names -/
  trustedProxiesSources : List (Str × Option Str)
  /-- `otoroshi.options.clientAddressHeader` -/
  clientAddressHeader : Option Str
  /-- `otoroshi.options.useLegacyClientIpAddress` -/
  useLegacyClientIpAddress : Bool

namespace Env

def splitTrustedProxies (values : List Str) : List Str :=
  ((values.flatMap (split ',')).map trim).filter fun entry => !entry.isEmpty

def trustedProxiesFromConfig (env : Env) : List Str :=
  ((splitTrustedProxies env.trustedProxies.toList) ++
    env.trustedProxiesSources.flatMap fun source => splitTrustedProxies source.2.toList).eraseDups

/-- As soon as proxies are declared, the loopback is trusted too. -/
def trustedProxiesWith (env : Env) (dynamic : List Str) : List Str :=
  let all := (env.trustedProxiesFromConfig ++ splitTrustedProxies dynamic).eraseDups
  if all.isEmpty then all else (all ++ IpAddressMatcher.loopback).eraseDups

/-- `Env.trustedProxiesMatcherFor`. The source keeps the last matcher for as long
as its patterns stay the same; the pool never forgets a pattern, so building it
again gives the same one. -/
def trustedProxiesMatcherFor (env : Env) (config : Option GlobalConfig) :
    Stateful (RegexPool P.engine) JvmException (IpAddressMatcher P) :=
  IpAddressMatcher.ofPatterns P
    (env.trustedProxiesWith ((config.map (·.trustedProxies)).getD []))

def clientAddressHeaderFor (env : Env) (config : Option GlobalConfig) : ClientAddressHeader :=
  ⟨(((env.clientAddressHeader.map trim).filter fun name => !name.isEmpty).or
    ((config.map (·.clientAddressHeader)).filter fun name => !name.isEmpty)).getD
      ClientAddressHeader.default.name⟩

def useLegacyClientIpAddressFor (env : Env) (config : Option GlobalConfig) : Bool :=
  env.useLegacyClientIpAddress || config.any (·.useLegacyClientIpAddress)

end Env

namespace RequestHeader

def ipFromSocket (request : RequestHeader) : Str := IpAddresses.normalize P request.remoteAddress

def forwardedChain (request : RequestHeader) (header : ClientAddressHeader) : List Str :=
  IpAddresses.parseChain P header (request.getAll header.name)

/-- The resolution from before trusted proxies existed. -/
def legacyIpAddress (request : RequestHeader) (trustXForwarded : Bool) : Str :=
  if trustXForwarded then
    match (request.getAll "X-Forwarded-For".toList).head? with
    | some rawHeader =>
        if !rawHeader.isEmpty && rawHeader.contains ',' then
          (((split ',' rawHeader).map trim).head?).getD rawHeader
        else rawHeader
    | none => request.remoteAddress
  else request.remoteAddress

/-- The client address in a chain. -/
def safeAddress (socket : Str) (chain : List Str) (trustedProxies : IpAddressMatcher P) : Str :=
  if trustedProxies.nonEmpty then
    (IpAddresses.resolveFromChain P socket chain trustedProxies).getD socket
  else (chain.find? (IpAddresses.isAddress P)).getD socket

/-- `RequestHeader.resolveClientIpAddress`. -/
def resolveClientIpAddress (env : Env) (config : Option GlobalConfig) (request : RequestHeader) :
    Stateful (RegexPool P.engine) JvmException ClientIpAddress := do
  let trustXForwarded := config.any (·.trustXForwarded)
  let socket := request.ipFromSocket P
  let chain := if trustXForwarded then
    request.forwardedChain P (env.clientAddressHeaderFor config) else []
  let safe ← if !trustXForwarded then pure socket
    else do
      let trustedProxies ← env.trustedProxiesMatcherFor P config
      pure (safeAddress P socket chain trustedProxies)
  let address := if env.useLegacyClientIpAddressFor config then
    request.legacyIpAddress trustXForwarded else safe
  pure { address, safe, forwardedChain := chain }

variable {P} {env : Env} {config : Option GlobalConfig} {pool : RegexPool P.engine}
  {trustedProxies : IpAddressMatcher P}

/-- The safe address when forwarded headers are not read, or proxies are
configured. -/
theorem safe_resolveClientIpAddress
    (hmatcher : (env.trustedProxiesMatcherFor P config pool).1 = .ok trustedProxies)
    (hproxies : config.any (·.trustXForwarded) = true → trustedProxies.nonEmpty = true)
    (request : RequestHeader) :
    ((request.resolveClientIpAddress P env config pool).1).map (·.safe) =
      .ok (if config.any (·.trustXForwarded) = true then
        (IpAddresses.resolveFromChain P (request.ipFromSocket P)
          (request.forwardedChain P (env.clientAddressHeaderFor config))
          trustedProxies).getD (request.ipFromSocket P)
        else request.ipFromSocket P) := by
  rcases hbuild : env.trustedProxiesMatcherFor P config pool with ⟨result, after⟩
  rw [hbuild] at hmatcher
  cases hmatcher
  cases htrust : config.any (·.trustXForwarded) with
  | false =>
      simp only [resolveClientIpAddress, htrust]
      rfl
  | true =>
      simp only [resolveClientIpAddress, htrust, Bool.not_true, Bool.false_eq_true, if_false,
        if_true]
      rw [Stateful.bind_of_ok hbuild]
      simp only [safeAddress, hproxies htrust, if_true]
      rfl

/-- Without the legacy switch a request is handled with its safe address. -/
theorem address_resolveClientIpAddress (hlegacy : env.useLegacyClientIpAddressFor config = false)
    (request : RequestHeader) :
    ((request.resolveClientIpAddress P env config pool).1).map (·.address) =
      ((request.resolveClientIpAddress P env config pool).1).map (·.safe) := by
  simp only [resolveClientIpAddress, hlegacy, Bool.false_eq_true, if_false]
  cases htrust : config.any (·.trustXForwarded) with
  | false => rfl
  | true =>
      simp only [Bool.not_true, Bool.false_eq_true, if_false, if_true]
      rcases hbuild : env.trustedProxiesMatcherFor P config pool with ⟨result, after⟩
      cases result with
      | error e =>
          simp only [bind, hbuild]
          rfl
      | ok trustedProxies =>
          rw [Stateful.bind_of_ok hbuild]
          rfl

/-- A client cannot choose its address. A chain resolves to the same address
whatever text is put on its left, as long as an untrusted hop was in it before.
For a request, when the forwarded headers are not read or proxies are configured,
the same holds of the safe address, and the address of a socket that is not
trusted is the safe address whatever the headers say. The request is handled
with the safe address unless the legacy resolution is switched on. -/
theorem clientIpAddress_unspoofable (P : AddressPlatform) (env : Env)
    (config : Option GlobalConfig) (pool : RegexPool P.engine)
    (trustedProxies : IpAddressMatcher P)
    (hmatcher : (env.trustedProxiesMatcherFor P config pool).1 = .ok trustedProxies) :
    (∀ (header : ClientAddressHeader) (socketAddress : Str) (before more : List Str)
        (text value : Str),
      IpAddresses.HasUntrusted trustedProxies
        (IpAddresses.parseChain P header (value :: more)) →
      IpAddresses.resolveFromChain P socketAddress
          (IpAddresses.parseChain P header (before ++ (text ++ ',' :: value) :: more))
          trustedProxies =
        IpAddresses.resolveFromChain P socketAddress
          (IpAddresses.parseChain P header (before ++ value :: more)) trustedProxies) ∧
    ((config.any (·.trustXForwarded) = true → trustedProxies.nonEmpty = true) →
      (∀ (request request' : RequestHeader) (before more : List Str) (text value : Str),
        request'.remoteAddress = request.remoteAddress →
        request.getAll (env.clientAddressHeaderFor config).name = before ++ value :: more →
        request'.getAll (env.clientAddressHeaderFor config).name =
          before ++ (text ++ ',' :: value) :: more →
        IpAddresses.HasUntrusted trustedProxies
          (IpAddresses.parseChain P (env.clientAddressHeaderFor config) (value :: more)) →
        ((request'.resolveClientIpAddress P env config pool).1).map (·.safe) =
          ((request.resolveClientIpAddress P env config pool).1).map (·.safe)) ∧
      (∀ request : RequestHeader,
        trustedProxies.matchesAddress (request.ipFromSocket P) = false →
        ((request.resolveClientIpAddress P env config pool).1).map (·.safe) =
          .ok (request.ipFromSocket P))) ∧
    (env.useLegacyClientIpAddressFor config = false → ∀ request : RequestHeader,
      ((request.resolveClientIpAddress P env config pool).1).map (·.address) =
        ((request.resolveClientIpAddress P env config pool).1).map (·.safe)) := by
  refine ⟨?_, fun hproxies => ⟨?_, ?_⟩, fun hlegacy => address_resolveClientIpAddress hlegacy⟩
  · intro header socketAddress before more text value huntrusted
    exact IpAddresses.resolveFromChain_prepend header before text value more huntrusted
  · intro request request' before more text value hsocket hheader hheader' huntrusted
    have hip : request'.ipFromSocket P = request.ipFromSocket P := by
      rw [ipFromSocket, hsocket, ipFromSocket]
    rw [safe_resolveClientIpAddress hmatcher hproxies,
      safe_resolveClientIpAddress hmatcher hproxies, hip, forwardedChain, forwardedChain,
      hheader, hheader',
      IpAddresses.resolveFromChain_prepend _ before text value more huntrusted]
  · intro request huntrusted
    rw [safe_resolveClientIpAddress hmatcher hproxies,
      IpAddresses.resolveFromChain_of_untrusted huntrusted]
    simp

end RequestHeader

/-! ## Dotted addresses -/

/-- The number in three digits at most. -/
def dottedOctet (digits : Str) : Option Nat :=
  if digits.isEmpty || 3 < digits.length || !digits.all Char.isDigit then none
  else
    let octet := digits.foldl (fun n c => 10 * n + (c.toNat - '0'.toNat)) 0
    if octet ≤ 255 then some octet else none

/-- The value of a dotted address. -/
def dottedAddress (text : Str) : Option Nat :=
  match (text.splitOn '.').map dottedOctet with
  | [some a, some b, some c, some d] => some (((a * 256 + b) * 256 + c) * 256 + d)
  | _ => none

/-- A platform that knows ipv4 addresses and ranges only. -/
def dottedPlatform : AddressPlatform where
  engine := starEngine
  toLowerCase s := s.map Char.toLower
  IpAddress := Nat
  fromString := dottedAddress
  toText address := ".".toList.intercalate
    ([address / 256 ^ 3, address / 256 ^ 2 % 256, address / 256 % 256, address % 256].map
      fun octet => (toString octet).toList)
  Cidr := Nat × Nat
  cidrFromString cdr :=
    match cdr.splitOn '/' with
    | [address, bits] =>
        match dottedAddress address, dottedOctet bits with
        | some address, some bits => if bits ≤ 32 then some (address, bits) else none
        | _, _ => none
    | _ => none
  cidrContains cidr address := cidr.1 / 2 ^ (32 - cidr.2) == address / 2 ^ (32 - cidr.2)

namespace RequestHeader

/-- A process without options, and configurations that trust the forwarded
headers. -/
def noOptions : Env := ⟨none, [], none, false⟩

def trusting (proxies : List Str) : GlobalConfig := ⟨true, proxies, [], false⟩

/-- A request with one `X-Forwarded-For` header. -/
def forwardedFor (remoteAddress value : String) : RequestHeader where
  remoteAddress := remoteAddress.toList
  getAll name := if name = "X-Forwarded-For".toList then [value.toList] else []

/-- What `10.0.0.0/8` is compiled to, with the loopback. -/
def privateRange : IpAddressMatcher dottedPlatform where
  patterns := ["10.0.0.0/8".toList, "127.0.0.1".toList, "::1".toList]
  exact := ["127.0.0.1".toList, "::1".toList]
  cidrs := ["10.0.0.0/8".toList]
  wildcards := []

theorem clientIpAddress_unspoofable_of_example :
    (((forwardedFor "10.0.0.1" "6.6.6.6;\"[,1.1.1.1, 10.0.0.2").resolveClientIpAddress
        dottedPlatform noOptions (trusting ["10.0.0.0/8".toList]) []).1).map (·.safe) =
      (((forwardedFor "10.0.0.1" "1.1.1.1, 10.0.0.2").resolveClientIpAddress
        dottedPlatform noOptions (trusting ["10.0.0.0/8".toList]) []).1).map (·.safe) ∧
    (((forwardedFor "9.9.9.9" "1.1.1.1").resolveClientIpAddress dottedPlatform noOptions
        (trusting ["10.0.0.0/8".toList]) []).1).map (·.safe) = .ok "9.9.9.9".toList := by
  have hall := clientIpAddress_unspoofable dottedPlatform noOptions
    (trusting ["10.0.0.0/8".toList]) [] privateRange rfl
  refine ⟨(hall.2.1 (fun _ => rfl)).1 _ _ [] [] "6.6.6.6;\"[".toList "1.1.1.1, 10.0.0.2".toList
    rfl (by decide +kernel) (by decide +kernel) ?_, ?_⟩
  · exact ⟨"1.1.1.1".toList, by decide +kernel, by decide +kernel⟩
  · exact (hall.2.1 (fun _ => rfl)).2 (forwardedFor "9.9.9.9" "1.1.1.1") (by decide +kernel)

/-- Without any trusted proxy the client of an untrusted connection chooses its
address: it is the one it writes into the header. -/
theorem clientIpAddress_without_proxies :
    ¬ ∀ (P : AddressPlatform) (env : Env) (config : Option GlobalConfig)
        (pool : RegexPool P.engine) (trustedProxies : IpAddressMatcher P),
      (env.trustedProxiesMatcherFor P config pool).1 = .ok trustedProxies →
      (∀ (header : ClientAddressHeader) (socketAddress : Str) (before more : List Str)
          (text value : Str),
        IpAddresses.HasUntrusted trustedProxies
          (IpAddresses.parseChain P header (value :: more)) →
        IpAddresses.resolveFromChain P socketAddress
            (IpAddresses.parseChain P header (before ++ (text ++ ',' :: value) :: more))
            trustedProxies =
          IpAddresses.resolveFromChain P socketAddress
            (IpAddresses.parseChain P header (before ++ value :: more)) trustedProxies) ∧
      (∀ request : RequestHeader,
        trustedProxies.matchesAddress (request.ipFromSocket P) = false →
        ((request.resolveClientIpAddress P env config pool).1).map (·.address) =
          .ok (request.ipFromSocket P)) := by
  intro h
  obtain ⟨-, hsocket⟩ := h dottedPlatform noOptions (trusting []) [] ⟨[], [], [], []⟩ rfl
  have hchosen : (((forwardedFor "9.9.9.9" "1.1.1.1").resolveClientIpAddress dottedPlatform
      noOptions (trusting []) []).1).map (·.address) = .ok "1.1.1.1".toList := by
    decide +kernel
  have hnot := hsocket (forwardedFor "9.9.9.9" "1.1.1.1") (by decide +kernel)
  rw [hchosen] at hnot
  exact absurd hnot (by decide +kernel)

end RequestHeader

end Otoroshi
