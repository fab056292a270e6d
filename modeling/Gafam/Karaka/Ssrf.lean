import Gafam.Go.Net

/-!
# Which URLs an agent may fetch

`GuardPublicURL` looks at the scheme, at the name of the host, and at the address that the host is or
that it resolves to. How `url.Parse` takes a string apart, and what the resolver answers, are parameters.
-/

namespace Gafam.Karaka

open Gafam.Go

/-! ## Hosts -/

/-- The fields of a `url.URL` that the guard reads. -/
structure URL where
  scheme : GoString
  host : GoString
deriving DecidableEq

/-- `validOptionalPort`. -/
def validOptionalPort : GoString → Bool
  | [] => true
  | c :: port => c == 0x3A && port.all isDigit

/-- A string before and from its last colon, if there is one. -/
def cutLastColon (s : GoString) : Option (GoString × GoString) :=
  match s.reverse.dropWhile (· != 0x3A) with
  | [] => none
  | c :: before => some (before.reverse, c :: (s.reverse.takeWhile (· != 0x3A)).reverse)

/-- The host of `splitHostPort`, brackets still there. -/
def withoutPort (hostPort : GoString) : GoString :=
  match cutLastColon hostPort with
  | some (host, port) => if validOptionalPort port then host else hostPort
  | none => hostPort

/-- `Hostname`: `splitHostPort` without the port. -/
def URL.hostname (u : URL) : GoString :=
  let host := withoutPort u.host
  if hasPrefix host "[" && hasSuffix host "]" then (host.drop 1).dropLast else host

/-! ## Blocked hosts -/

def blockedHostnames : List GoString :=
  ["localhost", "metadata", "metadata.google.internal", "host.docker.internal"]

def blockedPrefixes : List GoString := ["gafam-", "watchtower"]

def blockedCIDRs : List GoString :=
  ["127.0.0.0/8", "10.0.0.0/8", "172.16.0.0/12", "192.168.0.0/16", "169.254.0.0/16", "100.64.0.0/10",
    "0.0.0.0/8", "::1/128", "fc00::/7", "fe80::/10"]

/-- `parsedBlockedCIDRs`, as `init` fills it: an entry that is no network is skipped. -/
def parsedBlockedCIDRs : List IPNet := blockedCIDRs.filterMap parseCIDR

def ipBlocked (ip : IP) : Bool := parsedBlockedCIDRs.any fun n => n.contains ip

/-! ## The guard -/

/-- What the guard asks outside its own file. -/
structure NetLib where
  /-- `url.Parse`. -/
  parse : GoString → Except GoString URL
  /-- `LookupIP` of the default resolver. -/
  lookupIP : GoString → Except GoString (List IP)

inductive GuardError where
  /-- `invalid URL: %w` -/
  | invalidURL (err : GoString)
  /-- `scheme %q not allowed (http/https only)` -/
  | scheme (scheme : GoString)
  /-- `missing host` -/
  | missingHost
  /-- `host %q is blocked` -/
  | blockedHost (host : GoString)
  /-- `host %q is blocked (internal)` -/
  | blockedInternal (host : GoString)
  /-- `address %s is in a blocked range` -/
  | blockedRange (h : GoString)
  /-- `DNS resolution failed for %q: %w` -/
  | resolution (host err : GoString)
  /-- `host %q resolves to a blocked address (%s)` -/
  | blockedAddress (host : GoString) (ip : IP)
deriving DecidableEq

/-- What `GuardPublicURL` asks of a URL before it looks at addresses: the scheme, and the name of the
host. -/
def checkName (u : URL) : Except GuardError Unit :=
  if u.scheme ≠ "http" ∧ u.scheme ≠ "https" then .error (.scheme u.scheme)
  else if u.hostname = [] then .error .missingHost
  else if toLower u.hostname ∈ blockedHostnames then .error (.blockedHost u.hostname)
  else if blockedPrefixes.any fun p => hasPrefix (toLower u.hostname) p then
    .error (.blockedInternal u.hostname)
  else .ok ()

/-- The end of `GuardPublicURL`: the address that the host is, or those it resolves to. -/
def checkAddress (net : NetLib) (u : URL) : Except GuardError Unit :=
  match parseIP (toLower u.hostname) with
  | some ip => if ipBlocked ip then .error (.blockedRange (toLower u.hostname)) else .ok ()
  | none =>
    match net.lookupIP (toLower u.hostname) with
    | .error err => .error (.resolution u.hostname err)
    | .ok ips =>
      match ips.find? ipBlocked with
      | some ip => .error (.blockedAddress u.hostname ip)
      | none => .ok ()

/-- `GuardPublicURL`; only tests set `AllowPrivateURLs`. -/
def guardPublicURL (net : NetLib) (allowPrivateURLs : Bool) (rawURL : GoString) :
    Except GuardError Unit :=
  if allowPrivateURLs then .ok ()
  else
    match net.parse (trimSpace rawURL) with
    | .error err => .error (.invalidURL err)
    | .ok u => do
      checkName u
      checkAddress net u

/-! ## What the guard is for -/

/-- A loopback, unspecified, private, unique-local, link-local or multicast address. -/
def Internal (ip : IP) : Prop :=
  ip.isLoopback = true ∨ ip.isUnspecified = true ∨ ip.isPrivate = true ∨
    ip.isLinkLocalUnicast = true ∨ ip.isMulticast = true

/-- An internal address that no entry of the table covers: a multicast one, or `::`. -/
def Missed (ip : IP) : Prop := ip.isMulticast = true ∨ ip.short = List.replicate 16 0

instance (ip : IP) : Decidable (Internal ip) :=
  inferInstanceAs (Decidable (_ ∨ _))

instance (ip : IP) : Decidable (Missed ip) := inferInstanceAs (Decidable (_ ∨ _))

/-- An internal address is refused, and no name that resolves to one is accepted. -/
def KeepsOut (net : NetLib) (rawURL : GoString) : Prop :=
  ∀ u, net.parse (trimSpace rawURL) = .ok u →
    (∀ ip, parseIP u.hostname = some ip → Internal ip →
      ∃ e, guardPublicURL net false rawURL = .error e) ∧
    (parseIP (toLower u.hostname) = none → guardPublicURL net false rawURL = .ok () →
      ∀ ips, net.lookupIP (toLower u.hostname) = .ok ips → ∀ ip ∈ ips, ¬Internal ip)

/-- If the scheme and the name of the host are allowed, then the host is no address that the table misses,
and it resolves to such an address only together with one in the table. -/
def NoneMissed (net : NetLib) (rawURL : GoString) : Prop :=
  ∀ u, net.parse (trimSpace rawURL) = .ok u → checkName u = .ok () →
    (∀ ip, parseIP u.hostname = some ip → ¬Missed ip) ∧
    (parseIP (toLower u.hostname) = none → ∀ ips, net.lookupIP (toLower u.hostname) = .ok ips →
      ∀ ip ∈ ips, Missed ip → ∃ other ∈ ips, ipBlocked other = true)

end Gafam.Karaka
