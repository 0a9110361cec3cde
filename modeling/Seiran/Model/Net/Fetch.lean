import Seiran.Framework.IpAddr

/-!
# Outbound fetches

`net.rs`: the test of an address, the loop that validates every URL before it fetches
it, and the federation client with `ensure_public_url`. `private_network_allowed` is
false throughout.

* `World` is what answers: the parser of URLs, the name servers, which may answer
  another way at every lookup, the servers, and the HTTP client, which opens
  connections to some of the addresses it is given (`Connects`).
* An address that a URL has for a host is given to the client as it stands: the
  resolver does not see it.
* `Internal` says which addresses are internal.
-/

namespace Seiran.Net

/-! ## Addresses -/

/-- An octet of `octets` -/
def octet (ip : BitVec 32) (i : Nat) : Nat := ip.toNat / 2 ^ (8 * (3 - i)) % 2 ^ 8

/-- A segment of `segments` -/
def segment (ip : BitVec 128) (i : Nat) : Nat := ip.toNat / 2 ^ (16 * (7 - i)) % 2 ^ 16

namespace Ipv4

variable (ip : BitVec 32)

def isPrivate : Bool :=
  octet ip 0 == 10 || (octet ip 0 == 172 && 16 ≤ octet ip 1 && octet ip 1 ≤ 31) ||
    (octet ip 0 == 192 && octet ip 1 == 168)

def isLoopback : Bool := octet ip 0 == 127

def isLinkLocal : Bool := octet ip 0 == 169 && octet ip 1 == 254

def isMulticast : Bool := 224 ≤ octet ip 0 && octet ip 0 ≤ 239

def isBroadcast : Bool := ip.toNat == 0xffffffff

def isUnspecified : Bool := ip.toNat == 0

def isDocumentation : Bool :=
  (octet ip 0 == 192 && octet ip 1 == 0 && octet ip 2 == 2) ||
    (octet ip 0 == 198 && octet ip 1 == 51 && octet ip 2 == 100) ||
    (octet ip 0 == 203 && octet ip 1 == 0 && octet ip 2 == 113)

end Ipv4

namespace Ipv6

variable (ip : BitVec 128)

def isLoopback : Bool := ip.toNat == 1

def isUnspecified : Bool := ip.toNat == 0

def isMulticast : Bool := segment ip 0 &&& 0xff00 == 0xff00

end Ipv6

def isPublicIpv4 (ip : BitVec 32) : Bool :=
  let a := octet ip 0
  let b := octet ip 1
  let c := octet ip 2
  !(Ipv4.isPrivate ip || Ipv4.isLoopback ip || Ipv4.isLinkLocal ip || Ipv4.isMulticast ip ||
    Ipv4.isBroadcast ip || Ipv4.isUnspecified ip || Ipv4.isDocumentation ip || a == 0 ||
    240 ≤ a || (a == 100 && 64 ≤ b && b ≤ 127) || (a == 192 && b == 0 && c == 0) ||
    (a == 198 && (b == 18 || b == 19)))

/-- `Ipv4Addr::new` of the bytes of two segments -/
def ofSegments (high low : Nat) : BitVec 32 :=
  BitVec.ofNat 32 (ofDigits 256 [high / 256, high % 256, low / 256, low % 256])

def embeddedIpv4 (ip : BitVec 128) : Option (BitVec 32) :=
  let seg := segment ip
  let tail := ofSegments (seg 6) (seg 7)
  let first := [seg 0, seg 1, seg 2, seg 3, seg 4, seg 5]
  if first = [0, 0, 0, 0, 0, 0xffff] then some tail
  else if first = [0, 0, 0, 0, 0, 0] ∧ ¬ Ipv6.isLoopback ip ∧ ¬ Ipv6.isUnspecified ip then some tail
  else if first = [0x64, 0xff9b, 0, 0, 0, 0] then some tail
  else if seg 0 = 0x2002 then some (ofSegments (seg 1) (seg 2))
  else none

def isPublicIp : IpAddr → Bool
  | .v4 ip => isPublicIpv4 ip
  | .v6 ip =>
    match embeddedIpv4 ip with
    | some v4 => isPublicIpv4 v4
    | none =>
      !(Ipv6.isLoopback ip || Ipv6.isUnspecified ip || Ipv6.isMulticast ip ||
        segment ip 0 &&& 0xfe00 == 0xfc00 || segment ip 0 &&& 0xffc0 == 0xfe80 ||
        (segment ip 0 == 0x2001 && segment ip 1 == 0x0db8))

/-! ### What is internal -/

/-- The address begins as `base` does, for `len` bits. -/
def InBlock {w : Nat} (ip : BitVec w) (base len : Nat) : Prop :=
  ip.toNat / 2 ^ (w - len) = base / 2 ^ (w - len)

inductive InternalV4 (ip : BitVec 32) : Prop
  | loopback (h : InBlock ip 0x7f000000 8)
  | private10 (h : InBlock ip 0x0a000000 8)
  | private172 (h : InBlock ip 0xac100000 12)
  | private192 (h : InBlock ip 0xc0a80000 16)
  | linkLocal (h : InBlock ip 0xa9fe0000 16)
  | multicast (h : InBlock ip 0xe0000000 4)
  | unspecified (h : ip.toNat = 0)
  | shared (h : InBlock ip 0x64400000 10)
  | reserved (h : InBlock ip 0xf0000000 4)

/-- The forms that `embedded_ipv4` names -/
inductive Embeds (ip : BitVec 128) (v4 : BitVec 32) : Prop
  | mapped (h : ip.toNat = 0xffff * 2 ^ 32 + v4.toNat)
  | compatible (h : ip.toNat = v4.toNat)
  | nat64 (h : ip.toNat = 0x64ff9b * 2 ^ 96 + v4.toNat)
  | sixToFour (rest : Nat) (hrest : rest < 2 ^ 80)
    (h : ip.toNat = (0x2002 * 2 ^ 32 + v4.toNat) * 2 ^ 80 + rest)

inductive InternalV6 (ip : BitVec 128) : Prop
  | loopback (h : ip.toNat = 1)
  | unspecified (h : ip.toNat = 0)
  | linkLocal (h : InBlock ip (0xfe80 * 2 ^ 112) 10)
  | multicast (h : InBlock ip (0xff00 * 2 ^ 112) 8)
  | uniqueLocal (h : InBlock ip (0xfc00 * 2 ^ 112) 7)
  | embedding (v4 : BitVec 32) (h : Embeds ip v4) (hv4 : InternalV4 v4)

def Internal : IpAddr → Prop
  | .v4 ip => InternalV4 ip
  | .v6 ip => InternalV6 ip

/-! ## URLs and what answers -/

inductive FetchError where
  | invalidUrl
  | dnsFailed
  | privateAddress
  | fetchFailed
  | tooManyRedirects
  | invalidRedirect
  | upstreamError
  | tooLarge
deriving DecidableEq

inductive Host where
  | ipv4 (ip : BitVec 32)
  | ipv6 (ip : BitVec 128)
  | domain (name : String)
deriving DecidableEq

/-- `host_str` -/
def Host.text : Host → String
  | .ipv4 ip => String.ofList (IpAddr.displayV4 ip)
  | .ipv6 ip => String.ofList ('[' :: IpAddr.displayV6 ip ++ [']'])
  | .domain name => name

structure Url where
  text : String
  scheme : String
  username : String := ""
  password : Option String := none
  host : Option Host
  portOrKnownDefault : Option Nat
  fragment : Option String := none
deriving DecidableEq

structure Response where
  status : Nat
  location : Option String := none
  contentType : Option String := none
  contentLength : Option Nat := none
  /-- A chunk may fail to arrive. -/
  chunks : List (Option (List UInt8)) := []

structure World where
  parse : String → Option Url
  join : Url → String → Option Url
  /-- The answer to a lookup, counted from the first one -/
  lookup : Nat → String → Option (List IpAddr)
  /-- The addresses that a request opens connections to -/
  connect : Nat → List IpAddr → List IpAddr
  respond : Nat → Url → Option Response

/-- The HTTP client connects to the addresses it is given. -/
def Connects (w : World) : Prop := ∀ n given, w.connect n given ⊆ given

/-- What a fetch has done so far -/
structure Trace where
  lookups : Nat := 0
  requests : Nat := 0
  redirects : Nat := 0
  connections : List IpAddr := []

variable (w : World)

/-- A request to one of the addresses -/
def Trace.request (t : Trace) (given : List IpAddr) : Trace :=
  { t with requests := t.requests + 1, connections := t.connections ++ w.connect t.requests given }

def isHttp (url : Url) : Bool := url.scheme = "http" ∨ url.scheme = "https"

/-! ## The fetch that validates -/

def maxFetchBytes : Nat := 25 * 1024 * 1024

def maxRedirects : Nat := 5

def validateUrl (t : Trace) (raw : String) : Except FetchError (Url × List IpAddr) :=
  match w.parse raw with
  | none => .error .invalidUrl
  | some url =>
    if !isHttp url ∨ url.username ≠ "" ∨ url.password.isSome ∨ url.fragment.isSome then
      .error .invalidUrl
    else
      match url.host, url.portOrKnownDefault with
      | some host, some _ =>
        match w.lookup t.lookups host.text with
        | none => .error .dnsFailed
        | some addresses =>
          if addresses.any fun a => !isPublicIp a then .error .privateAddress
          else if addresses.isEmpty then .error .dnsFailed
          else .ok (url, addresses)
      | _, _ => .error .invalidUrl

def readChunks (buf : List UInt8) : List (Option (List UInt8)) → Except FetchError (List UInt8)
  | [] => .ok buf
  | none :: _ => .error .fetchFailed
  | some chunk :: chunks =>
    if maxFetchBytes < buf.length + chunk.length then .error .tooLarge
    else readChunks (buf ++ chunk) chunks

def readBodyLimited (upstream : Response) : Except FetchError (List UInt8) :=
  if upstream.contentLength.any fun size => maxFetchBytes < size then .error .tooLarge
  else readChunks [] upstream.chunks

def isRedirection (status : Nat) : Bool := 300 ≤ status ∧ status < 400

def isSuccess (status : Nat) : Bool := 200 ≤ status ∧ status < 300

/-- The loop, with `left` redirects to go before `MAX_REDIRECTS` -/
def fetchLoop : (left : Nat) → Url → List IpAddr → Trace →
    Trace × Except FetchError (List UInt8 × String)
  | left, url, addresses, t =>
    if url.host.isNone then (t, .error .invalidUrl)
    else
      -- the addresses that were validated are those that the client is given
      let sent := t.request w addresses
      match w.respond t.requests url with
      | none => (sent, .error .fetchFailed)
      | some upstream =>
        if isRedirection upstream.status then
          match left with
          | 0 => (sent, .error .tooManyRedirects)
          | left + 1 =>
            match upstream.location.bind (w.join url) with
            | none => (sent, .error .invalidRedirect)
            | some next =>
              match validateUrl w sent next.text with
              | .error e => ({ sent with lookups := sent.lookups + 1 }, .error e)
              | .ok (url, addresses) =>
                fetchLoop left url addresses
                  { sent with lookups := sent.lookups + 1, redirects := sent.redirects + 1 }
        else if !isSuccess upstream.status then (sent, .error .upstreamError)
        else
          match readBodyLimited upstream with
          | .error e => (sent, .error e)
          | .ok bytes =>
            (sent, .ok (bytes, upstream.contentType.getD "application/octet-stream"))

def fetchFollowingValidatedRedirects (raw : String) :
    Trace × Except FetchError (List UInt8 × String) :=
  match validateUrl w {} raw with
  | .error e => ({ lookups := 1 }, .error e)
  | .ok (url, addresses) => fetchLoop w maxRedirects url addresses { lookups := 1 }

/-! ## The federation client -/

def maxFederationRedirects : Nat := 10

def urlHostIsAllowed (url : Url) : Bool :=
  match url.host with
  | some (.ipv4 ip) => isPublicIpv4 ip
  | some (.ipv6 ip) => isPublicIp (.v6 ip)
  | some (.domain _) => true
  | none => false

def ensurePublicUrl (raw : String) : Except FetchError Unit :=
  match w.parse raw with
  | none => .error .invalidUrl
  | some url =>
    if !isHttp url then .error .invalidUrl
    else if urlHostIsAllowed url then .ok ()
    else .error .privateAddress

/-- `PublicOnlyResolver::resolve` -/
def resolve (t : Trace) (name : String) : Except FetchError (List IpAddr) :=
  match w.lookup t.lookups name with
  | none => .error .dnsFailed
  | some addresses =>
    if addresses.isEmpty ∨ addresses.any fun a => !isPublicIp a then .error .privateAddress
    else .ok addresses

/-- The addresses that the client is given for a URL -/
def addressesOf (t : Trace) (url : Url) : Except FetchError (List IpAddr) :=
  match url.host with
  | some (.ipv4 ip) => .ok [.v4 ip]
  | some (.ipv6 ip) => .ok [.v6 ip]
  | some (.domain name) => resolve w t name
  | none => .error .invalidUrl

/-- The redirect policy of `federation_client_builder`: `none` follows. -/
def redirectPolicy (previous : List Url) (next : Url) : Option FetchError :=
  if maxFederationRedirects ≤ previous.length then some .tooManyRedirects
  else if !isHttp next ∨ !urlHostIsAllowed next then some .privateAddress
  else none

/-- The statuses whose `Location` `reqwest` follows -/
def isFollowed (status : Nat) : Bool := status ∈ [301, 302, 303, 307, 308]

/-- `reqwest`'s `send`, with the URLs it was redirected from -/
def send (previous : List Url) (url : Url) (t : Trace) : Trace × Except FetchError Response :=
  match addressesOf w t url with
  | .error e => ({ t with lookups := t.lookups + 1 }, .error e)
  | .ok addresses =>
    let sent := { t.request w addresses with lookups := t.lookups + 1 }
    match w.respond t.requests url with
    | none => (sent, .error .fetchFailed)
    | some response =>
      match if isFollowed response.status then response.location.bind (w.join url) else none with
      | none => (sent, .ok response)
      | some next =>
        match _hpolicy : redirectPolicy (previous ++ [url]) next with
        | some e => (sent, .error e)
        | none => send (previous ++ [url]) next { sent with redirects := sent.redirects + 1 }
termination_by maxFederationRedirects - previous.length
decreasing_by
  have hlt : ¬ maxFederationRedirects ≤ (previous ++ [url]).length := by
    intro hle
    rw [redirectPolicy, if_pos hle] at _hpolicy
    cases _hpolicy
  rw [List.length_append, List.length_singleton] at hlt ⊢
  omega

/-- `bytes` of a response, which `text` and `json` read too -/
def readBody : List (Option (List UInt8)) → Except FetchError (List UInt8)
  | [] => .ok []
  | none :: _ => .error .fetchFailed
  | some chunk :: chunks => (readBody chunks).map (chunk ++ ·)

/-- A GET after `ensure_public_url`, as `ApClient` makes it -/
def federationGet (raw : String) : Trace × Except FetchError (List UInt8) :=
  match ensurePublicUrl w raw with
  | .error e => ({}, .error e)
  | .ok () =>
    match w.parse raw with
    | none => ({}, .error .invalidUrl)
    | some url =>
      match send w [] url {} with
      | (t, .error e) => (t, .error e)
      | (t, .ok response) => (t, readBody response.chunks)

/-! ## What a fetch may do -/

structure Bounded (t : Trace) (redirects : Nat) : Prop where
  outside : ∀ a ∈ t.connections, ¬ Internal a
  redirects : t.redirects ≤ redirects

/-- The fetch that validates returns no more than `MAX_FETCH_BYTES`. -/
structure FetchGuarded (w : World) (raw : String) : Prop where
  bounded : Bounded (fetchFollowingValidatedRedirects w raw).1 maxRedirects
  size : ∀ bytes contentType,
    (fetchFollowingValidatedRedirects w raw).2 = .ok (bytes, contentType) →
    bytes.length ≤ maxFetchBytes

/-- The same of the federation client -/
structure FederationGuarded (w : World) (raw : String) : Prop where
  bounded : Bounded (federationGet w raw).1 maxFederationRedirects
  size : ∀ bytes, (federationGet w raw).2 = .ok bytes → bytes.length ≤ maxFetchBytes

end Seiran.Net
