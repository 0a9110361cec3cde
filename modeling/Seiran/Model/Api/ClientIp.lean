import Seiran.Framework.IpAddr

/-!
# The address of a client

`client_ip.rs`: the address for rate limits and blocks, from the peer of the TCP
connection and the `X-Forwarded-For` lines of the request. A header value is any
bytes; the networks of `TRUSTED_PROXIES` (`ipnet`) are the sets of their
addresses.
-/

namespace Seiran.ClientIp

abbrev HeaderValue := List UInt8

abbrev IpNet := IpAddr → Bool

/-- `TrustedProxies` -/
structure TrustedProxies where
  nets : List IpNet

def TrustedProxies.contains (trusted : TrustedProxies) (ip : IpAddr) : Bool :=
  trusted.nets.any fun net => net ip

def isVisibleAscii (b : UInt8) : Bool := (decide (32 ≤ b) && decide (b < 127)) || b == 9

/-- `HeaderValue::to_str` -/
def toStr (value : HeaderValue) : Option (List Char) :=
  if value.all isVisibleAscii then some (value.map fun b => Char.ofNat b.toNat) else none

/-- `str::trim`, of a text that `to_str` gives -/
def trim (text : List Char) : List Char :=
  let isBlank (c : Char) : Bool := c == ' ' || c == '\t'
  ((text.dropWhile isBlank).reverse.dropWhile isBlank).reverse

/-- `parse_hop` -/
def parseHop (hop : List Char) : Option IpAddr :=
  let hop := trim hop
  ((IpAddr.parse hop).or (IpAddr.parseSocketAddr hop)).map IpAddr.toCanonical

/-- The entries of the lines that can be read, from left to right. -/
def chain (forwardedFor : List HeaderValue) : List (List Char) :=
  (forwardedFor.filterMap toStr).flatMap fun value => value.splitOn ','

/-- The loop of `resolve` over the entries from the right. -/
def walk (trusted : TrustedProxies) : List (List Char) → Option (List Char)
  | [] => none
  | hop :: hops =>
    match parseHop hop with
    | none => none
    | some ip => if !trusted.contains ip then some ip.display else walk trusted hops

/-- `ClientIp::resolve` -/
def resolve (peer : Option IpAddr) (forwardedFor : List HeaderValue) (trusted : TrustedProxies) :
    Option (List Char) :=
  match peer.map IpAddr.toCanonical with
  | none => none
  | some peer =>
    if !trusted.contains peer then some peer.display else walk trusted (chain forwardedFor).reverse

end Seiran.ClientIp
