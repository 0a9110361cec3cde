import Seiran.Framework.Digits
import Seiran.Model.Inbox.Signature

/-!
# Signed requests

`signed_get` and `sign_and_post` (`client.rs`) up to the request they send, the
request a server receives if the HTTP client sends the URL it is given, and the
signing string that `verifySignature` makes of that. The key is parsed and the
string is signed on another thread, which is left out.
-/

namespace Seiran.Inbox

/-- `url::Url`. There is no `port` where it is the default one. -/
structure Url where
  hostStr : Option Str
  port : Option Nat
  path : Str
  query : Option Str
deriving DecidableEq

/-- What signing takes from elsewhere: `guard_remote_url`, the parser of URLs, the
time as the `Date` header has it, SHA-256 and RSA. -/
structure Signer (Key : Type) where
  guardRemoteUrl : Str → Except ApError Unit
  parse : Str → Except Str Url
  dateStr : Str
  sha256 : Bytes → Bytes
  fromPkcs8Pem : Str → Except Str Key
  sign : Key → Bytes → Except Str Bytes

/-- `as_bytes` -/
def asBytes (s : Str) : Bytes := s.flatMap String.utf8EncodeChar

/-- `BASE64_STANDARD` -/
def base64Alphabet : Str :=
  "ABCDEFGHIJKLMNOPQRSTUVWXYZabcdefghijklmnopqrstuvwxyz0123456789+/".toList

def base64Encode (bytes : Bytes) : Str :=
  encodeBits 6 base64Alphabet bytes ++ List.replicate ((3 - bytes.length % 3) % 3) '='

/-! ## What is sent -/

structure Request where
  method : Str
  url : Str
  headers : List (HeaderName × Str)
  body : Bytes

section Sending

variable {Key : Type} (S : Signer Key)

def Signer.parseUrl (url : Str) : Except ApError Url :=
  match S.parse url with
  | .ok u => .ok u
  | .error e => .error (.other ("URL パースエラー: ".toList ++ e))

/-- `host_str().unwrap_or("")` -/
def Url.host (u : Url) : Str := u.hostStr.getD []

def Signer.signatureOf (privateKeyPem signingString : Str) : Except ApError Str :=
  match S.fromPkcs8Pem privateKeyPem with
  | .error e => .error (.signature ("RSA 秘密鍵パース失敗: ".toList ++ e))
  | .ok privateKey =>
    match S.sign privateKey (S.sha256 (asBytes signingString)) with
    | .error e => .error (.signature ("RSA 署名失敗: ".toList ++ e))
    | .ok sigBytes => .ok (base64Encode sigBytes)

def signatureHeader (actorKeyId headerList sigB64 : Str) : Str :=
  "keyId=\"".toList ++ actorKeyId ++ "\",algorithm=\"rsa-sha256\"".toList ++
    ",headers=\"".toList ++ headerList ++ "\",signature=\"".toList ++ sigB64 ++ "\"".toList

def acceptName : HeaderName := ⟨"accept".toList, by decide⟩

theorem isTokenChar_date : "date".toList.all isTokenChar = true := by decide
theorem isTokenChar_digest : "digest".toList.all isTokenChar = true := by decide
theorem isTokenChar_signature : "signature".toList.all isTokenChar = true := by decide

def dateName : HeaderName := ⟨"date".toList, isTokenChar_date⟩
def hostName : HeaderName := ⟨"host".toList, by decide⟩
def contentTypeName : HeaderName := ⟨"content-type".toList, by decide⟩
def digestName : HeaderName := ⟨"digest".toList, isTokenChar_digest⟩
def signatureName : HeaderName := ⟨"signature".toList, isTokenChar_signature⟩

def getHeaderList : Str := "(request-target) host date".toList

def getSigningString (u : Url) : Str :=
  "(request-target): get ".toList ++ u.path ++ "\nhost: ".toList ++ u.host ++
    "\ndate: ".toList ++ S.dateStr

/-- The request of `signed_get` -/
def signedGet (url actorKeyId privateKeyPem : Str) : Except ApError Request := do
  S.guardRemoteUrl url
  let u ← S.parseUrl url
  let sigB64 ← S.signatureOf privateKeyPem (getSigningString S u)
  return {
    method := "GET".toList
    url
    headers := [
      (acceptName, "application/activity+json, application/ld+json".toList),
      (dateName, S.dateStr),
      (hostName, u.host),
      (signatureName, signatureHeader actorKeyId getHeaderList sigB64)]
    body := [] }

def postHeaderList : Str := "(request-target) host date content-type digest".toList

def digestHeader (body : Bytes) : Str := "SHA-256=".toList ++ base64Encode (S.sha256 body)

def activityJson : Str := "application/activity+json".toList

def postSigningString (u : Url) (body : Bytes) : Str :=
  "(request-target): post ".toList ++ u.path ++ "\nhost: ".toList ++ u.host ++
    "\ndate: ".toList ++ S.dateStr ++ "\ncontent-type: ".toList ++ activityJson ++
    "\ndigest: ".toList ++ digestHeader S body

/-- The request of `sign_and_post` -/
def signedPost (url : Str) (body : Bytes) (actorKeyId privateKeyPem : Str) :
    Except ApError Request := do
  S.guardRemoteUrl url
  let u ← S.parseUrl url
  let sigB64 ← S.signatureOf privateKeyPem (postSigningString S u body)
  return {
    method := "POST".toList
    url
    headers := [
      (dateName, S.dateStr),
      (hostName, u.host),
      (contentTypeName, activityJson),
      (digestName, digestHeader S body),
      (signatureName, signatureHeader actorKeyId postHeaderList sigB64)]
    body }

/-- The status of an answer, as it is written, and its text -/
structure Answer where
  status : Nat
  statusText : Str
  text : Str

/-- `send` is the HTTP client. -/
def signAndPost (send : Request → Except ApError Answer) (url : Str) (body : Bytes)
    (actorKeyId privateKeyPem : Str) : Except ApError Unit := do
  let request ← signedPost S url body actorKeyId privateKeyPem
  let res ← send request
  if 200 ≤ res.status ∧ res.status < 300 then return ()
  else throw (.other ("POST レスポンスエラー ".toList ++ res.statusText ++ ": ".toList ++ res.text))

end Sending

/-! ## What is received -/

/-- `HeaderValue::from_str` -/
def fromStr (s : Str) : Option Bytes :=
  if s.all fun c => c = '\t' ∨ (32 ≤ c.toNat ∧ c.toNat < 127) then
    some (s.map fun c => UInt8.ofNat c.toNat)
  else none

/-- The path and the query -/
def Url.requestTarget (u : Url) : Str :=
  u.path ++ match u.query with
    | some query => '?' :: query
    | none => []

/-- The host and a port that is not the default one -/
def Url.authority (u : Url) : Str :=
  u.host ++ match u.port with
    | some port => ':' :: (toString port).toList
    | none => []

/-- The value a header arrives with. A client that does not keep the `Host` header
makes it of the URL. -/
def arriving (keepsHost : Bool) (u : Url) (h : HeaderName × Str) : Str :=
  if h.1.1 = "host".toList ∧ keepsHost = false then u.authority else h.2

structure Received where
  method : Str
  requestTarget : Str
  headers : List (HeaderName × Bytes)

/-- Nothing is sent if a value cannot stand in a header. The client has headers of
its `own`, for requests that do not set them. -/
def Request.receive (own : List (HeaderName × Bytes)) (keepsHost : Bool) (u : Url) (r : Request) :
    Option Received := do
  let headers ← r.headers.mapM fun h => (fromStr (arriving keepsHost u h)).map (h.1, ·)
  return {
    method := r.method
    requestTarget := u.requestTarget
    headers := headers ++ own.filter fun h =>
      headers.all fun g => toLowercase g.1.1 ≠ toLowercase h.1.1 }

/-- The signing string of `verifySignature` -/
def rebuiltSigningString (method path : Str) (headers : StrMap) (signatureHeader : Str) :
    Except ApError Str :=
  let parsed := parseSignatureHeader signatureHeader
  buildSigningString method path headers ((parsed "headers".toList).getD "date".toList)

end Seiran.Inbox
