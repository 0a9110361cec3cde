import Mathlib.Data.List.Basic

/-!
# HTTP signatures

The `Signature` header of a request is read three times: `extractKeyId` and
`signatureCoversDigest` (`inbox.rs`) look for one parameter each,
`parseSignatureHeader` (`client.rs`) collects all of them for
`verifySignature`. A string is the list of its characters. The texts read here
come out of `HeaderValue::to_str`, so they are ASCII, where `to_lowercase` is
`Char.toLower`.
-/

namespace Seiran.Inbox

abbrev Str := List Char

abbrev Bytes := List UInt8

/-! ## The functions of `str` -/

def trimStart (p : Char → Bool) (s : Str) : Str := s.dropWhile p

def trimEnd (p : Char → Bool) (s : Str) : Str := (s.reverse.dropWhile p).reverse

/-- `trim` -/
def trim (s : Str) : Str := trimEnd Char.isWhitespace (trimStart Char.isWhitespace s)

/-- `trim_matches('"')` -/
def trimQuotes (s : Str) : Str := trimEnd (· = '"') (trimStart (· = '"') s)

def toLowercase (s : Str) : Str := s.map Char.toLower

/-- `eq_ignore_ascii_case` -/
def eqIgnoreAsciiCase (s t : Str) : Bool := toLowercase s = toLowercase t

/-- `splitn(2, '=')`, where it has two parts. -/
def splitPair (part : Str) : Option (Str × Str) :=
  match part.span (· ≠ '=') with
  | (key, _ :: val) => some (key, val)
  | (_, []) => none

/-! ## The request's headers -/

/-- A character of a header name (`http::HeaderName`, which is in lower case). -/
def isTokenChar (c : Char) : Bool :=
  c.isLower || c.isDigit || "!#$%&'*+-.^_|~".toList.contains c || c.toNat = 96

def HeaderName : Type := { s : Str // s.all isTokenChar = true }

/-- `HeaderValue::to_str`: visible ASCII, spaces and tabs only. -/
def toStr (v : Bytes) : Option Str :=
  if v.all fun b => b = 9 ∨ (32 ≤ b ∧ b < 127) then some (v.map fun b => Char.ofNat b.toNat)
  else none

/-- A `HashMap` of strings. -/
abbrev StrMap := Str → Option Str

def StrMap.insert (m : StrMap) (k v : Str) : StrMap := fun k' => if k' = k then some v else m k'

/-- The `header_map` of the handler. The values that are no text are left out;
of several values of one header, the last stays. -/
def headerMap (headers : List (HeaderName × Bytes)) : StrMap :=
  (headers.filterMap fun h => (toStr h.2).map fun val => (toLowercase h.1.1, val)).foldl
    (fun m h => m.insert h.1 h.2) fun _ => none

/-! ## The parameters of a `Signature` header -/

/-- The key and the value of a part, trimmed. -/
def keyValue (part : Str) : Option (Str × Str) :=
  (splitPair part).map fun kv => (trim kv.1, trimQuotes (trim kv.2))

/-- The value of a part, if it has this key. -/
def valueOf (name part : Str) : Option Str :=
  match keyValue part with
  | some (key, val) => if key = name then some val else none
  | none => none

/-- The loops of `inbox.rs`: the value of the first part with this key. -/
def findParam (name signatureHeader : Str) : Option Str :=
  (signatureHeader.splitOn ',').findSome? (valueOf name)

def signatureCoversDigest (signatureHeader : Str) : Bool :=
  match findParam "headers".toList signatureHeader with
  | some headersVal => (headersVal.splitOn ' ').any (eqIgnoreAsciiCase · "digest".toList)
  | none => false

def extractKeyId (signatureHeader : Str) : Option Str := findParam "keyId".toList signatureHeader

/-- One part of the loop of `parse_signature_header`. -/
def insertPart (map : StrMap) (part : Str) : StrMap :=
  match keyValue part with
  | some (key, val) => map.insert key val
  | none => map

def parseSignatureHeader (header : Str) : StrMap :=
  (header.splitOn ',').foldl insertPart fun _ => none

/-! ## Verifying a signature -/

inductive ApError where
  | signature (message : Str)
  | fetchActor (message : Str)
  | other (message : Str)
deriving DecidableEq

/-- `to_string` of the error. -/
def ApError.text : ApError → Str
  | .signature m => "署名エラー: ".toList ++ m
  | .fetchActor m => "アクター取得失敗: ".toList ++ m
  | .other m => m

/-- The line of a header in the signing string. -/
def signingLine (method path : Str) (headers : StrMap) (headerName : Str) : Except ApError Str :=
  let nameLower := toLowercase headerName
  if nameLower = "(request-target)".toList then
    .ok ("(request-target): ".toList ++ toLowercase method ++ ' ' :: path)
  else
    match headers nameLower with
    | some val => .ok (nameLower ++ ": ".toList ++ val)
    | none => .error (.signature ("署名対象ヘッダー \"".toList ++ headerName ++
        "\" がリクエストに見つかりません".toList))

def buildSigningString (method path : Str) (headers : StrMap) (headerListStr : Str) :
    Except ApError Str := do
  let lines ← (headerListStr.splitOn ' ').mapM (signingLine method path headers)
  return ['\n'].intercalate lines

structure PublicKey where
  id : Str
  owner : Str
  publicKeyPem : Str

/-- What verification takes from elsewhere: Base64, RSA (`verify_with_pem`),
the keys in the cache that are not too old, and the answer of the actor's
server. -/
structure Keys where
  base64Decode : Str → Except Str Bytes
  verifyWithPem : Str → Str → Bytes → Except ApError Unit
  cached : Str → Option Str
  fetchActor : Str → Except ApError (Option PublicKey)

/-- `key_id.split('#').next()` -/
def baseUri (keyId : Str) : Str := keyId.takeWhile (· ≠ '#')

def fetchAndCachePublicKeyPem (K : Keys) (keyId : Str) : Except ApError Str := do
  let base := baseUri keyId
  let publicKey ← K.fetchActor base
  let notFound : ApError := .fetchActor
    ("取得したアクタードキュメントから一致する key_id (".toList ++ keyId ++ ") が見つかりません".toList)
  match publicKey with
  | some pubkeyInfo =>
    if pubkeyInfo.id = keyId ∨ base = pubkeyInfo.owner then .ok pubkeyInfo.publicKeyPem
    else .error notFound
  | none => .error notFound

def getPublicKeyPem (K : Keys) (keyId : Str) : Except ApError Str :=
  match K.cached keyId with
  | some pem => .ok pem
  | none => fetchAndCachePublicKeyPem K keyId

/-- The lookup of a parameter that has to be there. -/
def required (parsed : StrMap) (name : Str) : Except ApError Str :=
  match parsed name with
  | some val => .ok val
  | none => .error (.signature (name ++ " が見つかりません".toList))

def decodeSignature (K : Keys) (signatureB64 : Str) : Except ApError Bytes :=
  match K.base64Decode signatureB64 with
  | .ok bytes => .ok bytes
  | .error e => .error (.signature ("署名base64デコード失敗: ".toList ++ e))

/-- The verification. Where it fails the key may have been rotated, so there is
one more try with the key its server gives now. -/
def verifyOrRefetch (K : Keys) (keyId pem signingString : Str) (signatureBytes : Bytes) :
    Except ApError Bool :=
  match K.verifyWithPem pem signingString signatureBytes with
  | .ok () => .ok true
  | .error _ => do
    let freshPem ← fetchAndCachePublicKeyPem K keyId
    if freshPem = pem then .error (.signature "署名検証失敗".toList)
    else
      match K.verifyWithPem freshPem signingString signatureBytes with
      | .ok () => .ok true
      | .error e => .error e

def verifySignature (K : Keys) (method path : Str) (headers : StrMap) (signatureHeader : Str) :
    Except ApError Bool := do
  let parsed := parseSignatureHeader signatureHeader
  let keyId ← required parsed "keyId".toList
  let signatureB64 ← required parsed "signature".toList
  let headerListStr := (parsed "headers".toList).getD "date".toList
  let signingString ← buildSigningString method path headers headerListStr
  let signatureBytes ← decodeSignature K signatureB64
  let pem ← getPublicKeyPem K keyId
  verifyOrRefetch K keyId pem signingString signatureBytes

end Seiran.Inbox
