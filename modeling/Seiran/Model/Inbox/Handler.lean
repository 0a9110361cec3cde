import Seiran.Model.Inbox.Signature

/-!
# The inbox endpoint

`inbox_handler` (`inbox.rs`): the checks a request passes before its activity
is handed to the job queue.
-/

namespace Seiran.Inbox

/-- What the handler reads of an activity: its `actor`, if that is a string. -/
structure Activity where
  actor : Option Str

inductive RelayStatus where
  | pending
  | accepted
  | rejected
deriving DecidableEq

structure Relay where
  inboxUrl : Str
  status : RelayStatus

structure Actor where
  suspended : Bool

/-- What the handler takes from elsewhere: SHA-256, Base64, the JSON parser,
the origin of a URL, and the database. -/
structure Env where
  keys : Keys
  sha256 : Bytes → Bytes
  base64Encode : Bytes → Str
  fromStr : Bytes → Except Str Activity
  origin : Str → Option Str
  listRelays : Except Str (List Relay)
  updateStatus : Except Str Unit
  findByApUri : Str → Except Str (Option Actor)

structure Response where
  status : Nat
  text : Str
deriving DecidableEq

def unauthorized (text : Str) : Response := { status := 401, text }

def internalServerError (text : Str) : Response := { status := 500, text }

/-- A request that is accepted: the `keyId` the signer is taken from, and the
activity of the job. -/
structure Accepted where
  keyId : Str
  rawActivity : Bytes
deriving DecidableEq

def computedDigest (E : Env) (body : Bytes) : Str :=
  "SHA-256=".toList ++ E.base64Encode (E.sha256 body)

def urlsHaveSameOrigin (E : Env) (left right : Str) : Bool :=
  match E.origin left, E.origin right with
  | some l, some r => l = r
  | _, _ => false

def registeredRelayForSigner (E : Env) (signerActor : Str) : Except Str (Option Relay) := do
  let relays ← E.listRelays
  return relays.find? fun relay => urlsHaveSameOrigin E signerActor relay.inboxUrl

/-- The digest the request carries is the one of its body. -/
def checkDigest (E : Env) (headers : StrMap) (body : Bytes) : Except Response Unit :=
  match headers "digest".toList with
  | some receivedDigest =>
    if receivedDigest = computedDigest E body then .ok ()
    else .error (unauthorized "Digest ヘッダーがボディと一致しません".toList)
  | none => .error (unauthorized "Digest ヘッダーが必要です".toList)

def getSignature (headers : StrMap) : Except Response Str :=
  match headers "signature".toList with
  | some s => .ok s
  | none => .error (unauthorized "署名ヘッダーが見つかりません".toList)

def checkCoversDigest (signature : Str) : Except Response Unit :=
  if signatureCoversDigest signature then .ok ()
  else .error (unauthorized "Signature の headers= に digest が含まれていません".toList)

def getKeyId (signature : Str) : Except Response Str :=
  match extractKeyId signature with
  | some k => .ok k
  | none => .error (unauthorized "Signature に keyId が見つかりません".toList)

def checkSignature (E : Env) (headers : StrMap) (signature : Str) : Except Response Unit :=
  match verifySignature E.keys "POST".toList "/inbox".toList headers signature with
  | .ok true => .ok ()
  | .ok false => .error (unauthorized "署名検証失敗".toList)
  | .error e => .error (unauthorized ("署名エラー: ".toList ++ e.text))

def parseActivity (E : Env) (body : Bytes) : Except Response Activity :=
  match E.fromStr body with
  | .ok activity => .ok activity
  | .error _ => .error { status := 400, text := "JSON パースエラー".toList }

/-- The signer is the activity's actor, or a registered relay. -/
def checkActor (E : Env) (keyActorBase : Str) (activity : Activity) : Except Response Unit :=
  if keyActorBase = activity.actor.getD [] then .ok ()
  else
    match registeredRelayForSigner E keyActorBase with
    | .ok (some relay) =>
      if relay.status = .pending then
        match E.updateStatus with
        | .ok () => .ok ()
        | .error _ => .error (internalServerError "リレー状態更新エラー".toList)
      else .ok ()
    | .ok none => .error (unauthorized "署名者とアクターが一致しません".toList)
    | .error _ => .error (internalServerError "登録リレー照合エラー".toList)

def checkSuspended (E : Env) (keyActorBase : Str) : Except Response Unit :=
  match E.findByApUri keyActorBase with
  | .ok (some actor) =>
    if actor.suspended then .error { status := 403, text := "アカウントが凍結されています".toList }
    else .ok ()
  | .ok none => .ok ()
  | .error _ => .error (internalServerError "署名者確認エラー".toList)

/-- `inbox_handler`. A request that passes is answered with 202, whether or not
its job could be queued. -/
def inboxHandler (E : Env) (headers : List (HeaderName × Bytes)) (body : Bytes) :
    Except Response Accepted := do
  let map := headerMap headers
  checkDigest E map body
  let signature ← getSignature map
  checkCoversDigest signature
  let keyId ← getKeyId signature
  checkSignature E map signature
  let activity ← parseActivity E body
  let keyActorBase := baseUri keyId
  checkActor E keyActorBase activity
  checkSuspended E keyActorBase
  return { keyId, rawActivity := body }

end Seiran.Inbox
