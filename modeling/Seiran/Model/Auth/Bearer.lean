import Seiran.Framework.Run
import Seiran.Model.Notes.Reply

/-!
# Bearer tokens

The tokens of `auth/local.rs` and `extract_auth` (`middleware/auth.rs`), with what it
reads: the users, the suspensions and withdrawals of their actors, and `app_tokens`.

* A JWT is its claims, with a signature by the secret of the server. `State.signed` are
  those that were signed: no other signature is good. Any other text is `Token.text`.
* `Jwt` is `jsonwebtoken`'s `validate` and the text of a `uuid`.
* Times are microseconds since 1970, `State.log` what happened at which time. An id of
  a token is new when it is drawn.
* A user's reset of a forgotten password (`password_reset.rs`) does to tokens what
  `update_password_hash` does, in one transaction.
-/

namespace Seiran.Bearer

open Notes (parseI64)

/-- A field of the claims -/
inductive Value where
  | str (s : String)
  | num (n : Nat)
  | bool (b : Bool)
deriving DecidableEq

namespace Value

def asStr : Value → Option String
  | .str s => some s
  | _ => none

def asUsize : Value → Option Nat
  | .num n => some n
  | _ => none

def asBool : Value → Option Bool
  | .bool b => some b
  | _ => none

end Value

/-- The claims of a token as they are signed -/
abbrev Claims := List (String × Value)

abbrev Uuid := BitVec 128

/-- A field that has to be there -/
def Claims.field {α : Type} (c : Claims) (key : String) (read : Value → Option α) : Option α :=
  (c.lookup key).bind read

/-- A field with `#[serde(default)]` -/
def Claims.fieldOr {α : Type} (c : Claims) (key : String) (read : Value → Option α)
    (default : α) : Option α :=
  match c.lookup key with
  | none => some default
  | some v => read v

structure Validation where
  requiredSpecClaims : List String := ["exp"]
  validateExp : Bool := true
  aud : Option (List String) := none

structure Jwt where
  validate : Validation → Claims → Nat → Bool
  uuidText : Uuid → String
  parseUuid : String → Option Uuid

/-- Claims without an audience pass where no claim is required and `exp` is not looked at. -/
structure Jwt.Documented (J : Jwt) : Prop where
  validate : ∀ {v c now}, v.requiredSpecClaims = [] → v.validateExp = false → v.aud = none →
    c.lookup "aud" = none → J.validate v c now = true
  parseUuid : ∀ u, J.parseUuid (J.uuidText u) = some u

/-! ## The four layouts -/

structure LocalClaims where
  sub : String
  email : String
  exp : Option Nat
  iat : Nat
  jti : Uuid

structure PendingTotpClaims where
  sub : String
  exp : Nat
  purpose : String

structure AtpSessionClaims where
  scope : String
  sub : String
  aud : String
  iat : Nat
  exp : Nat
  jti : Uuid
  privileged : Bool

def atpAccessScope : String := "com.atproto.access"

def atpRefreshScope : String := "com.atproto.refresh"

variable (J : Jwt)

def LocalClaims.serialize (c : LocalClaims) : Claims :=
  [("sub", .str c.sub), ("email", .str c.email)] ++
    (c.exp.map fun e => ("exp", Value.num e)).toList ++
    [("iat", .num c.iat), ("jti", .str (J.uuidText c.jti))]

def LocalClaims.deserialize (c : Claims) : Option LocalClaims := do
  let sub ← c.field "sub" Value.asStr
  let email ← c.field "email" Value.asStr
  let exp ← c.fieldOr "exp" (fun v => v.asUsize.map some) none
  let iat ← c.fieldOr "iat" Value.asUsize 0
  let jti ← c.field "jti" fun v => v.asStr.bind J.parseUuid
  return { sub, email, exp, iat, jti }

def PendingTotpClaims.serialize (c : PendingTotpClaims) : Claims :=
  [("sub", .str c.sub), ("exp", .num c.exp), ("purpose", .str c.purpose)]

def PendingTotpClaims.deserialize (c : Claims) : Option PendingTotpClaims := do
  let sub ← c.field "sub" Value.asStr
  let exp ← c.field "exp" Value.asUsize
  let purpose ← c.field "purpose" Value.asStr
  return { sub, exp, purpose }

def AtpSessionClaims.serialize (c : AtpSessionClaims) : Claims :=
  [("scope", .str c.scope), ("sub", .str c.sub), ("aud", .str c.aud), ("iat", .num c.iat),
    ("exp", .num c.exp), ("jti", .str (J.uuidText c.jti)), ("privileged", .bool c.privileged)]

def AtpSessionClaims.deserialize (c : Claims) : Option AtpSessionClaims := do
  let scope ← c.field "scope" Value.asStr
  let sub ← c.field "sub" Value.asStr
  let aud ← c.field "aud" Value.asStr
  let iat ← c.field "iat" Value.asUsize
  let exp ← c.field "exp" Value.asUsize
  let jti ← c.field "jti" fun v => v.asStr.bind J.parseUuid
  let privileged ← c.fieldOr "privileged" Value.asBool false
  return { scope, sub, aud, iat, exp, jti, privileged }

/-! ## Issuing -/

def timestamp (micros : Nat) : Nat := micros / 1000000

/-- `format!("local|{}", user_id)` -/
def localSub (userId : Int64) : String := "local|" ++ toString userId

def generateTokenWithExp (now : Nat) (userId : Int64) (email : String) (exp : Option Nat)
    (jti : Uuid) : Claims :=
  LocalClaims.serialize J { sub := localSub userId, email, exp, iat := timestamp now, jti }

def generateToken (now : Nat) (userId : Int64) (email : String) (jti : Uuid) : Claims :=
  generateTokenWithExp J now userId email none jti

def generateAppToken (now : Nat) (userId : Int64) (email : String) (jti : Uuid) : Claims :=
  generateTokenWithExp J now userId email none jti

/-- Of five minutes -/
def generatePendingTotpToken (now : Nat) (userId : Int64) : Claims :=
  { sub := localSub userId, exp := timestamp (now + 5 * 60 * 1000000),
    purpose := "totp_pending" : PendingTotpClaims }.serialize

def atpAccessClaims (now : Nat) (did serviceDid : String) (privileged : Bool) (jti : Uuid) :
    Claims :=
  AtpSessionClaims.serialize J
    { scope := atpAccessScope, sub := did, aud := serviceDid, iat := timestamp now,
      exp := timestamp (now + 2 * 3600 * 1000000), jti, privileged }

def atpRefreshClaims (now : Nat) (did serviceDid : String) (privileged : Bool) (jti : Uuid) :
    Claims :=
  AtpSessionClaims.serialize J
    { scope := atpRefreshScope, sub := did, aud := serviceDid, iat := timestamp now,
      exp := timestamp (now + 90 * 24 * 3600 * 1000000), jti, privileged }

/-! ## The tables -/

structure User where
  email : String := ""
  tokenValidAfter : Option Nat := none
  /-- `actors.suspended_at IS NOT NULL` -/
  suspended : Bool := false
  /-- `actors.withdrawn_at IS NOT NULL` -/
  withdrawn : Bool := false
deriving DecidableEq

/-- A row of `app_tokens` -/
structure AppToken where
  id : Uuid
  userId : Int64
  oauthAppId : Option Int64 := none
  misskeyHash : Option String := none
  revokedAt : Option Nat := none
deriving DecidableEq

inductive Event where
  | generateToken (userId : Int64) (email : String) (jti : Uuid)
  | generateAppToken (userId : Int64) (email : String) (jti : Uuid)
  | insertAppToken (row : AppToken)
  | generatePendingTotpToken (userId : Int64)
  | generateAtpSession (did serviceDid : String) (privileged : Bool) (jti : Uuid)
  | updatePasswordHash (userId : Int64)
  | revokeAllTokens (userId : Int64)
  | revoke (id : Uuid) (userId : Int64)
  | revokeAppToken (id : Uuid) (appId : Int64)
  | setSuspended (userId : Int64) (suspended : Bool)
  | withdrawLocalActor (userId : Int64)
  | updateEmail (userId : Int64) (email : String)
deriving DecidableEq

/-- The new id of an event that issues a login or app token -/
def Event.localId : Event → Option Uuid
  | .generateToken _ _ jti | .generateAppToken _ _ jti => some jti
  | _ => none

abbrev Log := List (Nat × Event)

structure State where
  now : Nat := 0
  users : Int64 → User := fun _ => {}
  appTokens : List AppToken := []
  signed : List Claims := []
  log : Log := []

/-! ## Verifying -/

inductive AuthError where
  | invalidToken
  | malformedToken
deriving DecidableEq

inductive ApiError where
  | unauthorized (message : String)
  | forbidden (code : String)
deriving DecidableEq

/-- The text of a bearer token -/
inductive Token where
  | jwt (claims : Claims)
  | text (t : String)
deriving DecidableEq

structure VerifiedUser where
  userId : Int64
  email : String
  jti : Uuid
  iat : Nat
  exp : Option Nat
deriving DecidableEq

structure VerifiedAtpAccess where
  did : String
  privileged : Bool
deriving DecidableEq

structure VerifiedAtpRefresh where
  did : String
  jti : Uuid
  privileged : Bool
deriving DecidableEq

structure AuthUser where
  userId : Int64
  email : String
deriving DecidableEq

variable (s : State)

/-- `jsonwebtoken::decode` -/
def decode {α : Type} (deserialize : Claims → Option α) (validation : Validation) :
    Token → Option α
  | .jwt c =>
    if c ∈ s.signed ∧ J.validate validation c (timestamp s.now) then deserialize c else none
  | .text _ => none

/-- `str::strip_prefix` -/
def stripPrefix (pre text : String) : Option String :=
  if pre.toList <+: text.toList then some (String.ofList (text.toList.drop pre.length)) else none

/-- The user id of a `sub` -/
def parseSub (sub : String) : Except AuthError Int64 :=
  match (stripPrefix "local|" sub).bind parseI64 with
  | some userId => .ok userId
  | none => .error .malformedToken

def verifyTokenIgnoringExp (token : Token) : Except AuthError VerifiedUser :=
  let validation : Validation := { requiredSpecClaims := [], validateExp := false }
  match decode J s (LocalClaims.deserialize J) validation token with
  | none => .error .invalidToken
  | some claims => do
    let userId ← parseSub claims.sub
    return { userId, email := claims.email, jti := claims.jti, iat := claims.iat,
             exp := claims.exp }

def verifyPendingTotpToken (token : Token) : Except AuthError Int64 :=
  match decode J s PendingTotpClaims.deserialize {} token with
  | none => .error .invalidToken
  | some claims =>
    if claims.purpose ≠ "totp_pending" then .error .invalidToken else parseSub claims.sub

def decodeAtpClaims (token : Token) (serviceDid : String) : Option AtpSessionClaims :=
  decode J s (AtpSessionClaims.deserialize J) { aud := some [serviceDid] } token

def verifyAtpAccessToken (token : Token) (serviceDid : String) :
    Except AuthError VerifiedAtpAccess :=
  match decodeAtpClaims J s token serviceDid with
  | none => .error .invalidToken
  | some claims =>
    if claims.scope ≠ atpAccessScope ∨ claims.aud ≠ serviceDid then .error .invalidToken
    else .ok { did := claims.sub, privileged := claims.privileged }

def verifyAtpRefreshToken (token : Token) (serviceDid : String) :
    Except AuthError VerifiedAtpRefresh :=
  match decodeAtpClaims J s token serviceDid with
  | none => .error .invalidToken
  | some claims =>
    if claims.scope ≠ atpRefreshScope ∨ claims.aud ≠ serviceDid then .error .invalidToken
    else .ok { did := claims.sub, jti := claims.jti, privileged := claims.privileged }

/-- `app_tokens.status` -/
def status (id : Uuid) : Option Bool :=
  (s.appTokens.find? fun r => r.id = id).map fun r => r.revokedAt.isSome

/-- No text with the dots of a JWT is a hash. -/
def findUserByMisskeyHash : Token → Option (Int64 × String)
  | .jwt _ => none
  | .text t =>
    (s.appTokens.find? fun r => r.misskeyHash = some t ∧ r.revokedAt = none).map fun r =>
      (r.userId, (s.users r.userId).email)

def identify (bearer : Token) : Except ApiError AuthUser :=
  match verifyTokenIgnoringExp J s bearer with
  | .ok verified =>
    if status s verified.jti = some true then
      .error (.unauthorized "トークンが無効化されています")
    else
      match (s.users verified.userId).tokenValidAfter with
      | some validAfter =>
        if verified.iat < timestamp validAfter then
          .error (.unauthorized "パスワード変更により無効化されたトークンです")
        else .ok { userId := verified.userId, email := verified.email }
      | none => .ok { userId := verified.userId, email := verified.email }
  | .error _ =>
    match findUserByMisskeyHash s bearer with
    | some (userId, email) => .ok { userId, email }
    | none => .error (.unauthorized "トークンが無効です")

/-- `authorization` is what follows `Bearer ` in the header. -/
def extractAuthAllowSuspended (authorization : Option Token) : Except ApiError AuthUser :=
  match authorization with
  | none => .error (.unauthorized "Authorization ヘッダーが必要です")
  | some bearer => do
    let user ← identify J s bearer
    if (s.users user.userId).withdrawn then .error (.unauthorized "退会済みのアカウントです")
    else return user

def extractAuth (authorization : Option Token) : Except ApiError AuthUser := do
  let user ← extractAuthAllowSuspended J s authorization
  if (s.users user.userId).suspended then .error (.forbidden "ACCOUNT_SUSPENDED") else return user

/-! ## The machine -/

inductive Action where
  | tick (micros : Nat)
  | event (e : Event)
deriving DecidableEq

def setUser (userId : Int64) (write : User → User) : State :=
  { s with users := fun u => if u = userId then write (s.users u) else s.users u }

def updateAppTokens (matching : AppToken → Bool) : State :=
  { s with appTokens := s.appTokens.map fun r =>
      if matching r ∧ r.revokedAt = none then { r with revokedAt := some s.now } else r }

def sign (claims : List Claims) : State := { s with signed := s.signed ++ claims }

def apply (e : Event) : State :=
  match e with
  | .generateToken userId email jti => sign s [generateToken J s.now userId email jti]
  | .generateAppToken userId email jti => sign s [generateAppToken J s.now userId email jti]
  | .insertAppToken row => { s with appTokens := s.appTokens ++ [row] }
  | .generatePendingTotpToken userId => sign s [generatePendingTotpToken s.now userId]
  | .generateAtpSession did serviceDid privileged jti =>
    sign s [atpAccessClaims J s.now did serviceDid privileged jti,
      atpRefreshClaims J s.now did serviceDid privileged jti]
  | .updatePasswordHash userId | .revokeAllTokens userId =>
    setUser s userId fun u => { u with tokenValidAfter := some s.now }
  | .revoke id userId => updateAppTokens s fun r => r.id = id ∧ r.userId = userId
  | .revokeAppToken id appId => updateAppTokens s fun r => r.id = id ∧ r.oauthAppId = some appId
  | .setSuspended userId suspended => setUser s userId fun u => { u with suspended }
  | .withdrawLocalActor userId => setUser s userId fun u => { u with withdrawn := true }
  | .updateEmail userId email => setUser s userId fun u => { u with email }

/-- An id is new when a token is drawn; the row of an app token is inserted once, unrevoked,
for a token that was drawn for its user. -/
def enabled (e : Event) : Bool :=
  match e with
  | .generateToken _ _ jti | .generateAppToken _ _ jti =>
    jti ∉ s.log.filterMap fun x => x.2.localId
  | .insertAppToken row =>
    row.revokedAt = none ∧ row.id ∉ s.appTokens.map AppToken.id ∧
      s.log.any fun x => match x.2 with
        | .generateAppToken userId _ jti => userId = row.userId ∧ jti = row.id
        | _ => false
  | _ => true

def step : State → Action → Option State
  | s, .tick micros => some { s with now := s.now + micros }
  | s, .event e =>
    if enabled s e then some { apply J s e with log := s.log ++ [(s.now, e)] } else none

def machine : Machine State Action := ⟨step J⟩

/-! ## What a token is worth -/

/-- The claims that an event signs for a user as a login or app token -/
def Issues (issuedAt : Nat) (e : Event) (c : Claims) (userId : Int64) (email : String)
    (jti : Uuid) : Prop :=
  (e = .generateToken userId email jti ∧ c = generateToken J issuedAt userId email jti) ∨
    (e = .generateAppToken userId email jti ∧ c = generateAppToken J issuedAt userId email jti)

/-- A password change, a reset or a revoke-all -/
def Changes (userId : Int64) (e : Event) : Prop :=
  e = .updatePasswordHash userId ∨ e = .revokeAllTokens userId

/-- The token's row was there when its owner or the app it was made for revoked it. -/
def RevokedSingly (log : Log) (jti : Uuid) : Prop :=
  ∃ row before revokedAt e after, log = before ++ (revokedAt, e) :: after ∧
    (∃ insertedAt, (insertedAt, .insertAppToken row) ∈ before) ∧ row.id = jti ∧
    (e = .revoke jti row.userId ∨
      ∃ appId, row.oauthAppId = some appId ∧ e = .revokeAppToken jti appId)

/-- What the last suspension or its end says -/
def suspended (log : Log) (userId : Int64) : Bool :=
  ((log.filterMap fun x => match x.2 with
    | .setSuspended u value => if u = userId then some value else none
    | _ => none).getLast?).getD false

def Withdrawn (log : Log) (userId : Int64) : Prop :=
  ∃ x ∈ log, x.2 = .withdrawLocalActor userId

/-- The user may act, and the token is not revoked singly. -/
structure Good (log : Log) (userId : Int64) (jti : Uuid) : Prop where
  unrevoked : ¬ RevokedSingly log jti
  active : suspended log userId = false
  here : ¬ Withdrawn log userId

/-- Issued for the user after the last change, and good -/
def Honoured (log : Log) (c : Claims) (userId : Int64) (email : String) : Prop :=
  ∃ before issuedAt e after jti, log = before ++ (issuedAt, e) :: after ∧
    Issues J issuedAt e c userId email jti ∧ (∀ x ∈ after, ¬ Changes userId x.2) ∧
    Good log userId jti

/-- Issued for the user before the last change, in the second of that change, and good -/
def LateInSecond (log : Log) (c : Claims) (userId : Int64) (email : String) : Prop :=
  ∃ before issuedAt e between changedAt change after jti,
    log = before ++ (issuedAt, e) :: between ++ (changedAt, change) :: after ∧
    Issues J issuedAt e c userId email jti ∧ Changes userId change ∧
    (∀ x ∈ after, ¬ Changes userId x.2) ∧ timestamp issuedAt = timestamp changedAt ∧
    Good log userId jti

/-- The other verifiers accept what was issued for them. -/
structure Separate (c : Claims) : Prop where
  pendingTotp : ∀ {userId}, verifyPendingTotpToken J s (.jwt c) = .ok userId →
    ∃ issuedAt, (issuedAt, .generatePendingTotpToken userId) ∈ s.log ∧
      c = generatePendingTotpToken issuedAt userId
  atpAccess : ∀ {serviceDid did privileged},
    verifyAtpAccessToken J s (.jwt c) serviceDid = .ok ⟨did, privileged⟩ →
    ∃ issuedAt jti, (issuedAt, .generateAtpSession did serviceDid privileged jti) ∈ s.log ∧
      c = atpAccessClaims J issuedAt did serviceDid privileged jti
  atpRefresh : ∀ {serviceDid did jti privileged},
    verifyAtpRefreshToken J s (.jwt c) serviceDid = .ok ⟨did, jti, privileged⟩ →
    ∃ issuedAt, (issuedAt, .generateAtpSession did serviceDid privileged jti) ∈ s.log ∧
      c = atpRefreshClaims J issuedAt did serviceDid privileged jti

/-- `extract_auth` honours the token for the user as it was issued. -/
structure AsIssued (c : Claims) (user : AuthUser) : Prop where
  honoured : extractAuth J s (some (.jwt c)) = .ok user ↔
    Honoured J s.log c user.userId user.email
  separate : Separate J s c

end Seiran.Bearer
