import Seiran.Framework.Run

/-!
# One-time credentials

Short e-mail codes (`email_short_code.rs`), TOTP recovery codes and disable tokens
(`totp.rs`), OAuth authorization codes and Misskey sessions (`oauth.rs`) and refresh
tokens (`atp_session.rs`), with the requests that use them. A statement is one step. A
request that needs a second statement waits in `tasks` for it; where it fails instead,
the statement is among those of `failed` and never runs.

* The ids and the random tokens are new when they are issued: `State.issued` lists
  those that were, with the time they expire.
* Of an optional column that tells whether something happened there is the fact alone.
* `Crypto` is Argon2's `verify_password` and the PKCE check.
* `signPlcOperation` does not come to `consume` where `has_pending` finds no code: it
  uses no credential then.
-/

namespace Seiran.OneTime

structure ShortCode where
  id : Int
  actorId : Int
  purpose : String
  codeHash : String
  expiresAt : Int
deriving DecidableEq

structure RecoveryCode where
  id : Int
  userId : Int
  codeHash : String
  used : Bool := false
deriving DecidableEq

structure DisableRequest where
  token : String
  userId : Int
  expiresAt : Int
deriving DecidableEq

structure AuthorizationCode where
  codeHash : String
  appId : Int
  userId : Int
  redirectUri : String
  codeChallenge : Option String
  expiresAt : Int
deriving DecidableEq

structure MisskeySession where
  tokenHash : String
  appId : Int
  userId : Option Int := none
  expiresAt : Int
deriving DecidableEq

structure RefreshToken where
  jti : String
  actorId : Int
  expiresAt : Int
  revoked : Bool := false
deriving DecidableEq

inductive Credential where
  | shortCode (id : Int)
  | recoveryCode (id : Int)
  | disableToken (token : String)
  | authorizationCode (codeHash : String)
  | misskeySession (tokenHash : String)
  | refreshToken (jti : String)
deriving DecidableEq

/-- What a request that has read a credential does next -/
inductive Task where
  /-- The second statement of `consume` -/
  | deleteShortCodes (actorId : Int) (purpose : String) (read : List Int) (matched : Option Int)
    (readAt : Int)
  | markRecoveryCodeUsed (id : Int)
  /-- `revoke_refresh_token`, in `refreshSession` -/
  | revokeRefreshToken (jti : String) (readAt : Int)
deriving DecidableEq

structure State where
  now : Int := 0
  shortCodes : List ShortCode := []
  recoveryCodes : List RecoveryCode := []
  disableRequests : List DisableRequest := []
  authorizationCodes : List AuthorizationCode := []
  misskeySessions : List MisskeySession := []
  refreshTokens : List RefreshToken := []
  tasks : List Task := []
  failed : List Task := []
  issued : List (Credential × Option Int) := []
  /-- The credential of each request that succeeded, and when it was found to be good -/
  used : List (Credential × Int) := []
  /-- The short code that a guess was checked against, for each check -/
  guesses : List Int := []
deriving DecidableEq

/-- What `POST /oauth/token` is sent, of an app whose secret was checked -/
structure TokenParams where
  codeHash : String
  appId : Int
  redirectUri : String
  codeVerifier : Option String
  secretOk : Bool
deriving DecidableEq

structure Crypto where
  verifyPassword : (password hash : String) → Bool
  pkceMatches : (challenge verifier : String) → Bool

def AuthorizationCode.pkceOk (crypto : Crypto) (consumed : AuthorizationCode)
    (params : TokenParams) : Bool :=
  match consumed.codeChallenge, params.codeVerifier with
  | some challenge, some verifier => crypto.pkceMatches challenge verifier
  | some _, none => false
  | none, _ => params.secretOk

inductive Action where
  | tick (now : Int)
  | issueShortCode (code : ShortCode)
  /-- `revoke`, of the short codes -/
  | revokeShortCodes (actorId : Int) (purpose : String)
  /-- The first statement of `consume` -/
  | consumeShortCode (actorId : Int) (purpose codeHash : String)
  /-- `enable_with_recovery_codes`, with the ids and hashes -/
  | enableWithRecoveryCodes (userId : Int) (codes : List (Int × String))
  /-- `list_unused_recovery_codes`, and the search for the code -/
  | listUnusedRecoveryCodes (userId : Int) (code : String)
  | createDisableRequest (request : DisableRequest)
  | consumeDisableRequest (token : String)
  | deleteExpiredCodes
  | insertAuthorizationCode (code : AuthorizationCode)
  /-- `POST /oauth/token` -/
  | token (params : TokenParams)
  | deleteExpiredSessions
  | insertMisskeyAuthSession (session : MisskeySession)
  | approveMisskeyAuthSession (tokenHash : String) (userId : Int)
  /-- `auth/session/userkey` -/
  | sessionUserkey (tokenHash : String) (appId : Int)
  | insertRefreshToken (token : RefreshToken)
  /-- `find_valid_refresh_token_actor`, in `refreshSession` -/
  | findValidRefreshToken (jti : String)
  | deleteSession (jti : String)
  /-- The next statement of a request -/
  | next (task : Task)
  | fail (task : Task)
deriving DecidableEq

namespace State

variable (s : State)

/-- A new credential is written to its table. -/
def issue (credential : Credential) (expiresAt : Option Int) (write : State → State) :
    Option State :=
  if credential ∈ s.issued.map Prod.fst then none
  else some (write { s with issued := s.issued ++ [(credential, expiresAt)] })

def use (credential : Credential) (checkedAt : Int) : State :=
  { s with used := s.used ++ [(credential, checkedAt)] }

/-- `WHERE actor_id = $1 AND purpose = $2 AND expires_at > now()` -/
def pendingShortCodes (actorId : Int) (purpose : String) : List ShortCode :=
  s.shortCodes.filter fun c => c.actorId = actorId ∧ c.purpose = purpose ∧ s.now < c.expiresAt

/-- `DELETE FROM email_short_codes WHERE actor_id = $1 AND purpose = $2` -/
def deleteShortCodes (actorId : Int) (purpose : String) : State :=
  { s with shortCodes := s.shortCodes.filter fun c => ¬ (c.actorId = actorId ∧ c.purpose = purpose) }

def consumeShortCode (actorId : Int) (purpose codeHash : String) : State :=
  let pending := s.pendingShortCodes actorId purpose
  let read := pending.map ShortCode.id
  let matched := (pending.find? fun c => c.codeHash = codeHash).map ShortCode.id
  { s with
    guesses := s.guesses ++ read
    tasks := s.tasks ++ [.deleteShortCodes actorId purpose read matched s.now] }

def enableWithRecoveryCodes (userId : Int) (codes : List (Int × String)) : Option State :=
  let ids := codes.map fun c => Credential.recoveryCode c.1
  if ids.Nodup ∧ ∀ id ∈ ids, id ∉ s.issued.map Prod.fst then some { s with
    issued := s.issued ++ ids.map (·, none)
    recoveryCodes := (s.recoveryCodes.filter fun c => c.userId ≠ userId) ++
      codes.map fun c => ⟨c.1, userId, c.2, false⟩ }
  else none

def listUnusedRecoveryCodes (crypto : Crypto) (userId : Int) (code : String) : State :=
  let candidates := s.recoveryCodes.filter fun c => c.userId = userId ∧ ¬ c.used
  match candidates.find? fun c => crypto.verifyPassword code c.codeHash with
  | some c => { s with tasks := s.tasks ++ [.markRecoveryCodeUsed c.id] }
  | none => s

/-- `UPDATE … SET used_at = now() WHERE id = $1 AND used_at IS NULL` -/
def markRecoveryCodeUsed (id : Int) : State :=
  let isRow := fun c : RecoveryCode => decide (c.id = id ∧ ¬ c.used)
  if s.recoveryCodes.any isRow then
    { s with recoveryCodes := s.recoveryCodes.map fun c => if isRow c then { c with used := true } else c }.use
      (.recoveryCode id) s.now
  else s

/-- `DELETE … WHERE token = $1 AND expires_at > now() RETURNING user_id` -/
def consumeDisableRequest (token : String) : State :=
  let isRow := fun r : DisableRequest => decide (r.token = token ∧ s.now < r.expiresAt)
  match s.disableRequests.find? isRow with
  | some _ => { s with disableRequests := s.disableRequests.filter fun r => !isRow r }.use
      (.disableToken token) s.now
  | none => s

/-- `consume_authorization_code`, and what `token` checks then -/
def token (crypto : Crypto) (params : TokenParams) : State :=
  let isRow := fun c : AuthorizationCode =>
    decide (c.codeHash = params.codeHash ∧ c.appId = params.appId ∧ s.now ≤ c.expiresAt)
  match s.authorizationCodes.find? isRow with
  | some consumed =>
    let s' := { s with authorizationCodes := s.authorizationCodes.filter fun c => !isRow c }
    if consumed.redirectUri = params.redirectUri ∧ consumed.pkceOk crypto params then
      s'.use (.authorizationCode params.codeHash) s.now
    else s'
  | none => s

/-- `UPDATE … WHERE token_hash = $1 AND expires_at >= now() AND (user_id IS NULL OR user_id = $2)` -/
def approveMisskeyAuthSession (tokenHash : String) (userId : Int) : State :=
  { s with misskeySessions := s.misskeySessions.map fun r =>
    if r.tokenHash = tokenHash ∧ s.now ≤ r.expiresAt ∧ (r.userId = none ∨ r.userId = some userId) then
      { r with userId := some userId }
    else r }

/-- `consume_misskey_auth_session` -/
def sessionUserkey (tokenHash : String) (appId : Int) : State :=
  let isRow := fun r : MisskeySession =>
    decide (r.tokenHash = tokenHash ∧ r.appId = appId ∧ r.userId ≠ none ∧ s.now ≤ r.expiresAt)
  match s.misskeySessions.find? isRow with
  | some _ => { s with misskeySessions := s.misskeySessions.filter fun r => !isRow r }.use
      (.misskeySession tokenHash) s.now
  | none => s

/-- `WHERE jti = $1 AND revoked_at IS NULL AND expires_at > now()` -/
def findValidRefreshToken (jti : String) : State :=
  match s.refreshTokens.find? fun t => t.jti = jti ∧ ¬ t.revoked ∧ s.now < t.expiresAt with
  | some _ => { s with tasks := s.tasks ++ [.revokeRefreshToken jti s.now] }
  | none => s

/-- `UPDATE atp_refresh_tokens SET revoked_at = now() WHERE jti = $1` -/
def revokeRefreshToken (jti : String) : State :=
  { s with refreshTokens := s.refreshTokens.map fun t =>
    if t.jti = jti then { t with revoked := true } else t }

def dequeue (task : Task) : State :=
  { s with tasks := s.tasks.erase task }

def next : Task → State
  | .deleteShortCodes actorId purpose _ matched readAt =>
    let s' := s.deleteShortCodes actorId purpose
    match matched with
    | some id => s'.use (.shortCode id) readAt
    | none => s'
  | .markRecoveryCodeUsed id => s.markRecoveryCodeUsed id
  | .revokeRefreshToken jti readAt => (s.revokeRefreshToken jti).use (.refreshToken jti) readAt

end State

def step (crypto : Crypto) (s : State) : Action → Option State
  | .tick now => if s.now ≤ now then some { s with now } else none
  | .issueShortCode code =>
    s.issue (.shortCode code.id) (some code.expiresAt) fun s =>
      { s with shortCodes := s.shortCodes ++ [code] }
  | .revokeShortCodes actorId purpose => some (s.deleteShortCodes actorId purpose)
  | .consumeShortCode actorId purpose codeHash => some (s.consumeShortCode actorId purpose codeHash)
  | .enableWithRecoveryCodes userId codes => s.enableWithRecoveryCodes userId codes
  | .listUnusedRecoveryCodes userId code => some (s.listUnusedRecoveryCodes crypto userId code)
  | .createDisableRequest request =>
    s.issue (.disableToken request.token) (some request.expiresAt) fun s =>
      { s with disableRequests := s.disableRequests ++ [request] }
  | .consumeDisableRequest token => some (s.consumeDisableRequest token)
  | .deleteExpiredCodes => some { s with
      authorizationCodes := s.authorizationCodes.filter fun c => s.now ≤ c.expiresAt }
  | .insertAuthorizationCode code =>
    s.issue (.authorizationCode code.codeHash) (some code.expiresAt) fun s =>
      { s with authorizationCodes := s.authorizationCodes ++ [code] }
  | .token params => some (s.token crypto params)
  | .deleteExpiredSessions => some { s with
      misskeySessions := s.misskeySessions.filter fun r => s.now ≤ r.expiresAt }
  | .insertMisskeyAuthSession session =>
    s.issue (.misskeySession session.tokenHash) (some session.expiresAt) fun s =>
      { s with misskeySessions := s.misskeySessions ++ [{ session with userId := none }] }
  | .approveMisskeyAuthSession tokenHash userId =>
    some (s.approveMisskeyAuthSession tokenHash userId)
  | .sessionUserkey tokenHash appId => some (s.sessionUserkey tokenHash appId)
  | .insertRefreshToken token =>
    s.issue (.refreshToken token.jti) (some token.expiresAt) fun s =>
      { s with refreshTokens := s.refreshTokens ++ [{ token with revoked := false }] }
  | .findValidRefreshToken jti => some (s.findValidRefreshToken jti)
  | .deleteSession jti => some (s.revokeRefreshToken jti)
  | .next task =>
    if task ∈ s.tasks then some ((s.dequeue task).next task) else none
  | .fail task =>
    if task ∈ s.tasks then some { s.dequeue task with failed := s.failed ++ [task] } else none

def machine (crypto : Crypto) : Machine State Action := ⟨step crypto⟩

/-- One success for each credential, before it expires, and one guess for each short code -/
structure UsedOnce (s : State) : Prop where
  once : (s.used.map Prod.fst).Nodup
  wasIssued : ∀ {c t}, (c, t) ∈ s.used → c ∈ s.issued.map Prod.fst
  inTime : ∀ {c t e}, (c, t) ∈ s.used → (c, some e) ∈ s.issued → t ≤ e
  oneGuess : s.guesses.Nodup

/-- The request has read the short code and is yet to delete it. -/
def Task.HasRead (id : Int) : Task → Prop
  | .deleteShortCodes _ _ read _ _ => id ∈ read
  | _ => False

/-- The request has found the refresh token and is yet to revoke it. -/
def Task.Revokes (jti : String) : Task → Prop
  | .revokeRefreshToken jti' _ => jti' = jti
  | _ => False

instance (id : Int) (task : Task) : Decidable (task.HasRead id) := by
  cases task <;> unfold Task.HasRead <;> infer_instance

instance (jti : String) (task : Task) : Decidable (task.Revokes jti) := by
  cases task <;> unfold Task.Revokes <;> infer_instance

/-- What the action reads has not been read by a request that is between its two
statements, or that failed there with the short code left behind. -/
def Alone (s : State) : Action → Prop
  | .consumeShortCode actorId purpose _ =>
    ∀ c ∈ s.pendingShortCodes actorId purpose, ∀ task ∈ s.tasks ++ s.failed, ¬ task.HasRead c.id
  | .findValidRefreshToken jti => ∀ task ∈ s.tasks, ¬ task.Revokes jti
  | _ => True

instance (s : State) (a : Action) : Decidable (Alone s a) := by
  cases a <;> unfold Alone <;> infer_instance

end Seiran.OneTime
