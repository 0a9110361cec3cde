import Mathlib.Data.List.Dedup
import Seiran.Framework.Run

/-!
# Attempts at passwords and codes

`login` (`handlers/auth.rs`), `xrpc_create_session` (`xrpc/server.rs`) and `totp_verify`
(`handlers/totp.rs`), with `check_and_record_credential_attempt` of `rate_limit.rs` and the
statements of `auth_rate_limit.rs`. A statement is one step, and a request waits in `tasks`
for its next one; one that fails is a request whose next step never comes (or whose
`verify` is dropped).

* Times are microseconds of one clock. The users and actors stay as they are.
* The ids of `auth_attempt_log` are its positions. A row keeps the attempt it was made for,
  next to the hashes, and `rejected` are the ids of the rows that are marked.
* `Text` has the functions on texts that are not written out: Rust's `to_lowercase` and
  `trim`, `LOWER` of the database, and `keyed_hash` under the pepper.
* Whether the secret is right, and whether the login ends with it (no code is asked for
  then), is left to the action `verify`.
-/

namespace Seiran.Attempts

structure Text where
  toLowercase : String → String
  trim : String → String
  lower : String → String
  keyedHash : String → String

structure Settings where
  bruteforceWindow : Int
  maxVariants : Int
  ipBlockWindow : Int
  ipBlockThreshold : Int
  ipBlockDuration : Int
deriving DecidableEq

structure User where
  id : Int
  email : String
  hasPassword : Bool
deriving DecidableEq

structure Actor where
  id : Int
  userId : Option Int
  isLocal : Bool
  username : String
  domain : String
  atDid : Option String
  withdrawn : Bool
deriving DecidableEq

/-- `users` and `actors`. Only local actors have users, and local usernames are unique. -/
structure Directory where
  users : List User
  actors : List Actor
  localDomain : String
  local_of_user : ∀ a ∈ actors, a.userId ≠ none → a.isLocal = true
  username_unique : ∀ a ∈ actors, ∀ b ∈ actors, a.isLocal = true → b.isLocal = true →
    a.username = b.username → a = b

inductive AttemptKind where
  | login
  | totp
deriving DecidableEq

inductive Handler where
  | login
  | createSession
  | totpVerify
deriving DecidableEq

def Handler.kind : Handler → AttemptKind
  | .login | .createSession => .login
  | .totpVerify => .totp

/-- What a handler checks and records. `userId` is whose window it is, and `accounts` are
those whose password or code the secret will be verified against. -/
structure Attempt where
  handler : Handler
  userId : Option Int
  accounts : List Int
  identifier : String
  secret : String
  ip : Option String
deriving DecidableEq

/-- `auth_attempt_log` -/
structure LogRow where
  id : Nat
  kind : AttemptKind
  identifierHash : String
  secretHash : String
  ipAddress : Option String
  createdAt : Int
  attempt : Attempt
deriving DecidableEq

/-- The next statement of a request -/
inductive Stage where
  /-- `window_reset_at` -/
  | findLastUsedAt
  | findLastLoginSuccessAt (lastReset : Option Int)
  | readClock (windowResetAt : Option Int)
  | recordAttempt (windowStart identifierSince : Int)
  | countDistinctSecrets (logId : Nat) (windowStart identifierSince : Int)
  | countDistinctIdentifiers (logId : Nat) (windowStart : Int) (variantsByIdentifier : Nat)
  | markRejected (logId : Nat)
  | countRecentRejectionsByIp (ip : String)
  | blockIp (ip : String) (blockedUntil : Int)
  /-- The check has passed. -/
  | verify (logId : Nat)
  /-- `touch_last_login_success`, of `finish_login` -/
  | finishLogin (userId : Int)
deriving DecidableEq

structure State where
  now : Int := 0
  log : List LogRow := []
  rejected : List Nat := []
  ipBlocks : List (String × Int) := []
  /-- The values that `last_login_success_at` of a user has had -/
  logins : List (Int × Int) := []
  /-- `user_id` and `used_at` of the resets that were completed -/
  passwordResets : List (Int × Int) := []
  tasks : List (Attempt × Stage) := []
  /-- The rows of the attempts that were verified -/
  verified : List Nat := []
deriving DecidableEq

namespace Directory

variable (d : Directory)

/-- `WHERE u.email = $1 AND a.withdrawn_at IS NULL` -/
def findLoginByEmail (email : String) : Option User :=
  d.users.find? fun u => u.email = email ∧
    ∃ a ∈ d.actors, a.userId = some u.id ∧ a.isLocal ∧ ¬ a.withdrawn

/-- `WHERE a.username = $1 AND a.withdrawn_at IS NULL` -/
def findLoginByUsername (username : String) : Option User :=
  d.users.find? fun u =>
    ∃ a ∈ d.actors, a.userId = some u.id ∧ a.isLocal ∧ a.username = username ∧ ¬ a.withdrawn

def findByDid (did : String) : Option Actor :=
  d.actors.find? fun a => a.atDid = some did

/-- `WHERE LOWER(username) = LOWER($1) AND domain = $2 AND withdrawn_at IS NULL` -/
def findByUsernameDomain (t : Text) (username domain : String) : Option Actor :=
  d.actors.find? fun a => t.lower a.username = t.lower username ∧ a.domain = domain ∧ ¬ a.withdrawn

/-- The username of `email_and_local_username` -/
def localUsername (userId : Int) : Option String :=
  (d.actors.find? fun a => a.userId = some userId ∧ a.isLocal).map Actor.username

end Directory

def stripSuffix (s suffix : String) : Option String :=
  if suffix.toList.isSuffixOf s.toList then
    some (String.ofList (s.toList.take (s.toList.length - suffix.toList.length)))
  else none

/-- `login`, up to the check -/
def login (d : Directory) (identifier password : String) (ip : Option String) : Attempt :=
  let row := if '@' ∈ identifier.toList then d.findLoginByEmail identifier
    else d.findLoginByUsername identifier
  match row with
  | some u =>
    if u.hasPassword then ⟨.login, some u.id, [u.id], identifier, password, ip⟩
    else ⟨.login, none, [], identifier, password, ip⟩
  | none => ⟨.login, none, [], identifier, password, ip⟩

/-- The actor that `xrpc_create_session` finds -/
def sessionActor (t : Text) (d : Directory) (identifier : String) : Option Actor :=
  let actor := match d.findByDid identifier with
    | some a => some a
    | none =>
      let username := (stripSuffix identifier ("." ++ d.localDomain)).getD identifier
      d.findByUsernameDomain t username d.localDomain
  actor.filter fun a => a.atDid.isSome

/-- `xrpc_create_session`, up to the check. The app passwords are those of the actor, and
the main password that of its username. -/
def createSession (t : Text) (d : Directory) (identifier password : String) (ip : Option String) :
    Attempt :=
  let identifier := t.trim identifier
  match sessionActor t d identifier with
  | some a =>
    let main := (d.findLoginByUsername a.username).filter User.hasPassword
    ⟨.createSession, a.userId, a.userId.toList ++ (main.map User.id).toList, identifier, password, ip⟩
  | none => ⟨.createSession, none, [], identifier, password, ip⟩

/-- `totp_verify`, up to the check -/
def totpVerify (d : Directory) (userId : Int) (code : String) (ip : Option String) : Option Attempt :=
  (d.localUsername userId).map fun username =>
    ⟨.totpVerify, some userId, [userId], username, code, ip⟩

inductive Action where
  | tick (now : Int)
  | login (identifier password : String) (ip : Option String)
  | createSession (identifier password : String) (ip : Option String)
  | totpVerify (userId : Int) (code : String) (ip : Option String)
  | next (attempt : Attempt) (stage : Stage)
  | verify (attempt : Attempt) (logId : Nat) (ends : Bool)
  /-- `consume_and_update_password` -/
  | resetPassword (userId : Int)
  | unblockIp (ip : String)
deriving DecidableEq

namespace State

variable (t : Text) (c : Settings) (s : State)

def push (attempt : Attempt) (stage : Stage) : State :=
  { s with tasks := s.tasks ++ [(attempt, stage)] }

def drop (attempt : Attempt) (stage : Stage) : State :=
  { s with tasks := s.tasks.erase (attempt, stage) }

/-- `find_active_ip_block` -/
def ipBlocked : Option String → Bool
  | some ip => s.ipBlocks.any fun b => b.1 = ip ∧ s.now < b.2
  | none => false

/-- `check_ip_not_blocked`, and the first statement of the check -/
def start (attempt : Attempt) : Option State :=
  if s.ipBlocked attempt.ip then none
  else match attempt.userId with
    | some _ => some (s.push attempt .findLastUsedAt)
    | none => some (s.push attempt (.readClock none))

/-- `find_last_used_at` -/
def findLastUsedAt (userId : Int) : Option Int :=
  (s.passwordResets.filter fun r => r.1 = userId).getLast?.map Prod.snd

def findLastLoginSuccessAt (userId : Int) : Option Int :=
  (s.logins.filter fun r => r.1 = userId).getLast?.map Prod.snd

def recordAttempt (attempt : Attempt) : LogRow where
  id := s.log.length
  kind := attempt.handler.kind
  identifierHash := t.keyedHash (t.toLowercase attempt.identifier)
  secretHash := t.keyedHash attempt.secret
  ipAddress := attempt.ip
  createdAt := s.now
  attempt := attempt

end State

/-- `count_distinct_secrets` -/
def countDistinctSecrets (log : List LogRow) (kind : AttemptKind) (identifierHash : String)
    (since : Int) : Nat :=
  ((log.filter fun r => r.kind = kind ∧ r.identifierHash = identifierHash ∧ since ≤ r.createdAt).map
    LogRow.secretHash).dedup.length

/-- `count_distinct_identifiers` -/
def countDistinctIdentifiers (log : List LogRow) (kind : AttemptKind) (secretHash : String)
    (since : Int) : Nat :=
  ((log.filter fun r => r.kind = kind ∧ r.secretHash = secretHash ∧ since ≤ r.createdAt).map
    LogRow.identifierHash).dedup.length

/-- The later of the two times, of `window_reset_at` -/
def later : Option Int → Option Int → Option Int
  | some a, some b => some (max a b)
  | some a, none => some a
  | none, b => b

def identifierSince (windowStart : Int) : Option Int → Int
  | some r => if windowStart < r then r else windowStart
  | none => windowStart

namespace State

variable (t : Text) (c : Settings) (s : State)

/-- The statement of a request, and what waits after it -/
def next (a : Attempt) : Stage → State
  | .findLastUsedAt => s.push a (.findLastLoginSuccessAt (a.userId.bind s.findLastUsedAt))
  | .findLastLoginSuccessAt lastReset =>
    s.push a (.readClock (later lastReset (a.userId.bind s.findLastLoginSuccessAt)))
  | .readClock windowResetAt =>
    let windowStart := s.now - c.bruteforceWindow
    s.push a (.recordAttempt windowStart (identifierSince windowStart windowResetAt))
  | .recordAttempt windowStart identifierSince =>
    { s with log := s.log ++ [s.recordAttempt t a] }.push a
      (.countDistinctSecrets s.log.length windowStart identifierSince)
  | .countDistinctSecrets logId windowStart identifierSince =>
    s.push a (.countDistinctIdentifiers logId windowStart (Attempts.countDistinctSecrets s.log
      a.handler.kind (t.keyedHash (t.toLowercase a.identifier)) identifierSince))
  | .countDistinctIdentifiers logId windowStart variantsByIdentifier =>
    let variantsBySecret := Attempts.countDistinctIdentifiers s.log a.handler.kind
      (t.keyedHash a.secret) windowStart
    if c.maxVariants < variantsByIdentifier ∨ c.maxVariants < variantsBySecret then
      s.push a (.markRejected logId)
    else s.push a (.verify logId)
  | .markRejected logId =>
    let s' := { s with rejected := s.rejected ++ [logId] }
    match a.ip with
    | some ip => s'.push a (.countRecentRejectionsByIp ip)
    | none => s'
  | .countRecentRejectionsByIp ip =>
    let since := s.now - c.ipBlockWindow
    let rejections := s.log.countP fun r =>
      r.ipAddress = some ip ∧ r.id ∈ s.rejected ∧ since ≤ r.createdAt
    if c.ipBlockThreshold ≤ rejections then s.push a (.blockIp ip (s.now + c.ipBlockDuration)) else s
  | .blockIp ip blockedUntil =>
    { s with ipBlocks := s.ipBlocks.filter (fun b => b.1 ≠ ip) ++ [(ip, blockedUntil)] }
  | .verify _ => s
  | .finishLogin userId => { s with logins := s.logins ++ [(userId, s.now)] }

/-- `verify_password` or `verify_code`, and what comes then -/
def verify (a : Attempt) (logId : Nat) (ends : Bool) : State :=
  let s' := { s with verified := s.verified ++ [logId] }
  match a.handler, a.userId, ends with
  | .login, some u, true | .totpVerify, some u, true => s'.push a (.finishLogin u)
  | _, _, _ => s'

end State

def step (t : Text) (c : Settings) (d : Directory) (s : State) : Action → Option State
  | .tick now => if s.now ≤ now then some { s with now } else none
  | .login identifier password ip => s.start (login d identifier password ip)
  | .createSession identifier password ip => s.start (createSession t d identifier password ip)
  | .totpVerify userId code ip => (totpVerify d userId code ip).bind s.start
  | .next attempt stage =>
    if (attempt, stage) ∈ s.tasks then some ((s.drop attempt stage).next t c attempt stage)
    else none
  | .verify attempt logId ends =>
    if (attempt, .verify logId) ∈ s.tasks then
      some ((s.drop attempt (.verify logId)).verify attempt logId ends)
    else none
  | .resetPassword userId => some { s with passwordResets := s.passwordResets ++ [(userId, s.now)] }
  | .unblockIp ip => some { s with ipBlocks := s.ipBlocks.filter fun b => b.1 ≠ ip }

def machine (t : Text) (c : Settings) (d : Directory) : Machine State Action := ⟨step t c d⟩

/-! ## The bound -/

/-- What was verified for an attempt: a code without the blanks around it -/
def Attempt.guess (t : Text) (a : Attempt) : String :=
  match a.handler.kind with
  | .login => a.secret
  | .totp => t.trim a.secret

/-- The attempts on the account that were verified and that were recorded in the window
from `opens` on -/
def guesses (c : Settings) (s : State) (account : Int) (kind : AttemptKind) (opens : Int) :
    List LogRow :=
  s.log.filter fun r => r.id ∈ s.verified ∧ account ∈ r.attempt.accounts ∧ r.kind = kind ∧
    opens ≤ r.createdAt ∧ r.createdAt ≤ opens + c.bruteforceWindow

/-- No login to the account succeeded in the window from `opens` on, and no reset of its
password was completed there, which begins another window (`window_reset_at`). -/
def Quiet (c : Settings) (s : State) (account opens : Int) : Prop :=
  ∀ e ∈ s.logins ++ s.passwordResets, e.1 = account →
    ¬ (opens ≤ e.2 ∧ e.2 ≤ opens + c.bruteforceWindow)

instance (c : Settings) (s : State) (account opens : Int) : Decidable (Quiet c s account opens) :=
  List.decidableBAll _ _

/-- At most the configured number of passwords, and of codes, is verified against any
account in any window. -/
def Bounded (t : Text) (c : Settings) (s : State) : Prop :=
  ∀ account kind opens, Quiet c s account opens →
    ((guesses c s account kind opens).map fun r => r.attempt.guess t).dedup.length ≤
      c.maxVariants.toNat

/-- A password is recorded under the same name as those recorded for the same account in
the window before it. -/
def OneName (t : Text) (c : Settings) (s : State) : Action → Prop
  | .next attempt (.recordAttempt _ _) => attempt.handler.kind = .login →
    ∀ r ∈ s.log, r.kind = .login → s.now - c.bruteforceWindow ≤ r.createdAt →
      (∃ account ∈ r.attempt.accounts, account ∈ attempt.accounts) →
      t.toLowercase r.attempt.identifier = t.toLowercase attempt.identifier
  | _ => True

instance (t : Text) (c : Settings) (s : State) (x : Action) : Decidable (OneName t c s x) := by
  cases x with
  | next attempt stage =>
    cases stage with
    | recordAttempt => exact instDecidableForall
    | _ => exact instDecidableTrue
  | _ => exact instDecidableTrue

end Seiran.Attempts
