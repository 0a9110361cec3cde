import Mathlib.Data.List.Dedup
import Mathlib.Logic.Function.Basic
import Seiran.Framework.Run

/-!
# Quotas

The checks of `rate_limit.rs` on posts, follows, searches, contacts and new accounts, with
`rate_limit_log.rs` and `reserve_account_creation`, and the requests around them. A
statement is one step, and so is what a transaction does under the advisory lock. A request
waits in `tasks` for its next step, and may fail there.

* Times are microseconds of one clock; `now()` of a transaction is when it began.
* Who has which role stays as it is, and so do the settings: a `Quota` gives the maximum of
  an actor, if it has one.
* A `Registration` is a row of `account_creation_log`, with its position as the id. Where
  its request has come to is its `Phase`; the row is gone once it is cancelled.
* An address that is not known has no quota, and no registration here.
-/

namespace Seiran.Quotas

structure Quota where
  max : Int → Option Int
  window : Int

structure Config where
  posts : Quota
  follows : Quota
  searches : Quota
  contacts : Quota
  maxAccounts : Int
  accountWindow : Int

/-- A row of `posts` or of `search_log` -/
structure Entry where
  actor : Int
  createdAt : Int
deriving DecidableEq

/-- A row of `follows` or of `user_contact_log` -/
structure Pair where
  actor : Int
  target : Int
  createdAt : Int
deriving DecidableEq

structure Registration where
  id : Nat
  ip : String
  createdAt : Int
deriving DecidableEq

inductive Phase where
  | reserved
  | created
  | failed (created : Bool)
  | cancelled (created : Bool)
deriving DecidableEq

/-- Whether the row of the registration is still there -/
def Phase.logged : Phase → Bool
  | .cancelled _ => false
  | _ => true

/-- Whether the account was created -/
def Phase.performed : Phase → Bool
  | .created | .failed true | .cancelled true => true
  | _ => false

inductive Task where
  | readPostClock (actor createdAt : Int)
  /-- `count_posts_since` -/
  | countPosts (actor createdAt since : Int)
  | writePost (actor createdAt : Int)
  /-- `check_follow_rate_limit` -/
  | countFollows (actor target since : Int)
  | beginFollow (actor target : Int)
  | writeFollow (actor target createdAt : Int)
  /-- `record_search_if_under_limit` -/
  | beginSearch (actor since : Int)
  | recordSearch (actor since createdAt : Int)
  /-- `record_contacts_if_under_limit` -/
  | beginContacts (actor : Int) (targets : List Int) (since : Int)
  | recordContacts (actor : Int) (targets : List Int) (since createdAt : Int)
  /-- `reserve_account_creation` -/
  | beginReservation (ip : String) (since : Int)
  | reserve (ip : String) (since createdAt : Int)
deriving DecidableEq

structure State where
  now : Int := 0
  posts : List Entry := []
  follows : List Pair := []
  searchLog : List Entry := []
  userContactLog : List Pair := []
  registrations : List Registration := []
  phase : Nat → Phase := fun _ => .reserved
  tasks : List Task := []
  /-- The follows that were begun: the rows of `follows`, with those that were deleted -/
  followed : List Pair := []
  /-- The contacts that were let through -/
  contacted : List Pair := []

inductive Action where
  | tick (now : Int)
  | createRegularPost (actor : Int)
  /-- A post without a check: a repost, or a record of another client -/
  | insertPost (actor createdAt : Int)
  | createFollow (actor target : Int)
  /-- A follow without a check: that of an account that has moved -/
  | insertFollow (actor target : Int)
  | deleteFollow (actor target : Int)
  | search (actor : Int)
  /-- `check_and_record_contacts` -/
  | contact (actor : Int) (targets : List Int)
  | register (ip : String)
  | createAccount (id : Nat)
  | failRegistration (id : Nat)
  | cancelAccountCreation (id : Nat)
  | next (task : Task)
  | fail (task : Task)
deriving DecidableEq

namespace State

variable (c : Config) (s : State)

def push (task : Task) : State := { s with tasks := s.tasks ++ [task] }

def drop (task : Task) : State := { s with tasks := s.tasks.erase task }

def postsSince (actor since : Int) : Nat :=
  (s.posts.filter fun r => r.actor = actor ∧ since ≤ r.createdAt).length

def followsSince (actor since : Int) : Nat :=
  (s.follows.filter fun r => r.actor = actor ∧ since ≤ r.createdAt).length

def searchesSince (actor since : Int) : Nat :=
  (s.searchLog.filter fun r => r.actor = actor ∧ since ≤ r.createdAt).length

/-- `SELECT DISTINCT target_actor_id` -/
def contactsSince (actor since : Int) : List Int :=
  ((s.userContactLog.filter fun r => r.actor = actor ∧ since ≤ r.createdAt).map Pair.target).dedup

def registrationsSince (ip : String) (since : Int) : Nat :=
  (s.registrations.filter fun r =>
    r.ip = ip ∧ since ≤ r.createdAt ∧ (s.phase r.id).logged).length

def writeFollow (actor target createdAt : Int) : State :=
  if s.follows.any fun r => r.actor = actor ∧ r.target = target then s
  else { s with
    follows := s.follows ++ [⟨actor, target, createdAt⟩]
    followed := s.followed ++ [⟨actor, target, createdAt⟩] }

/-- `record_contacts_if_under_limit`, under the lock of the actor -/
def recordContacts (max : Int) (actor : Int) (targets : List Int) (since createdAt : Int) : State :=
  let existing := s.contactsSince actor since
  let newTargets := targets.filter fun t => t ∉ existing
  if max < existing.length + newTargets.length then s
  else { s with
    userContactLog := s.userContactLog ++ newTargets.map fun t => ⟨actor, t, createdAt⟩
    contacted := s.contacted ++ targets.map fun t => ⟨actor, t, createdAt⟩ }

/-- The step that waits, and what waits after it -/
def next : Task → State
  | .readPostClock actor createdAt => s.push (.countPosts actor createdAt (s.now - c.posts.window))
  | .countPosts actor createdAt since =>
    match c.posts.max actor with
    | some max =>
      if max ≤ s.postsSince actor since then s else s.push (.writePost actor createdAt)
    | none => s.push (.writePost actor createdAt)
  | .writePost actor createdAt => { s with posts := s.posts ++ [⟨actor, createdAt⟩] }
  | .countFollows actor target since =>
    match c.follows.max actor with
    | some max =>
      if max ≤ s.followsSince actor since then s else s.push (.beginFollow actor target)
    | none => s.push (.beginFollow actor target)
  | .beginFollow actor target => s.push (.writeFollow actor target s.now)
  | .writeFollow actor target createdAt => s.writeFollow actor target createdAt
  | .beginSearch actor since => s.push (.recordSearch actor since s.now)
  | .recordSearch actor since createdAt =>
    match c.searches.max actor with
    | some max =>
      if max ≤ s.searchesSince actor since then s
      else { s with searchLog := s.searchLog ++ [⟨actor, createdAt⟩] }
    | none => s
  | .beginContacts actor targets since => s.push (.recordContacts actor targets since s.now)
  | .recordContacts actor targets since createdAt =>
    match c.contacts.max actor with
    | some max => s.recordContacts max actor targets since createdAt
    | none => s
  | .beginReservation ip since => s.push (.reserve ip since s.now)
  | .reserve ip since createdAt =>
    if c.maxAccounts ≤ s.registrationsSince ip since then s
    else { s with registrations := s.registrations ++ [⟨s.registrations.length, ip, createdAt⟩] }

def setPhase (id : Nat) (phase : Phase) : State :=
  { s with phase := Function.update s.phase id phase }

end State

def step (c : Config) (s : State) : Action → Option State
  | .tick now => if s.now ≤ now then some { s with now } else none
  | .createRegularPost actor => some (s.push (.readPostClock actor s.now))
  | .insertPost actor createdAt => some { s with posts := s.posts ++ [⟨actor, createdAt⟩] }
  | .createFollow actor target => some (s.push (.countFollows actor target (s.now - c.follows.window)))
  | .insertFollow actor target => some (s.writeFollow actor target s.now)
  | .deleteFollow actor target => some { s with
      follows := s.follows.filter fun r => ¬ (r.actor = actor ∧ r.target = target) }
  | .search actor => some (s.push (.beginSearch actor (s.now - c.searches.window)))
  | .contact actor targets =>
    let targets := (targets.filter fun t => t ≠ actor).dedup
    if targets = [] then some s
    else some (s.push (.beginContacts actor targets (s.now - c.contacts.window)))
  | .register ip => some (s.push (.beginReservation ip (s.now - c.accountWindow)))
  | .createAccount id =>
    if id < s.registrations.length ∧ s.phase id = .reserved then some (s.setPhase id .created)
    else none
  | .failRegistration id =>
    if id < s.registrations.length then
      match s.phase id with
      | .reserved => some (s.setPhase id (.failed false))
      | .created => some (s.setPhase id (.failed true))
      | _ => none
    else none
  | .cancelAccountCreation id =>
    match s.phase id with
    | .failed created => some (s.setPhase id (.cancelled created))
    | _ => none
  | .next task => if task ∈ s.tasks then some ((s.drop task).next c task) else none
  | .fail task => if task ∈ s.tasks then some (s.drop task) else none

def machine (c : Config) : Machine State Action := ⟨step c⟩

/-! ## The bounds -/

/-- For every actor or address and every window, wherever it opens -/
structure Bounded (c : Config) (s : State) : Prop where
  posts : ∀ {actor max}, c.posts.max actor = some max → ∀ opens,
    (s.posts.filter fun r => r.actor = actor ∧ opens ≤ r.createdAt ∧
      r.createdAt ≤ opens + c.posts.window).length ≤ max.toNat
  follows : ∀ {actor max}, c.follows.max actor = some max → ∀ opens,
    (s.followed.filter fun r => r.actor = actor ∧ opens ≤ r.createdAt ∧
      r.createdAt ≤ opens + c.follows.window).length ≤ max.toNat
  searches : ∀ {actor max}, c.searches.max actor = some max → ∀ opens,
    (s.searchLog.filter fun r => r.actor = actor ∧ opens ≤ r.createdAt ∧
      r.createdAt ≤ opens + c.searches.window).length ≤ max.toNat
  contacts : ∀ {actor max}, c.contacts.max actor = some max → ∀ opens,
    ((s.contacted.filter fun r => r.actor = actor ∧ opens ≤ r.createdAt ∧
      r.createdAt ≤ opens + c.contacts.window).map Pair.target).dedup.length ≤ max.toNat
  accounts : ∀ ip opens, (s.registrations.filter fun r => (r.ip = ip ∧ (s.phase r.id).performed) ∧
    opens ≤ r.createdAt ∧ r.createdAt ≤ opens + c.accountWindow).length ≤ c.maxAccounts.toNat

/-- The post was let through and is yet to be inserted. -/
def Task.Posts (actor : Int) : Task → Prop
  | .writePost a _ => a = actor
  | _ => False

/-- The follow was let through and is yet to be inserted. -/
def Task.Follows (actor : Int) : Task → Prop
  | .beginFollow a _ | .writeFollow a _ _ => a = actor
  | _ => False

instance (actor : Int) (task : Task) : Decidable (task.Posts actor) := by
  cases task <;> unfold Task.Posts <;> infer_instance

instance (actor : Int) (task : Task) : Decidable (task.Follows actor) := by
  cases task <;> unfold Task.Follows <;> infer_instance

/-- What keeps to the quotas. Of an actor that has one: it has no other request between
the check and the insert when one is checked, and a post without a check finds room; no
follow is deleted within its window; no target is contacted again within the window. And a
registration is not cancelled with its account created. -/
def Orderly (c : Config) (s : State) : Action → Prop
  | .next (.countPosts actor createdAt since) => (c.posts.max actor).isSome →
    (∀ task ∈ s.tasks, ¬ task.Posts actor) ∧
      ∀ r ∈ s.posts, r.actor = actor → createdAt - c.posts.window ≤ r.createdAt →
        since ≤ r.createdAt
  | .insertPost actor createdAt => ∀ max ∈ c.posts.max actor,
    (∀ task ∈ s.tasks, ¬ task.Posts actor) ∧
      s.postsSince actor (createdAt - c.posts.window) < max
  | .next (.countFollows actor _ _) => (c.follows.max actor).isSome →
    ∀ task ∈ s.tasks, ¬ task.Follows actor
  | .insertFollow actor _ => ∀ max ∈ c.follows.max actor,
    (∀ task ∈ s.tasks, ¬ task.Follows actor) ∧
      s.followsSince actor (s.now - c.follows.window) < max
  | .deleteFollow actor target => (c.follows.max actor).isSome →
    ∀ r ∈ s.follows, r.actor = actor → r.target = target →
      r.createdAt < s.now - c.follows.window
  | .next (.recordContacts actor targets since _) => (c.contacts.max actor).isSome →
    ∀ t ∈ targets, t ∉ s.contactsSince actor since
  | .cancelAccountCreation id => s.phase id ≠ .failed true
  | _ => True

instance (c : Config) (s : State) (x : Action) : Decidable (Orderly c s x) := by
  cases x with
  | next task => cases task <;> unfold Orderly <;> infer_instance
  | _ => unfold Orderly; infer_instance

end Seiran.Quotas
