import Mathlib.Algebra.Order.Ring.Int
import Seiran.Framework.Window
import Seiran.Model.Auth.Attempts

/-!
# The bound on attempts

* `made_user`, `made_totp`: whose window it is where an attempt is checked, and under which
  name a code is recorded;
* `sound_step`: the attempts that passed were counted with those recorded before them;
* `bounded_of_oneName`: the bound, in a run in which the passwords that are tried for an
  account are recorded under one name;
* `bounded_counterexample`: the username and the e-mail address of an account.
-/

namespace Seiran.Attempts

variable {t : Text} {c : Settings} {d : Directory}

/-! ## What the handlers check -/

def Made (t : Text) (d : Directory) (a : Attempt) : Prop :=
  (∃ identifier password ip, a = login d identifier password ip) ∨
    (∃ identifier password ip, a = createSession t d identifier password ip) ∨
      ∃ userId code ip, totpVerify d userId code ip = some a

theorem login_user {identifier password : String} {ip : Option String} {u account : Int}
    (hu : (login d identifier password ip).userId = some u)
    (hmem : account ∈ (login d identifier password ip).accounts) : account = u := by
  simp only [login] at hu hmem
  split at hu
  case h_1 v heq =>
    split at hu
    case isTrue hpass =>
      simp only [heq, hpass, if_true, List.mem_singleton] at hmem
      cases hu
      exact hmem
    case isFalse => cases hu
  case h_2 => cases hu

theorem sessionActor_mem {identifier : String} {a : Actor}
    (ha : sessionActor t d identifier = some a) : a ∈ d.actors := by
  simp only [sessionActor] at ha
  have ha' := (Option.filter_eq_some_iff.mp ha).1
  split at ha'
  case h_1 a' heq =>
    cases ha'
    exact List.mem_of_find?_eq_some heq
  case h_2 => exact List.mem_of_find?_eq_some ha'

/-- The main password is that of the user of the actor, where it has one. -/
theorem findLoginByUsername_user {a : Actor} (ha : a ∈ d.actors) {u : Int} (hu : a.userId = some u)
    {v : User} (hv : d.findLoginByUsername a.username = some v) : v.id = u := by
  have hrow := List.find?_some hv
  simp only [decide_eq_true_eq] at hrow
  obtain ⟨b, hb, hbu, hlocal, hname, -⟩ := hrow
  have hlocal' : a.isLocal = true := d.local_of_user a ha (by rw [hu]; exact Option.some_ne_none u)
  have heq : b = a := d.username_unique b hb a ha hlocal hlocal' hname
  rw [heq, hu] at hbu
  exact (Option.some.inj hbu).symm

theorem createSession_user {identifier password : String} {ip : Option String} {u account : Int}
    (hu : (createSession t d identifier password ip).userId = some u)
    (hmem : account ∈ (createSession t d identifier password ip).accounts) : account = u := by
  simp only [createSession] at hu hmem
  split at hu
  case h_1 a heq =>
    have hu' : a.userId = some u := hu
    simp only [heq, List.mem_append, Option.mem_toList, Option.map_eq_some_iff,
      Option.filter_eq_some_iff] at hmem
    rcases hmem with hmem | ⟨v, ⟨hv, -⟩, hid⟩
    · rw [hu', Option.some.injEq] at hmem
      exact hmem.symm
    · rw [← hid]
      exact findLoginByUsername_user (sessionActor_mem heq) hu hv
  case h_2 => cases hu

theorem totpVerify_eq_some {userId : Int} {code : String} {ip : Option String} {a : Attempt}
    (ha : totpVerify d userId code ip = some a) : a.userId = some userId ∧ a.accounts = [userId] ∧
      a.handler = .totpVerify ∧ d.localUsername userId = some a.identifier := by
  obtain ⟨username, hname, rfl⟩ := Option.map_eq_some_iff.mp ha
  exact ⟨rfl, rfl, rfl, hname⟩

theorem made_user {a : Attempt} (ha : Made t d a) {u account : Int} (hu : a.userId = some u)
    (hmem : account ∈ a.accounts) : account = u := by
  rcases ha with ⟨_, _, _, rfl⟩ | ⟨_, _, _, rfl⟩ | ⟨userId, _, _, ha⟩
  · exact login_user hu hmem
  · exact createSession_user hu hmem
  · obtain ⟨huser, haccounts, -, -⟩ := totpVerify_eq_some ha
    rw [huser, Option.some.injEq] at hu
    rw [haccounts, List.mem_singleton] at hmem
    rw [hmem, hu]

theorem made_kind_totp {a : Attempt} (ha : Made t d a) (hkind : a.handler.kind = .totp) :
    ∃ userId, a.accounts = [userId] ∧ d.localUsername userId = some a.identifier := by
  rcases ha with ⟨_, _, _, rfl⟩ | ⟨_, _, _, rfl⟩ | ⟨userId, _, _, ha⟩
  · simp only [login] at hkind
    split at hkind
    · split at hkind <;> cases hkind
    · cases hkind
  · simp only [createSession] at hkind
    split at hkind <;> cases hkind
  · obtain ⟨-, haccounts, -, hname⟩ := totpVerify_eq_some ha
    exact ⟨userId, haccounts, hname⟩

/-- The codes of an account are recorded under its username. -/
theorem made_totp {a b : Attempt} (ha : Made t d a) (hb : Made t d b)
    (hka : a.handler.kind = .totp) (hkb : b.handler.kind = .totp) {account : Int}
    (hma : account ∈ a.accounts) (hmb : account ∈ b.accounts) : a.identifier = b.identifier := by
  obtain ⟨u, haccounts, hname⟩ := made_kind_totp ha hka
  obtain ⟨v, haccounts', hname'⟩ := made_kind_totp hb hkb
  rw [haccounts, List.mem_singleton] at hma
  rw [haccounts', List.mem_singleton] at hmb
  subst hma
  subst hmb
  rw [hname, Option.some.injEq] at hname'
  exact hname'

/-! ## What was counted -/

def State.Event (s : State) (a : Attempt) (x : Int) : Prop :=
  ∃ u, a.userId = some u ∧ (u, x) ∈ s.logins ++ s.passwordResets

/-- The start that was computed, for an attempt that is recorded at the time `at_` or later -/
def Since (c : Settings) (s : State) (a : Attempt) (x at_ : Int) : Prop :=
  x ≤ at_ - c.bruteforceWindow ∨ s.Event a x ∧ x ≤ at_

/-- The row of the attempt, and the bound on the secrets recorded up to it -/
def Counted (c : Settings) (s : State) (a : Attempt) (logId : Nat) (n : Int) : Prop :=
  ∃ r, s.log[logId]? = some r ∧ r.attempt = a ∧ ∃ x, Since c s a x r.createdAt ∧
    (countDistinctSecrets (s.log.take (logId + 1)) r.kind r.identifierHash x : Int) ≤ n

def StageOk (c : Settings) (s : State) (a : Attempt) : Stage → Prop
  | .findLastLoginSuccessAt lastReset => ∀ x, lastReset = some x → s.Event a x
  | .readClock windowResetAt => ∀ x, windowResetAt = some x → s.Event a x
  | .recordAttempt _ identifierSince => Since c s a identifierSince s.now
  | .countDistinctSecrets logId _ identifierSince =>
    ∃ r, s.log[logId]? = some r ∧ r.attempt = a ∧ Since c s a identifierSince r.createdAt
  | .countDistinctIdentifiers logId _ variantsByIdentifier =>
    Counted c s a logId variantsByIdentifier
  | .verify logId => Counted c s a logId c.maxVariants
  | _ => True

/-- Two rows of one account have one name. -/
def NamedAs (t : Text) (c : Settings) (q r : LogRow) : Prop :=
  q.kind = r.kind → r.createdAt - c.bruteforceWindow ≤ q.createdAt →
    (∃ account ∈ q.attempt.accounts, account ∈ r.attempt.accounts) →
      t.toLowercase q.attempt.identifier = t.toLowercase r.attempt.identifier

structure LogOk (t : Text) (c : Settings) (d : Directory) (log : List LogRow) : Prop where
  ids : ∀ {i : Nat} {r : LogRow}, log[i]? = some r → r.id = i
  made : ∀ {r}, r ∈ log → Made t d r.attempt
  kind : ∀ {r}, r ∈ log → r.kind = r.attempt.handler.kind
  identifierHash : ∀ {r}, r ∈ log → r.identifierHash = t.keyedHash (t.toLowercase r.attempt.identifier)
  secretHash : ∀ {r}, r ∈ log → r.secretHash = t.keyedHash r.attempt.secret
  named : log.Pairwise (NamedAs t c)

structure Sound (t : Text) (c : Settings) (d : Directory) (s : State) : Prop where
  log : LogOk t c d s.log
  times : ∀ e ∈ s.logins ++ s.passwordResets, e.2 ≤ s.now
  made : ∀ x ∈ s.tasks, Made t d x.1
  stage : ∀ x ∈ s.tasks, StageOk c s x.1 x.2
  verified : ∀ id ∈ s.verified, ∃ a, Counted c s a id c.maxVariants

theorem sound_init : Sound t c d {} where
  log := {
    ids := fun h => by simp at h
    made := fun h => absurd h List.not_mem_nil
    kind := fun h => absurd h List.not_mem_nil
    identifierHash := fun h => absurd h List.not_mem_nil
    secretHash := fun h => absurd h List.not_mem_nil
    named := List.Pairwise.nil }
  times := fun e h => absurd h List.not_mem_nil
  made := fun x h => absurd h List.not_mem_nil
  stage := fun x h => absurd h List.not_mem_nil
  verified := fun x h => absurd h List.not_mem_nil

/-- What no step takes back -/
structure Grown (s s' : State) : Prop where
  log : s.log <+: s'.log
  events : ∀ e, e ∈ s.logins ++ s.passwordResets → e ∈ s'.logins ++ s'.passwordResets
  now : s.now ≤ s'.now

namespace Grown

variable {s s' : State} {a : Attempt}

theorem since (h : Grown s s') {x at_ : Int} (hx : Since c s a x at_) : Since c s' a x at_ := by
  rcases hx with hx | ⟨⟨u, hu, hev⟩, hle⟩
  · exact Or.inl hx
  · exact Or.inr ⟨⟨u, hu, h.events _ hev⟩, hle⟩

theorem row (h : Grown s s') {id : Nat} {r : LogRow} (hr : s.log[id]? = some r) :
    s'.log[id]? = some r ∧ s'.log.take (id + 1) = s.log.take (id + 1) := by
  obtain ⟨ext, hext⟩ := h.log
  have hlt := (List.getElem?_eq_some_iff.mp hr).1
  rw [← hext, List.getElem?_append_left hlt, List.take_append_of_le_length hlt]
  exact ⟨hr, rfl⟩

theorem counted (h : Grown s s') {id : Nat} {n : Int} (hc : Counted c s a id n) :
    Counted c s' a id n := by
  obtain ⟨r, hr, ha, x, hx, hn⟩ := hc
  obtain ⟨hr', htake⟩ := h.row hr
  exact ⟨r, hr', ha, x, h.since hx, by rw [htake]; exact hn⟩

theorem stage (h : Grown s s') {stage : Stage} (hs : StageOk c s a stage) : StageOk c s' a stage := by
  cases stage with
  | findLastLoginSuccessAt lastReset =>
    intro x hx
    obtain ⟨u, hu, hev⟩ := hs x hx
    exact ⟨u, hu, h.events _ hev⟩
  | readClock windowResetAt =>
    intro x hx
    obtain ⟨u, hu, hev⟩ := hs x hx
    exact ⟨u, hu, h.events _ hev⟩
  | recordAttempt windowStart identifierSince =>
    have hnow := h.now
    rcases h.since hs with hle | ⟨hev, hle⟩
    · exact Or.inl (by omega)
    · exact Or.inr ⟨hev, by omega⟩
  | countDistinctSecrets logId windowStart identifierSince =>
    obtain ⟨r, hr, ha, hx⟩ := hs
    exact ⟨r, (h.row hr).1, ha, h.since hx⟩
  | countDistinctIdentifiers logId windowStart n => exact h.counted hs
  | verify logId => exact h.counted hs
  | _ => trivial

end Grown

/-! ## The steps -/

namespace Sound

variable {s s' : State} {a : Attempt}

theorem after (h : Sound t c d s) (hg : Grown s s') (hlog : LogOk t c d s'.log)
    (htimes : ∀ e ∈ s'.logins ++ s'.passwordResets, e.2 ≤ s'.now)
    (htasks : ∀ x ∈ s'.tasks, x ∈ s.tasks ∨ Made t d x.1 ∧ StageOk c s' x.1 x.2)
    (hver : ∀ id ∈ s'.verified, id ∈ s.verified ∨ ∃ a, Counted c s' a id c.maxVariants) :
    Sound t c d s' where
  log := hlog
  times := htimes
  made x hx := by
    rcases htasks x hx with hx | ⟨hmade, -⟩
    · exact h.made x hx
    · exact hmade
  stage x hx := by
    rcases htasks x hx with hx | ⟨-, hstage⟩
    · exact hg.stage (h.stage x hx)
    · exact hstage
  verified id hid := by
    rcases hver id hid with hid | hid
    · obtain ⟨a, ha⟩ := h.verified id hid
      exact ⟨a, hg.counted ha⟩
    · exact hid

/-- A step that changes only the tasks -/
theorem tasks (h : Sound t c d s) {tasks : List (Attempt × Stage)}
    (htasks : ∀ x ∈ tasks, x ∈ s.tasks ∨ Made t d x.1 ∧ StageOk c s x.1 x.2) :
    Sound t c d { s with tasks := tasks } := by
  have hg : Grown s { s with tasks := tasks } := ⟨List.prefix_rfl, fun _ => id, le_rfl⟩
  refine h.after hg h.log h.times (fun x hx => ?_) fun _ => Or.inl
  exact (htasks x hx).imp_right fun ⟨hmade, hstage⟩ => ⟨hmade, hg.stage hstage⟩

theorem push (h : Sound t c d s) (ha : Made t d a) {stage : Stage} (hs : StageOk c s a stage) :
    Sound t c d (s.push a stage) := by
  refine h.tasks fun x hx => ?_
  rcases List.mem_append.mp hx with hx | hx
  · exact Or.inl hx
  · rw [List.mem_singleton.mp hx]
    exact Or.inr ⟨ha, hs⟩

theorem drop (h : Sound t c d s) (stage : Stage) : Sound t c d (s.drop a stage) :=
  h.tasks fun _ hx => Or.inl (List.mem_of_mem_erase hx)

theorem start (h : Sound t c d s) (ha : Made t d a) (hs : s.start a = some s') : Sound t c d s' := by
  simp only [State.start] at hs
  split at hs
  · cases hs
  · split at hs <;> cases hs
    · exact h.push ha trivial
    · exact h.push ha (fun _ hx => by cases hx)

theorem event_of_getLast {s : State} {l : List (Int × Int)} {u x : Int}
    (hl : ∀ e ∈ l, e ∈ s.logins ++ s.passwordResets) (hu : a.userId = some u)
    (hx : ((l.filter fun r => r.1 = u).getLast?.map Prod.snd) = some x) : s.Event a x := by
  obtain ⟨e, he, rfl⟩ := Option.map_eq_some_iff.mp hx
  obtain ⟨hmem, hrow⟩ := List.mem_filter.mp (List.mem_of_getLast? he)
  simp only [decide_eq_true_eq] at hrow
  refine ⟨u, hu, ?_⟩
  rw [← hrow]
  exact hl e hmem

theorem event_later {s : State} {r r' : Option Int} (hr : ∀ x, r = some x → s.Event a x)
    (hr' : ∀ x, r' = some x → s.Event a x) : ∀ x, later r r' = some x → s.Event a x := by
  intro x hx
  cases r with
  | none => exact hr' x hx
  | some v =>
    cases r' with
    | none => exact hr x hx
    | some w =>
      rw [later, Option.some.injEq] at hx
      rcases max_choice v w with hmax | hmax
      · exact hr x (by rw [← hx, hmax])
      · exact hr' x (by rw [← hx, hmax])

theorem readClock (h : Sound t c d s) {windowResetAt : Option Int}
    (hr : ∀ x, windowResetAt = some x → s.Event a x) :
    Since c s a (identifierSince (s.now - c.bruteforceWindow) windowResetAt) s.now := by
  cases windowResetAt with
  | none => exact Or.inl le_rfl
  | some r =>
    simp only [identifierSince]
    split
    · obtain ⟨u, hu, hev⟩ := hr r rfl
      exact Or.inr ⟨⟨u, hu, hev⟩, h.times _ hev⟩
    · exact Or.inl le_rfl

theorem log_append (h : Sound t c d s) (ha : Made t d a)
    (hname : ∀ q ∈ s.log, NamedAs t c q (s.recordAttempt t a)) :
    LogOk t c d (s.log ++ [s.recordAttempt t a]) := by
  have hmem : ∀ {r}, r ∈ s.log ++ [s.recordAttempt t a] → r ∈ s.log ∨ r = s.recordAttempt t a := by
    intro r hr
    exact (List.mem_append.mp hr).imp_right List.mem_singleton.mp
  refine ⟨?_, ?_, ?_, ?_, ?_, ?_⟩
  · intro i r hr
    rcases lt_or_ge i s.log.length with hlt | hge
    · rw [List.getElem?_append_left hlt] at hr
      exact h.log.ids hr
    · rw [List.getElem?_append_right hge, List.getElem?_singleton] at hr
      split at hr
      case isTrue h0 =>
        cases hr
        exact Nat.le_antisymm hge (Nat.sub_eq_zero_iff_le.mp h0)
      case isFalse => cases hr
  · intro r hr
    rcases hmem hr with hr | rfl
    · exact h.log.made hr
    · exact ha
  · intro r hr
    rcases hmem hr with hr | rfl
    · exact h.log.kind hr
    · rfl
  · intro r hr
    rcases hmem hr with hr | rfl
    · exact h.log.identifierHash hr
    · rfl
  · intro r hr
    rcases hmem hr with hr | rfl
    · exact h.log.secretHash hr
    · rfl
  · refine List.pairwise_append.mpr ⟨h.log.named, List.pairwise_singleton _ _, ?_⟩
    intro q hq r hr
    rw [List.mem_singleton.mp hr]
    exact hname q hq

/-- The rows that the condition speaks of, and those of the codes -/
theorem namedAs_of_oneName (h : Sound t c d s) (ha : Made t d a) {windowStart identifierSince : Int}
    (hone : OneName t c s (.next a (.recordAttempt windowStart identifierSince))) :
    ∀ q ∈ s.log, NamedAs t c q (s.recordAttempt t a) := by
  intro q hq hkind htime hshare
  cases hk : a.handler.kind with
  | login =>
    refine hone hk q hq ?_ htime hshare
    rw [hkind]
    exact hk
  | totp =>
    obtain ⟨account, hmem, hmem'⟩ := hshare
    have hkq : q.attempt.handler.kind = .totp := by
      rw [← h.log.kind hq, hkind]
      exact hk
    have heq : q.attempt.identifier = a.identifier := made_totp (h.log.made hq) ha hkq hk hmem hmem'
    rw [heq]
    rfl

theorem getElem?_record : (s.log ++ [s.recordAttempt t a])[s.log.length]? =
    some (s.recordAttempt t a) := by
  rw [List.getElem?_append_right le_rfl, Nat.sub_self]
  rfl

theorem next (h : Sound t c d s) {stage : Stage} (hx : (a, stage) ∈ s.tasks)
    (hone : OneName t c s (.next a stage)) : Sound t c d ((s.drop a stage).next t c a stage) := by
  have ha : Made t d a := h.made _ hx
  have hs : StageOk c s a stage := h.stage _ hx
  have hd := h.drop (a := a) stage
  cases stage with
  | findLastUsedAt =>
    refine hd.push ha fun x hx => ?_
    obtain ⟨u, hu, hlast⟩ := Option.bind_eq_some_iff.mp hx
    exact event_of_getLast (fun _ => List.mem_append_right _) hu hlast
  | findLastLoginSuccessAt lastReset =>
    refine hd.push ha (event_later hs fun x hx => ?_)
    obtain ⟨u, hu, hlast⟩ := Option.bind_eq_some_iff.mp hx
    exact event_of_getLast (fun _ => List.mem_append_left _) hu hlast
  | readClock windowResetAt => exact hd.push ha (h.readClock hs)
  | recordAttempt windowStart identifierSince =>
    have hlog := h.log_append ha (h.namedAs_of_oneName ha hone)
    have hg : Grown s { s.drop a (.recordAttempt windowStart identifierSince) with
        log := s.log ++ [s.recordAttempt t a] } := ⟨List.prefix_append _ _, fun _ => id, le_rfl⟩
    have hsound := h.after hg hlog h.times (fun x hx => Or.inl (List.mem_of_mem_erase hx))
      fun _ => Or.inl
    exact hsound.push ha ⟨_, getElem?_record, rfl, hg.since hs⟩
  | countDistinctSecrets logId windowStart identifierSince =>
    obtain ⟨r, hr, rfl, hsince⟩ := hs
    refine hd.push ha ⟨r, hr, rfl, identifierSince, hsince, ?_⟩
    have hmem := List.mem_of_getElem? hr
    rw [h.log.kind hmem, h.log.identifierHash hmem]
    refine Int.ofNat_le.mpr (Window.grows_distinct LogRow.secretHash ?_)
    exact (List.take_sublist _ _).filter _
  | countDistinctIdentifiers logId windowStart variantsByIdentifier =>
    simp only [State.next]
    split
    · exact hd.push ha trivial
    case isFalse hle =>
      obtain ⟨hle, -⟩ := not_or.mp hle
      obtain ⟨r, hr, hra, x, hsince, hn⟩ := hs
      exact hd.push ha ⟨r, hr, hra, x, hsince, le_trans hn (not_lt.mp hle)⟩
  | markRejected logId =>
    simp only [State.next]
    have hsound : Sound t c d { s.drop a (.markRejected logId) with
        rejected := s.rejected ++ [logId] } := ⟨hd.log, hd.times, hd.made, hd.stage, hd.verified⟩
    split
    · exact hsound.push ha trivial
    · exact hsound
  | countRecentRejectionsByIp ip =>
    simp only [State.next]
    split
    · exact hd.push ha trivial
    · exact hd
  | blockIp ip blockedUntil => exact ⟨hd.log, hd.times, hd.made, hd.stage, hd.verified⟩
  | verify logId => exact hd
  | finishLogin userId =>
    have hg : Grown s ((s.drop a (.finishLogin userId)).next t c a (.finishLogin userId)) := by
      refine ⟨List.prefix_rfl, fun e he => ?_, le_rfl⟩
      rcases List.mem_append.mp he with he | he
      · exact List.mem_append_left _ (List.mem_append_left _ he)
      · exact List.mem_append_right _ he
    refine h.after hg h.log (fun e he => ?_) (fun x hx => Or.inl (List.mem_of_mem_erase hx))
      fun _ => Or.inl
    rcases List.mem_append.mp he with he | he
    · rcases List.mem_append.mp he with he | he
      · exact h.times e (List.mem_append_left _ he)
      · rw [List.mem_singleton.mp he]
        exact le_rfl
    · exact h.times e (List.mem_append_right _ he)

theorem verify (h : Sound t c d s) {logId : Nat} {ends : Bool}
    (hx : (a, .verify logId) ∈ s.tasks) :
    Sound t c d ((s.drop a (.verify logId)).verify a logId ends) := by
  have hg : Grown s { s.drop a (.verify logId) with verified := s.verified ++ [logId] } :=
    ⟨List.prefix_rfl, fun _ => id, le_rfl⟩
  have hsound : Sound t c d { s.drop a (.verify logId) with verified := s.verified ++ [logId] } := by
    refine h.after hg h.log h.times (fun x hx => Or.inl (List.mem_of_mem_erase hx)) fun id hid => ?_
    refine (List.mem_append.mp hid).imp_right fun hid => ?_
    rw [List.mem_singleton.mp hid]
    exact ⟨a, hg.counted (h.stage _ hx)⟩
  simp only [State.verify]
  split
  · exact hsound.push (h.made _ hx) trivial
  · exact hsound.push (h.made _ hx) trivial
  · exact hsound

theorem resetPassword (h : Sound t c d s) (userId : Int) :
    Sound t c d { s with passwordResets := s.passwordResets ++ [(userId, s.now)] } := by
  have hmem : ∀ e, e ∈ s.logins ++ (s.passwordResets ++ [(userId, s.now)]) ↔
      e ∈ s.logins ++ s.passwordResets ∨ e = (userId, s.now) := by
    intro e
    rw [← List.append_assoc, List.mem_append, List.mem_singleton]
  refine h.after ⟨List.prefix_rfl, fun e he => (hmem e).mpr (Or.inl he), le_rfl⟩ h.log
    (fun e he => ?_) (fun _ => Or.inl) fun _ => Or.inl
  rcases (hmem e).mp he with he | rfl
  · exact h.times e he
  · exact le_rfl

end Sound

theorem sound_step {s s' : State} {x : Action} (h : Sound t c d s) (hone : OneName t c s x)
    (hs : step t c d s x = some s') : Sound t c d s' := by
  cases x with
  | tick now =>
    simp only [step] at hs
    split at hs
    case isTrue hle =>
      cases hs
      exact h.after ⟨List.prefix_rfl, fun _ => id, hle⟩ h.log (fun e he => le_trans (h.times e he) hle)
        (fun _ => Or.inl) fun _ => Or.inl
    case isFalse => cases hs
  | login identifier password ip => exact h.start (Or.inl ⟨_, _, _, rfl⟩) hs
  | createSession identifier password ip => exact h.start (Or.inr (Or.inl ⟨_, _, _, rfl⟩)) hs
  | totpVerify userId code ip =>
    obtain ⟨a, ha, hs⟩ := Option.bind_eq_some_iff.mp hs
    exact h.start (Or.inr (Or.inr ⟨_, _, _, ha⟩)) hs
  | next attempt stage =>
    simp only [step] at hs
    split at hs
    case isTrue hx =>
      cases hs
      exact h.next hx hone
    case isFalse => cases hs
  | verify attempt logId ends =>
    simp only [step] at hs
    split at hs
    case isTrue hx =>
      cases hs
      exact h.verify hx
    case isFalse => cases hs
  | resetPassword userId =>
    cases hs
    exact h.resetPassword userId
  | unblockIp ip =>
    cases hs
    exact ⟨h.log, h.times, h.made, h.stage, h.verified⟩

/-! ## The bound -/

/-- The start that an attempt of a quiet window was counted from is not in the window. -/
theorem since_le {s : State} {a : Attempt} {x at_ opens account : Int} (ha : Made t d a)
    (hmem : account ∈ a.accounts) (hquiet : Quiet c s account opens)
    (hx : Since c s a x at_) (hat : at_ ≤ opens + c.bruteforceWindow) : x ≤ opens := by
  rcases hx with hx | ⟨⟨u, hu, hev⟩, hle⟩
  · omega
  · by_contra hlt
    refine hquiet (u, x) hev (made_user ha hu hmem).symm ⟨by omega, by omega⟩

theorem guess_congr {a b : Attempt} (hkind : a.handler.kind = b.handler.kind)
    (hsecret : a.secret = b.secret) : a.guess t = b.guess t := by
  unfold Attempt.guess
  rw [hkind, hsecret]

theorem Sound.bounded (hinj : Function.Injective t.keyedHash) {s : State} (h : Sound t c d s) :
    Bounded t c s := by
  intro account kind opens hquiet
  have hmono : Window.Grows fun l : List LogRow => (l.map LogRow.secretHash).dedup.length :=
    Window.grows_distinct _
  have hbound : ((guesses c s account kind opens).map LogRow.secretHash).dedup.length ≤
      c.maxVariants.toNat := by
    unfold guesses
    refine Window.measure_filter_le hmono (Nat.zero_le _) _ fun pre r post hlog hr => ?_
    obtain ⟨hver, hacc, hkind, hfrom, hto⟩ := of_decide_eq_true hr
    have hget : s.log[pre.length]? = some r := by
      rw [hlog, List.getElem?_append_right le_rfl, Nat.sub_self]
      rfl
    have htake : s.log.take (pre.length + 1) = pre ++ [r] := by
      rw [hlog, List.take_length_add_append]
      rfl
    obtain ⟨a, r', hr', rfl, x, hx, hn⟩ := h.verified _ hver
    rw [h.log.ids hget] at hr' hn
    rw [hget, Option.some.injEq] at hr'
    subst hr'
    have hmem : r ∈ s.log := List.mem_of_getElem? hget
    have hle := since_le (h.log.made hmem) hacc hquiet hx hto
    refine ⟨fun q => q.kind = r.kind ∧ q.identifierHash = r.identifierHash ∧ x ≤ q.createdAt,
      fun q hq hp => ?_, ?_⟩
    · simp only [decide_eq_true_eq] at hp ⊢
      obtain ⟨-, hacc', hkind', hfrom', hto'⟩ := hp
      have hq' : q ∈ s.log := by
        rw [hlog]
        exact List.mem_append.mpr ((List.mem_append.mp hq).imp_right fun hq =>
          List.mem_cons.mpr (Or.inl (List.mem_singleton.mp hq)))
      refine ⟨by rw [hkind', hkind], ?_, by omega⟩
      rcases List.mem_append.mp hq with hq | hq
      -- a row before: it has the name of this one
      · have hnamed := h.log.named
        rw [hlog, List.pairwise_append] at hnamed
        have hname := hnamed.2.2 q hq r List.mem_cons_self (by rw [hkind', hkind]) (by omega)
          ⟨account, hacc', hacc⟩
        rw [h.log.identifierHash hq', h.log.identifierHash hmem, hname]
      · rw [List.mem_singleton.mp hq]
    · rw [htake] at hn
      exact Int.ofNat_le.mp (le_trans hn (Int.self_le_toNat _))
  refine le_trans (Window.distinct_le_of_determined fun q hq r hr heq => ?_) hbound
  obtain ⟨hq, hpq⟩ := List.mem_filter.mp hq
  obtain ⟨hr, hpr⟩ := List.mem_filter.mp hr
  simp only [decide_eq_true_eq] at hpq hpr
  rw [h.log.secretHash hq, h.log.secretHash hr] at heq
  refine guess_congr ?_ (hinj heq)
  rw [← h.log.kind hq, ← h.log.kind hr, hpq.2.2.1, hpr.2.2.1]

/-- In a run in which the passwords that are tried for an account in a window are recorded
under one name, no more than the configured number of passwords, or of codes, is verified
against an account in any window. -/
theorem bounded_of_oneName (hinj : Function.Injective t.keyedHash) (as : List Action) {s : State}
    (hone : (machine t c d).Along (OneName t c) {} as)
    (hr : (machine t c d).run {} as = some s) : Bounded t c s :=
  ((machine t c d).run_inv_along sound_step sound_init hone hr).bounded hinj

/-- Texts in lower case, without blanks -/
def plain : Text := ⟨id, id, id, id⟩

def oneVariant : Settings := ⟨600, 1, 600, 5, 86400⟩

/-- An account with a username and an e-mail address -/
def alice : Directory where
  users := [⟨1, "a@b", true⟩]
  actors := [⟨7, some 1, true, "alice", "b", none, false⟩]
  localDomain := "b"
  local_of_user := by decide
  username_unique := by decide

/-- The statements of an attempt of the account, up to the counts -/
def statements (a : Attempt) (logId variants : Nat) : List Action :=
  [.next a .findLastUsedAt, .next a (.findLastLoginSuccessAt none), .next a (.readClock none),
    .next a (.recordAttempt (-600) (-600)), .next a (.countDistinctSecrets logId (-600) (-600)),
    .next a (.countDistinctIdentifiers logId (-600) variants)]

/-- A password under the username, and another one under `identifier` -/
def twoPasswords (identifier : String) (variants : Nat) : List Action :=
  .login "alice" "p" none :: statements (login alice "alice" "p" none) 0 1 ++
    .verify (login alice "alice" "p" none) 0 false ::
    .login identifier "q" none :: statements (login alice identifier "q" none) 1 variants

theorem bounded_of_oneName_alice : ∃ s, (machine plain oneVariant alice).run {}
    (twoPasswords "alice" 2) = some s ∧ s.verified = [0] ∧ Bounded plain oneVariant s :=
  ⟨_, rfl, rfl, bounded_of_oneName (d := alice) Function.injective_id
    (twoPasswords "alice" 2) (by decide) rfl⟩

theorem bounded_counterexample : ¬ ∀ t c d, Function.Injective t.keyedHash → ∀ as s,
    (machine t c d).run {} as = some s → Bounded t c s := by
  intro hall
  have hbounded := hall plain oneVariant alice Function.injective_id
    (twoPasswords "a@b" 1 ++ [.verify (login alice "a@b" "q" none) 1 false]) _ rfl
  have hguesses := hbounded 1 .login 0 (by decide)
  revert hguesses
  decide

end Seiran.Attempts
