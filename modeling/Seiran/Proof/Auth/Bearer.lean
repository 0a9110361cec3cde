import Seiran.Framework.Counting
import Seiran.Framework.Int64
import Seiran.Model.Auth.Bearer

/-!
# Bearer tokens

* `local_of_local` … `atp_of_pending`: which layout decodes as which;
* `local_inv`, `pending_inv`, `atp_inv`: what decodes was issued as what it decodes as, and
  `separate_of_signed`: so is what the other verifiers accept;
* `Sound`: the tables are what the log says, at every step (`sound_step`);
* `identify_eq_ok`, `extractAuth_eq_ok`: what a token is checked for;
* `asIssued_iff`: a token is honoured as it was issued unless it is from the second of
  the last change, before that change;
* `asIssued_counterexample`: all tokens revoked half a second after a login.
-/

namespace Seiran.Bearer

open Notes (parseI64)

variable {J : Jwt} {s s' : State}

/-! ## The subject -/

theorem stripPrefix_append (pre text : String) : stripPrefix pre (pre ++ text) = some text := by
  have hpre : pre.toList <+: (pre ++ text).toList := by
    rw [String.toList_append]
    exact List.prefix_append _ _
  rw [stripPrefix, if_pos hpre, String.toList_append, ← String.length_toList,
    List.drop_left, String.ofList_toList]

theorem ofDigits_chars (digits : List Char) :
    ofDigits 10 (digits.map fun c => c.toNat - 48) = Nat.ofDigitChars 10 digits 0 := by
  rw [ofDigits, List.foldl_map, Nat.ofDigitChars]
  congr 1
  funext n c
  rw [Nat.mul_comm]
  rfl

theorem isDigit_toDigits (m : Nat) : (Nat.toDigits 10 m).all Char.isDigit = true :=
  List.all_eq_true.mpr fun _ hc => Nat.isDigit_of_mem_toDigits (by decide) (by decide) hc

/-- Without a sign -/
theorem parseI64_digits {text : String} {m : Nat} (h : text.toList = Nat.toDigits 10 m)
    (hm : (m : Int) < 2 ^ 63) : parseI64 text = some (Int64.ofInt m) := by
  have hdigit := isDigit_toDigits m
  have hvalue : Nat.ofDigitChars 10 (Nat.toDigits 10 m) 0 = m := Nat.ofDigitChars_ten_toDigits
  have hne : Nat.toDigits 10 m ≠ [] := Nat.toDigits_ne_nil
  rw [parseI64, h]
  generalize Nat.toDigits 10 m = digits at hdigit hvalue hne
  split
  next heq =>
    split at heq
    · cases hdigit
    · cases hdigit
    · cases heq
      simp only [ofDigits_chars, hvalue, Bool.false_eq_true, if_false]
      exact if_pos ⟨hne, hdigit, by omega, hm⟩

/-- With a sign -/
theorem parseI64_minus {text : String} {m : Nat} (h : text.toList = '-' :: Nat.toDigits 10 m)
    (hm : (m : Int) ≤ 2 ^ 63) : parseI64 text = some (Int64.ofInt (-m)) := by
  rw [parseI64, h]
  simp only [ofDigits_chars, Nat.ofDigitChars_ten_toDigits, if_true]
  exact if_pos ⟨Nat.toDigits_ne_nil, isDigit_toDigits m, by omega, by omega⟩

theorem parseI64_toString (n : Int64) : parseI64 (toString n) = some n := by
  have hrange := I64.toInt_range n
  have hback := Int64.ofInt_toInt n
  have htext : (toString n).toList = n.toInt.repr.toList := rfl
  cases hn : n.toInt with
  | ofNat m =>
    rw [hn] at hrange hback htext
    rw [parseI64_digits (htext.trans Nat.toList_repr) hrange.2]
    exact congrArg some hback
  | negSucc m =>
    rw [hn] at hrange hback htext
    have hlist : (Int.repr (.negSucc m)).toList = '-' :: Nat.toDigits 10 (m + 1) := by
      show ("-" ++ Nat.repr (m + 1)).toList = _
      rw [String.toList_append, Nat.toList_repr]
      rfl
    rw [parseI64_minus (htext.trans hlist) (by omega)]
    exact congrArg some hback

theorem parseSub_localSub (userId : Int64) : parseSub (localSub userId) = .ok userId := by
  rw [parseSub, localSub, stripPrefix_append, Option.bind_some, parseI64_toString]

/-! ## The four layouts -/

theorem local_of_local (hJ : J.Documented) (c : LocalClaims) :
    LocalClaims.deserialize J (c.serialize J) = some c := by
  obtain ⟨sub, email, exp, iat, jti⟩ := c
  cases exp <;>
  simp [LocalClaims.deserialize, LocalClaims.serialize, Claims.field, Claims.fieldOr, Value.asStr,
    Value.asUsize, hJ.parseUuid, List.lookup_cons]

theorem local_of_pending (c : PendingTotpClaims) : LocalClaims.deserialize J c.serialize = none :=
  rfl

theorem local_of_atp (c : AtpSessionClaims) :
    LocalClaims.deserialize J (c.serialize J) = none :=
  rfl

theorem pending_of_pending (c : PendingTotpClaims) :
    PendingTotpClaims.deserialize c.serialize = some c :=
  rfl

theorem pending_of_local (c : LocalClaims) :
    PendingTotpClaims.deserialize (c.serialize J) = none := by
  obtain ⟨sub, email, exp, iat, jti⟩ := c
  cases exp <;> rfl

theorem pending_of_atp (c : AtpSessionClaims) :
    PendingTotpClaims.deserialize (c.serialize J) = none :=
  rfl

theorem atp_of_atp (hJ : J.Documented) (c : AtpSessionClaims) :
    AtpSessionClaims.deserialize J (c.serialize J) = some c := by
  simp [AtpSessionClaims.deserialize, AtpSessionClaims.serialize, Claims.field, Claims.fieldOr,
    Value.asStr, Value.asUsize, Value.asBool, hJ.parseUuid, List.lookup_cons]

theorem atp_of_local (c : LocalClaims) :
    AtpSessionClaims.deserialize J (c.serialize J) = none := by
  obtain ⟨sub, email, exp, iat, jti⟩ := c
  cases exp <;> rfl

theorem atp_of_pending (c : PendingTotpClaims) :
    AtpSessionClaims.deserialize J c.serialize = none :=
  rfl

/-! ## What was signed -/

/-- The claims that an event signs -/
def claimsOf (J : Jwt) (x : Nat × Event) : List Claims :=
  match x.2 with
  | .generateToken userId email jti => [generateToken J x.1 userId email jti]
  | .generateAppToken userId email jti => [generateAppToken J x.1 userId email jti]
  | .generatePendingTotpToken userId => [generatePendingTotpToken x.1 userId]
  | .generateAtpSession did serviceDid privileged jti =>
    [atpAccessClaims J x.1 did serviceDid privileged jti,
      atpRefreshClaims J x.1 did serviceDid privileged jti]
  | _ => []

/-- Every signature is one of an event. -/
def Signed (J : Jwt) (s : State) : Prop := s.signed = s.log.flatMap (claimsOf J)

theorem Issues.mem_claimsOf {x : Nat × Event} {c : Claims} {userId : Int64} {email : String}
    {jti : Uuid} (h : Issues J x.1 x.2 c userId email jti) : c ∈ claimsOf J x := by
  rw [claimsOf]
  obtain ⟨he, rfl⟩ | ⟨he, rfl⟩ := h <;>
  · rw [he]
    exact List.mem_singleton.mpr rfl

theorem Issues.eq_claims {issuedAt : Nat} {e : Event} {c : Claims} {userId : Int64} {email : String}
    {jti : Uuid} (h : Issues J issuedAt e c userId email jti) :
    c = generateTokenWithExp J issuedAt userId email none jti := by
  obtain ⟨-, rfl⟩ | ⟨-, rfl⟩ := h <;> rfl

theorem Issues.localId_eq {issuedAt : Nat} {e : Event} {c : Claims} {userId : Int64}
    {email : String} {jti : Uuid} (h : Issues J issuedAt e c userId email jti) :
    e.localId = some jti := by
  obtain ⟨rfl, -⟩ | ⟨rfl, -⟩ := h <;> rfl

theorem decode_eq_some {α : Type} {deserialize : Claims → Option α} {v : Validation} {c : Claims}
    {a : α} (h : decode J s deserialize v (.jwt c) = some a) :
    c ∈ s.signed ∧ deserialize c = some a := by
  rw [decode] at h
  split at h
  case isTrue hc => exact ⟨hc.1, h⟩
  case isFalse => cases h

/-! ### What decodes as which layout -/

theorem local_inv {x : Nat × Event} {c : Claims} {claims : LocalClaims} (hc : c ∈ claimsOf J x)
    (h : LocalClaims.deserialize J c = some claims) :
    ∃ userId email jti, Issues J x.1 x.2 c userId email jti := by
  obtain ⟨issuedAt, e⟩ := x
  cases e with
  | generateToken userId email jti =>
    exact ⟨userId, email, jti, Or.inl ⟨rfl, List.mem_singleton.mp hc⟩⟩
  | generateAppToken userId email jti =>
    exact ⟨userId, email, jti, Or.inr ⟨rfl, List.mem_singleton.mp hc⟩⟩
  | generatePendingTotpToken userId =>
    rw [List.mem_singleton.mp hc] at h
    exact absurd (h.symm.trans (local_of_pending _)) nofun
  | generateAtpSession did serviceDid privileged jti =>
    rcases List.mem_pair.mp hc with rfl | rfl
    · exact absurd (h.symm.trans (local_of_atp _)) nofun
    · exact absurd (h.symm.trans (local_of_atp _)) nofun
  | _ => cases hc

theorem pending_inv {x : Nat × Event} {c : Claims} {claims : PendingTotpClaims}
    (hc : c ∈ claimsOf J x) (h : PendingTotpClaims.deserialize c = some claims) :
    ∃ userId, x.2 = .generatePendingTotpToken userId ∧ c = generatePendingTotpToken x.1 userId := by
  obtain ⟨issuedAt, e⟩ := x
  cases e with
  | generatePendingTotpToken userId => exact ⟨userId, rfl, List.mem_singleton.mp hc⟩
  | generateToken | generateAppToken =>
    rw [List.mem_singleton.mp hc] at h
    exact absurd (h.symm.trans (pending_of_local _)) nofun
  | generateAtpSession did serviceDid privileged jti =>
    rcases List.mem_pair.mp hc with rfl | rfl
    · exact absurd (h.symm.trans (pending_of_atp _)) nofun
    · exact absurd (h.symm.trans (pending_of_atp _)) nofun
  | _ => cases hc

theorem atp_inv {x : Nat × Event} {c : Claims} {claims : AtpSessionClaims}
    (hc : c ∈ claimsOf J x) (h : AtpSessionClaims.deserialize J c = some claims) :
    ∃ did serviceDid privileged jti, x.2 = .generateAtpSession did serviceDid privileged jti ∧
      (c = atpAccessClaims J x.1 did serviceDid privileged jti ∨
        c = atpRefreshClaims J x.1 did serviceDid privileged jti) := by
  obtain ⟨issuedAt, e⟩ := x
  cases e with
  | generateAtpSession did serviceDid privileged jti =>
    exact ⟨did, serviceDid, privileged, jti, rfl, List.mem_pair.mp hc⟩
  | generateToken | generateAppToken =>
    rw [List.mem_singleton.mp hc] at h
    exact absurd (h.symm.trans (atp_of_local _)) nofun
  | generatePendingTotpToken userId =>
    rw [List.mem_singleton.mp hc] at h
    exact absurd (h.symm.trans (atp_of_pending _)) nofun
  | _ => cases hc

/-- A token of the first layout is verified by what it says. -/
theorem verify_of_signed (hJ : J.Documented) {issuedAt : Nat} {userId : Int64} {email : String}
    {jti : Uuid} (hc : generateTokenWithExp J issuedAt userId email none jti ∈ s.signed) :
    verifyTokenIgnoringExp J s (.jwt (generateTokenWithExp J issuedAt userId email none jti)) =
      .ok ⟨userId, email, jti, timestamp issuedAt, none⟩ := by
  have hvalid : J.validate { requiredSpecClaims := [], validateExp := false }
      (generateTokenWithExp J issuedAt userId email none jti) (timestamp s.now) = true :=
    hJ.validate rfl rfl rfl rfl
  have hread : LocalClaims.deserialize J (generateTokenWithExp J issuedAt userId email none jti) =
      some ⟨localSub userId, email, none, timestamp issuedAt, jti⟩ := local_of_local hJ _
  simp only [verifyTokenIgnoringExp, decode, if_pos (And.intro hc hvalid), hread,
    parseSub_localSub]
  rfl

theorem verifyToken_eq_ok (hJ : J.Documented) (hs : Signed J s) {c : Claims} {v : VerifiedUser} :
    verifyTokenIgnoringExp J s (.jwt c) = .ok v ↔
      ∃ x ∈ s.log, Issues J x.1 x.2 c v.userId v.email v.jti ∧ v.iat = timestamp x.1 ∧
        v.exp = none := by
  constructor
  · intro hv
    have hdecode : ∃ claims, decode J s (LocalClaims.deserialize J)
        { requiredSpecClaims := [], validateExp := false } (.jwt c) = some claims := by
      rw [verifyTokenIgnoringExp] at hv
      split at hv
      · cases hv
      · exact ⟨_, ‹_›⟩
    obtain ⟨claims, hdecode⟩ := hdecode
    obtain ⟨hsigned, hread⟩ := decode_eq_some hdecode
    have hmem := hsigned
    rw [hs, List.mem_flatMap] at hmem
    obtain ⟨x, hx, hc⟩ := hmem
    obtain ⟨userId, email, jti, hissues⟩ := local_inv hc hread
    have heq := hissues.eq_claims
    rw [heq] at hsigned hv
    rw [verify_of_signed hJ hsigned] at hv
    cases hv
    exact ⟨x, hx, hissues, rfl, rfl⟩
  · rintro ⟨x, hx, hissues, hiat, hexp⟩
    have hsigned : c ∈ s.signed := by
      rw [hs]
      exact List.mem_flatMap.mpr ⟨x, hx, hissues.mem_claimsOf⟩
    have heq := hissues.eq_claims
    rw [heq] at hsigned ⊢
    rw [verify_of_signed hJ hsigned, ← hiat, ← hexp]

/-! ## The other verifiers -/

theorem scopes_ne : atpRefreshScope ≠ atpAccessScope := by decide

theorem separate_of_signed (hJ : J.Documented) (hs : Signed J s) (c : Claims) :
    Separate J s c where
  pendingTotp {userId} hv := by
    rw [verifyPendingTotpToken] at hv
    split at hv
    case h_1 => cases hv
    case h_2 claims hdecode =>
      obtain ⟨hsigned, hread⟩ := decode_eq_some hdecode
      rw [hs, List.mem_flatMap] at hsigned
      obtain ⟨⟨issuedAt, e⟩, hx, hc⟩ := hsigned
      obtain ⟨user, rfl, rfl⟩ := pending_inv hc hread
      split at hv
      case isTrue => cases hv
      case isFalse =>
        cases hread
        rw [parseSub_localSub] at hv
        cases hv
        exact ⟨issuedAt, hx, rfl⟩
  atpAccess {serviceDid did privileged} hv := by
    rw [verifyAtpAccessToken] at hv
    split at hv
    case h_1 => cases hv
    case h_2 claims hdecode =>
      obtain ⟨hsigned, hread⟩ := decode_eq_some hdecode
      rw [hs, List.mem_flatMap] at hsigned
      obtain ⟨⟨issuedAt, e⟩, hx, hc⟩ := hsigned
      split at hv
      case isTrue => cases hv
      case isFalse hno =>
        obtain ⟨hscope, haud⟩ := not_or.mp hno
        cases hv
        obtain ⟨did, service, privileged, jti, rfl, rfl | rfl⟩ := atp_inv hc hread
        · obtain rfl := Option.some.inj ((atp_of_atp hJ _).symm.trans hread)
          obtain rfl := not_not.mp haud
          exact ⟨issuedAt, jti, hx, rfl⟩
        · obtain rfl := Option.some.inj ((atp_of_atp hJ _).symm.trans hread)
          exact absurd scopes_ne hscope
  atpRefresh {serviceDid did jti privileged} hv := by
    rw [verifyAtpRefreshToken] at hv
    split at hv
    case h_1 => cases hv
    case h_2 claims hdecode =>
      obtain ⟨hsigned, hread⟩ := decode_eq_some hdecode
      rw [hs, List.mem_flatMap] at hsigned
      obtain ⟨⟨issuedAt, e⟩, hx, hc⟩ := hsigned
      split at hv
      case isTrue => cases hv
      case isFalse hno =>
        obtain ⟨hscope, haud⟩ := not_or.mp hno
        cases hv
        obtain ⟨did, service, privileged, jti, rfl, rfl | rfl⟩ := atp_inv hc hread
        · obtain rfl := Option.some.inj ((atp_of_atp hJ _).symm.trans hread)
          exact absurd scopes_ne.symm hscope
        · obtain rfl := Option.some.inj ((atp_of_atp hJ _).symm.trans hread)
          obtain rfl := not_not.mp haud
          exact ⟨issuedAt, hx, rfl⟩

/-! ## The log -/

/-- When the user's password changed last -/
def LastChange (log : Log) (userId : Int64) : Option Nat → Prop
  | none => ∀ x ∈ log, ¬ Changes userId x.2
  | some t => ∃ before change after, log = before ++ (t, change) :: after ∧
      Changes userId change ∧ ∀ x ∈ after, ¬ Changes userId x.2

theorem LastChange.append {log : Log} {userId : Int64} {o : Option Nat}
    (h : LastChange log userId o) {x : Nat × Event} (hx : ¬ Changes userId x.2) :
    LastChange (log ++ [x]) userId o := by
  cases o with
  | none =>
    intro y hy
    rcases List.mem_append.mp hy with hy | hy
    · exact h y hy
    · rw [List.mem_singleton.mp hy]
      exact hx
  | some t =>
    obtain ⟨before, change, after, rfl, hchange, hafter⟩ := h
    refine ⟨before, change, after ++ [x], List.append_assoc _ _ _, hchange, fun y hy => ?_⟩
    rcases List.mem_append.mp hy with hy | hy
    · exact hafter y hy
    · rw [List.mem_singleton.mp hy]
      exact hx

theorem lastChange_append_change (log : Log) {userId : Int64} (t : Nat) {e : Event}
    (he : Changes userId e) : LastChange (log ++ [(t, e)]) userId (some t) :=
  ⟨log, e, [], rfl, he, fun _ hy => absurd hy List.not_mem_nil⟩

theorem suspended_append (log : Log) (x : Nat × Event) (userId : Int64) :
    suspended (log ++ [x]) userId = match x.2 with
      | .setSuspended u value => if u = userId then value else suspended log userId
      | _ => suspended log userId := by
  rw [suspended, List.filterMap_append]
  obtain ⟨t, e⟩ := x
  cases e with
  | setSuspended u value =>
    by_cases hu : u = userId
    · simp [hu]
    · simp [hu, suspended]
  | _ => simp [suspended]

theorem withdrawn_append {log : Log} {x : Nat × Event} {userId : Int64} :
    Withdrawn (log ++ [x]) userId ↔
      Withdrawn log userId ∨ x.2 = .withdrawLocalActor userId := by
  simp only [Withdrawn, List.mem_append, List.mem_singleton, or_and_right, exists_or,
    exists_eq_left]

/-- The revocation of a token whose row is there -/
def Revokes (log : Log) (jti : Uuid) (e : Event) : Prop :=
  ∃ row, (∃ insertedAt, (insertedAt, .insertAppToken row) ∈ log) ∧ row.id = jti ∧
    (e = .revoke jti row.userId ∨
      ∃ appId, row.oauthAppId = some appId ∧ e = .revokeAppToken jti appId)

theorem revokedSingly_append {log : Log} {x : Nat × Event} {jti : Uuid} :
    RevokedSingly (log ++ [x]) jti ↔ RevokedSingly log jti ∨ Revokes log jti x.2 := by
  constructor
  · rintro ⟨row, before, revokedAt, e, after, hlog, hrow, hid, he⟩
    rcases append_singleton_eq.mp hlog with ⟨-, rfl, rfl⟩ | ⟨after', -, hlog⟩
    · exact Or.inr ⟨row, hrow, hid, he⟩
    · exact Or.inl ⟨row, before, revokedAt, e, after', hlog, hrow, hid, he⟩
  · rintro (⟨row, before, revokedAt, e, after, rfl, hrow, hid, he⟩ | ⟨row, hrow, hid, he⟩)
    · exact ⟨row, before, revokedAt, e, after ++ [x], List.append_assoc _ _ _, hrow, hid, he⟩
    · exact ⟨row, log, x.1, x.2, [], rfl, hrow, hid, he⟩

/-! ## What a run keeps -/

/-- The row as it was inserted -/
def AppToken.inserted (r : AppToken) : AppToken := { r with revokedAt := none }

/-- What revokes a row -/
def AppToken.RevokedBy (r : AppToken) (e : Event) : Prop :=
  e = .revoke r.id r.userId ∨ ∃ appId, r.oauthAppId = some appId ∧ e = .revokeAppToken r.id appId

/-- The rows of `app_tokens` against the log -/
structure RowsOk (s : State) : Prop where
  ids : (s.appTokens.map AppToken.id).Nodup
  logged : ∀ row, (∃ t, (t, .insertAppToken row) ∈ s.log) ↔
    row ∈ s.appTokens.map AppToken.inserted
  revoked : ∀ r ∈ s.appTokens, r.revokedAt.isSome ↔ RevokedSingly s.log r.id

structure UserOk (log : Log) (userId : Int64) (u : User) : Prop where
  changed : LastChange log userId u.tokenValidAfter
  suspended : u.suspended = suspended log userId
  withdrawn : u.withdrawn = true ↔ Withdrawn log userId

structure Sound (J : Jwt) (s : State) : Prop where
  signed : Signed J s
  ids : (s.log.filterMap fun x => x.2.localId).Nodup
  ordered : s.log.Pairwise fun x y => x.1 ≤ y.1
  past : ∀ x ∈ s.log, x.1 ≤ s.now
  rows : RowsOk s
  users : ∀ userId, UserOk s.log userId (s.users userId)

/-! ### The users -/

/-- What an event writes into a user's rows -/
def userAfter (now : Nat) (e : Event) (userId : Int64) (u : User) : User :=
  match e with
  | .updatePasswordHash v | .revokeAllTokens v =>
    if userId = v then { u with tokenValidAfter := some now } else u
  | .setSuspended v suspended => if userId = v then { u with suspended } else u
  | .withdrawLocalActor v => if userId = v then { u with withdrawn := true } else u
  | .updateEmail v email => if userId = v then { u with email } else u
  | _ => u

theorem apply_users (e : Event) (userId : Int64) :
    (apply J s e).users userId = userAfter s.now e userId (s.users userId) := by
  cases e <;> rfl

theorem UserOk.append {log : Log} {userId : Int64} {u : User} (h : UserOk log userId u) (now : Nat)
    (e : Event) : UserOk (log ++ [(now, e)]) userId (userAfter now e userId u) := by
  have hsuspended := suspended_append log (now, e) userId
  have hchanged : ¬ Changes userId e → LastChange (log ++ [(now, e)]) userId u.tokenValidAfter :=
    fun he => h.changed.append he
  have hwithdrawn : e ≠ .withdrawLocalActor userId →
      (u.withdrawn = true ↔ Withdrawn (log ++ [(now, e)]) userId) := fun he =>
    h.withdrawn.trans (withdrawn_append.trans (or_iff_left he)).symm
  cases e with
  | updatePasswordHash v | revokeAllTokens v =>
    rw [userAfter]
    split
    case isTrue hv =>
      refine ⟨lastChange_append_change log now ?_, h.suspended.trans hsuspended.symm,
        hwithdrawn nofun⟩
      simp [Changes, hv]
    case isFalse hv =>
      refine ⟨hchanged ?_, h.suspended.trans hsuspended.symm, hwithdrawn nofun⟩
      simpa [Changes, eq_comm] using hv
  | setSuspended v value =>
    rw [userAfter]
    split
    case isTrue hv =>
      exact ⟨hchanged (by simp [Changes]), (hsuspended.trans (if_pos hv.symm)).symm,
        hwithdrawn nofun⟩
    case isFalse hv =>
      exact ⟨hchanged (by simp [Changes]),
        h.suspended.trans (hsuspended.trans (if_neg (Ne.symm hv))).symm, hwithdrawn nofun⟩
  | withdrawLocalActor v =>
    rw [userAfter]
    split
    case isTrue hv =>
      refine ⟨hchanged (by simp [Changes]), h.suspended.trans hsuspended.symm, iff_of_true rfl ?_⟩
      exact withdrawn_append.mpr (Or.inr (by rw [hv]))
    case isFalse hv =>
      refine ⟨hchanged (by simp [Changes]), h.suspended.trans hsuspended.symm, hwithdrawn ?_⟩
      rintro ⟨⟩
      exact hv rfl
  | updateEmail v email =>
    rw [userAfter]
    split <;>
    exact ⟨hchanged (by simp [Changes]), h.suspended.trans hsuspended.symm, hwithdrawn nofun⟩
  | _ => exact ⟨hchanged (by simp [Changes]), h.suspended.trans hsuspended.symm, hwithdrawn nofun⟩

/-! ### The rows of app tokens -/

namespace RowsOk

theorem eq_of_id (h : RowsOk s) {r r' : AppToken} (hr : r ∈ s.appTokens) (hr' : r' ∈ s.appTokens)
    (hid : r.id = r'.id) : r = r' :=
  List.inj_on_of_nodup_map h.ids hr hr' hid

theorem revokes_iff (h : RowsOk s) {r : AppToken} (hr : r ∈ s.appTokens) (e : Event) :
    Revokes s.log r.id e ↔ r.RevokedBy e := by
  constructor
  · rintro ⟨row, hrow, hid, he⟩
    obtain ⟨r', hr', rfl⟩ := List.mem_map.mp ((h.logged row).mp hrow)
    obtain rfl := h.eq_of_id hr' hr hid
    exact he
  · intro he
    exact ⟨r.inserted, (h.logged _).mpr (List.mem_map_of_mem hr), rfl, he⟩

/-- An event that inserts no row and revokes none -/
theorem keep (h : RowsOk s) {e : Event} (hrows : s'.appTokens = s.appTokens)
    (hlog : s'.log = s.log ++ [(s.now, e)]) (hno : ∀ row, e ≠ .insertAppToken row)
    (hkeep : ∀ r ∈ s.appTokens, ¬ r.RevokedBy e) : RowsOk s' where
  ids := by
    rw [hrows]
    exact h.ids
  logged row := by
    rw [hrows, hlog, ← h.logged row]
    refine exists_congr fun t => ?_
    rw [List.mem_append, List.mem_singleton, Prod.mk.injEq]
    exact or_iff_left fun heq => hno row heq.2.symm
  revoked r hr := by
    rw [hrows] at hr
    rw [hlog, h.revoked r hr, revokedSingly_append, h.revokes_iff hr]
    exact (or_iff_left (hkeep r hr)).symm

theorem insert (h : RowsOk s) {row : AppToken} (hrows : s'.appTokens = s.appTokens ++ [row])
    (hlog : s'.log = s.log ++ [(s.now, .insertAppToken row)]) (hnone : row.revokedAt = none)
    (hnew : row.id ∉ s.appTokens.map AppToken.id) : RowsOk s' where
  ids := by
    rw [hrows, List.map_append]
    refine List.nodup_append'.mpr ⟨h.ids, List.nodup_singleton _, ?_⟩
    exact List.disjoint_singleton.mpr hnew
  logged r := by
    have hsame : row.inserted = row := by
      obtain ⟨id, userId, oauthAppId, misskeyHash, revokedAt⟩ := row
      cases hnone
      rfl
    rw [hrows, hlog, List.map_append, List.map_singleton, List.mem_append, ← h.logged r, hsame]
    simp only [List.mem_append, List.mem_singleton, Prod.mk.injEq, Event.insertAppToken.injEq,
      exists_or, exists_eq_left]
  revoked r hr := by
    have hno : ∀ jti, ¬ Revokes s.log jti (.insertAppToken row) := by
      intro jti hrevokes
      obtain ⟨row', -, -, he | ⟨appId, -, he⟩⟩ := hrevokes
      · cases he
      · cases he
    rw [hrows, List.mem_append, List.mem_singleton] at hr
    rw [hlog, revokedSingly_append, or_iff_left (hno _)]
    rcases hr with hr | rfl
    · exact h.revoked r hr
    · refine iff_of_false (by rw [hnone]; nofun) ?_
      rintro ⟨row', before, t, e, after, heq, ⟨insertedAt, hins⟩, hid, -⟩
      obtain ⟨r', hr', heq'⟩ := List.mem_map.mp ((h.logged row').mp
        ⟨insertedAt, by rw [heq]; exact List.mem_append_left _ hins⟩)
      refine hnew (List.mem_map.mpr ⟨r', hr', ?_⟩)
      rw [← hid, ← heq']
      rfl

theorem revoke (h : RowsOk s) {e : Event} {matching : AppToken → Bool}
    (hrows : s'.appTokens = (updateAppTokens s matching).appTokens)
    (hlog : s'.log = s.log ++ [(s.now, e)]) (hno : ∀ row, e ≠ .insertAppToken row)
    (hmatch : ∀ r, matching r = true ↔ r.RevokedBy e) : RowsOk s' := by
  rw [updateAppTokens] at hrows
  generalize hwrite : (fun r : AppToken => if matching r = true ∧ r.revokedAt = none then
    { r with revokedAt := some s.now } else r) = write at hrows
  have hid : AppToken.id ∘ write = AppToken.id := by
    rw [← hwrite]
    funext r
    simp only [Function.comp_apply]
    split <;> rfl
  have hinserted : AppToken.inserted ∘ write = AppToken.inserted := by
    rw [← hwrite]
    funext r
    simp only [Function.comp_apply]
    split <;> rfl
  constructor
  case ids =>
    rw [hrows, List.map_map, hid]
    exact h.ids
  case logged =>
    intro row
    rw [hrows, hlog, List.map_map, hinserted, ← h.logged row]
    refine exists_congr fun t => ?_
    rw [List.mem_append, List.mem_singleton, Prod.mk.injEq]
    exact or_iff_left fun heq => hno row heq.2.symm
  case revoked =>
    intro r' hr'
    rw [hrows] at hr'
    obtain ⟨r, hr, rfl⟩ := List.mem_map.mp hr'
    have hrid : (write r).id = r.id := congrFun hid r
    rw [hrid, hlog, revokedSingly_append, h.revokes_iff hr, ← h.revoked r hr, ← hmatch, ← hwrite]
    beta_reduce
    cases hat : r.revokedAt with
    | none =>
      cases hm : matching r with
      | true => exact iff_of_true (by rw [if_pos ⟨rfl, rfl⟩]; rfl) (Or.inr rfl)
      | false => exact iff_of_false (by rw [if_neg nofun, hat]; nofun) (by simp)
    | some t => simp [hat]

theorem status_iff (h : RowsOk s) (jti : Uuid) :
    status s jti = some true ↔ RevokedSingly s.log jti := by
  constructor
  · intro hstatus
    obtain ⟨r, hfind, hr⟩ := Option.map_eq_some_iff.mp hstatus
    have hid : r.id = jti := by simpa using List.find?_some hfind
    rw [← hid]
    exact (h.revoked r (List.mem_of_find?_eq_some hfind)).mp hr
  · intro hrevoked
    obtain ⟨row, before, t, e, after, heq, ⟨insertedAt, hins⟩, hid, he⟩ := hrevoked
    obtain ⟨r, hr, hrow⟩ := List.mem_map.mp ((h.logged row).mp
      ⟨insertedAt, by rw [heq]; exact List.mem_append_left _ hins⟩)
    have hrid : r.id = jti := by
      rw [← hid, ← hrow]
      rfl
    have hsome := (h.revoked r hr).mpr
      ⟨row, before, t, e, after, heq, ⟨insertedAt, hins⟩, hid.trans hrid.symm, hrid ▸ he⟩
    rw [status]
    cases hfind : s.appTokens.find? fun r => decide (r.id = jti) with
    | none => exact absurd (decide_eq_true hrid) (List.find?_eq_none.mp hfind r hr)
    | some r' =>
      have hid' : r'.id = jti := by simpa using List.find?_some hfind
      obtain rfl := h.eq_of_id (List.mem_of_find?_eq_some hfind) hr (hid'.trans hrid.symm)
      rw [Option.map_some, hsome]

theorem apply (h : RowsOk s) {e : Event} (he : enabled s e = true) :
    RowsOk { Bearer.apply J s e with log := s.log ++ [(s.now, e)] } := by
  cases e with
  | insertAppToken row =>
    have hrow : row.revokedAt = none ∧ row.id ∉ s.appTokens.map AppToken.id := by
      rw [enabled, decide_eq_true_eq] at he
      exact ⟨he.1, he.2.1⟩
    exact h.insert rfl rfl hrow.1 hrow.2
  | revoke id userId =>
    refine h.revoke rfl rfl nofun fun r => ?_
    simp only [AppToken.RevokedBy, decide_eq_true_eq]
    constructor
    · rintro ⟨rfl, rfl⟩
      exact Or.inl rfl
    · rintro (he | ⟨appId, -, he⟩)
      · cases he
        exact ⟨rfl, rfl⟩
      · cases he
  | revokeAppToken id appId =>
    refine h.revoke rfl rfl nofun fun r => ?_
    simp only [AppToken.RevokedBy, decide_eq_true_eq]
    constructor
    · rintro ⟨rfl, happ⟩
      exact Or.inr ⟨appId, happ, rfl⟩
    · rintro (he | ⟨app, happ, he⟩)
      · cases he
      · cases he
        exact ⟨rfl, happ⟩
  | _ => exact h.keep rfl rfl nofun fun r _ => by simp [AppToken.RevokedBy]

end RowsOk

/-! ### Steps and runs -/

theorem apply_signed (e : Event) : (apply J s e).signed = s.signed ++ claimsOf J (s.now, e) := by
  cases e <;> first | rfl | exact (List.append_nil _).symm

theorem ids_append (h : Sound J s) {e : Event} (he : enabled s e = true) :
    ((s.log ++ [(s.now, e)]).filterMap fun x => x.2.localId).Nodup := by
  have hone : ([(s.now, e)].filterMap fun x => x.2.localId) = e.localId.toList := by
    cases hid : e.localId <;> simp [hid]
  rw [List.filterMap_append, hone]
  cases hid : e.localId with
  | none =>
    rw [Option.toList_none, List.append_nil]
    exact h.ids
  | some jti =>
    rw [Option.toList_some]
    refine List.nodup_append'.mpr ⟨h.ids, List.nodup_singleton _, ?_⟩
    refine List.disjoint_singleton.mpr ?_
    cases e with
    | generateToken | generateAppToken =>
      cases hid
      exact of_decide_eq_true he
    | _ => cases hid

theorem sound_step {a : Action} (h : Sound J s) (hs : step J s a = some s') : Sound J s' := by
  cases a with
  | tick micros =>
    cases hs
    exact ⟨h.signed, h.ids, h.ordered, fun x hx => (h.past x hx).trans (Nat.le_add_right _ _),
      ⟨h.rows.ids, h.rows.logged, h.rows.revoked⟩, h.users⟩
  | event e =>
    simp only [step] at hs
    split at hs
    case isFalse => cases hs
    case isTrue he =>
      have hrows : RowsOk { apply J s e with log := s.log ++ [(s.now, e)] } := h.rows.apply he
      have hids := ids_append h he
      have hnow : (apply J s e).now = s.now := by cases e <;> rfl
      cases hs
      refine ⟨?_, hids, ?_, fun x hx => ?_, hrows, fun userId => ?_⟩
      · show (apply J s e).signed = (s.log ++ [(s.now, e)]).flatMap (claimsOf J)
        rw [apply_signed, h.signed, List.flatMap_append, List.flatMap_singleton]
      · refine List.pairwise_append.mpr
          ⟨h.ordered, List.pairwise_singleton _ _, fun x hx y hy => ?_⟩
        rw [List.mem_singleton.mp hy]
        exact h.past x hx
      · refine le_of_le_of_eq ?_ hnow.symm
        rcases List.mem_append.mp hx with hx | hx
        · exact h.past x hx
        · rw [List.mem_singleton.mp hx]
      · show UserOk _ _ ((apply J s e).users userId)
        rw [apply_users]
        exact (h.users userId).append s.now e

theorem sound_init : Sound J {} where
  signed := rfl
  ids := List.nodup_nil
  ordered := List.Pairwise.nil
  past _ hx := absurd hx List.not_mem_nil
  rows :=
    { ids := List.nodup_nil
      logged := fun _ => iff_of_false (fun ⟨_, ht⟩ => absurd ht List.not_mem_nil) List.not_mem_nil
      revoked := fun _ hr => absurd hr List.not_mem_nil }
  users _ :=
    { changed := fun _ hx => absurd hx List.not_mem_nil
      suspended := rfl
      withdrawn := iff_of_false nofun fun ⟨_, hx, _⟩ => absurd hx List.not_mem_nil }

theorem sound_run {as : List Action} (hrun : (machine J).run {} as = some s) : Sound J s :=
  (machine J).run_inv (fun h hs => sound_step h hs) sound_init hrun

/-! ## What `extract_auth` accepts -/

theorem extractAuth_eq_ok (h : Sound J s) {bearer : Token} {user : AuthUser} :
    extractAuth J s (some bearer) = .ok user ↔ identify J s bearer = .ok user ∧
      suspended s.log user.userId = false ∧ ¬ Withdrawn s.log user.userId := by
  have huser := h.users user.userId
  rw [extractAuth, extractAuthAllowSuspended, ← huser.suspended, ← huser.withdrawn]
  cases identify J s bearer with
  | error e => exact iff_of_false nofun nofun
  | ok found =>
    constructor
    · intro hok
      simp only [bind, Except.bind] at hok
      split at hok
      case h_1 => cases hok
      case h_2 user' hwithdrawn =>
        split at hwithdrawn
        case isTrue => cases hwithdrawn
        case isFalse hhere =>
          cases hwithdrawn
          split at hok
          case isTrue => cases hok
          case isFalse hactive =>
            cases hok
            exact ⟨rfl, Bool.eq_false_iff.mpr hactive, hhere⟩
    · rintro ⟨heq, hactive, hhere⟩
      cases heq
      simp only [bind, Except.bind, if_neg hhere, pure, Except.pure, hactive, Bool.false_eq_true,
        if_false]

/-- What a token of the log is checked for -/
theorem identify_eq_ok (hJ : J.Documented) (h : Sound J s) {c : Claims} {user : AuthUser} :
    identify J s (.jwt c) = .ok user ↔ ∃ x ∈ s.log, ∃ jti,
      Issues J x.1 x.2 c user.userId user.email jti ∧ ¬ RevokedSingly s.log jti ∧
      ∀ t, (s.users user.userId).tokenValidAfter = some t → timestamp t ≤ timestamp x.1 := by
  rw [identify]
  constructor
  · intro hok
    split at hok
    case h_1 v hv =>
      obtain ⟨x, hx, hissues, hiat, -⟩ := (verifyToken_eq_ok hJ h.signed).mp hv
      split at hok
      case isTrue => cases hok
      case isFalse hstatus =>
        have hsingle := mt (h.rows.status_iff v.jti).mpr hstatus
        split at hok
        case h_1 t ht =>
          split at hok
          case isTrue => cases hok
          case isFalse hlt =>
            cases hok
            refine ⟨x, hx, v.jti, hissues, hsingle, fun t' ht' => ?_⟩
            rw [ht] at ht'
            cases ht'
            rw [← hiat]
            exact not_lt.mp hlt
        case h_2 hnone =>
          cases hok
          refine ⟨x, hx, v.jti, hissues, hsingle, fun t' ht' => ?_⟩
          rw [hnone] at ht'
          cases ht'
    case h_2 => cases hok
  · rintro ⟨x, hx, jti, hissues, hsingle, htime⟩
    have hv : verifyTokenIgnoringExp J s (.jwt c) =
        .ok ⟨user.userId, user.email, jti, timestamp x.1, none⟩ :=
      (verifyToken_eq_ok hJ h.signed).mpr ⟨x, hx, hissues, rfl, rfl⟩
    rw [hv]
    simp only [if_neg (mt (h.rows.status_iff jti).mp hsingle)]
    cases hafter : (s.users user.userId).tokenValidAfter with
    | none => rfl
    | some t => exact if_neg (not_lt.mpr (htime t hafter))

theorem Issues.not_changes {issuedAt : Nat} {e : Event} {c : Claims} {userId : Int64}
    {email : String} {jti : Uuid} (h : Issues J issuedAt e c userId email jti) (v : Int64) :
    ¬ Changes v e := by
  obtain ⟨rfl, -⟩ | ⟨rfl, -⟩ := h <;> rintro (hc | hc) <;> cases hc

theorem Issues.jti_unique (hJ : J.Documented) {t t' : Nat} {e e' : Event} {c : Claims}
    {userId userId' : Int64} {email email' : String} {jti jti' : Uuid}
    (h : Issues J t e c userId email jti) (h' : Issues J t' e' c userId' email' jti') :
    jti = jti' := by
  have hread := (local_of_local hJ _).symm.trans
    ((congrArg (LocalClaims.deserialize J) (h.eq_claims.symm.trans h'.eq_claims)).trans
      (local_of_local hJ _))
  exact congrArg LocalClaims.jti (Option.some.inj hread)

/-- What the log says of a time that comes before another -/
theorem le_of_split (h : Sound J s) {before after : Log} {x : Nat × Event}
    (hlog : s.log = before ++ x :: after) {y : Nat × Event} (hy : y ∈ after) : x.1 ≤ y.1 := by
  have hordered := h.ordered
  rw [hlog] at hordered
  exact (List.pairwise_cons.mp (List.pairwise_append.mp hordered).2.1).1 y hy

theorem timestamp_mono {a b : Nat} (h : a ≤ b) : timestamp a ≤ timestamp b :=
  Nat.div_le_div_right h

/-- Before the last change, or after it -/
theorem cases_of_lastChange {log : Log} {userId : Int64} {o : Option Nat}
    (h : LastChange log userId o) {x : Nat × Event} (hx : x ∈ log) (hno : ¬ Changes userId x.2) :
    (∃ before after, log = before ++ x :: after ∧ ∀ y ∈ after, ¬ Changes userId y.2) ∨
      ∃ before between t change after, o = some t ∧
        log = before ++ x :: between ++ (t, change) :: after ∧ Changes userId change ∧
        ∀ y ∈ after, ¬ Changes userId y.2 := by
  cases o with
  | none =>
    obtain ⟨before, after, rfl⟩ := List.append_of_mem hx
    refine Or.inl ⟨before, after, rfl, fun y hy => h y ?_⟩
    exact List.mem_append_right _ (List.mem_cons_of_mem _ hy)
  | some t =>
    obtain ⟨before, change, after, rfl, hchange, hafter⟩ := h
    rcases List.mem_append.mp hx with hx | hx
    · obtain ⟨first, between, rfl⟩ := List.append_of_mem hx
      exact Or.inr ⟨first, between, t, change, after, rfl, rfl, hchange, hafter⟩
    · rcases List.mem_cons.mp hx with rfl | hx
      · exact absurd hchange hno
      · obtain ⟨between, last, rfl⟩ := List.append_of_mem hx
        refine Or.inl ⟨before ++ (t, change) :: between, last, by simp, fun y hy => ?_⟩
        exact hafter y (List.mem_append_right _ (List.mem_cons_of_mem _ hy))

theorem honoured_or_late (hJ : J.Documented) (h : Sound J s) {c : Claims} {user : AuthUser}
    (hok : extractAuth J s (some (.jwt c)) = .ok user) :
    Honoured J s.log c user.userId user.email ∨ LateInSecond J s.log c user.userId user.email := by
  obtain ⟨hok, hactive, hhere⟩ := (extractAuth_eq_ok h).mp hok
  obtain ⟨x, hx, jti, hissues, hsingle, htime⟩ := (identify_eq_ok hJ h).mp hok
  have hgood : Good s.log user.userId jti := ⟨hsingle, hactive, hhere⟩
  rcases cases_of_lastChange (h.users user.userId).changed hx (hissues.not_changes _) with
    ⟨before, after, hlog, hafter⟩ | ⟨before, between, t, change, after, ht, hlog, hchange, hafter⟩
  · exact Or.inl ⟨before, x.1, x.2, after, jti, hlog, hissues, hafter, hgood⟩
  · refine Or.inr ⟨before, x.1, x.2, between, t, change, after, jti, hlog, hissues, hchange,
      hafter, le_antisymm ?_ (htime t ht), hgood⟩
    rw [List.append_assoc] at hlog
    exact timestamp_mono (le_of_split h hlog (List.mem_append_right _ List.mem_cons_self))

theorem extractAuth_of_honoured (hJ : J.Documented) (h : Sound J s) {c : Claims} {user : AuthUser}
    (hhonoured : Honoured J s.log c user.userId user.email) :
    extractAuth J s (some (.jwt c)) = .ok user := by
  obtain ⟨before, issuedAt, e, after, jti, hlog, hissues, hafter, hgood⟩ := hhonoured
  have hx : (issuedAt, e) ∈ s.log := by
    rw [hlog]
    exact List.mem_append_right _ List.mem_cons_self
  refine (extractAuth_eq_ok h).mpr ⟨(identify_eq_ok hJ h).mpr
    ⟨_, hx, jti, hissues, hgood.unrevoked, fun t ht => timestamp_mono ?_⟩, hgood.active, hgood.here⟩
  -- the change is not among what comes after the token
  have hchanged := (h.users user.userId).changed
  rw [ht] at hchanged
  obtain ⟨first, change, last, hlog', hchange, -⟩ := hchanged
  rcases List.append_eq_append_iff.mp (hlog'.symm.trans hlog) with ⟨mid, -, hmid⟩ | ⟨mid, -, hmid⟩
  · cases mid with
    | nil =>
      cases hmid
      exact absurd hchange (hissues.not_changes _)
    | cons y mid =>
      cases hmid
      exact le_of_split h hlog' (List.mem_append_right _ List.mem_cons_self)
  · cases mid with
    | nil =>
      cases hmid
      exact absurd hchange (hissues.not_changes _)
    | cons y mid =>
      cases hmid
      exact absurd hchange (hafter _ (List.mem_append_right _ List.mem_cons_self))

theorem extractAuth_of_late (hJ : J.Documented) (h : Sound J s) {c : Claims} {user : AuthUser}
    (hlate : LateInSecond J s.log c user.userId user.email) :
    extractAuth J s (some (.jwt c)) = .ok user := by
  obtain ⟨before, issuedAt, e, between, changedAt, change, after, jti, hlog, hissues, hchange,
    hafter, hsecond, hgood⟩ := hlate
  have hx : (issuedAt, e) ∈ s.log := by
    rw [hlog]
    exact List.mem_append_left _ (List.mem_append_right _ List.mem_cons_self)
  refine (extractAuth_eq_ok h).mpr ⟨(identify_eq_ok hJ h).mpr
    ⟨_, hx, jti, hissues, hgood.unrevoked, fun t ht => ?_⟩, hgood.active, hgood.here⟩
  refine le_of_le_of_eq ?_ hsecond.symm
  have hchanged := (h.users user.userId).changed
  rw [ht] at hchanged
  obtain ⟨first, change', last, hlog', hchange', -⟩ := hchanged
  have hmem : (t, change') ∈
      (before ++ (issuedAt, e) :: between ++ [(changedAt, change)]) ++ after := by
    rw [List.append_assoc, List.singleton_append, ← hlog, hlog']
    exact List.mem_append_right _ List.mem_cons_self
  rcases List.mem_append.mp hmem with hmem | hmem
  · have hordered := h.ordered
    rw [hlog] at hordered
    rcases List.mem_append.mp hmem with hmem | hmem
    · exact timestamp_mono
        ((List.pairwise_append.mp hordered).2.2 _ hmem _ List.mem_cons_self)
    · cases List.mem_singleton.mp hmem
      exact le_rfl
  · exact absurd hchange' (hafter _ hmem)

theorem not_late_of_honoured (hJ : J.Documented) (h : Sound J s) {c : Claims} {user : AuthUser}
    (hhonoured : Honoured J s.log c user.userId user.email) :
    ¬ LateInSecond J s.log c user.userId user.email := by
  rintro ⟨before', issuedAt', e', between, changedAt, change, after', jti', hlog', hissues',
    hchange, -, -, -⟩
  obtain ⟨before, issuedAt, e, after, jti, hlog, hissues, hafter, -⟩ := hhonoured
  have hids := h.ids
  rw [List.append_assoc, List.cons_append] at hlog'
  rw [hlog] at hids hlog'
  obtain rfl := hissues.jti_unique hJ hissues'
  obtain ⟨-, -, rfl⟩ := place_unique hids hlog' hissues.localId_eq hissues'.localId_eq
  exact hafter _ (List.mem_append_right _ List.mem_cons_self) hchange

theorem asIssued_iff (hJ : J.Documented) {as : List Action}
    (hrun : (machine J).run {} as = some s) (c : Claims) (user : AuthUser) :
    AsIssued J s c user ↔ ¬ LateInSecond J s.log c user.userId user.email := by
  have h := sound_run hrun
  constructor
  · intro hissued hlate
    have hok := extractAuth_of_late hJ h hlate
    exact not_late_of_honoured hJ h (hissued.honoured.mp hok) hlate
  · intro hnot
    refine ⟨⟨fun hok => ?_, extractAuth_of_honoured hJ h⟩, separate_of_signed hJ h.signed c⟩
    exact (honoured_or_late hJ h hok).resolve_right hnot

/-! ### A run -/

def hexValue (c : Char) : Nat := if c.isDigit then c.toNat - 48 else c.toNat - 87

/-- The groups of a uuid's digits -/
def groupDigits (digits : List Char) : List Char :=
  digits.take 8 ++ '-' :: ((digits.drop 8).take 4 ++ '-' :: ((digits.drop 12).take 4 ++
    '-' :: ((digits.drop 16).take 4 ++ '-' :: digits.drop 20)))

/-- `Uuid::to_string` -/
def hyphenated (u : Uuid) : String :=
  String.ofList (groupDigits ((toDigits 16 32 u.toNat).map Nat.digitChar))

def parseHyphenated (text : String) : Option Uuid :=
  some (BitVec.ofNat 128 (ofDigits 16 ((text.toList.filter (· ≠ '-')).map hexValue)))

theorem digitChar_hex : ∀ d < 16, Nat.digitChar d ≠ '-' ∧ hexValue (Nat.digitChar d) = d := by
  decide

theorem filter_groupDigits {digits : List Char} (h : ∀ c ∈ digits, c ≠ '-') :
    (groupDigits digits).filter (· ≠ '-') = digits := by
  have hkeep : ∀ l : List Char, l.Sublist digits → l.filter (· ≠ '-') = l := fun l hl =>
    List.filter_eq_self.mpr fun c hc => decide_eq_true (h c (hl.subset hc))
  have htake : ∀ n, ((digits.drop n).take 4).Sublist digits := fun n =>
    (List.take_sublist _ _).trans (List.drop_sublist _ _)
  have hjoin : ∀ n, (digits.drop n).take 4 ++ digits.drop (n + 4) = digits.drop n := by
    intro n
    rw [← List.drop_drop]
    exact List.take_append_drop 4 _
  have hdash : ∀ l : List Char, ('-' :: l).filter (· ≠ '-') = l.filter (· ≠ '-') := fun _ => rfl
  rw [groupDigits]
  simp only [List.filter_append, hdash]
  rw [hkeep _ (List.take_sublist _ _), hkeep _ (htake 8), hkeep _ (htake 12), hkeep _ (htake 16),
    hkeep _ (List.drop_sublist _ _), hjoin 16, hjoin 12, hjoin 8, List.take_append_drop]

theorem parse_hyphenated (u : Uuid) : parseHyphenated (hyphenated u) = some u := by
  have hlt : ∀ d ∈ toDigits 16 32 u.toNat, d < 16 := toDigits_lt (by decide) 32 u.toNat
  have hno : ∀ c ∈ (toDigits 16 32 u.toNat).map Nat.digitChar, c ≠ '-' := by
    intro c hc
    obtain ⟨d, hd, rfl⟩ := List.mem_map.mp hc
    exact (digitChar_hex d (hlt d hd)).1
  have hvalue : ((toDigits 16 32 u.toNat).map Nat.digitChar).map hexValue =
      toDigits 16 32 u.toNat := by
    rw [List.map_map]
    exact (List.map_congr_left fun d hd => (digitChar_hex d (hlt d hd)).2).trans (List.map_id _)
  rw [parseHyphenated, hyphenated, String.toList_ofList, filter_groupDigits hno, hvalue,
    ofDigits_toDigits (lt_of_lt_of_eq u.isLt (by decide)), BitVec.ofNat_toNat,
    BitVec.setWidth_eq]

/-- `jsonwebtoken` with its leeway of a minute -/
def hs256 : Jwt where
  validate v c now :=
    v.requiredSpecClaims.all (fun key => (c.lookup key).isSome) &&
      (!v.validateExp || ((c.lookup "exp").bind Value.asUsize).all fun exp => now ≤ exp + 60) &&
      match c.lookup "aud", v.aud with
      | none, _ => true
      | some _, none => false
      | some aud, some audience => aud.asStr.any fun a => a ∈ audience
  uuidText := hyphenated
  parseUuid := parseHyphenated

theorem hs256_documented : hs256.Documented where
  validate {v c now} hrequired hexp haud hno := by
    simp only [hs256, hrequired, hexp, haud, hno, List.all_nil, Bool.not_false, Bool.true_or,
      Bool.and_self]
  parseUuid := parse_hyphenated

/-- A login, a password change in the next second, and a login after it -/
def loginAgain : List Action :=
  [.tick 1200000, .event (.generateToken 7 "a@example.com" 1), .tick 1000000,
    .event (.updatePasswordHash 7), .tick 100000, .event (.generateToken 7 "a@example.com" 2)]

theorem asIssued_iff_loginAgain : ∃ s, (machine hs256).run {} loginAgain = some s ∧
    s.log.length = 3 ∧ ∀ c user, AsIssued hs256 s c user ↔
      ¬ LateInSecond hs256 s.log c user.userId user.email :=
  ⟨_, rfl, rfl, @asIssued_iff hs256 _ hs256_documented loginAgain rfl⟩

/-- A login at 1.2 s, and all tokens revoked at 1.7 s -/
def revokedInSecond : List Action :=
  [.tick 1200000, .event (.generateToken 7 "a@example.com" 1), .tick 500000,
    .event (.revokeAllTokens 7)]

theorem asIssued_counterexample : ¬ ∀ as s c user, (machine hs256).run {} as = some s →
    AsIssued hs256 s c user := by
  intro hall
  obtain ⟨s, hrun⟩ : ∃ s, (machine hs256).run {} revokedInSecond = some s := ⟨_, rfl⟩
  have hlog : s.log = [(1200000, .generateToken 7 "a@example.com" 1),
      (1700000, .revokeAllTokens 7)] := by
    cases hrun
    rfl
  have h := sound_run hrun
  have hlate : LateInSecond hs256 s.log (generateToken hs256 1200000 7 "a@example.com" 1) 7
      "a@example.com" := by
    refine ⟨[], 1200000, _, [], 1700000, _, [], 1, hlog, Or.inl ⟨rfl, rfl⟩, Or.inr rfl,
      fun x hx => absurd hx List.not_mem_nil, rfl, ?_, ?_, ?_⟩
    · refine mt (h.rows.status_iff 1).mpr ?_
      cases hrun
      nofun
    · rw [hlog]
      rfl
    · rw [hlog]
      simp [Withdrawn]
  have hok : extractAuth hs256 s _ = .ok ⟨7, "a@example.com"⟩ :=
    extractAuth_of_late hs256_documented h hlate
  have hhonoured := (hall revokedInSecond s _ _ hrun).honoured.mp hok
  exact not_late_of_honoured hs256_documented h hhonoured hlate

end Seiran.Bearer
