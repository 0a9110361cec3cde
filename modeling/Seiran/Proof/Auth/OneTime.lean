import Mathlib.Algebra.BigOperators.Group.List.Basic
import Mathlib.Data.Int.ConditionallyCompleteOrder
import Mathlib.Data.Multiset.OrderedMonoid
import Mathlib.Order.ConditionallyCompleteLattice.Basic
import Mathlib.Tactic.Abel
import Mathlib.Tactic.GCongr
import Seiran.Framework.Tickets
import Seiran.Model.Auth.OneTime

/-!
# One-time credentials are used once

A claim is a request that has read a credential and will succeed, or has succeeded.

* `Reads.consume`, `Reads.delete`: the short codes that were read, and are still there,
  are those of the requests between the two statements of `consume`;
* `sound_step`, `sound_run`: `Sound`, the tickets and these, along a run;
* `usedOnce_of_alone`: a run where each step is `Alone` uses every credential once;
* `usedOnce_counterexample`: two requests with one refresh token, at the same time.
-/

namespace Seiran.OneTime

/-! ## Rows and claims -/

def ShortCode.row (c : ShortCode) : Credential × Option Int := (.shortCode c.id, some c.expiresAt)

def RecoveryCode.row (c : RecoveryCode) : Credential × Option Int := (.recoveryCode c.id, none)

def DisableRequest.row (r : DisableRequest) : Credential × Option Int :=
  (.disableToken r.token, some r.expiresAt)

def AuthorizationCode.row (c : AuthorizationCode) : Credential × Option Int :=
  (.authorizationCode c.codeHash, some c.expiresAt)

def MisskeySession.row (r : MisskeySession) : Credential × Option Int :=
  (.misskeySession r.tokenHash, some r.expiresAt)

def RefreshToken.row (t : RefreshToken) : Credential × Option Int :=
  (.refreshToken t.jti, some t.expiresAt)

def State.rows (s : State) : Multiset (Credential × Option Int) :=
  s.shortCodes.map ShortCode.row + s.recoveryCodes.map RecoveryCode.row +
    s.disableRequests.map DisableRequest.row + s.authorizationCodes.map AuthorizationCode.row +
    s.misskeySessions.map MisskeySession.row + s.refreshTokens.map RefreshToken.row

def Task.claims : Task → Multiset (Credential × Int)
  | .deleteShortCodes _ _ _ (some id) readAt => {(.shortCode id, readAt)}
  | .deleteShortCodes _ _ _ none _ => 0
  | .markRecoveryCodeUsed _ => 0
  | .revokeRefreshToken jti readAt => {(.refreshToken jti, readAt)}

def State.claims (s : State) : Multiset (Credential × Int) :=
  (s.tasks.map Task.claims).sum + s.used

def State.Locked (s : State) : Credential → Prop
  | .shortCode id => id ∈ s.guesses
  | .recoveryCode id => ∃ c ∈ s.recoveryCodes, c.id = id ∧ c.used = true
  | .refreshToken jti =>
    (∃ t ∈ s.refreshTokens, t.jti = jti ∧ t.revoked = true) ∨ ∃ task ∈ s.tasks, task.Revokes jti
  | _ => False

/-- The short codes that were read: those that are still there were read by a request
that is `waiting`, and such a request deletes what it read. -/
structure Reads (codes : List ShortCode) (guesses : List Int) (waiting : Task → Prop)
    (issued : List (Credential × Option Int)) : Prop where
  nodup : guesses.Nodup
  issued : ∀ {id}, id ∈ guesses → .shortCode id ∈ issued.map Prod.fst
  reader : ∀ {c}, c ∈ codes → c.id ∈ guesses → ∃ task, waiting task ∧ task.HasRead c.id
  guessed : ∀ {task id}, waiting task → task.HasRead id → id ∈ guesses
  deletes : ∀ {a p read m t c}, waiting (.deleteShortCodes a p read m t) → c ∈ codes →
    c.id ∈ read → c.actorId = a ∧ c.purpose = p

def State.Waiting (s : State) (task : Task) : Prop := task ∈ s.tasks ∨ task ∈ s.failed

structure Sound (s : State) : Prop where
  tickets : Tickets (s.issued : Multiset (Credential × Option Int)) s.rows s.Locked s.claims
  reads : Reads s.shortCodes s.guesses s.Waiting s.issued

/-! ## The tables -/

section Tables

variable {α : Type} (f : α → Credential × Option Int) (l : List α)

theorem filter_map_le (p : α → Bool) :
    ((l.filter p).map f : Multiset (Credential × Option Int)) ≤ l.map f :=
  Multiset.coe_le.mpr (List.filter_sublist.map f).subperm

theorem append_map_eq (a : α) :
    ((l ++ [a]).map f : Multiset (Credential × Option Int)) = l.map f + {f a} := by
  rw [List.map_append, ← Multiset.coe_add, List.map_singleton, Multiset.coe_singleton]

theorem map_map_eq {g : α → α} (hg : ∀ a, f (g a) = f a) : (l.map g).map f = l.map f := by
  rw [List.map_map]
  exact List.map_congr_left fun a _ => hg a

variable {f l}

theorem unique_of_nodup {rows : Multiset (Credential × Option Int)}
    (hle : (l.map f : Multiset (Credential × Option Int)) ≤ rows)
    (hnodup : (rows.map Prod.fst).Nodup) {a b : α} (ha : a ∈ l) (hb : b ∈ l)
    (hab : (f a).1 = (f b).1) : a = b := by
  have hl : ((l.map f).map Prod.fst).Nodup :=
    Multiset.nodup_of_le (Multiset.map_le_map hle) hnodup
  rw [List.map_map] at hl
  exact List.inj_on_of_nodup_map hl ha hb hab

end Tables

namespace State

variable (s : State)

theorem shortCodes_le : (s.shortCodes.map ShortCode.row : Multiset _) ≤ s.rows :=
  le_add_of_le_left (le_add_of_le_left (le_add_of_le_left (le_add_of_le_left (le_add_of_le_left le_rfl))))

theorem recoveryCodes_le : (s.recoveryCodes.map RecoveryCode.row : Multiset _) ≤ s.rows :=
  le_add_of_le_left (le_add_of_le_left (le_add_of_le_left (le_add_of_le_left (le_add_of_le_right le_rfl))))

theorem disableRequests_le : (s.disableRequests.map DisableRequest.row : Multiset _) ≤ s.rows :=
  le_add_of_le_left (le_add_of_le_left (le_add_of_le_left (le_add_of_le_right le_rfl)))

theorem authorizationCodes_le :
    (s.authorizationCodes.map AuthorizationCode.row : Multiset _) ≤ s.rows :=
  le_add_of_le_left (le_add_of_le_left (le_add_of_le_right le_rfl))

theorem misskeySessions_le : (s.misskeySessions.map MisskeySession.row : Multiset _) ≤ s.rows :=
  le_add_of_le_left (le_add_of_le_right le_rfl)

theorem refreshTokens_le : (s.refreshTokens.map RefreshToken.row : Multiset _) ≤ s.rows :=
  le_add_of_le_right le_rfl

theorem claims_use (k : Credential) (t : Int) : (s.use k t).claims = s.claims + {(k, t)} := by
  simp only [claims, use, ← Multiset.coe_add, Multiset.coe_singleton, add_assoc]

variable {s}

theorem mem_rows_recoveryCode {id : Int} :
    Credential.recoveryCode id ∈ s.rows.map Prod.fst ↔ ∃ c ∈ s.recoveryCodes, c.id = id := by
  simp [rows, ShortCode.row, RecoveryCode.row, DisableRequest.row, AuthorizationCode.row,
    MisskeySession.row, RefreshToken.row]

theorem mem_rows_refreshToken {jti : String} :
    Credential.refreshToken jti ∈ s.rows.map Prod.fst ↔ ∃ t ∈ s.refreshTokens, t.jti = jti := by
  simp [rows, ShortCode.row, RecoveryCode.row, DisableRequest.row, AuthorizationCode.row,
    MisskeySession.row, RefreshToken.row]

theorem mem_rows_disableToken {token : String} :
    Credential.disableToken token ∈ s.rows.map Prod.fst ↔ ∃ r ∈ s.disableRequests, r.token = token := by
  simp [rows, ShortCode.row, RecoveryCode.row, DisableRequest.row, AuthorizationCode.row,
    MisskeySession.row, RefreshToken.row]

theorem mem_rows_authorizationCode {codeHash : String} :
    Credential.authorizationCode codeHash ∈ s.rows.map Prod.fst ↔
      ∃ c ∈ s.authorizationCodes, c.codeHash = codeHash := by
  simp [rows, ShortCode.row, RecoveryCode.row, DisableRequest.row, AuthorizationCode.row,
    MisskeySession.row, RefreshToken.row]

theorem mem_rows_misskeySession {tokenHash : String} :
    Credential.misskeySession tokenHash ∈ s.rows.map Prod.fst ↔
      ∃ r ∈ s.misskeySessions, r.tokenHash = tokenHash := by
  simp [rows, ShortCode.row, RecoveryCode.row, DisableRequest.row, AuthorizationCode.row,
    MisskeySession.row, RefreshToken.row]

end State

/-! ## The short codes that were read -/

namespace Reads

variable {codes codes' : List ShortCode} {guesses : List Int} {waiting waiting' : Task → Prop}
  {issued issued' : List (Credential × Option Int)}

theorem mono (h : Reads codes guesses waiting issued) (hcodes : ∀ {c}, c ∈ codes' → c ∈ codes)
    (hissued : ∀ {x}, x ∈ issued → x ∈ issued')
    (hless : ∀ {task id}, waiting' task → task.HasRead id → waiting task)
    (hmore : ∀ {task c}, waiting task → c ∈ codes' → task.HasRead c.id → waiting' task) :
    Reads codes' guesses waiting' issued' where
  nodup := h.nodup
  issued hid := List.map_subset Prod.fst (fun _ => hissued) (h.issued hid)
  reader hc hg := by
    obtain ⟨task, hw, hr⟩ := h.reader (hcodes hc) hg
    exact ⟨task, hmore hw hc hr, hr⟩
  guessed hw hr := h.guessed (hless hw hr) hr
  deletes {a p read m t c} hw hc hr := by
    have hw' : waiting (.deleteShortCodes a p read m t) := @hless _ c.id hw hr
    exact h.deletes hw' (hcodes hc) hr

theorem issue (h : Reads codes guesses waiting issued) {code : ShortCode}
    (hnew : .shortCode code.id ∉ issued.map Prod.fst) :
    Reads (codes ++ [code]) guesses waiting (issued ++ [code.row]) where
  nodup := h.nodup
  issued hid := List.map_subset Prod.fst (List.subset_append_left _ _) (h.issued hid)
  reader {c} hc hg := by
    rcases List.mem_append.mp hc with hc | hc
    · exact h.reader hc hg
    · rw [List.mem_singleton.mp hc] at hg
      exact absurd (h.issued hg) hnew
  guessed := h.guessed
  deletes {a p read m t c} hw hc hr := by
    rcases List.mem_append.mp hc with hc | hc
    · exact h.deletes hw hc hr
    · rw [List.mem_singleton.mp hc] at hr
      exact absurd (h.issued (@Reads.guessed _ _ _ _ h _ code.id hw hr)) hnew

/-- The first statement of `consume`: the codes read were not read before. -/
theorem consume (h : Reads codes guesses waiting issued) (hissued : ∀ c ∈ codes, c.row ∈ issued)
    (hids : (codes.map ShortCode.id).Nodup) {a : Int} {p : String} {pending : List ShortCode}
    (hsub : pending.Sublist codes) (hof : ∀ c ∈ pending, c.actorId = a ∧ c.purpose = p)
    (halone : ∀ c ∈ pending, ∀ task, waiting task → ¬ task.HasRead c.id)
    (matched : Option Int) (now : Int) :
    Reads codes (guesses ++ pending.map ShortCode.id)
      (fun task => waiting task ∨
        task = .deleteShortCodes a p (pending.map ShortCode.id) matched now) issued where
  nodup := by
    refine List.nodup_append'.mpr ⟨h.nodup, hids.sublist (hsub.map _), ?_⟩
    intro id hid hid'
    obtain ⟨c, hc, rfl⟩ := List.mem_map.mp hid'
    obtain ⟨task, hw, hr⟩ := h.reader (hsub.subset hc) hid
    exact halone c hc task hw hr
  issued {id} hid := by
    rcases List.mem_append.mp hid with hid | hid
    · exact h.issued hid
    · obtain ⟨c, hc, rfl⟩ := List.mem_map.mp hid
      exact List.mem_map.mpr ⟨c.row, hissued c (hsub.subset hc), rfl⟩
  reader {c} hc hg := by
    rcases List.mem_append.mp hg with hg | hg
    · obtain ⟨task, hw, hr⟩ := h.reader hc hg
      exact ⟨task, Or.inl hw, hr⟩
    · exact ⟨_, Or.inr rfl, hg⟩
  guessed {task id} hw hr := by
    rcases hw with hw | rfl
    · exact List.mem_append_left _ (h.guessed hw hr)
    · exact List.mem_append_right _ hr
  deletes {a' p' read m t c} hw hc hr := by
    rcases hw with hw | hw
    · exact h.deletes hw hc hr
    · obtain ⟨rfl, rfl, rfl, -, -⟩ := Task.deleteShortCodes.inj hw
      obtain ⟨c', hc', heq⟩ := List.mem_map.mp hr
      rw [← List.inj_on_of_nodup_map hids (hsub.subset hc') hc heq]
      exact hof c' hc'

end Reads

/-! ## The steps -/

namespace Sound

variable {s s' : State}

theorem issued_of_shortCode (h : Sound s) {c : ShortCode} (hc : c ∈ s.shortCodes) :
    c.row ∈ s.issued :=
  Multiset.mem_of_le (le_trans s.shortCodes_le h.tickets.rows_le) (List.mem_map_of_mem hc)

/-- A new ticket, whose record changes nothing else. -/
theorem tickets_issue (h : Sound s) {k : Credential} {e : Option Int}
    (hnew : k ∉ s.issued.map Prod.fst) (hissued : s'.issued = s.issued ++ [(k, e)])
    (hrows : s'.rows = s.rows + {(k, e)}) (hclaims : s'.claims = s.claims)
    (hlock : ∀ j, s.Locked j → s'.Locked j) :
    Tickets (s'.issued : Multiset (Credential × Option Int)) s'.rows s'.Locked s'.claims := by
  rw [hissued, hclaims, ← Multiset.coe_add, Multiset.coe_singleton]
  refine h.tickets.issue (by simp) ?_ hrows.le fun j _ _ => hlock j
  intro j hj
  rw [Multiset.map_singleton, Multiset.mem_singleton] at hj
  rw [hj]
  exact hnew

theorem reads_mono (h : Sound s) (hcodes : ∀ {c}, c ∈ s'.shortCodes → c ∈ s.shortCodes)
    (hissued : ∀ {x}, x ∈ s.issued → x ∈ s'.issued) (hguesses : s'.guesses = s.guesses)
    (htasks : ∀ task, s'.Waiting task → s.Waiting task ∨ ∀ id, ¬ task.HasRead id)
    (hmore : ∀ {task c}, s.Waiting task → c ∈ s'.shortCodes → task.HasRead c.id → s'.Waiting task) :
    Reads s'.shortCodes s'.guesses s'.Waiting s'.issued := by
  rw [hguesses]
  refine h.reads.mono hcodes hissued ?_ hmore
  intro task id hw hr
  rcases htasks task hw with hw | hno
  · exact hw
  · exact absurd hr (hno id)

theorem issueShortCode {code : ShortCode} (h : Sound s)
    (hnew : .shortCode code.id ∉ s.issued.map Prod.fst) :
    Sound { s with
      issued := s.issued ++ [code.row]
      shortCodes := s.shortCodes ++ [code] } where
  tickets := by
    refine h.tickets_issue hnew rfl ?_ rfl fun _ hj => hj
    simp only [State.rows, append_map_eq, ShortCode.row]
    abel
  reads := h.reads.issue hnew

theorem createDisableRequest {r : DisableRequest} (h : Sound s)
    (hnew : .disableToken r.token ∉ s.issued.map Prod.fst) :
    Sound { s with
      issued := s.issued ++ [r.row]
      disableRequests := s.disableRequests ++ [r] } where
  tickets := by
    refine h.tickets_issue hnew rfl ?_ rfl fun _ hj => hj
    simp only [State.rows, append_map_eq, DisableRequest.row]
    abel
  reads := h.reads_mono id (List.mem_append_left _) rfl (fun _ => Or.inl) fun hw _ _ => hw

theorem insertAuthorizationCode {c : AuthorizationCode} (h : Sound s)
    (hnew : .authorizationCode c.codeHash ∉ s.issued.map Prod.fst) :
    Sound { s with
      issued := s.issued ++ [c.row]
      authorizationCodes := s.authorizationCodes ++ [c] } where
  tickets := by
    refine h.tickets_issue hnew rfl ?_ rfl fun _ hj => hj
    simp only [State.rows, append_map_eq, AuthorizationCode.row]
    abel
  reads := h.reads_mono id (List.mem_append_left _) rfl (fun _ => Or.inl) fun hw _ _ => hw

theorem insertMisskeyAuthSession {r : MisskeySession} (h : Sound s)
    (hnew : .misskeySession r.tokenHash ∉ s.issued.map Prod.fst) :
    Sound { s with
      issued := s.issued ++ [r.row]
      misskeySessions := s.misskeySessions ++ [{ r with userId := none }] } where
  tickets := by
    refine h.tickets_issue hnew rfl ?_ rfl fun _ hj => hj
    simp only [State.rows, append_map_eq, MisskeySession.row]
    abel
  reads := h.reads_mono id (List.mem_append_left _) rfl (fun _ => Or.inl) fun hw _ _ => hw

theorem insertRefreshToken {t : RefreshToken} (h : Sound s)
    (hnew : .refreshToken t.jti ∉ s.issued.map Prod.fst) :
    Sound { s with
      issued := s.issued ++ [t.row]
      refreshTokens := s.refreshTokens ++ [{ t with revoked := false }] } where
  tickets := by
    refine h.tickets_issue hnew rfl ?_ rfl ?_
    · simp only [State.rows, append_map_eq, RefreshToken.row]
      abel
    · intro j hj
      cases j with
      | refreshToken jti =>
        rcases hj with ⟨x, hx, hx'⟩ | hj
        · exact Or.inl ⟨x, List.mem_append_left _ hx, hx'⟩
        · exact Or.inr hj
      | _ => exact hj
  reads := h.reads_mono id (List.mem_append_left _) rfl (fun _ => Or.inl) fun hw _ _ => hw

/-- A code that was used stays so where it is left. -/
theorem recoveryCode_used (h : Sound s) {c : RecoveryCode} (hc : c ∈ s.recoveryCodes)
    (hlock : s.Locked (.recoveryCode c.id)) : c.used = true := by
  obtain ⟨c', hc', hid, hused⟩ := hlock
  have heq : c' = c := unique_of_nodup s.recoveryCodes_le h.tickets.rows_nodup hc' hc
    (congrArg Credential.recoveryCode hid)
  rw [← heq]
  exact hused

theorem enableWithRecoveryCodes {userId : Int} {codes : List (Int × String)} (h : Sound s)
    (hs : s.enableWithRecoveryCodes userId codes = some s') : Sound s' := by
  simp only [State.enableWithRecoveryCodes] at hs
  split at hs
  case isFalse => cases hs
  case isTrue hnew =>
    obtain ⟨hnodup, hfresh⟩ := hnew
    cases hs
    have hkeys : ((codes.map fun c => Credential.recoveryCode c.1).map
        fun k => (k, (none : Option Int))).map Prod.fst = codes.map fun c => .recoveryCode c.1 := by
      simp
    refine ⟨?_, h.reads_mono id (List.mem_append_left _) rfl (fun _ => Or.inl) fun hw _ _ => hw⟩
    rw [← Multiset.coe_add]
    refine h.tickets.issue ?_ ?_ ?_ ?_
    · rw [Multiset.map_coe, hkeys]
      exact hnodup
    · intro k hk
      rw [Multiset.map_coe, hkeys] at hk
      exact hfresh k hk
    · have hcodes : (codes.map fun c => RecoveryCode.mk c.1 userId c.2 false).map RecoveryCode.row =
          (codes.map fun c => Credential.recoveryCode c.1).map (·, none) := by
        simp [RecoveryCode.row]
      have hleft := filter_map_le RecoveryCode.row s.recoveryCodes (fun c => decide (c.userId ≠ userId))
      simp only [State.rows, List.map_append, hcodes, ← Multiset.coe_add]
      refine le_trans (add_le_add_left (add_le_add_left (add_le_add_left (add_le_add_left
        (add_le_add_right (add_le_add_left hleft _) _) _) _) _) _) (le_of_eq ?_)
      abel
    · intro k hr hk hlock
      cases k with
      | recoveryCode id =>
        obtain ⟨c, hc, rfl⟩ := State.mem_rows_recoveryCode.mp hr
        rcases List.mem_append.mp hc with hc' | hc'
        · exact ⟨c, hc, rfl, h.recoveryCode_used (List.mem_of_mem_filter hc') hlock⟩
        · obtain ⟨x, hx, rfl⟩ := List.mem_map.mp hc'
          exact absurd hk (hfresh _ (List.mem_map.mpr ⟨x, hx, rfl⟩))
      | _ => exact hlock

/-! Rows go. -/

theorem deleteShortCodes (h : Sound s) (actorId : Int) (purpose : String) :
    Sound (s.deleteShortCodes actorId purpose) where
  tickets := by
    refine h.tickets.keep ?_ le_rfl fun _ _ _ hj => hj
    simp only [State.rows, State.deleteShortCodes]
    gcongr
    exact filter_map_le _ _ _
  reads := h.reads_mono List.mem_of_mem_filter id rfl (fun _ => Or.inl) fun hw _ _ => hw

theorem deleteExpiredCodes (h : Sound s) :
    Sound { s with authorizationCodes := s.authorizationCodes.filter fun c => s.now ≤ c.expiresAt } where
  tickets := by
    refine h.tickets.keep ?_ le_rfl fun _ _ _ hj => hj
    simp only [State.rows]
    gcongr
    exact filter_map_le _ _ _
  reads := h.reads_mono id id rfl (fun _ => Or.inl) fun hw _ _ => hw

theorem deleteExpiredSessions (h : Sound s) :
    Sound { s with misskeySessions := s.misskeySessions.filter fun r => s.now ≤ r.expiresAt } where
  tickets := by
    refine h.tickets.keep ?_ le_rfl fun _ _ _ hj => hj
    simp only [State.rows]
    gcongr
    exact filter_map_le _ _ _
  reads := h.reads_mono id id rfl (fun _ => Or.inl) fun hw _ _ => hw

theorem approveMisskeyAuthSession (h : Sound s) (tokenHash : String) (userId : Int) :
    Sound (s.approveMisskeyAuthSession tokenHash userId) where
  tickets := by
    refine h.tickets.keep (le_of_eq ?_) le_rfl fun _ _ _ hj => hj
    simp only [State.rows, State.approveMisskeyAuthSession]
    rw [map_map_eq]
    intro r
    split <;> rfl
  reads := h.reads_mono id id rfl (fun _ => Or.inl) fun hw _ _ => hw

/-! Requests of one statement -/

theorem consumeDisableRequest (h : Sound s) (token : String) : Sound (s.consumeDisableRequest token) := by
  simp only [State.consumeDisableRequest]
  split
  case h_2 => exact h
  case h_1 r hfind =>
    have hr := List.mem_of_find?_eq_some hfind
    have hrow := List.find?_some hfind
    simp only [decide_eq_true_eq] at hrow
    obtain ⟨rfl, hnow⟩ := hrow
    refine ⟨?_, h.reads_mono id id rfl (fun _ => Or.inl) fun hw _ _ => hw⟩
    rw [State.claims_use]
    refine h.tickets.claim (Multiset.mem_of_le s.disableRequests_le
      (List.mem_map_of_mem (f := DisableRequest.row) hr)) id ?_ ?_ ?_ fun _ _ hj => hj
    · rintro _ ⟨⟩
      exact hnow.le
    · simp only [State.rows, State.use]
      gcongr
      exact filter_map_le _ _ _
    · intro hmem
      obtain ⟨r', hr', heq⟩ := State.mem_rows_disableToken.mp hmem
      obtain ⟨hr', hrow'⟩ := List.mem_filter.mp hr'
      have heq' : r' = r := unique_of_nodup s.disableRequests_le h.tickets.rows_nodup hr' hr
        (congrArg Credential.disableToken heq)
      rw [heq'] at hrow'
      simp [hnow] at hrow'

theorem token {crypto : Crypto} (h : Sound s) (params : TokenParams) :
    Sound (s.token crypto params) := by
  simp only [State.token]
  split
  case h_2 => exact h
  case h_1 c hfind =>
    have hc := List.mem_of_find?_eq_some hfind
    have hrow := List.find?_some hfind
    simp only [decide_eq_true_eq] at hrow
    obtain ⟨hhash, happ, hnow⟩ := hrow
    have hle := filter_map_le AuthorizationCode.row s.authorizationCodes fun c' =>
      !decide (c'.codeHash = params.codeHash ∧ c'.appId = params.appId ∧ s.now ≤ c'.expiresAt)
    split
    · refine ⟨?_, h.reads_mono id id rfl (fun _ => Or.inl) fun hw _ _ => hw⟩
      rw [State.claims_use, ← hhash]
      refine h.tickets.claim (Multiset.mem_of_le s.authorizationCodes_le
        (List.mem_map_of_mem (f := AuthorizationCode.row) hc)) id ?_ ?_ ?_ fun _ _ hj => hj
      · rintro _ ⟨⟩
        exact hnow
      · simp only [State.rows, State.use, hhash]
        gcongr
      · intro hmem
        obtain ⟨c', hc', heq⟩ := State.mem_rows_authorizationCode.mp hmem
        obtain ⟨hc', hrow'⟩ := List.mem_filter.mp hc'
        have heq' : c' = c := unique_of_nodup s.authorizationCodes_le h.tickets.rows_nodup hc' hc
          (congrArg Credential.authorizationCode heq)
        rw [heq'] at hrow'
        simp [hhash, happ, hnow] at hrow'
    · refine ⟨?_, h.reads_mono id id rfl (fun _ => Or.inl) fun hw _ _ => hw⟩
      refine h.tickets.keep ?_ le_rfl fun _ _ _ hj => hj
      simp only [State.rows]
      gcongr

theorem sessionUserkey (h : Sound s) (tokenHash : String) (appId : Int) :
    Sound (s.sessionUserkey tokenHash appId) := by
  simp only [State.sessionUserkey]
  split
  case h_2 => exact h
  case h_1 r hfind =>
    have hr := List.mem_of_find?_eq_some hfind
    have hrow := List.find?_some hfind
    simp only [decide_eq_true_eq] at hrow
    obtain ⟨rfl, happ, huser, hnow⟩ := hrow
    refine ⟨?_, h.reads_mono id id rfl (fun _ => Or.inl) fun hw _ _ => hw⟩
    rw [State.claims_use]
    refine h.tickets.claim (Multiset.mem_of_le s.misskeySessions_le
      (List.mem_map_of_mem (f := MisskeySession.row) hr)) id ?_ ?_ ?_ fun _ _ hj => hj
    · rintro _ ⟨⟩
      exact hnow
    · simp only [State.rows, State.use]
      gcongr
      exact filter_map_le _ _ _
    · intro hmem
      obtain ⟨r', hr', heq⟩ := State.mem_rows_misskeySession.mp hmem
      obtain ⟨hr', hrow'⟩ := List.mem_filter.mp hr'
      have heq' : r' = r := unique_of_nodup s.misskeySessions_le h.tickets.rows_nodup hr' hr
        (congrArg Credential.misskeySession heq)
      rw [heq'] at hrow'
      simp [happ, huser, hnow] at hrow'

/-! Requests of two statements -/

theorem locked_append (tasks : List Task) (ids : List Int) {k : Credential} (hk : s.Locked k) :
    { s with tasks := s.tasks ++ tasks, guesses := s.guesses ++ ids }.Locked k := by
  cases k with
  | shortCode id => exact List.mem_append_left _ hk
  | refreshToken jti =>
    rcases hk with hk | ⟨task, ht, hr⟩
    · exact Or.inl hk
    · exact Or.inr ⟨task, List.mem_append_left _ ht, hr⟩
  | _ => exact hk

theorem locked_append_task {task : Task} {k : Credential} (hk : s.Locked k) :
    { s with tasks := s.tasks ++ [task] }.Locked k := by
  have happend := locked_append [task] [] hk
  rw [List.append_nil] at happend
  exact happend

theorem claims_append_task (task : Task) :
    { s with tasks := s.tasks ++ [task] }.claims = s.claims + task.claims := by
  simp only [State.claims, List.map_append, List.map_singleton, List.sum_append,
    List.sum_singleton]
  abel

/-- A statement that waits, of a request that has read no short code -/
theorem reads_append_task (h : Sound s) {task : Task} (hno : ∀ id, ¬ task.HasRead id) :
    Reads s.shortCodes s.guesses { s with tasks := s.tasks ++ [task] }.Waiting s.issued := by
  refine @reads_mono s { s with tasks := s.tasks ++ [task] } h id id rfl ?_
    fun hw _ _ => hw.imp (List.mem_append_left _) id
  intro task' hw
  rcases hw with hw | hw
  · rcases List.mem_append.mp hw with hw | hw
    · exact Or.inl (Or.inl hw)
    · rw [List.mem_singleton.mp hw]
      exact Or.inr hno
  · exact Or.inl (Or.inr hw)

theorem listUnusedRecoveryCodes {crypto : Crypto} (h : Sound s) (userId : Int) (code : String) :
    Sound (s.listUnusedRecoveryCodes crypto userId code) := by
  simp only [State.listUnusedRecoveryCodes]
  split
  case h_2 => exact h
  case h_1 c hfind =>
    refine ⟨?_, h.reads_append_task fun _ => id⟩
    rw [claims_append_task]
    exact h.tickets.keep le_rfl (le_of_eq (add_zero _)) fun _ _ _ hj => locked_append_task hj

theorem consumeShortCode (h : Sound s) (actorId : Int) (purpose codeHash : String)
    (halone : Alone s (.consumeShortCode actorId purpose codeHash)) :
    Sound (s.consumeShortCode actorId purpose codeHash) := by
  have hids : (s.shortCodes.map ShortCode.id).Nodup := by
    have hkeys := Multiset.nodup_of_le (Multiset.map_le_map s.shortCodes_le) h.tickets.rows_nodup
    rw [Multiset.map_coe, Multiset.coe_nodup, List.map_map] at hkeys
    refine List.Nodup.of_map Credential.shortCode ?_
    rw [List.map_map]
    exact hkeys
  have hpending : ∀ c ∈ s.pendingShortCodes actorId purpose,
      c ∈ s.shortCodes ∧ (c.actorId = actorId ∧ c.purpose = purpose) ∧ s.now < c.expiresAt := by
    intro c hc
    obtain ⟨hmem, hrow⟩ := List.mem_filter.mp hc
    simp only [decide_eq_true_eq] at hrow
    exact ⟨hmem, ⟨hrow.1, hrow.2.1⟩, hrow.2.2⟩
  have hfree : ∀ c ∈ s.pendingShortCodes actorId purpose, c.id ∉ s.guesses := by
    intro c hc hg
    obtain ⟨task, hw, hr⟩ := h.reads.reader (hpending c hc).1 hg
    exact halone c hc task (List.mem_append.mpr hw) hr
  constructor
  · simp only [State.consumeShortCode]
    cases hfind : (s.pendingShortCodes actorId purpose).find? fun c => c.codeHash = codeHash with
    | none =>
      refine h.tickets.keep le_rfl (le_of_eq ?_) fun _ _ _ hj => locked_append _ _ hj
      simp [State.claims, Task.claims]
    | some c =>
      have hc := List.mem_of_find?_eq_some hfind
      have hclaims := claims_append_task (s := s) (.deleteShortCodes actorId purpose
        ((s.pendingShortCodes actorId purpose).map ShortCode.id) (some c.id) s.now)
      simp only [State.claims, Option.map_some] at hclaims ⊢
      rw [hclaims]
      refine h.tickets.claim (Multiset.mem_of_le s.shortCodes_le
        (List.mem_map_of_mem (f := ShortCode.row) (hpending c hc).1)) (hfree c hc) ?_ le_rfl ?_
        fun _ _ hj => locked_append _ _ hj
      · rintro _ ⟨⟩
        exact (hpending c hc).2.2.le
      · intro _
        exact List.mem_append_right _ (List.mem_map_of_mem hc)
  · have hreads := h.reads.consume (fun c hc => h.issued_of_shortCode hc) hids
      (List.filter_sublist (l := s.shortCodes)) (fun c hc => (hpending c hc).2.1)
      (fun c hc task hw => halone c hc task (List.mem_append.mpr hw))
      (((s.pendingShortCodes actorId purpose).find? fun c =>
        c.codeHash = codeHash).map ShortCode.id) s.now
    refine hreads.mono id id ?_ ?_
    · intro task id hw _
      rcases hw with hw | hw
      · rcases List.mem_append.mp hw with hw | hw
        · exact Or.inl (Or.inl hw)
        · exact Or.inr (List.mem_singleton.mp hw)
      · exact Or.inl (Or.inr hw)
    · intro task c hw _ _
      rcases hw with (hw | hw) | rfl
      · exact Or.inl (List.mem_append_left _ hw)
      · exact Or.inr hw
      · exact Or.inl (List.mem_append_right _ (List.mem_singleton.mpr rfl))

theorem findValidRefreshToken (h : Sound s) (jti : String)
    (halone : Alone s (.findValidRefreshToken jti)) : Sound (s.findValidRefreshToken jti) := by
  simp only [State.findValidRefreshToken]
  split
  case h_2 => exact h
  case h_1 t hfind =>
    have ht := List.mem_of_find?_eq_some hfind
    have hrow := List.find?_some hfind
    simp only [decide_eq_true_eq] at hrow
    obtain ⟨rfl, hrevoked, hnow⟩ := hrow
    refine ⟨?_, h.reads_append_task fun _ => id⟩
    rw [claims_append_task]
    refine h.tickets.claim (Multiset.mem_of_le s.refreshTokens_le
      (List.mem_map_of_mem (f := RefreshToken.row) ht)) ?_ ?_ le_rfl ?_
      fun _ _ hj => locked_append_task hj
    · rintro (⟨t', ht', hjti, hrev⟩ | ⟨task, htask, hr⟩)
      · have heq : t' = t := unique_of_nodup s.refreshTokens_le h.tickets.rows_nodup ht' ht
          (congrArg Credential.refreshToken hjti)
        rw [heq] at hrev
        exact hrevoked hrev
      · exact halone task htask hr
    · rintro _ ⟨⟩
      exact hnow.le
    · intro _
      exact Or.inr ⟨_, List.mem_append_right _ (List.mem_singleton.mpr rfl), rfl⟩

/-! The second statement, or a failure before it -/

theorem claims_dequeue {task : Task} (ht : task ∈ s.tasks) :
    s.claims = (s.dequeue task).claims + task.claims := by
  simp only [State.claims, State.dequeue, ← List.sum_map_erase Task.claims ht]
  abel

theorem waiting_dequeue (task : Task) {task' : Task} (hw : s.Waiting task') :
    task' = task ∨ (s.dequeue task).Waiting task' := by
  by_cases heq : task' = task
  · exact Or.inl heq
  · exact Or.inr (hw.imp (List.mem_erase_of_ne heq).mpr id)

theorem waiting_of_dequeue {task task' : Task} (hw : (s.dequeue task).Waiting task') :
    s.Waiting task' :=
  hw.imp List.mem_of_mem_erase id

theorem locked_dequeue {task : Task} (hno : ∀ jti, ¬ task.Revokes jti) {k : Credential}
    (hk : s.Locked k) : (s.dequeue task).Locked k := by
  cases k with
  | refreshToken jti =>
    rcases hk with hk | ⟨task', ht, hr⟩
    · exact Or.inl hk
    · refine Or.inr ⟨task', (List.mem_erase_of_ne ?_).mpr ht, hr⟩
      rintro rfl
      exact hno jti hr
  | _ => exact hk

theorem reads_dequeue (h : Sound s) {task : Task} (hno : ∀ id, ¬ task.HasRead id) :
    Reads s.shortCodes s.guesses (s.dequeue task).Waiting s.issued := by
  refine h.reads.mono id id (fun hw _ => waiting_of_dequeue hw) ?_
  intro task' c hw _ hr
  rcases waiting_dequeue task hw with rfl | hw
  · exact absurd hr (hno c.id)
  · exact hw

theorem markRecoveryCodeUsed (h : Sound s) (codeId : Int) :
    Sound (s.markRecoveryCodeUsed codeId) := by
  simp only [State.markRecoveryCodeUsed]
  split
  case isFalse => exact h
  case isTrue hany =>
    obtain ⟨c, hc, hrow⟩ := List.any_eq_true.mp hany
    simp only [decide_eq_true_eq] at hrow
    obtain ⟨rfl, hused⟩ := hrow
    refine ⟨?_, h.reads_mono id id rfl (fun _ => Or.inl) fun hw _ _ => hw⟩
    rw [State.claims_use]
    refine h.tickets.claim (Multiset.mem_of_le s.recoveryCodes_le
      (List.mem_map_of_mem (f := RecoveryCode.row) hc)) ?_ ?_ (le_of_eq ?_) ?_ ?_
    · exact fun hlock => hused (h.recoveryCode_used hc hlock)
    · rintro _ ⟨⟩
    · simp only [State.rows, State.use]
      rw [map_map_eq]
      intro c'
      split <;> rfl
    · intro _
      refine ⟨{ c with used := true }, List.mem_map.mpr ⟨c, hc, ?_⟩, rfl, rfl⟩
      simp [hused]
    · intro k _ hj
      cases k with
      | recoveryCode id =>
        obtain ⟨c', hc', hid, hused'⟩ := hj
        exact ⟨c', List.mem_map.mpr ⟨c', hc', by simp [hused']⟩, hid, hused'⟩
      | _ => exact hj

theorem next_markRecoveryCodeUsed (h : Sound s) {codeId : Int}
    (ht : .markRecoveryCodeUsed codeId ∈ s.tasks) :
    Sound ((s.dequeue (.markRecoveryCodeUsed codeId)).next (.markRecoveryCodeUsed codeId)) := by
  refine markRecoveryCodeUsed ⟨?_, h.reads_dequeue fun _ => id⟩ codeId
  refine h.tickets.keep le_rfl ?_ fun _ _ _ hj => locked_dequeue (fun _ => id) hj
  rw [claims_dequeue ht]
  exact le_add_of_le_left le_rfl

theorem next_deleteShortCodes (h : Sound s) {actorId : Int} {purpose : String} {read : List Int}
    {matched : Option Int} {readAt : Int}
    (ht : .deleteShortCodes actorId purpose read matched readAt ∈ s.tasks) :
    Sound ((s.dequeue (.deleteShortCodes actorId purpose read matched readAt)).next
      (.deleteShortCodes actorId purpose read matched readAt)) := by
  have hrows : ((s.dequeue (.deleteShortCodes actorId purpose read matched readAt)).deleteShortCodes
      actorId purpose).rows ≤ s.rows := by
    simp only [State.rows, State.deleteShortCodes]
    gcongr ?_ + _ + _ + _ + _ + _
    exact filter_map_le _ _ _
  have hreads : Reads (s.shortCodes.filter fun c => ¬ (c.actorId = actorId ∧ c.purpose = purpose))
      s.guesses (s.dequeue (.deleteShortCodes actorId purpose read matched readAt)).Waiting
      s.issued := by
    refine h.reads.mono List.mem_of_mem_filter id (fun hw _ => waiting_of_dequeue hw) ?_
    intro task c hw hc hr
    rcases waiting_dequeue (.deleteShortCodes actorId purpose read matched readAt) hw
      with rfl | hw'
    -- the request itself: it deletes the codes that it has read
    · obtain ⟨hmem, hne⟩ := List.mem_filter.mp hc
      simp only [decide_eq_true_eq] at hne
      exact absurd (h.reads.deletes hw hmem hr) hne
    · exact hw'
  have hlock : ∀ k, s.Locked k →
      (s.dequeue (.deleteShortCodes actorId purpose read matched readAt)).Locked k :=
    fun _ hk => locked_dequeue (fun _ => id) hk
  cases matched with
  | none =>
    refine ⟨h.tickets.keep hrows ?_ fun k _ _ => hlock k, hreads⟩
    rw [claims_dequeue ht]
    exact le_add_of_le_left le_rfl
  | some id =>
    refine ⟨h.tickets.keep hrows (le_of_eq ?_) fun k _ _ => hlock k, hreads⟩
    rw [claims_dequeue ht]
    exact State.claims_use _ _ _

theorem rows_revoke (jti : String) : (s.revokeRefreshToken jti).rows = s.rows := by
  simp only [State.rows, State.revokeRefreshToken]
  rw [map_map_eq]
  intro t
  split <;> rfl

theorem locked_revoke {jti : String} {k : Credential} (hk : s.Locked k) :
    (s.revokeRefreshToken jti).Locked k := by
  cases k with
  | refreshToken jti' =>
    rcases hk with ⟨t, ht, hjti, hrev⟩ | hk
    · refine Or.inl ⟨_, List.mem_map_of_mem ht, ?_⟩
      split
      · exact ⟨hjti, rfl⟩
      · exact ⟨hjti, hrev⟩
    · exact Or.inr hk
  | _ => exact hk

theorem locked_of_revoked {jti : String}
    (hrow : .refreshToken jti ∈ (s.revokeRefreshToken jti).rows.map Prod.fst) :
    (s.revokeRefreshToken jti).Locked (.refreshToken jti) := by
  obtain ⟨t, ht, hjti⟩ := State.mem_rows_refreshToken.mp hrow
  obtain ⟨t', ht', heq⟩ := List.mem_map.mp ht
  split at heq
  case isTrue => exact Or.inl ⟨t, ht, hjti, by rw [← heq]⟩
  case isFalse hne =>
    rw [← heq] at hjti
    exact absurd hjti hne

theorem deleteSession (h : Sound s) (jti : String) : Sound (s.revokeRefreshToken jti) :=
  ⟨h.tickets.keep (rows_revoke jti).le le_rfl fun _ _ _ hk => locked_revoke hk,
    h.reads_mono id id rfl (fun _ => Or.inl) fun hw _ _ => hw⟩

theorem next_revokeRefreshToken (h : Sound s) {jti : String} {readAt : Int}
    (ht : .revokeRefreshToken jti readAt ∈ s.tasks) :
    Sound ((s.dequeue (.revokeRefreshToken jti readAt)).next (.revokeRefreshToken jti readAt)) := by
  refine ⟨?_, h.reads_dequeue fun _ => id⟩
  refine h.tickets.keep (rows_revoke (s := s.dequeue _) jti).le (le_of_eq ?_) ?_
  · rw [claims_dequeue ht]
    exact State.claims_use _ _ _
  · intro k _ hrow hk
    by_cases hjti : k = .refreshToken jti
    · subst hjti
      exact locked_of_revoked (s := s.dequeue (.revokeRefreshToken jti readAt)) hrow
    · refine locked_revoke (s := s.dequeue (.revokeRefreshToken jti readAt)) ?_
      cases k with
      | refreshToken jti' =>
        rcases hk with hk | ⟨task, htask, hr⟩
        · exact Or.inl hk
        · refine Or.inr ⟨task, (List.mem_erase_of_ne ?_).mpr htask, hr⟩
          rintro rfl
          exact hjti (congrArg Credential.refreshToken hr.symm)
      | _ => exact hk

/-- A refresh token whose request fails is as it was before that request. -/
theorem fail (h : Sound s) {task : Task} (ht : task ∈ s.tasks) :
    Sound { s.dequeue task with failed := s.failed ++ [task] } := by
  have hclaims := claims_dequeue ht
  refine ⟨?_, h.reads.mono id id ?_ ?_⟩
  · refine h.tickets.keep le_rfl (by rw [hclaims]; exact le_add_of_le_left le_rfl) ?_
    intro k hk hrow hlock
    cases k with
    | refreshToken jti =>
      rcases hlock with hlock | ⟨task', ht', hr⟩
      · exact Or.inl hlock
      · refine Or.inr ⟨task', (List.mem_erase_of_ne ?_).mpr ht', hr⟩
        rintro rfl
        have honce := h.tickets.once
        rw [hclaims, Multiset.map_add, Multiset.nodup_add] at honce
        refine Multiset.disjoint_left.mp honce.2.2 hk ?_
        cases task' with
        | revokeRefreshToken jti' readAt => simp [Task.claims, show jti' = jti from hr]
        | _ => exact hr.elim
    | _ => exact hlock
  · intro task' id hw _
    rcases hw with hw | hw
    · exact Or.inl (List.mem_of_mem_erase hw)
    · rcases List.mem_append.mp hw with hw | hw
      · exact Or.inr hw
      · rw [List.mem_singleton.mp hw]
        exact Or.inl ht
  · intro task' c hw _ _
    rcases waiting_dequeue task hw with rfl | hw
    · exact Or.inr (List.mem_append_right _ (List.mem_singleton.mpr rfl))
    · exact hw.imp id (List.mem_append_left _)

end Sound

theorem sound_init : Sound {} where
  tickets := by
    have hrows : State.rows {} = 0 := by simp [State.rows]
    have hclaims : State.claims {} = 0 := by simp [State.claims]
    rw [hrows, hclaims]
    exact Tickets.empty
  reads := {
    nodup := List.nodup_nil
    issued := fun hid => absurd hid List.not_mem_nil
    reader := fun hc => absurd hc List.not_mem_nil
    guessed := fun hw => absurd hw (by simp [State.Waiting])
    deletes := fun hw => absurd hw (by simp [State.Waiting]) }

theorem issue_eq_some {s s' : State} {k : Credential} {e : Option Int} {write : State → State}
    (hs : s.issue k e write = some s') :
    k ∉ s.issued.map Prod.fst ∧ s' = write { s with issued := s.issued ++ [(k, e)] } := by
  unfold State.issue at hs
  split at hs
  case isTrue => cases hs
  case isFalse hnew =>
    cases hs
    exact ⟨hnew, rfl⟩

theorem sound_step {crypto : Crypto} {s s' : State} {a : Action} (h : Sound s) (ha : Alone s a)
    (hs : step crypto s a = some s') : Sound s' := by
  cases a with
  | tick now =>
    simp only [step] at hs
    split at hs
    case isTrue =>
      cases hs
      exact ⟨h.tickets, h.reads⟩
    case isFalse => cases hs
  | issueShortCode code =>
    simp only [step] at hs
    obtain ⟨hnew, rfl⟩ := issue_eq_some hs
    exact h.issueShortCode hnew
  | revokeShortCodes actorId purpose =>
    cases hs
    exact h.deleteShortCodes actorId purpose
  | consumeShortCode actorId purpose codeHash =>
    cases hs
    exact h.consumeShortCode actorId purpose codeHash ha
  | enableWithRecoveryCodes userId codes => exact h.enableWithRecoveryCodes hs
  | listUnusedRecoveryCodes userId code =>
    cases hs
    exact h.listUnusedRecoveryCodes userId code
  | createDisableRequest request =>
    simp only [step] at hs
    obtain ⟨hnew, rfl⟩ := issue_eq_some hs
    exact h.createDisableRequest hnew
  | consumeDisableRequest token =>
    cases hs
    exact h.consumeDisableRequest token
  | deleteExpiredCodes =>
    cases hs
    exact h.deleteExpiredCodes
  | insertAuthorizationCode code =>
    simp only [step] at hs
    obtain ⟨hnew, rfl⟩ := issue_eq_some hs
    exact h.insertAuthorizationCode hnew
  | token params =>
    cases hs
    exact h.token params
  | deleteExpiredSessions =>
    cases hs
    exact h.deleteExpiredSessions
  | insertMisskeyAuthSession session =>
    simp only [step] at hs
    obtain ⟨hnew, rfl⟩ := issue_eq_some hs
    exact h.insertMisskeyAuthSession hnew
  | approveMisskeyAuthSession tokenHash userId =>
    cases hs
    exact h.approveMisskeyAuthSession tokenHash userId
  | sessionUserkey tokenHash appId =>
    cases hs
    exact h.sessionUserkey tokenHash appId
  | insertRefreshToken token =>
    simp only [step] at hs
    obtain ⟨hnew, rfl⟩ := issue_eq_some hs
    exact h.insertRefreshToken hnew
  | findValidRefreshToken jti =>
    cases hs
    exact h.findValidRefreshToken jti ha
  | deleteSession jti =>
    cases hs
    exact h.deleteSession jti
  | next task =>
    simp only [step] at hs
    split at hs
    case isFalse => cases hs
    case isTrue ht =>
      cases hs
      cases task with
      | deleteShortCodes => exact h.next_deleteShortCodes ht
      | markRecoveryCodeUsed => exact h.next_markRecoveryCodeUsed ht
      | revokeRefreshToken => exact h.next_revokeRefreshToken ht
  | fail task =>
    simp only [step] at hs
    split at hs
    case isFalse => cases hs
    case isTrue ht =>
      cases hs
      exact h.fail ht

theorem Sound.usedOnce {s : State} (h : Sound s) : UsedOnce s where
  once := by
    have honce := h.tickets.once
    rw [State.claims, Multiset.map_add, Multiset.nodup_add] at honce
    exact honce.2.1
  wasIssued {c t} hc := by
    have hclaim : (c, t) ∈ s.claims := Multiset.mem_add.mpr (Or.inr hc)
    exact h.tickets.claimed (Multiset.mem_map_of_mem Prod.fst hclaim)
  inTime hc hi := h.tickets.inTime (Multiset.mem_add.mpr (Or.inr hc)) hi
  oneGuess := h.reads.nodup

/-- In a run in which no request reads a credential between the two statements of
another one, every credential is used once, in time, and every short code is checked
against one guess. -/
theorem usedOnce_of_alone (crypto : Crypto) (as : List Action) {s : State}
    (halone : (machine crypto).Along Alone {} as) (hr : (machine crypto).run {} as = some s) :
    UsedOnce s :=
  ((machine crypto).run_inv_along sound_step sound_init halone hr).usedOnce

theorem usedOnce_of_alone_refresh :
    UsedOnce {
      now := 1
      refreshTokens := [⟨"a", 7, 10, true⟩]
      issued := [(.refreshToken "a", some 10)]
      used := [(.refreshToken "a", 1)] } :=
  usedOnce_of_alone ⟨fun _ _ => true, fun _ _ => true⟩
    [.insertRefreshToken ⟨"a", 7, 10, false⟩, .tick 1, .findValidRefreshToken "a",
      .next (.revokeRefreshToken "a" 1), .findValidRefreshToken "a"]
    (by decide) (by decide)

/-- Two requests with one e-mail code, and two with one refresh token, at the same time -/
def overlapping : List Action :=
  [.issueShortCode ⟨1, 7, "session", "code", 10⟩, .insertRefreshToken ⟨"a", 7, 10, false⟩,
    .consumeShortCode 7 "session" "code", .consumeShortCode 7 "session" "code",
    .next (.deleteShortCodes 7 "session" [1] (some 1) 0),
    .next (.deleteShortCodes 7 "session" [1] (some 1) 0),
    .findValidRefreshToken "a", .findValidRefreshToken "a",
    .next (.revokeRefreshToken "a" 0), .next (.revokeRefreshToken "a" 0)]

theorem usedOnce_counterexample : ¬ ∀ crypto as s,
    (machine crypto).run {} as = some s → UsedOnce s := by
  intro hall
  have hused := (hall ⟨fun _ _ => true, fun _ _ => true⟩ overlapping _ rfl).once
  revert hused
  decide

end Seiran.OneTime
