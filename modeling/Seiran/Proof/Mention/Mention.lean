import Seiran.Proof.Mention.Pieces

/-!
# A quarantined account's mentions

The two conversions read the same mentions as `scan_mention_tokens`, in the same
order (`convertMentionsForBsky_dids`, `convertMentionsForAp_hrefs`). The check
looks each of them up as a local or as a remote account, with two exceptions
(`exactlyOne_iff`):

* `@user@` without a domain, which is no mention for the conversions either;
* a handle that ends in the local domain in other letters (`CaseSlip`): it is
  not local for the one function, which compares the letters, and not remote
  for the other, which does not.
-/

namespace Seiran.Mention

section

variable (U : Unicode) (R : Resolvers) (localDomain : Text)

/-! ## What is delivered -/

def Facet.did (f : Facet) : Option Text :=
  match f.feature with
  | .mention did => some did
  | _ => none

def ApInlineMention.mentionHref (m : ApInlineMention) : Option Text :=
  if m.kind = .mention then some m.href else none

/-- The accounts that a token mentions on Bluesky. -/
def bskyDids (t : MentionToken) : List Text := (bskyMention R localDomain t 0).2.filterMap Facet.did

/-- The accounts that a token mentions over ActivityPub. -/
def apHrefs (t : MentionToken) : List Text :=
  (apMention R localDomain t 0).2.filterMap ApInlineMention.mentionHref

def Mentioned (t : MentionToken) : Prop := bskyDids R localDomain t ≠ [] ∨ apHrefs R localDomain t ≠ []

variable {U R localDomain}

theorem withFacet_dids (byteStart : Nat) (text : Text) (feature : Option FacetFeature) :
    (withFacet byteStart text feature).2.filterMap Facet.did =
      (withFacet 0 text feature).2.filterMap Facet.did := by
  cases feature with
  | none => rfl
  | some feature => cases feature <;> rfl

theorem bskyMention_dids (t : MentionToken) (byteStart : Nat) :
    (bskyMention R localDomain t byteStart).2.filterMap Facet.did = bskyDids R localDomain t := by
  rw [bskyDids, bskyMention, bskyMention]
  split
  · rfl
  · split
    · exact withFacet_dids _ _ _
    · split
      · exact withFacet_dids _ _ _
      · exact withFacet_dids _ _ _
  · split
    · exact withFacet_dids _ _ _
    · split
      · exact withFacet_dids _ _ _
      · rfl

theorem withSpan_hrefs (byteStart : Nat) (name href : Text) (kind : ApInlineSpanKind) :
    (withSpan byteStart name href kind).2.filterMap ApInlineMention.mentionHref =
      (withSpan 0 name href kind).2.filterMap ApInlineMention.mentionHref := by
  cases kind <;> rfl

theorem apMention_hrefs (t : MentionToken) (byteStart : Nat) :
    (apMention R localDomain t byteStart).2.filterMap ApInlineMention.mentionHref =
      apHrefs R localDomain t := by
  rw [apHrefs, apMention, apMention]
  split
  · rfl
  · split
    · exact withSpan_hrefs _ _ _ _
    · rfl
  · split
    · split
      · split
        · exact withSpan_hrefs _ _ _ _
        · rfl
      · split
        · exact withSpan_hrefs _ _ _ _
        · exact withSpan_hrefs _ _ _ _
    · split
      · exact withSpan_hrefs _ _ _ _
      · rfl

variable (U R localDomain)

/-- The mention facets are those of the tokens, in their order. -/
theorem convertMentionsForBsky_dids (text : Text) :
    (convertMentionsForBsky U R localDomain text).2.filterMap Facet.did =
      (scanMentionTokens U text).flatMap (bskyDids R localDomain) := by
  rw [convertMentionsForBsky, bskyLoop_eq, scanMentionTokens, scanLoop_eq, writeFrom_found]
  · refine flatMap_agree (f := fun p => (bskyPiece R localDomain p 0).2.filterMap Facet.did)
      (fun t => rfl) (fun p hp => ?_) (fun username => rfl) (piecesFrom_agree text 0)
    cases p with
    | mention t => cases hp
    | plain text | url text | hashtag tag => rfl
  · intro p n
    cases p with
    | mention t => exact bskyMention_dids t n
    | plain text | url text | hashtag tag => rfl

theorem convertMentionsForAp_hrefs (text : Text) :
    (convertMentionsForAp U R localDomain text).2.filterMap ApInlineMention.mentionHref =
      (scanMentionTokens U text).flatMap (apHrefs R localDomain) := by
  rw [convertMentionsForAp, apLoop_eq, scanMentionTokens, scanLoop_eq, writeFrom_found]
  · refine flatMap_agree
      (f := fun p => (apPiece R localDomain U p 0).2.filterMap ApInlineMention.mentionHref)
      (fun t => rfl) (fun p hp => ?_) (fun username => rfl) (piecesFrom_agree text 0)
    cases p with
    | mention t => cases hp
    | plain text | url text | hashtag tag => rfl
  · intro p n
    cases p with
    | mention t => exact apMention_hrefs t n
    | plain text | url text | hashtag tag => rfl

/-! ## Local or remote -/

/-- A handle that ends in the local domain, but not in the same letters. -/
def CaseSlip (t : MentionToken) : Prop :=
  t.domain = none ∧ isAtprotoHandleLike t.username = true ∧
    ('.' :: toAsciiLowercase localDomain) <:+ toAsciiLowercase t.username ∧
    ¬ ('.' :: localDomain) <:+ t.username

/-- The token is looked up as one of the two, and not as the other. -/
def ExactlyOne (t : MentionToken) : Prop :=
  (localUsername localDomain t).isSome ≠ (remoteHandle localDomain t).isSome

variable {U R localDomain}

theorem isSome_stripSuffix (suffix text : Text) :
    (stripSuffix suffix text).isSome = true ↔ suffix <:+ text := by
  rw [stripSuffix]
  split
  · rename_i h
    exact ⟨fun _ => List.isSuffixOf_iff_suffix.mp h, fun _ => rfl⟩
  · rename_i h
    constructor
    · intro h'
      cases h'
    · intro h'
      exact absurd (List.isSuffixOf_iff_suffix.mpr h') h

theorem eqIgnoreAsciiCase_nil {domain : Text} : eqIgnoreAsciiCase [] domain = true ↔ domain = [] := by
  cases domain with
  | nil => simp [eqIgnoreAsciiCase]
  | cons c domain => simp [eqIgnoreAsciiCase, toAsciiLowercase]

theorem suffix_lowercase {text : Text} (h : ('.' :: localDomain) <:+ text) :
    ('.' :: toAsciiLowercase localDomain) <:+ toAsciiLowercase text := by
  have hmap := h.map Char.toLower
  exact hmap

/-- Every token is looked up, but `@user@` and a handle in other letters. -/
theorem exactlyOne_iff (t : MentionToken) :
    ExactlyOne localDomain t ↔
      ¬ CaseSlip localDomain t ∧ ¬ (t.domain = some [] ∧ localDomain ≠ []) := by
  obtain ⟨username, domain⟩ := t
  cases domain with
  | some domain =>
    have hslip : ¬ CaseSlip localDomain ⟨username, some domain⟩ := fun h => by cases h.1
    by_cases hlocal : eqIgnoreAsciiCase domain localDomain = true
    · have hempty : domain = [] → localDomain = [] := by
        intro h
        rw [h] at hlocal
        exact eqIgnoreAsciiCase_nil.mp hlocal
      simpa [ExactlyOne, localUsername, remoteHandle, hlocal, hslip] using hempty
    · cases domain with
      | nil =>
        have hne : localDomain ≠ [] := fun h => hlocal (eqIgnoreAsciiCase_nil.mpr h)
        simp [ExactlyOne, localUsername, remoteHandle, hlocal, hne]
      | cons c domain => simp [ExactlyOne, localUsername, remoteHandle, hlocal, hslip]
  | none =>
    by_cases hhandle : isAtprotoHandleLike username = true
    · by_cases hsuffix : ('.' :: localDomain) <:+ username
      · have hsome := (isSome_stripSuffix _ _).mpr hsuffix
        have hlower := suffix_lowercase hsuffix
        simp [ExactlyOne, localUsername, remoteHandle, CaseSlip, hhandle, hsome, hsuffix, hlower]
      · have hnone := mt (isSome_stripSuffix _ _).mp hsuffix
        rw [Bool.not_eq_true] at hnone
        by_cases hlower :
            ('.' :: toAsciiLowercase localDomain) <:+ toAsciiLowercase username
        · simp [ExactlyOne, localUsername, remoteHandle, CaseSlip, hhandle, hnone, hsuffix, hlower]
        · simp [ExactlyOne, localUsername, remoteHandle, CaseSlip, hhandle, hnone, hlower]
    · simp [ExactlyOne, localUsername, remoteHandle, CaseSlip, hhandle]

/-! ## A handle in other letters -/

theorem bskyDids_of_caseSlip {t : MentionToken} (h : CaseSlip localDomain t) :
    bskyDids R localDomain t = (R.resolveBskyHandleDid t.username).toList := by
  obtain ⟨username, domain⟩ := t
  obtain ⟨rfl, hhandle, -, hsuffix⟩ := h
  have hnone : stripSuffix ('.' :: localDomain) username = none := by
    rw [← Option.not_isSome_iff_eq_none, isSome_stripSuffix]
    exact hsuffix
  simp only [bskyDids, bskyMention, hhandle, hnone, if_true, withFacet]
  cases R.resolveBskyHandleDid username <;> rfl

theorem apHrefs_of_caseSlip {t : MentionToken} (h : CaseSlip localDomain t) :
    apHrefs R localDomain t = (R.resolveFediMentionHref t.username bskyBridGy).toList := by
  obtain ⟨username, domain⟩ := t
  obtain ⟨rfl, hhandle, -, hsuffix⟩ := h
  have hnone : stripSuffix ('.' :: localDomain) username = none := by
    rw [← Option.not_isSome_iff_eq_none, isSome_stripSuffix]
    exact hsuffix
  simp only [apHrefs, apMention, hhandle, hnone, if_true, withSpan]
  cases R.resolveFediMentionHref username bskyBridGy <;> rfl

theorem not_mentioned_caseSlip {t : MentionToken} (h : CaseSlip localDomain t) :
    ¬ Mentioned R localDomain t ↔
      R.resolveBskyHandleDid t.username = none ∧
        R.resolveFediMentionHref t.username bskyBridGy = none := by
  rw [Mentioned, bskyDids_of_caseSlip h, apHrefs_of_caseSlip h, not_or, not_not, not_not,
    Option.toList_eq_nil_iff, Option.toList_eq_nil_iff]

theorem not_mentioned_empty {t : MentionToken} (h : t.domain = some []) :
    ¬ Mentioned R localDomain t := by
  obtain ⟨username, domain⟩ := t
  obtain rfl : domain = some [] := h
  rw [Mentioned, not_or, not_not, not_not]
  exact ⟨rfl, rfl⟩

theorem mentioned_exactlyOne (t : MentionToken) :
    (Mentioned R localDomain t → ExactlyOne localDomain t) ↔
      (CaseSlip localDomain t → R.resolveBskyHandleDid t.username = none ∧
        R.resolveFediMentionHref t.username bskyBridGy = none) := by
  constructor
  · intro h hslip
    rw [← not_mentioned_caseSlip hslip]
    intro hm
    exact ((exactlyOne_iff t).mp (h hm)).1 hslip
  · intro h hm
    rw [exactlyOne_iff]
    constructor
    · intro hslip
      exact (not_mentioned_caseSlip hslip).mpr (h hslip) hm
    · intro hempty
      exact not_mentioned_empty hempty.1 hm

/-! ## The check -/

theorem mem_foldl_pushNew {α : Type} [DecidableEq α] (xs result : List α) (x : α) :
    x ∈ xs.foldl pushNew result ↔ x ∈ result ∨ x ∈ xs := by
  induction xs generalizing result with
  | nil => simp
  | cons y xs ih =>
    have hpush : x ∈ pushNew result y ↔ x ∈ result ∨ x = y := by
      rw [pushNew]
      split
      · rename_i hy
        exact ⟨Or.inl, fun h => h.elim id (fun h => h ▸ hy)⟩
      · rw [List.mem_append, List.mem_singleton]
    rw [List.foldl_cons, ih, hpush, List.mem_cons, or_assoc]

theorem mem_extractLocal (text : Text) (id : Int) :
    id ∈ extractLocalMentionActorIds U R localDomain text ↔
      ∃ t ∈ scanMentionTokens U text, ∃ name,
        localUsername localDomain t = some name ∧ R.getLocalActorId name = some id := by
  rw [extractLocalMentionActorIds, mem_foldl_pushNew, List.mem_filterMap]
  simp only [List.not_mem_nil, false_or, Option.bind_eq_some_iff]

theorem mem_extractRemote (text : Text) (handle : RemoteMentionHandle) :
    handle ∈ extractRemoteMentionHandles U localDomain text ↔
      ∃ t ∈ scanMentionTokens U text, remoteHandle localDomain t = some handle := by
  rw [extractRemoteMentionHandles, mem_foldl_pushNew, List.mem_filterMap]
  simp only [List.not_mem_nil, false_or]

theorem requireMentionsAllowed_ok {F : Follows} {actorId : Int} {text : Text}
    (h : requireMentionsAllowed U R localDomain F actorId .quarantine text = .ok ()) :
    (∀ id ∈ extractLocalMentionActorIds U R localDomain text,
      id = actorId ∨ F.followsMe id actorId = true ∨ F.isStaff id = true) ∧
    ∀ handle ∈ extractRemoteMentionHandles U localDomain text,
      F.hasFollowerWithHandle actorId handle = true := by
  have hlimits : RoleRestriction.quarantine.limitsInteraction = true := rfl
  rw [requireMentionsAllowed, requireCanInteract, hlimits] at h
  simp only [Bool.not_true, Bool.false_eq_true, if_false] at h
  by_cases hlocal : (extractLocalMentionActorIds U R localDomain text).all (fun target =>
      target == actorId || F.followsMe target actorId || F.isStaff target) = true
  · rw [if_pos hlocal] at h
    by_cases hremote : (extractRemoteMentionHandles U localDomain text).all
        (F.hasFollowerWithHandle actorId) = true
    · refine ⟨fun id hid => ?_, List.all_eq_true.mp hremote⟩
      have := List.all_eq_true.mp hlocal id hid
      simpa [or_assoc] using this
    · exact absurd h (by simp [hremote, bind, Except.bind])
  · exact absurd h (by simp [hlocal, bind, Except.bind])

variable (U R localDomain)

/-- A mention that is delivered is looked up by the check, as one of the two, unless it
is a handle that ends in the local domain in other letters. -/
theorem quarantine_covers (text : Text) :
    ((convertMentionsForBsky U R localDomain text).2.filterMap Facet.did =
        (scanMentionTokens U text).flatMap (bskyDids R localDomain) ∧
      (convertMentionsForAp U R localDomain text).2.filterMap ApInlineMention.mentionHref =
        (scanMentionTokens U text).flatMap (apHrefs R localDomain)) ∧
    (∀ F actorId, requireMentionsAllowed U R localDomain F actorId .quarantine text = .ok () →
      ∀ t ∈ scanMentionTokens U text,
        (∀ name id, localUsername localDomain t = some name → R.getLocalActorId name = some id →
          id = actorId ∨ F.followsMe id actorId = true ∨ F.isStaff id = true) ∧
        ∀ handle, remoteHandle localDomain t = some handle →
          F.hasFollowerWithHandle actorId handle = true) ∧
    ((∀ t ∈ scanMentionTokens U text, Mentioned R localDomain t → ExactlyOne localDomain t) ↔
      ∀ t ∈ scanMentionTokens U text, CaseSlip localDomain t →
        R.resolveBskyHandleDid t.username = none ∧
          R.resolveFediMentionHref t.username bskyBridGy = none) := by
  refine ⟨⟨convertMentionsForBsky_dids U R localDomain text,
    convertMentionsForAp_hrefs U R localDomain text⟩, ?_, ?_⟩
  · intro F actorId hok t ht
    have h := requireMentionsAllowed_ok hok
    constructor
    · intro name id hname hid
      exact h.1 id ((mem_extractLocal text id).mpr ⟨t, ht, name, hname, hid⟩)
    · intro handle hhandle
      exact h.2 handle ((mem_extractRemote text handle).mpr ⟨t, ht, hhandle⟩)
  · exact forall₂_congr fun t _ => mentioned_exactlyOne t

end

/-- A server at `example.com` with the user `alice`, whose handle Bluesky resolves. -/
def aliceOnly : Resolvers :=
  ⟨[⟨2, "alice".toList, some "did:plc:a".toList⟩], fun _ _ => none, fun _ _ => none, fun _ => false,
    fun handle =>
      if eqIgnoreAsciiCase handle "alice.example.com".toList then some "did:plc:a".toList else none,
    fun _ _ => none⟩

def noFollows : Follows := ⟨fun _ _ => false, fun _ => false, fun _ _ => false⟩

def aliceCapital : MentionToken := ⟨"alice.Example.com".toList, none⟩

theorem scanMentionTokens_aliceCapital :
    scanMentionTokens ascii "@alice.Example.com".toList = [aliceCapital] := by
  rw [scanMentionTokens, scanLoop_eq, piecesFrom_username (by decide) (by decide) (by decide)
    (by decide) (by decide) (by decide) (by decide), piecesFrom_end (by decide)]
  rfl

/-- The mention of a local user is delivered without a check. -/
theorem quarantine_covers_counterexample :
    (convertMentionsForBsky ascii aliceOnly "example.com".toList
        "@alice.Example.com".toList).2.filterMap Facet.did = ["did:plc:a".toList] ∧
    requireMentionsAllowed ascii aliceOnly "example.com".toList noFollows 1 .quarantine
        "@alice.Example.com".toList = .ok () ∧
    ¬ ∀ t ∈ scanMentionTokens ascii "@alice.Example.com".toList,
        Mentioned aliceOnly "example.com".toList t → ExactlyOne "example.com".toList t := by
  have hslip : CaseSlip "example.com".toList aliceCapital := by
    refine ⟨rfl, by decide, ?_, ?_⟩
    · exact List.isSuffixOf_iff_suffix.mp (by decide)
    · exact fun h => absurd (List.isSuffixOf_iff_suffix.mpr h) (by decide)
  refine ⟨?_, ?_, ?_⟩
  · rw [convertMentionsForBsky_dids, scanMentionTokens_aliceCapital, List.flatMap_singleton,
      bskyDids_of_caseSlip hslip]
    decide
  · rw [requireMentionsAllowed, extractLocalMentionActorIds, extractRemoteMentionHandles,
      scanMentionTokens_aliceCapital]
    decide
  · rw [scanMentionTokens_aliceCapital]
    intro h
    have hnone := (mentioned_exactlyOne aliceCapital).mp (h aliceCapital List.mem_cons_self) hslip
    exact absurd hnone.1 (by decide)

end Seiran.Mention
