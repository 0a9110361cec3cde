import Mathlib.Algebra.GroupWithZero.Nat
import Mathlib.Data.List.Basic

/-!
# Mentions in a post

`mention.rs`: the conversion of a post's text for Bluesky and for ActivityPub,
the mentions that the local server notifies, and those of remote accounts; and
the check of a quarantined account's mentions (`role_restriction.rs`).

* A text is its characters; offsets of facets count UTF-8 bytes.
* `Unicode` has the properties of characters that the scanners ask for.
* `Resolvers` is what the database and the network answer.
-/

namespace Seiran.Mention

abbrev Text := List Char

structure Unicode where
  isAlphanumeric : Char → Bool
  isAlphabetic : Char → Bool
  isWhitespace : Char → Bool
  toLowercase : Text → Text

def utf8Len (text : Text) : Nat := (text.map Char.utf8Size).sum

/-- `to_ascii_lowercase` -/
def toAsciiLowercase (text : Text) : Text := text.map Char.toLower

def eqIgnoreAsciiCase (a b : Text) : Bool := toAsciiLowercase a == toAsciiLowercase b

def stripSuffix (suffix text : Text) : Option Text :=
  if suffix.isSuffixOf text then some (text.take (text.length - suffix.length)) else none

/-! ## Scanning -/

/-- `text_chars[start..stop]` -/
def slice (chars : Text) (start stop : Nat) : Text := (chars.take stop).drop start

/-- `while i < text_chars.len() && p(text_chars[i]) { i += 1 }` -/
def spanEnd (p : Char → Bool) (chars : Text) (start : Nat) : Nat :=
  start + ((chars.drop start).takeWhile p).length

namespace Unicode

variable (U : Unicode)

def scanUrl (chars : Text) (start : Nat) : Option Nat :=
  let stops (n : Nat) : Option Nat :=
    let stop := spanEnd (fun c => !(U.isWhitespace c || ['<', '>', '(', ')', '[', ']'].contains c))
      chars (start + n)
    if stop = start + n then none else some stop
  if "https://".toList.isPrefixOf (chars.drop start) then stops 8
  else if "http://".toList.isPrefixOf (chars.drop start) then stops 7
  else none

/-- A letter, digit or underscore before the position, or one of `more`. -/
def wordBefore (more : List Char) (chars : Text) (start : Nat) : Bool :=
  decide (0 < start) &&
    (chars[start - 1]?).any fun prev => prev.isAlphanum || prev == '_' || more.contains prev

def scanHashtag (chars : Text) (start : Nat) : Option (Text × Nat) :=
  if wordBefore ['/'] chars start then none
  else
    let stop := spanEnd (fun c => U.isAlphanumeric c || c == '_') chars (start + 1)
    if stop = start + 1 then none
    else if (slice chars (start + 1) stop).any U.isAlphabetic then
      some (slice chars (start + 1) stop, stop)
    else none

/-- `if ch == 'h' { if let Some(end) = scan_url(..) {..} }` -/
def urlAt (chars : Text) (i : Nat) : Option Nat :=
  if chars[i]? = some 'h' then U.scanUrl chars i else none

/-- `if ch == '#' { if let Some((tag_body, end)) = scan_hashtag(..) {..} }` -/
def hashtagAt (chars : Text) (i : Nat) : Option (Text × Nat) :=
  if chars[i]? = some '#' then U.scanHashtag chars i else none

/-- The end of the name that starts here. -/
def usernameEnd (chars : Text) (start : Nat) : Nat :=
  spanEnd (fun c => U.isAlphanumeric c || c == '_' || c == '-' || c == '.') chars start

/-- The end of the domain, where `@` and a domain follow the name that ends here. -/
def domainEnd (chars : Text) (start : Nat) : Option Nat :=
  if chars[start]? = some '@' then
    some (spanEnd (fun c => U.isAlphanumeric c || c == '.' || c == '-') chars (start + 1))
  else none

theorem le_spanEnd (p : Char → Bool) (chars : Text) (start : Nat) :
    start ≤ spanEnd p chars start := Nat.le_add_right _ _

theorem lt_of_urlAt {chars : Text} {i stop : Nat} (h : U.urlAt chars i = some stop) : i < stop := by
  rw [urlAt, Option.ite_none_right_eq_some] at h
  have hle (p : Char → Bool) (n : Nat) := le_spanEnd p chars (i + n)
  rw [scanUrl] at h
  split at h
  · rw [Option.ite_none_left_eq_some, Option.some.injEq] at h
    rw [← h.2.2]
    exact Nat.lt_of_lt_of_le (by omega) (hle _ 8)
  · rw [Option.ite_none_right_eq_some, Option.ite_none_left_eq_some, Option.some.injEq] at h
    rw [← h.2.2.2]
    exact Nat.lt_of_lt_of_le (by omega) (hle _ 7)

theorem lt_of_hashtagAt {chars : Text} {i stop : Nat} {tag : Text}
    (h : U.hashtagAt chars i = some (tag, stop)) : i < stop := by
  rw [hashtagAt, Option.ite_none_right_eq_some, scanHashtag, Option.ite_none_left_eq_some,
    Option.ite_none_left_eq_some, Option.ite_none_right_eq_some, Option.some.injEq,
    Prod.mk.injEq] at h
  rw [← h.2.2.2.2.2]
  exact Nat.lt_of_lt_of_le (by omega) (le_spanEnd _ chars (i + 1))

theorem lt_of_domainEnd {chars : Text} {i stop : Nat} (h : U.domainEnd chars i = some stop) :
    i < stop := by
  rw [domainEnd] at h
  split at h <;> cases h
  exact Nat.lt_of_lt_of_le (Nat.lt_succ_self i) (le_spanEnd _ _ _)

end Unicode

/-! ## Names -/

structure MentionToken where
  username : Text
  domain : Option Text
  deriving DecidableEq

def isAtprotoHandleLike (username : Text) : Bool :=
  let parts := username.splitOn '.'
  decide (2 ≤ parts.length) && (parts.getLast?.map fun t => decide (2 ≤ utf8Len t)).getD false

/-- A row of `actors` with `actor_type = 'local'`. -/
structure LocalActor where
  id : Int
  username : Text
  atDid : Option Text

structure Resolvers where
  localActors : List LocalActor
  /-- `get_known_remote_seiran_did`: the DID, and the handle that is known. -/
  getKnownRemoteSeiranDid : (username domain : Text) → Option (Text × Option Text)
  /-- `get_fedi_actor_home_url` -/
  getFediActorHomeUrl : (username domain : Text) → Option Text
  /-- A row for the name at `bsky.brid.gy`. -/
  foundInDb : (bridgyUsername : Text) → Bool
  /-- `resolve_bsky_handle_did` -/
  resolveBskyHandleDid : (handle : Text) → Option Text
  /-- `resolve_ap_actor_href_via_webfinger` -/
  resolveApActorHrefViaWebfinger : (username domain : Text) → Option Text

namespace Resolvers

variable (R : Resolvers)

def localActor (username : Text) : Option LocalActor :=
  R.localActors.find? fun a => a.username == username

def isLocalActor (username : Text) : Bool := (R.localActor username).isSome

def getLocalActorDid (username : Text) : Option Text := (R.localActor username).bind LocalActor.atDid

def getLocalActorId (username : Text) : Option Int := (R.localActor username).map LocalActor.id

def resolveFediForBsky (username domain : Text) : Option (Text × Option Text) :=
  match R.getKnownRemoteSeiranDid username domain with
  | some (atDid, atHandle) => some (atHandle.getD (username ++ '.' :: domain), some atDid)
  | none =>
    let bridgyUsername := username ++ '.' :: domain
    let bridgyHandle := bridgyUsername ++ ".ap.brid.gy".toList
    match R.resolveBskyHandleDid bridgyHandle with
    | some did => some (bridgyHandle, some did)
    | none => if R.foundInDb bridgyUsername then some (bridgyHandle, none) else none

def resolveFediMentionHref (username domain : Text) : Option Text :=
  (R.getFediActorHomeUrl username domain).or (R.resolveApActorHrefViaWebfinger username domain)

end Resolvers

/-! ## Text for Bluesky -/

inductive FacetFeature
  | mention (did : Text)
  | link (uri : Text)
  | tag (tag : Text)
  deriving DecidableEq

structure Facet where
  byteStart : Nat
  byteEnd : Nat
  feature : FacetFeature
  deriving DecidableEq

/-- The text written from `byteStart` on, with a facet over it. -/
def withFacet (byteStart : Nat) (text : Text) (feature : Option FacetFeature) : Text × List Facet :=
  (text, feature.toList.map fun f => ⟨byteStart, byteStart + utf8Len text, f⟩)

section

variable (U : Unicode) (R : Resolvers) (localDomain : Text)

/-- What `convert_mentions_for_bsky` writes for a mention. -/
def bskyMention (t : MentionToken) (byteStart : Nat) : Text × List Facet :=
  match t.domain with
  | some [] => ('@' :: t.username ++ ['@'], [])
  | some domain =>
    if eqIgnoreAsciiCase domain localDomain then
      withFacet byteStart ('@' :: t.username ++ '.' :: localDomain)
        ((R.getLocalActorDid t.username).map .mention)
    else
      match R.resolveFediForBsky t.username domain with
      | some (handle, did) => withFacet byteStart ('@' :: handle) (did.map .mention)
      | none =>
        withFacet byteStart ('@' :: t.username ++ '@' :: domain)
          (some (.link ((R.getFediActorHomeUrl t.username domain).getD
            ("https://".toList ++ localDomain ++ "/@".toList ++ t.username ++ '@' :: domain))))
  | none =>
    if isAtprotoHandleLike t.username then
      withFacet byteStart ('@' :: t.username)
        ((match stripSuffix ('.' :: localDomain) t.username with
          | some localUsername => R.getLocalActorDid localUsername
          | none => R.resolveBskyHandleDid t.username).map .mention)
    else if R.isLocalActor t.username then
      withFacet byteStart ('@' :: t.username ++ '.' :: localDomain)
        ((R.getLocalActorDid t.username).map .mention)
    else ('@' :: t.username, [])

/-- The loop of `convert_mentions_for_bsky` from `i`. -/
def bskyLoop (chars : Text) (i : Nat) (result : Text) (facets : List Facet) : Text × List Facet :=
  if hi : i < chars.length then
    match hurl : U.urlAt chars i with
    | some stop =>
      let m := withFacet (utf8Len result) (slice chars i stop) (some (.link (slice chars i stop)))
      bskyLoop chars stop (result ++ m.1) (facets ++ m.2)
    | none =>
      match htag : U.hashtagAt chars i with
      | some (tag, stop) =>
        let m := withFacet (utf8Len result) ('#' :: tag) (some (.tag tag))
        bskyLoop chars stop (result ++ m.1) (facets ++ m.2)
      | none =>
        if chars[i] ≠ '@' then bskyLoop chars (i + 1) (result ++ [chars[i]]) facets
        else if Unicode.wordBefore [] chars i then bskyLoop chars (i + 1) (result ++ ['@']) facets
        else if U.usernameEnd chars (i + 1) = i + 1 then
          bskyLoop chars (i + 1) (result ++ ['@']) facets
        else
          match hdomain : U.domainEnd chars (U.usernameEnd chars (i + 1)) with
          | some stop =>
            let m := bskyMention R localDomain
              ⟨slice chars (i + 1) (U.usernameEnd chars (i + 1)),
                some (slice chars (U.usernameEnd chars (i + 1) + 1) stop)⟩ (utf8Len result)
            bskyLoop chars stop (result ++ m.1) (facets ++ m.2)
          | none =>
            let m := bskyMention R localDomain
              ⟨slice chars (i + 1) (U.usernameEnd chars (i + 1)), none⟩ (utf8Len result)
            bskyLoop chars (U.usernameEnd chars (i + 1)) (result ++ m.1) (facets ++ m.2)
  else (result, facets)
termination_by chars.length - i
decreasing_by
  · have := U.lt_of_urlAt hurl
    omega
  · have := U.lt_of_hashtagAt htag
    omega
  · omega
  · omega
  · omega
  · have := U.lt_of_domainEnd hdomain
    have : i + 1 ≤ U.usernameEnd chars (i + 1) := Unicode.le_spanEnd _ _ _
    omega
  · have : i + 1 ≤ U.usernameEnd chars (i + 1) := Unicode.le_spanEnd _ _ _
    omega

def convertMentionsForBsky (text : Text) : Text × List Facet :=
  bskyLoop U R localDomain text 0 [] []

/-! ## Text for ActivityPub -/

inductive ApInlineSpanKind
  | mention
  | hashtag
  | link
  deriving DecidableEq

structure ApInlineMention where
  byteStart : Nat
  byteEnd : Nat
  href : Text
  name : Text
  kind : ApInlineSpanKind
  deriving DecidableEq

/-- The name written from `byteStart` on, as a span. -/
def withSpan (byteStart : Nat) (name href : Text) (kind : ApInlineSpanKind) :
    Text × List ApInlineMention :=
  (name, [⟨byteStart, byteStart + utf8Len name, href, name, kind⟩])

def bskyBridGy : Text := "bsky.brid.gy".toList

/-- The AP actor of a local user. -/
def localHref (localDomain username : Text) : Text :=
  "https://".toList ++ localDomain ++ "/users/".toList ++ username

/-- What `convert_mentions_for_ap` writes for a mention. -/
def apMention (t : MentionToken) (byteStart : Nat) : Text × List ApInlineMention :=
  match t.domain with
  | some [] => ('@' :: t.username ++ ['@'], [])
  | some domain =>
    match R.resolveFediMentionHref t.username domain with
    | some href => withSpan byteStart ('@' :: t.username ++ '@' :: domain) href .mention
    | none => ('@' :: t.username ++ '@' :: domain, [])
  | none =>
    if isAtprotoHandleLike t.username then
      match stripSuffix ('.' :: localDomain) t.username with
      | some localUsername =>
        if R.isLocalActor localUsername then
          withSpan byteStart ('@' :: localUsername ++ '@' :: localDomain)
            (localHref localDomain localUsername) .mention
        else ('@' :: t.username, [])
      | none =>
        match R.resolveFediMentionHref t.username bskyBridGy with
        | some href => withSpan byteStart ('@' :: t.username ++ '@' :: bskyBridGy) href .mention
        | none =>
          withSpan byteStart t.username ("https://bsky.app/profile/".toList ++ t.username) .link
    else if R.isLocalActor t.username then
      withSpan byteStart ('@' :: t.username ++ '@' :: localDomain)
        (localHref localDomain t.username) .mention
    else ('@' :: t.username, [])

/-- The loop of `convert_mentions_for_ap` from `i`. -/
def apLoop (chars : Text) (i : Nat) (result : Text) (mentions : List ApInlineMention) :
    Text × List ApInlineMention :=
  if hi : i < chars.length then
    match hurl : U.urlAt chars i with
    | some stop =>
      let m := withSpan (utf8Len result) (slice chars i stop) (slice chars i stop) .link
      apLoop chars stop (result ++ m.1) (mentions ++ m.2)
    | none =>
      match htag : U.hashtagAt chars i with
      | some (tag, stop) =>
        let m := withSpan (utf8Len result) ('#' :: tag)
          ("https://".toList ++ localDomain ++ "/tags/".toList ++ U.toLowercase tag) .hashtag
        apLoop chars stop (result ++ m.1) (mentions ++ m.2)
      | none =>
        if chars[i] ≠ '@' then apLoop chars (i + 1) (result ++ [chars[i]]) mentions
        else if Unicode.wordBefore [] chars i then apLoop chars (i + 1) (result ++ ['@']) mentions
        else if U.usernameEnd chars (i + 1) = i + 1 then
          apLoop chars (i + 1) (result ++ ['@']) mentions
        else
          match hdomain : U.domainEnd chars (U.usernameEnd chars (i + 1)) with
          | some stop =>
            let m := apMention R localDomain
              ⟨slice chars (i + 1) (U.usernameEnd chars (i + 1)),
                some (slice chars (U.usernameEnd chars (i + 1) + 1) stop)⟩ (utf8Len result)
            apLoop chars stop (result ++ m.1) (mentions ++ m.2)
          | none =>
            let m := apMention R localDomain
              ⟨slice chars (i + 1) (U.usernameEnd chars (i + 1)), none⟩ (utf8Len result)
            apLoop chars (U.usernameEnd chars (i + 1)) (result ++ m.1) (mentions ++ m.2)
  else (result, mentions)
termination_by chars.length - i
decreasing_by
  · have := U.lt_of_urlAt hurl
    omega
  · have := U.lt_of_hashtagAt htag
    omega
  · omega
  · omega
  · omega
  · have := U.lt_of_domainEnd hdomain
    have : i + 1 ≤ U.usernameEnd chars (i + 1) := Unicode.le_spanEnd _ _ _
    omega
  · have : i + 1 ≤ U.usernameEnd chars (i + 1) := Unicode.le_spanEnd _ _ _
    omega

def convertMentionsForAp (text : Text) : Text × List ApInlineMention :=
  apLoop U R localDomain text 0 [] []

/-! ## Mentions to notify and to check -/

/-- The loop of `scan_mention_tokens` from `i`. -/
def scanLoop (chars : Text) (i : Nat) : List MentionToken :=
  if hi : i < chars.length then
    match hurl : U.urlAt chars i with
    | some stop => scanLoop chars stop
    | none =>
      match htag : U.hashtagAt chars i with
      | some (_, stop) => scanLoop chars stop
      | none =>
        if chars[i] ≠ '@' then scanLoop chars (i + 1)
        else if Unicode.wordBefore [] chars i then scanLoop chars (i + 1)
        else if U.usernameEnd chars (i + 1) = i + 1 then scanLoop chars (i + 1)
        else
          match hdomain : U.domainEnd chars (U.usernameEnd chars (i + 1)) with
          | some stop =>
            ⟨slice chars (i + 1) (U.usernameEnd chars (i + 1)),
              some (slice chars (U.usernameEnd chars (i + 1) + 1) stop)⟩ :: scanLoop chars stop
          | none =>
            ⟨slice chars (i + 1) (U.usernameEnd chars (i + 1)), none⟩ ::
              scanLoop chars (U.usernameEnd chars (i + 1))
  else []
termination_by chars.length - i
decreasing_by
  · have := U.lt_of_urlAt hurl
    omega
  · have := U.lt_of_hashtagAt htag
    omega
  · omega
  · omega
  · omega
  · have := U.lt_of_domainEnd hdomain
    have : i + 1 ≤ U.usernameEnd chars (i + 1) := Unicode.le_spanEnd _ _ _
    omega
  · have : i + 1 ≤ U.usernameEnd chars (i + 1) := Unicode.le_spanEnd _ _ _
    omega

def scanMentionTokens (text : Text) : List MentionToken := scanLoop U text 0

/-- The local account that `extract_local_mention_actor_ids` looks a mention up as. -/
def localUsername (t : MentionToken) : Option Text :=
  match t.domain with
  | some domain => if eqIgnoreAsciiCase domain localDomain then some t.username else none
  | none =>
    if isAtprotoHandleLike t.username then stripSuffix ('.' :: localDomain) t.username
    else some t.username

/-- `if seen.insert(id) { result_ids.push(id) }`, and the same of handles. -/
def pushNew {α : Type} [DecidableEq α] (result : List α) (x : α) : List α :=
  if x ∈ result then result else result ++ [x]

def extractLocalMentionActorIds (text : Text) : List Int :=
  ((scanMentionTokens U text).filterMap fun t =>
    (localUsername localDomain t).bind R.getLocalActorId).foldl pushNew []

inductive RemoteMentionHandle
  | fedi (username domain : Text)
  | atproto (handle : Text)
  deriving DecidableEq

/-- The remote account that `extract_remote_mention_handles` takes a mention for. -/
def remoteHandle (t : MentionToken) : Option RemoteMentionHandle :=
  match t.domain with
  | some domain =>
    if !domain.isEmpty && !eqIgnoreAsciiCase domain localDomain then some (.fedi t.username domain)
    else none
  | none =>
    if isAtprotoHandleLike t.username &&
        !('.' :: toAsciiLowercase localDomain).isSuffixOf (toAsciiLowercase t.username) then
      some (.atproto t.username)
    else none

def extractRemoteMentionHandles (text : Text) : List RemoteMentionHandle :=
  ((scanMentionTokens U text).filterMap (remoteHandle localDomain)).foldl pushNew []

/-! ## Quarantine -/

inductive RoleRestriction
  | none
  | silence
  | quarantine
  deriving DecidableEq

def RoleRestriction.limitsInteraction (r : RoleRestriction) : Bool := r == .quarantine

/-- What the check asks the database. -/
structure Follows where
  /-- The follow of the actor by the target is accepted. -/
  followsMe : (target actorId : Int) → Bool
  /-- The target's role is admin or moderator. -/
  isStaff : (target : Int) → Bool
  hasFollowerWithHandle : (actorId : Int) → RemoteMentionHandle → Bool

def requireCanInteract (F : Follows) (actorId : Int) (restriction : RoleRestriction)
    (targets : List Int) : Except String Unit :=
  if !restriction.limitsInteraction then .ok ()
  else if targets.all fun target =>
      target == actorId || F.followsMe target actorId || F.isStaff target then .ok ()
  else .error "INTERACTION_RESTRICTED"

def requireMentionsAllowed (F : Follows) (actorId : Int) (restriction : RoleRestriction)
    (text : Text) : Except String Unit :=
  if !restriction.limitsInteraction then .ok ()
  else do
    requireCanInteract F actorId restriction (extractLocalMentionActorIds U R localDomain text)
    if (extractRemoteMentionHandles U localDomain text).all (F.hasFollowerWithHandle actorId) then
      .ok ()
    else .error "INTERACTION_RESTRICTED"

end

end Seiran.Mention
