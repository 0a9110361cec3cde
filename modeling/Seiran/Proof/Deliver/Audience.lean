import Seiran.Model.Deliver.Audience

/-!
# Who receives a Note, and who receives its deletion

* `mem_postInboxes`: where the inboxes of a post come from;
* `receives_iff`: whom the Note of a post is sent to;
* `create_confined_iff`: a post for followers reaches them and the mentioned alone
  exactly if its conversation has nobody else;
* `delete_reaches_iff`: the deletion reaches all of them exactly if the followers
  are all of them.
-/

namespace Seiran.Deliver

open Timeline (Visibility)
open Mention (Text)

variable {W : World} {db db' : Tables} {post : Post} {inbox : Text} {actorId : Int64}
  {body quoteUrl inReplyTo : Option Text} {fallbackText : Text}

section Inboxes

/-- An accepted follower of the actor is behind the inbox. -/
def FollowerInbox (db : Tables) (actorId : Int64) (inbox : Text) : Prop :=
  ∃ f ∈ db.follows, f.targetActorId = actorId ∧ f.status = .accepted ∧
    db.remoteInbox f.followerActorId = some inbox

/-- An actor that the text mentions is behind the inbox. -/
def MentionInbox (W : World) (db : Tables) (text inbox : Text) : Prop :=
  inbox ∈ fetchInboxesByApUris W db (htmlAndTagsForBody W text).2

/-- A recipient of a direct post is behind the inbox. -/
def RecipientInbox (db : Tables) (postId : Int64) (inbox : Text) : Prop :=
  ∃ pr ∈ db.postRecipients, pr.postId = postId ∧ ∃ a ∈ db.actor pr.actorId,
    a.isRemote = true ∧ a.apUri.isSome = true ∧ a.apInboxUrl = some inbox

/-- The author of a post, or of one that reposts, quotes or answers it -/
def TakesPart (db : Tables) (targetPostId actorId : Int64) : Prop :=
  (∃ p ∈ db.post targetPostId, p.actorId = actorId) ∨
    ∃ p ∈ db.posts, p.deleted = false ∧ p.actorId = actorId ∧
      (p.repostOfPostId = some targetPostId ∨ p.replyToPostId = some targetPostId ∨
        p.quoteOfPostId = some targetPostId)

/-- Somebody who takes part in the conversation, follows one who does, or has reacted is
behind the inbox. -/
def ConversationInbox (db : Tables) (targetPostId : Int64) (inbox : Text) : Prop :=
  (∃ a, TakesPart db targetPostId a ∧ (db.remoteInbox a = some inbox ∨ FollowerInbox db a inbox)) ∨
    ∃ r ∈ db.reactions, r.postId = targetPostId ∧ db.remoteInbox r.actorId = some inbox

def RelayInbox (db : Tables) (inbox : Text) : Prop :=
  ∃ r ∈ db.relays, r.accepted = true ∧ r.inboxUrl = inbox

theorem mem_fetchFediFollowerInboxes :
    inbox ∈ fetchFediFollowerInboxes db actorId ↔ FollowerInbox db actorId inbox := by
  simp [fetchFediFollowerInboxes, FollowerInbox, and_assoc]

theorem mem_authorInboxes : inbox ∈ authorInboxes db actorId ↔
    db.remoteInbox actorId = some inbox ∨ FollowerInbox db actorId inbox := by
  rw [authorInboxes, List.mem_append, Option.mem_toList, mem_fetchFediFollowerInboxes]

theorem mem_resolveConversationBroadcastInboxes {targetPostId : Int64} :
    inbox ∈ resolveConversationBroadcastInboxes db targetPostId ↔
      ConversationInbox db targetPostId inbox := by
  simp only [resolveConversationBroadcastInboxes, List.mem_append, List.mem_flatMap,
    mem_authorInboxes, List.mem_filterMap, List.mem_filter, Option.mem_toList, ConversationInbox,
    TakesPart]
  refine or_congr ⟨?_, ?_⟩ (by simp [and_assoc])
  · rintro ⟨p, hp | ⟨hp, hchild⟩, hinbox⟩
    · exact ⟨p.actorId, .inl ⟨p, hp, rfl⟩, hinbox⟩
    · refine ⟨p.actorId, .inr ⟨p, hp, ?_⟩, hinbox⟩
      simpa [or_assoc] using hchild
  · rintro ⟨a, ⟨p, hp, rfl⟩ | ⟨p, hp, hdeleted, rfl, hchild⟩, hinbox⟩
    · exact ⟨p, .inl hp, hinbox⟩
    · refine ⟨p, .inr ⟨hp, ?_⟩, hinbox⟩
      simpa [hdeleted, or_assoc] using hchild

theorem mem_fetchAcceptedRelayInboxes :
    inbox ∈ fetchAcceptedRelayInboxes db ↔ RelayInbox db inbox := by
  simp [fetchAcceptedRelayInboxes, RelayInbox, and_assoc]

/-- The targets whose conversations a post goes to -/
def IsTarget (post : Post) (targetPostId : Int64) : Prop :=
  post.replyToPostId = some targetPostId ∨ post.quoteOfPostId = some targetPostId

theorem mem_postInboxes : inbox ∈ postInboxes W db post body ↔
    FollowerInbox db post.actorId inbox ∨ (body = none ∧ MentionInbox W db post.body inbox) ∨
      (∃ target, IsTarget post target ∧ ConversationInbox db target inbox) ∨
        (post.visibility = .pub ∧ RelayInbox db inbox) := by
  have hmentions : inbox ∈ fetchInboxesByApUris W db (bodyTags W post body).2 ↔
      body = none ∧ MentionInbox W db post.body inbox := by
    cases body with
    | none => simp [bodyTags, MentionInbox]
    | some text => simp [bodyTags, fetchInboxesByApUris]
  have hrelays : inbox ∈ (if post.visibility = .pub then fetchAcceptedRelayInboxes db else []) ↔
      post.visibility = .pub ∧ RelayInbox db inbox := by
    split <;> simp_all [mem_fetchAcceptedRelayInboxes]
  rw [postInboxes, List.mem_append, List.mem_append, List.mem_append, hmentions, hrelays,
    mem_fetchFediFollowerInboxes, or_assoc, or_assoc]
  simp only [List.mem_flatMap, List.mem_append, Option.mem_toList,
    mem_resolveConversationBroadcastInboxes]
  rfl

theorem mem_directRecipients {postId : Int64} :
    inbox ∈ (directRecipients db postId).map Prod.snd ↔ RecipientInbox db postId inbox := by
  simp only [directRecipients, List.mem_map, List.mem_filterMap, List.mem_filter, beq_iff_eq,
    Option.bind_eq_bind, Option.bind_eq_some_iff]
  constructor
  · rintro ⟨⟨uri, i⟩, ⟨pr, ⟨hpr, hid⟩, a, ha, uri', huri, i', hi, hrow⟩, rfl⟩
    split at hrow
    · rename_i hremote
      cases hrow
      exact ⟨pr, hpr, hid, a, ha, hremote, by rw [huri]; rfl, hi⟩
    · cases hrow
  · rintro ⟨pr, hpr, hid, a, ha, hremote, huri, hi⟩
    obtain ⟨uri, huri⟩ := Option.isSome_iff_exists.mp huri
    exact ⟨(uri, inbox), ⟨pr, ⟨hpr, hid⟩, a, ha, uri, huri, inbox, hi, if_pos hremote⟩, rfl⟩

end Inboxes

section Creation

/-- The Note of the post is sent to the inbox. -/
def Receives (W : World) (db : Tables) (post : Post) (body : Option Text) (fallbackText : Text)
    (quoteUrl inReplyTo : Option Text) (inbox : Text) : Prop :=
  ∃ job ∈ creationJobs db post body fallbackText quoteUrl inReplyTo, ∃ sends,
    job.deliver W db post.actorId = some sends ∧ ∃ note, (inbox, Activity.create note) ∈ sends

/-- A post or the text for a repost goes to followers. -/
structure GoesToFollowers (db : Tables) (post : Post) : Prop where
  deliverFedi : post.deliverFedi = true
  visibility : post.visibility ≠ .direct
  repost : ∀ o ∈ post.repostOfPostId, goesOutAsText db o = true

/-- A post goes to its recipients. -/
structure GoesToRecipients (post : Post) : Prop where
  deliverFedi : post.deliverFedi = true
  visibility : post.visibility = .direct
  repost : post.repostOfPostId = none

/-- The text that stands for the body of the post, if there is one -/
def overrideBody (post : Post) (body : Option Text) (fallbackText : Text) : Option Text :=
  if post.repostOfPostId.isSome then some fallbackText else body

theorem fetchPostActivityBasis_eq {author : Actor} (hpost : db.post post.id = some post)
    (hauthor : db.actor post.actorId = some author) :
    fetchPostActivityBasis db post.id post.actorId = some (post, author) := by
  simp [fetchPostActivityBasis, hpost, hauthor]

theorem deliverPostToApFollowers_eq {author : Actor} (hpost : db.post post.id = some post)
    (hauthor : db.actor post.actorId = some author) (override : Option Text) :
    (∃ sends, deliverPostToApFollowers W db post.actorId post.id override quoteUrl inReplyTo =
        some sends ∧ ∃ note, (inbox, Activity.create note) ∈ sends) ↔
      post.visibility ≠ .direct ∧ inbox ∈ postInboxes W db post override := by
  rw [deliverPostToApFollowers, fetchPostActivityBasis_eq hpost hauthor]
  by_cases hdirect : post.visibility = .direct
  · simp [hdirect]
  · simp [hdirect, fanOutActivity]

theorem deliverDirectMessageToAp_eq {author : Actor} (hpost : db.post post.id = some post)
    (hauthor : db.actor post.actorId = some author) :
    (∃ sends, deliverDirectMessageToAp W db post.actorId post.id = some sends ∧
        ∃ note, (inbox, Activity.create note) ∈ sends) ↔ RecipientInbox db post.id inbox := by
  rw [← mem_directRecipients, deliverDirectMessageToAp, fetchPostActivityBasis_eq hpost hauthor]
  simp [fanOutActivity]

/-- Whom the Note of a post is sent to -/
theorem receives_iff (hpost : db.post post.id = some post)
    (hauthor : (db.actor post.actorId).isSome = true) :
    Receives W db post body fallbackText quoteUrl inReplyTo inbox ↔
      (GoesToFollowers db post ∧ inbox ∈ postInboxes W db post (overrideBody post body fallbackText)) ∨
        (GoesToRecipients post ∧ RecipientInbox db post.id inbox) := by
  obtain ⟨author, hauthor⟩ := Option.isSome_iff_exists.mp hauthor
  rw [Receives, creationJobs]
  by_cases hfedi : post.deliverFedi = true
  · cases hrepost : post.repostOfPostId with
    | some o =>
      by_cases hfallback : goesOutAsText db o = true
      · have hto : GoesToFollowers db post ↔ post.visibility ≠ .direct :=
          ⟨fun h => h.visibility, fun h => ⟨hfedi, h, by simpa [hrepost] using hfallback⟩⟩
        have hnot : ¬ GoesToRecipients post := fun h => by simpa [hrepost] using h.repost
        simp only [hfedi, Bool.not_true, Bool.false_eq_true, if_false, hfallback, if_true,
          List.mem_singleton, exists_eq_left, ApDeliveryKind.deliver,
          deliverPostToApFollowers_eq hpost hauthor, hto, hnot, false_and, or_false, overrideBody,
          hrepost, Option.isSome_some]
      · have hnot : ¬ GoesToFollowers db post := fun h => hfallback (h.repost o hrepost)
        have hnot' : ¬ GoesToRecipients post := fun h => by simpa [hrepost] using h.repost
        simp [hfedi, hfallback, hnot, hnot']
    | none =>
      by_cases hdirect : post.visibility = .direct
      · have hnot : ¬ GoesToFollowers db post := fun h => h.visibility hdirect
        have hto : GoesToRecipients post := ⟨hfedi, hdirect, hrepost⟩
        simp only [hfedi, Bool.not_true, Bool.false_eq_true, if_false, hdirect, if_true,
          List.mem_singleton, exists_eq_left, ApDeliveryKind.deliver,
          deliverDirectMessageToAp_eq hpost hauthor, hnot, false_and, false_or, hto, true_and]
      · have hto : GoesToFollowers db post := ⟨hfedi, hdirect, by simp [hrepost]⟩
        have hnot : ¬ GoesToRecipients post := fun h => hdirect h.visibility
        simp only [hfedi, Bool.not_true, Bool.false_eq_true, if_false, hdirect, List.mem_singleton,
          exists_eq_left, ApDeliveryKind.deliver, deliverPostToApFollowers_eq hpost hauthor,
          hnot, false_and, or_false, hto, true_and, overrideBody, hrepost, Option.isSome_none,
          ne_eq, not_false_eq_true]
  · have hnot : ¬ GoesToFollowers db post := fun h => hfedi h.deliverFedi
    have hnot' : ¬ GoesToRecipients post := fun h => hfedi h.deliverFedi
    simp [hfedi, hnot, hnot']

end Creation

section Confinement

/-- Whom a post that is not public is meant for -/
def MeantFor (W : World) (db : Tables) (post : Post) (inbox : Text) : Prop :=
  match post.visibility with
  | .followersOnly => FollowerInbox db post.actorId inbox ∨ MentionInbox W db post.body inbox
  | .direct => RecipientInbox db post.id inbox
  | _ => True

/-- Everybody in the conversations that a post for followers goes to is one of them, or
mentioned. -/
def AmongFollowers (W : World) (db : Tables) (post : Post) : Prop :=
  post.visibility = .followersOnly → GoesToFollowers db post → ∀ target, IsTarget post target →
    ∀ inbox, ConversationInbox db target inbox →
      FollowerInbox db post.actorId inbox ∨ MentionInbox W db post.body inbox

theorem create_confined_iff (hpost : db.post post.id = some post)
    (hauthor : (db.actor post.actorId).isSome = true) :
    (∀ inbox, Receives W db post body fallbackText quoteUrl inReplyTo inbox →
        MeantFor W db post inbox) ↔ AmongFollowers W db post := by
  constructor
  · intro h hfollowers hto target htarget inbox hinbox
    have hmeant := h inbox ((receives_iff hpost hauthor).mpr
      (.inl ⟨hto, mem_postInboxes.mpr (.inr (.inr (.inl ⟨target, htarget, hinbox⟩)))⟩))
    simpa only [MeantFor, hfollowers] using hmeant
  · intro h inbox hreceives
    rcases (receives_iff hpost hauthor).mp hreceives with ⟨hto, hinbox⟩ | ⟨hto, hinbox⟩
    · unfold MeantFor
      split
      · rename_i hfollowers
        rcases mem_postInboxes.mp hinbox with hf | ⟨-, hm⟩ | ⟨target, htarget, hc⟩ | ⟨hpub, -⟩
        · exact .inl hf
        · exact .inr hm
        · exact h hfollowers hto target htarget inbox hc
        · rw [hfollowers] at hpub
          cases hpub
      · rename_i hdirect
        exact absurd hdirect hto.visibility
      · trivial
    · unfold MeantFor
      rw [hto.visibility]
      exact hinbox

/-- A server that knows no other -/
def alone : World where
  localDomain := "example.com".toList
  unicode := ⟨Char.isAlphanum, Char.isAlpha, Char.isWhitespace, Mention.toAsciiLowercase⟩
  resolvers := ⟨[], fun _ _ => none, fun _ _ => none, fun _ => false, fun _ => none, fun _ _ => none⟩
  fetchActorInbox := fun _ => none

/-- The local actor 1, the follower 2 and 3, who does not follow -/
def threeActors : List Actor :=
  [{ id := 1, actorType := .localUser, username := "alice".toList },
    { id := 2, actorType := .fedi, username := "bob".toList, apInboxUrl := some "https://b/inbox".toList },
    { id := 3, actorType := .fedi, username := "carol".toList, apInboxUrl := some "https://c/inbox".toList }]

/-- An answer for followers to a post of `author` -/
def answer : Post := { id := 11, actorId := 1, visibility := .followersOnly, replyToPostId := some 10 }

def answered (author : Int64) : Tables where
  actors := threeActors
  posts := [{ id := 10, actorId := author }, answer]
  follows := [⟨2, 1, .accepted⟩]

theorem htmlAndTagsForBody_nil : htmlAndTagsForBody W [] = ([], []) := by
  simp [htmlAndTagsForBody, Mention.convertMentionsForAp, Mention.apLoop, apInlineMentionsToTagJson]

theorem not_mentionInbox_nil : ¬ MentionInbox W db [] inbox := by
  simp [MentionInbox, htmlAndTagsForBody_nil, fetchInboxesByApUris]

theorem create_confined_follower :
    Receives alone (answered 2) answer none [] none none "https://b/inbox".toList ∧
      ∀ inbox, Receives alone (answered 2) answer none [] none none inbox →
        MeantFor alone (answered 2) answer inbox := by
  constructor
  · refine (receives_iff (by decide) (by decide)).mpr (.inl ⟨⟨rfl, by decide, by simp [answer]⟩, ?_⟩)
    exact mem_postInboxes.mpr (.inl (mem_fetchFediFollowerInboxes.mp (by decide)))
  · refine (create_confined_iff (by decide) (by decide)).mpr ?_
    intro _ _ target htarget inbox hinbox
    have htarget : target = 10 := by simpa [IsTarget, answer, eq_comm] using htarget
    rw [htarget, ← mem_resolveConversationBroadcastInboxes] at hinbox
    have hall : ∀ inbox ∈ resolveConversationBroadcastInboxes (answered 2) 10,
        inbox ∈ fetchFediFollowerInboxes (answered 2) 1 := by decide
    exact .inl (mem_fetchFediFollowerInboxes.mp (hall inbox hinbox))

/-- The author who is answered gets what is for followers. -/
theorem create_confined_counterexample :
    Receives alone (answered 3) answer none [] none none "https://c/inbox".toList ∧
      ¬ MeantFor alone (answered 3) answer "https://c/inbox".toList := by
  constructor
  · refine (receives_iff (by decide) (by decide)).mpr (.inl ⟨⟨rfl, by decide, by simp [answer]⟩, ?_⟩)
    refine mem_postInboxes.mpr (.inr (.inr (.inl ⟨10, .inl rfl, ?_⟩)))
    exact mem_resolveConversationBroadcastInboxes.mp (by decide)
  · rintro (h | h)
    · exact absurd (mem_fetchFediFollowerInboxes.mpr h) (by decide)
    · exact not_mentionInbox_nil h

end Confinement

section Deletion

/-- The deletion of the post is sent to the inbox. -/
def IsTold (W : World) (db : Tables) (post : Post) (inbox : Text) : Prop :=
  ∃ job ∈ deletionJobs db post, ∃ sends, job.deliver W db post.actorId = some sends ∧
    (inbox, Activity.delete (W.noteId post.id)) ∈ sends

/-- The deletion of a Note is sent to somebody. -/
def DeletionSent (db : Tables) (post : Post) : Prop :=
  match post.repostOfPostId with
  | some o => isFallbackRepost db o = true
  | none => post.deliverFedi = true ∧ post.visibility ≠ .direct

theorem isTold_iff (hauthor : (db.actor post.actorId).isSome = true) :
    IsTold W db post inbox ↔ DeletionSent db post ∧ FollowerInbox db post.actorId inbox := by
  obtain ⟨author, hauthor⟩ := Option.isSome_iff_exists.mp hauthor
  have hdeliver : (∃ sends, (ApDeliveryKind.deleteNote post.id).deliver W db post.actorId =
      some sends ∧ (inbox, Activity.delete (W.noteId post.id)) ∈ sends) ↔
        FollowerInbox db post.actorId inbox := by
    rw [← mem_fetchFediFollowerInboxes]
    simp [ApDeliveryKind.deliver, deliverDeleteNote, hauthor, fanOutActivity]
  rw [IsTold, deletionJobs, DeletionSent]
  cases post.repostOfPostId with
  | some o =>
    by_cases hfallback : isFallbackRepost db o = true
    · simp only [hfallback, if_true, List.mem_singleton, exists_eq_left, hdeliver, true_and]
    · simp [hfallback]
  | none =>
    by_cases hsent : post.deliverFedi = true ∧ post.visibility ≠ .direct
    · simp only [hsent, if_true, List.mem_singleton, exists_eq_left, hdeliver, true_and, and_self,
        ne_eq, not_false_eq_true]
    · simp only [hsent, if_false, List.not_mem_nil, false_and, exists_false]

/-- The follow graph, the relays and the recipients stay as they are. -/
structure Unchanged (db db' : Tables) : Prop where
  actors : db'.actors = db.actors
  follows : db'.follows = db.follows
  relays : db'.relays = db.relays
  postRecipients : db'.postRecipients = db.postRecipients

theorem Unchanged.actor (h : Unchanged db db') (a : Int64) : db'.actor a = db.actor a := by
  rw [Tables.actor, h.actors]
  rfl

theorem Unchanged.followerInbox (h : Unchanged db db') :
    FollowerInbox db' actorId inbox ↔ FollowerInbox db actorId inbox := by
  simp only [FollowerInbox, Tables.remoteInbox, h.follows, h.actor]

/-- The followers of the author are all that a post was sent to. -/
structure Covered (W : World) (db db' : Tables) (post : Post) (body : Option Text) : Prop where
  recipients : GoesToRecipients post → ∀ inbox, ¬ RecipientInbox db post.id inbox
  mentions : GoesToFollowers db post → post.repostOfPostId = none → body = none → ∀ inbox,
    MentionInbox W db post.body inbox → FollowerInbox db post.actorId inbox
  conversations : GoesToFollowers db post → ∀ target, IsTarget post target → ∀ inbox,
    ConversationInbox db target inbox → FollowerInbox db post.actorId inbox
  relays : GoesToFollowers db post → post.visibility = .pub → ∀ inbox,
    RelayInbox db inbox → FollowerInbox db post.actorId inbox
  /-- What was reposted as a text is still of Bluesky alone. -/
  original : GoesToFollowers db post → ∀ o ∈ post.repostOfPostId, ∀ inbox,
    FollowerInbox db post.actorId inbox → isFallbackRepost db' o = true

theorem overrideBody_eq_none : overrideBody post body fallbackText = none ↔
    post.repostOfPostId = none ∧ body = none := by
  cases hrepost : post.repostOfPostId <;> simp [overrideBody, hrepost]

theorem deletionSent_of_covered (h : Covered W db db' post body) (hto : GoesToFollowers db post)
    (hinbox : FollowerInbox db post.actorId inbox) : DeletionSent db' post := by
  unfold DeletionSent
  split
  · rename_i o hrepost
    exact h.original hto o hrepost inbox hinbox
  · exact ⟨hto.deliverFedi, hto.visibility⟩

theorem delete_reaches_iff (hpost : db.post post.id = some post)
    (hauthor : (db.actor post.actorId).isSome = true) (hsame : Unchanged db db') :
    (∀ inbox, Receives W db post body fallbackText quoteUrl inReplyTo inbox →
        IsTold W db' post inbox) ↔ Covered W db db' post body := by
  have htold : ∀ inbox, IsTold W db' post inbox ↔
      DeletionSent db' post ∧ FollowerInbox db post.actorId inbox := by
    intro inbox
    rw [isTold_iff (by rw [hsame.actor]; exact hauthor), hsame.followerInbox]
  simp only [receives_iff hpost hauthor, htold, mem_postInboxes]
  constructor
  · intro h
    constructor
    case recipients =>
      intro hto inbox hinbox
      have hsent := (h inbox (.inr ⟨hto, hinbox⟩)).1
      rw [DeletionSent, hto.repost] at hsent
      exact hsent.2 hto.visibility
    case mentions =>
      intro hto hrepost hbody inbox hinbox
      exact (h inbox (.inl ⟨hto, .inr (.inl ⟨overrideBody_eq_none.mpr ⟨hrepost, hbody⟩, hinbox⟩)⟩)).2
    case conversations =>
      intro hto target htarget inbox hinbox
      exact (h inbox (.inl ⟨hto, .inr (.inr (.inl ⟨target, htarget, hinbox⟩))⟩)).2
    case relays =>
      intro hto hpub inbox hinbox
      exact (h inbox (.inl ⟨hto, .inr (.inr (.inr ⟨hpub, hinbox⟩))⟩)).2
    case original =>
      intro hto o hrepost inbox hinbox
      have hsent := (h inbox (.inl ⟨hto, .inl hinbox⟩)).1
      rw [DeletionSent, hrepost] at hsent
      exact hsent
  · rintro h inbox (⟨hto, hinbox⟩ | ⟨hto, hinbox⟩)
    · have hfollower : FollowerInbox db post.actorId inbox := by
        rcases hinbox with hf | ⟨hnone, hm⟩ | ⟨target, htarget, hc⟩ | ⟨hpub, hr⟩
        · exact hf
        · obtain ⟨hrepost, hbody⟩ := overrideBody_eq_none.mp hnone
          exact h.mentions hto hrepost hbody inbox hm
        · exact h.conversations hto target htarget inbox hc
        · exact h.relays hto hpub inbox hr
      exact ⟨deletionSent_of_covered h hto hfollower, hfollower⟩
    · exact absurd hinbox (h.recipients hto inbox)

/-- A post for everybody, with no answer -/
def announced : Post := { id := 11, actorId := 1 }

def withRelays (relays : List Relay) : Tables where
  actors := threeActors
  posts := [announced]
  follows := [⟨2, 1, .accepted⟩]
  relays := relays

theorem delete_reaches_followers :
    Receives alone (withRelays []) announced none [] none none "https://b/inbox".toList ∧
      ∀ inbox, Receives alone (withRelays []) announced none [] none none inbox →
        IsTold alone (withRelays []) announced inbox := by
  constructor
  · refine (receives_iff (by decide) (by decide)).mpr
      (.inl ⟨⟨rfl, by decide, by simp [announced]⟩, ?_⟩)
    exact mem_postInboxes.mpr (.inl (mem_fetchFediFollowerInboxes.mp (by decide)))
  · refine (delete_reaches_iff (by decide) (by decide) ⟨rfl, rfl, rfl, rfl⟩).mpr ?_
    refine ⟨?_, ?_, ?_, ?_, ?_⟩
    · intro hto
      exact absurd hto.visibility (by decide)
    · intro _ _ _ inbox hmention
      exact absurd hmention not_mentionInbox_nil
    · intro _ target htarget
      simp [IsTarget, announced] at htarget
    · intro _ _ inbox ⟨r, hr, _⟩
      exact absurd hr List.not_mem_nil
    · intro _ o ho
      cases ho

/-- A relay gets the post and not its deletion. -/
theorem delete_reaches_counterexample :
    Receives alone (withRelays [⟨"https://r/inbox".toList, true⟩]) announced none [] none none
      "https://r/inbox".toList ∧
    ¬ IsTold alone (withRelays [⟨"https://r/inbox".toList, true⟩]) announced
      "https://r/inbox".toList := by
  constructor
  · refine (receives_iff (by decide) (by decide)).mpr (.inl ⟨⟨rfl, by decide, by simp [announced]⟩, ?_⟩)
    exact mem_postInboxes.mpr (.inr (.inr (.inr ⟨rfl, mem_fetchAcceptedRelayInboxes.mp (by decide)⟩)))
  · intro h
    have hfollower := ((isTold_iff (by decide)).mp h).2
    exact absurd (mem_fetchFediFollowerInboxes.mpr hfollower) (by decide)

end Deletion

end Seiran.Deliver
