import Seiran.Model.Deliver.Pulled
import Seiran.Proof.Deliver.Audience

/-!
# The Notes that are served are the one that is sent

* `isPushed_iff`: the Note that a new post is sent as;
* `tags_eq_iff`: equal tags have no emoji, whose tags differ;
* `getNoteAp_eq_iff`, `publicNote_eq_iff`: when a Note that is served is the one sent;
* `pulled_agrees_iff`: all of them are, exactly for a post with little in it.
-/

namespace Seiran.Deliver

open Timeline (Visibility)
open Mention (Text)

variable {W : World} {db : Tables} {post : Post} {author : Actor} {choices : Choices}
  {fallbackText : Text} {body quoteUrl inReplyTo : Option Text} {note : Note}

section Pushed

/-- The text that a new post is sent with instead of its own -/
def pushedBody (db : Tables) (post : Post) (choices : Choices) (fallbackText : Text) : Option Text :=
  overrideBody post (regularBody post.body (post.quoteOfPostId.bind (resolveQuoteEmbed db)) choices).1
    fallbackText

/-- The quote that a new post is sent with -/
def pushedQuote (db : Tables) (post : Post) : Option ApQuote :=
  if post.repostOfPostId.isSome then none else post.quoteOfPostId.bind (resolveQuoteEmbed db)

/-- The parent that a new post is sent with -/
def pushedParent (db : Tables) (post : Post) : Option Text :=
  if post.repostOfPostId.isSome then none else apInReplyTo db post

/-- A URL that stands for a quote, and not in the text -/
def quoteUrlOf : Option ApQuote → Option Text
  | some (.misskey url) => some url
  | _ => none

theorem apDeliveryQuoteFields_snd (text : Text) (quote : Option ApQuote) :
    (apDeliveryQuoteFields text quote).2 = quoteUrlOf quote := by
  rcases quote with _ | _ | _ <;> rfl

theorem regularBody_snd (text : Text) (quote : Option ApQuote) (choices : Choices) :
    (regularBody text quote choices).2 = quoteUrlOf quote := by
  rw [← apDeliveryQuoteFields_snd text]
  rfl

/-- The post is sent as the Note. -/
def IsPushed (W : World) (db : Tables) (post : Post) (author : Actor) (choices : Choices)
    (fallbackText : Text) (note : Note) : Prop :=
  ∃ body quoteUrl inReplyTo,
    .postToFollowers post.id body quoteUrl inReplyTo ∈ jobsOfNewPost db post choices fallbackText ∧
      note = pushedNote W post author body quoteUrl inReplyTo

theorem jobsOfNewPost_eq : jobsOfNewPost db post choices fallbackText =
    creationJobs db post
      (regularBody post.body (post.quoteOfPostId.bind (resolveQuoteEmbed db)) choices).1 fallbackText
      (quoteUrlOf (post.quoteOfPostId.bind (resolveQuoteEmbed db))) (apInReplyTo db post) := by
  rw [← regularBody_snd post.body _ choices]
  rfl

/-- The jobs for a post that is not direct -/
theorem mem_creationJobs {job : ApDeliveryKind} (hdirect : post.visibility ≠ .direct) :
    job ∈ creationJobs db post body fallbackText quoteUrl inReplyTo ↔ GoesToFollowers db post ∧
      job = .postToFollowers post.id (overrideBody post body fallbackText)
        (if post.repostOfPostId.isSome then none else quoteUrl)
        (if post.repostOfPostId.isSome then none else inReplyTo) := by
  rw [creationJobs, overrideBody]
  by_cases hfedi : post.deliverFedi = true
  · cases hrepost : post.repostOfPostId with
    | some o =>
      have hto : GoesToFollowers db post ↔ goesOutAsText db o = true :=
        ⟨fun h => h.repost o hrepost, fun h => ⟨hfedi, hdirect, by simpa [hrepost] using h⟩⟩
      by_cases htext : goesOutAsText db o = true
      · simp [hfedi, hto, htext]
      · simp [hfedi, hto, htext]
    | none =>
      have hto : GoesToFollowers db post := ⟨hfedi, hdirect, by simp [hrepost]⟩
      simp [hfedi, hdirect, hto]
  · have hnot : ¬ GoesToFollowers db post := fun h => hfedi h.deliverFedi
    simp [hfedi, hnot]

theorem isPushed_iff (hdirect : post.visibility ≠ .direct) :
    IsPushed W db post author choices fallbackText note ↔ GoesToFollowers db post ∧
      note = pushedNote W post author (pushedBody db post choices fallbackText)
        (quoteUrlOf (pushedQuote db post)) (pushedParent db post) := by
  have hquote : quoteUrlOf (pushedQuote db post) = if post.repostOfPostId.isSome then none
      else quoteUrlOf (post.quoteOfPostId.bind (resolveQuoteEmbed db)) := by
    rw [pushedQuote]
    split <;> rfl
  rw [IsPushed, jobsOfNewPost_eq, hquote, pushedBody, pushedParent]
  simp only [mem_creationJobs hdirect]
  constructor
  · rintro ⟨body, quoteUrl, inReplyTo, ⟨hto, hjob⟩, hnote⟩
    cases hjob
    exact ⟨hto, hnote⟩
  · rintro ⟨hto, hnote⟩
    exact ⟨_, _, _, ⟨hto, rfl⟩, hnote⟩

/-- What a job sends for a post that is not direct is the Note of the post. -/
theorem isPushed_of_deliver {job : ApDeliveryKind} {sends : List (Text × Activity)} {inbox : Text}
    (hpost : db.post post.id = some post) (hauthor : db.actor post.actorId = some author)
    (hdirect : post.visibility ≠ .direct) (hjob : job ∈ jobsOfNewPost db post choices fallbackText)
    (hsends : job.deliver W db post.actorId = some sends) (hmem : (inbox, .create note) ∈ sends) :
    IsPushed W db post author choices fallbackText note := by
  rw [jobsOfNewPost_eq, mem_creationJobs hdirect] at hjob
  obtain ⟨hto, rfl⟩ := hjob
  rw [ApDeliveryKind.deliver, deliverPostToApFollowers, fetchPostActivityBasis_eq hpost hauthor] at hsends
  simp only [Option.map_some, hdirect, if_false, Option.some.injEq] at hsends
  subst hsends
  simp only [fanOutActivity, List.mem_map, Prod.mk.injEq, Activity.create.injEq] at hmem
  obtain ⟨_, _, _, rfl⟩ := hmem
  exact ⟨_, _, _, by rw [jobsOfNewPost_eq, mem_creationJobs hdirect]; exact ⟨hto, rfl⟩, rfl⟩

end Pushed

section Tags

def Tag.isEmoji : Tag → Bool
  | emoji .. => true
  | _ => false

/-- No emoji of the map is in the text. -/
def NoEmoji (W : World) (text : Text) (emojiMap : List (Text × Text)) : Prop :=
  emojiOf W.unicode text emojiMap = []

theorem isEmoji_of_mem_text {text : Text} {t : Tag} (h : t ∈ (htmlAndTagsForBody W text).1) :
    t.isEmoji = false := by
  simp only [htmlAndTagsForBody, apInlineMentionsToTagJson, List.mem_filterMap] at h
  obtain ⟨m, -, hm⟩ := h
  split at hm <;> cases hm <;> rfl

/-- Emoji tags have an id where they are sent and none where they are served. -/
theorem tags_eq_iff (W : World) (post : Post) (text text' text'' : Text) :
    (htmlAndTagsForBody W text).1 ++ appendEmojiTags W text' post.emojiMap =
        (htmlAndTagsForBody W text'').1 ++ pulledEmojiTags W post ↔
      (htmlAndTagsForBody W text).1 = (htmlAndTagsForBody W text'').1 ∧
        NoEmoji W text' post.emojiMap ∧ NoEmoji W post.body post.emojiMap := by
  have hfilter : ∀ text : Text, (htmlAndTagsForBody W text).1.filter (fun t => !t.isEmoji) =
      (htmlAndTagsForBody W text).1 := by
    intro text
    refine List.filter_eq_self.mpr fun t ht => ?_
    rw [isEmoji_of_mem_text ht]
    rfl
  have hsent : (appendEmojiTags W text' post.emojiMap).filter (fun t => !t.isEmoji) = [] := by
    refine List.filter_eq_nil_iff.mpr fun t ht => ?_
    obtain ⟨e, -, rfl⟩ := List.mem_map.mp ht
    simp [Tag.isEmoji]
  have hserved : (pulledEmojiTags W post).filter (fun t => !t.isEmoji) = [] := by
    refine List.filter_eq_nil_iff.mpr fun t ht => ?_
    obtain ⟨e, -, rfl⟩ := List.mem_map.mp ht
    simp [Tag.isEmoji]
  constructor
  · intro h
    have htext := congrArg (List.filter fun t => !t.isEmoji) h
    rw [List.filter_append, List.filter_append, hfilter, hfilter, hsent, hserved, List.append_nil,
      List.append_nil] at htext
    rw [htext] at h
    have hemoji := List.append_cancel_left h
    cases hmap : emojiOf W.unicode text' post.emojiMap with
    | nil =>
      rw [appendEmojiTags, hmap, List.map_nil, pulledEmojiTags, eq_comm, List.map_eq_nil_iff] at hemoji
      exact ⟨htext, hmap, hemoji⟩
    | cons e es =>
      -- an id is missing in what is served
      rw [appendEmojiTags, hmap, pulledEmojiTags] at hemoji
      cases hmap' : emojiOf W.unicode post.body post.emojiMap with
      | nil => simp [hmap'] at hemoji
      | cons e' es' => simp [hmap'] at hemoji
  · rintro ⟨htext, hsent, hserved⟩
    rw [NoEmoji] at hsent hserved
    rw [appendEmojiTags, pulledEmojiTags, htext, hsent, hserved]
    rfl

theorem mentions_eq_nil_of_tags {text : Text} (h : (htmlAndTagsForBody W text).1 = []) :
    (htmlAndTagsForBody W text).2 = [] := by
  have hnone : ∀ m ∈ (Mention.convertMentionsForAp W.unicode W.resolvers W.localDomain text).2,
      m.kind ≠ .mention := by
    intro m hm hkind
    have htag := List.filterMap_eq_nil_iff.mp h m hm
    rw [hkind] at htag
    cases htag
  have hfilter : (Mention.convertMentionsForAp W.unicode W.resolvers W.localDomain text).2.filter
      (fun m => m.kind = .mention) = [] :=
    List.filter_eq_nil_iff.mpr fun m hm => by simpa using hnone m hm
  simp [htmlAndTagsForBody, hfilter]

end Tags

section Agreement

theorem followersUri_ne_asPublic (username : Text) : W.followersUri username ≠ asPublic := by
  intro h
  have hlast := congrArg List.getLast? h
  have hfollowers : "/followers".toList.getLast? = some 's' := rfl
  have hpublic : asPublic.getLast? = some 'c' := rfl
  rw [World.followersUri, List.getLast?_append, hfollowers, hpublic, Option.some_or] at hlast
  cases hlast

/-- The body that `get_note_ap` converts -/
def pulledText (db : Tables) (post : Post) : Text :=
  (apDeliveryQuoteFields post.body (pulledQuote db post)).1.getD post.body

/-- The Note at the URL of the post is the one that was sent: nobody is mentioned, no parent is
referred to, the quote is the same, and what tags there are are not emoji. -/
structure SameAtUrl (W : World) (db : Tables) (post : Post) (body quoteUrl inReplyTo : Option Text) :
    Prop where
  inReplyTo : inReplyTo = none
  quote : quoteUrlOf (pulledQuote db post) = quoteUrl
  mentions : (bodyTags W post body).2 = []
  text : body = none → (htmlAndTagsForBody W post.body).1 = (htmlAndTagsForBody W (pulledText db post)).1
  override : body.isSome = true → (htmlAndTagsForBody W (pulledText db post)).1 = []
  emoji : NoEmoji W (body.getD post.body) post.emojiMap ∧ NoEmoji W post.body post.emojiMap

/-- A Note of a collection is the one that was sent: it is public, with nothing but a text. -/
structure SameListed (W : World) (post : Post) (body quoteUrl inReplyTo : Option Text) : Prop where
  visibility : post.visibility = .pub
  contentWarning : post.contentWarning = none
  poll : post.poll = none
  inReplyTo : inReplyTo = none
  quote : quoteUrl = none
  text : body = none → (htmlAndTagsForBody W post.body).1 = []
  emoji : NoEmoji W (body.getD post.body) post.emojiMap

theorem bodyTags_eq (body : Option Text) : bodyTags W post body =
    ((if body.isSome then [] else (htmlAndTagsForBody W post.body).1) ++
      appendEmojiTags W (body.getD post.body) post.emojiMap,
      if body.isSome then [] else (htmlAndTagsForBody W post.body).2) := by
  cases body <;> rfl

theorem getNoteAp_eq (hpost : db.post post.id = some post)
    (hauthor : db.actor post.actorId = some author) (hlocal : author.actorType = .localUser)
    (hpublic : post.isPublic = true) :
    getNoteAp W db post.id = some
      { id := W.noteId post.id
        attributedTo := W.actorUri author.username
        toUris := if post.visibility = .unlisted then [W.followersUri author.username] else [asPublic]
        ccUris := if post.visibility = .unlisted then [asPublic] else [W.followersUri author.username]
        summary := post.contentWarning
        quoteUrl := quoteUrlOf (pulledQuote db post)
        question := post.poll.map applyPollToNoteObject
        tag := (htmlAndTagsForBody W (pulledText db post)).1 ++ pulledEmojiTags W post } := by
  simp [getNoteAp, hpost, hauthor, hlocal, hpublic, pulledText, apDeliveryQuoteFields_snd]

theorem Post.isPublic_cases (h : post.isPublic = true) :
    post.visibility = .pub ∨ post.visibility = .unlisted := by
  rw [Post.isPublic] at h
  cases hvis : post.visibility <;> simp_all

theorem toCc_served_iff {mentioned : List Text} (followersUri : Text) (h : post.isPublic = true) :
    ((if post.visibility = .unlisted then [followersUri] else [asPublic]) =
        (visibilityToToCc followersUri post.visibility [] mentioned).1 ∧
      (if post.visibility = .unlisted then [asPublic] else [followersUri]) =
        (visibilityToToCc followersUri post.visibility [] mentioned).2) ↔ mentioned = [] := by
  rcases Post.isPublic_cases h with hvis | hvis <;>
    simp [hvis, visibilityToToCc, eq_comm]

theorem toCc_listed_iff {mentioned : List Text} (W : World) (username : Text) (h : post.isPublic = true) :
    ([asPublic] = (visibilityToToCc (W.followersUri username) post.visibility [] mentioned).1 ∧
      [W.followersUri username] =
        (visibilityToToCc (W.followersUri username) post.visibility [] mentioned).2) ↔
      post.visibility = .pub ∧ mentioned = [] := by
  rcases Post.isPublic_cases h with hvis | hvis
  · simp [hvis, visibilityToToCc, eq_comm]
  · simp [hvis, visibilityToToCc, followersUri_ne_asPublic]

/-- The Note that is served at the URL -/
theorem getNoteAp_eq_iff (hpost : db.post post.id = some post)
    (hauthor : db.actor post.actorId = some author) (hlocal : author.actorType = .localUser)
    (hpublic : post.isPublic = true) :
    (∀ served ∈ getNoteAp W db post.id, served = pushedNote W post author body quoteUrl inReplyTo) ↔
      SameAtUrl W db post body quoteUrl inReplyTo := by
  have htags : (htmlAndTagsForBody W (pulledText db post)).1 ++ pulledEmojiTags W post =
      (bodyTags W post body).1 ↔
        (body = none → (htmlAndTagsForBody W post.body).1 =
          (htmlAndTagsForBody W (pulledText db post)).1) ∧
        (body.isSome = true → (htmlAndTagsForBody W (pulledText db post)).1 = []) ∧
        NoEmoji W (body.getD post.body) post.emojiMap ∧ NoEmoji W post.body post.emojiMap := by
    rw [eq_comm, bodyTags_eq]
    cases body with
    | none => simp [tags_eq_iff]
    | some text =>
      have hempty : (htmlAndTagsForBody W []).1 = [] := by rw [htmlAndTagsForBody_nil]
      have h := tags_eq_iff W post [] text (pulledText db post)
      rw [hempty] at h
      refine h.trans ⟨?_, ?_⟩
      · rintro ⟨htext, hemoji⟩
        exact ⟨(fun hnone => nomatch hnone), fun _ => htext.symm, hemoji⟩
      · rintro ⟨-, htext, hemoji⟩
        exact ⟨(htext rfl).symm, hemoji⟩
  rw [getNoteAp_eq hpost hauthor hlocal hpublic]
  simp only [Option.mem_def, Option.some.injEq, forall_eq', pushedNote, buildNoteObject, Note.mk.injEq]
  rw [htags]
  constructor
  · rintro ⟨-, -, hto, hcc, -, -, hreply, hquote, -, htext, hoverride, hemoji⟩
    exact ⟨hreply.symm, hquote, (toCc_served_iff _ hpublic).mp ⟨hto, hcc⟩, htext, hoverride, hemoji⟩
  · intro h
    have hcc := (toCc_served_iff (W.followersUri author.username) hpublic).mpr h.mentions
    exact ⟨trivial, trivial, hcc.1, hcc.2, trivial, trivial, h.inReplyTo.symm, h.quote, trivial, h.text,
      h.override, h.emoji⟩

/-- A Note that is served in a collection -/
theorem publicNote_eq_iff {noteId : Text} (hpublic : post.isPublic = true) :
    publicNote W author.username noteId = pushedNote W post author body quoteUrl inReplyTo ↔
      noteId = W.noteId post.id ∧ SameListed W post body quoteUrl inReplyTo := by
  have htags : [] = (bodyTags W post body).1 ↔ (body = none → (htmlAndTagsForBody W post.body).1 = []) ∧
      NoEmoji W (body.getD post.body) post.emojiMap := by
    rw [eq_comm, bodyTags_eq]
    cases body <;> simp [appendEmojiTags, NoEmoji]
  have hmentions : (body = none → (htmlAndTagsForBody W post.body).1 = []) →
      (bodyTags W post body).2 = [] := by
    intro h
    rw [bodyTags_eq]
    cases body with
    | none => exact mentions_eq_nil_of_tags (h rfl)
    | some text => rfl
  simp only [publicNote, pushedNote, buildNoteObject, Note.mk.injEq]
  rw [htags]
  constructor
  · rintro ⟨hid, -, hto, hcc, hwarning, -, hreply, hquote, hpoll, htext, hemoji⟩
    have hpub := (toCc_listed_iff W _ hpublic).mp ⟨hto, hcc⟩
    exact ⟨hid, hpub.1, hwarning.symm, by simpa [eq_comm] using hpoll, hreply.symm, hquote.symm, htext,
      hemoji⟩
  · rintro ⟨hid, h⟩
    have hcc := (toCc_listed_iff W author.username hpublic).mpr
      ⟨h.visibility, hmentions h.text⟩
    exact ⟨hid, trivial, hcc.1, hcc.2, h.contentWarning.symm, trivial, h.inReplyTo.symm, h.quote.symm,
      by rw [h.poll]; rfl, h.text, h.emoji⟩

/-- The post is in the outbox as a Note. -/
def Listed (db : Tables) (post : Post) : Prop :=
  (liveLocalActor db post.actorId).isSome = true ∧
    ∀ o ∈ post.repostOfPostId, post.apObjectId.isSome = true ∧ (db.post o).any Post.isBskyOnly = true

/-- The post is in the featured collection. -/
def Pinned (db : Tables) (post : Post) : Prop :=
  (liveLocalActor db post.actorId).isSome = true ∧
    ∃ pp ∈ db.pinnedPosts, pp.actorId = post.actorId ∧ pp.postId = post.id

theorem liveLocalActor_eq (hauthor : db.actor post.actorId = some author)
    (hlive : (liveLocalActor db post.actorId).isSome = true) :
    liveLocalActor db post.actorId = some author := by
  obtain ⟨a, ha⟩ := Option.isSome_iff_exists.mp hlive
  rw [ha]
  simp only [liveLocalActor, hauthor, Option.bind_eq_bind, Option.bind_some,
    Option.bind_eq_some_iff] at ha
  obtain ⟨-, -, ha⟩ := ha
  exact ha.symm

theorem outboxItem_eq_some (hpost : db.post post.id = some post)
    (hauthor : db.actor post.actorId = some author) (hpublic : post.isPublic = true) :
    outboxItem W db post.id = some note ↔ Listed db post ∧
      note = publicNote W author.username (post.apObjectId.getD (W.noteId post.id)) := by
  by_cases hlive : (liveLocalActor db post.actorId).isSome = true
  · rw [Listed, outboxItem, hpost]
    simp only [Option.bind_eq_bind, Option.bind_some, hpublic, guard_true, Option.pure_def,
      liveLocalActor_eq hauthor hlive, Option.isSome_some, true_and, Option.mem_def]
    cases post.repostOfPostId with
    | none => exact ⟨fun h => ⟨nofun, (Option.some.inj h).symm⟩, fun h => congrArg some h.2.symm⟩
    | some o =>
      simp only [Option.bind_eq_some_iff, Option.guard_eq_some', Option.some.injEq, forall_eq']
      constructor
      · rintro ⟨ownId, hown, original, horiginal, -, honly, rfl⟩
        rw [hown, horiginal]
        exact ⟨⟨rfl, honly⟩, rfl⟩
      · rintro ⟨⟨hown, honly⟩, rfl⟩
        obtain ⟨ownId, hown⟩ := Option.isSome_iff_exists.mp hown
        cases horiginal : db.post o with
        | none => simp [horiginal] at honly
        | some original =>
          rw [horiginal] at honly
          rw [hown]
          exact ⟨ownId, rfl, original, rfl, (), honly, rfl⟩
  · have hnone := Option.not_isSome_iff_eq_none.mp hlive
    simp [outboxItem, Listed, hpost, hpublic, hnone]

theorem featuredItem_eq_some (hpost : db.post post.id = some post)
    (hauthor : db.actor post.actorId = some author) (hpublic : post.isPublic = true) :
    featuredItem W db post.id = some note ↔ Pinned db post ∧
      note = publicNote W author.username (W.noteId post.id) := by
  by_cases hlive : (liveLocalActor db post.actorId).isSome = true
  · rw [Pinned, featuredItem, hpost]
    simp only [Option.bind_eq_bind, Option.bind_some, hpublic, guard_true, Option.pure_def,
      liveLocalActor_eq hauthor hlive, Option.isSome_some, true_and]
    simp only [Option.bind_eq_some_iff, Option.guard_eq_some', Option.some.injEq,
      List.any_eq_true, Bool.and_eq_true, beq_iff_eq]
    constructor
    · rintro ⟨-, hpinned, rfl⟩
      exact ⟨hpinned, rfl⟩
    · rintro ⟨hpinned, rfl⟩
      exact ⟨(), hpinned, rfl⟩
  · have hnone := Option.not_isSome_iff_eq_none.mp hlive
    simp [featuredItem, Pinned, hpost, hpublic, hnone]

theorem servedNotes_of_not_public (hpost : db.post post.id = some post)
    (hpublic : post.isPublic = false) : servedNotes W db post.id = [] := by
  simp [servedNotes, getNoteAp, outboxItem, featuredItem, hpost, hpublic]

/-- The Notes of the post that are served say no more than what fits in all of them. -/
structure Plain (W : World) (db : Tables) (post : Post) (choices : Choices) (fallbackText : Text) :
    Prop where
  atUrl : SameAtUrl W db post (pushedBody db post choices fallbackText)
    (quoteUrlOf (pushedQuote db post)) (pushedParent db post)
  outbox : Listed db post → post.apObjectId.getD (W.noteId post.id) = W.noteId post.id
  listed : Listed db post ∨ Pinned db post → SameListed W post
    (pushedBody db post choices fallbackText) (quoteUrlOf (pushedQuote db post)) (pushedParent db post)

theorem pulled_agrees_iff (hpost : db.post post.id = some post)
    (hauthor : db.actor post.actorId = some author) (hlocal : author.actorType = .localUser)
    (hdirect : post.visibility ≠ .direct) :
    (∀ pushed, IsPushed W db post author choices fallbackText pushed →
        ∀ served ∈ servedNotes W db post.id, served = pushed) ↔
      (GoesToFollowers db post → post.isPublic = true → Plain W db post choices fallbackText) := by
  simp only [isPushed_iff hdirect]
  by_cases hpublic : post.isPublic = true
  case neg =>
    have hserved : servedNotes W db post.id = [] :=
      servedNotes_of_not_public hpost (Bool.eq_false_of_not_eq_true hpublic)
    simp [hserved, hpublic]
  have hmem : ∀ served, served ∈ servedNotes W db post.id ↔ getNoteAp W db post.id = some served ∨
      (Listed db post ∧
        served = publicNote W author.username (post.apObjectId.getD (W.noteId post.id))) ∨
      (Pinned db post ∧ served = publicNote W author.username (W.noteId post.id)) := by
    intro served
    rw [servedNotes, List.mem_append, List.mem_append, Option.mem_toList, Option.mem_toList,
      Option.mem_toList, outboxItem_eq_some hpost hauthor hpublic, featuredItem_eq_some hpost hauthor hpublic,
      or_assoc]
  simp only [hmem]
  constructor
  · intro h hto _
    have hall := h _ ⟨hto, rfl⟩
    have hlisted : Listed db post → _ := fun hlisted =>
      (publicNote_eq_iff hpublic).mp (hall _ (.inr (.inl ⟨hlisted, rfl⟩)))
    have hpinned : Pinned db post → _ := fun hpinned =>
      (publicNote_eq_iff hpublic).mp (hall _ (.inr (.inr ⟨hpinned, rfl⟩)))
    constructor
    case atUrl =>
      exact (getNoteAp_eq_iff hpost hauthor hlocal hpublic).mp fun served hserved =>
        hall served (.inl hserved)
    case outbox => exact fun hl => (hlisted hl).1
    case listed => exact fun hl => hl.elim (fun hl => (hlisted hl).2) fun hp => (hpinned hp).2
  · rintro h pushed ⟨hto, rfl⟩ served (hserved | ⟨hlisted, rfl⟩ | ⟨hpinned, rfl⟩)
    · exact (getNoteAp_eq_iff hpost hauthor hlocal hpublic).mpr (h hto hpublic).atUrl served hserved
    · exact (publicNote_eq_iff hpublic).mpr
        ⟨(h hto hpublic).outbox hlisted, (h hto hpublic).listed (.inl hlisted)⟩
    · exact (publicNote_eq_iff hpublic).mpr ⟨rfl, (h hto hpublic).listed (.inr hpinned)⟩

/-- A post of `alice` with no text -/
def silent (visibility : Visibility) : Post where
  id := 11
  actorId := 1
  visibility := visibility
  apObjectId := some (alone.noteId 11)

/-- It is pinned. -/
def withSilent (visibility : Visibility) : Tables where
  actors := threeActors
  posts := [silent visibility]
  pinnedPosts := [⟨1, 11⟩]

def alice : Actor := { id := 1, actorType := .localUser, username := "alice".toList }

theorem noEmoji_nil {emojiMap : List (Text × Text)} : NoEmoji W [] emojiMap := rfl

theorem pulled_agrees_plain :
    (∃ pushed, IsPushed alone (withSilent .pub) (silent .pub) alice {} [] pushed) ∧
      ∀ pushed, IsPushed alone (withSilent .pub) (silent .pub) alice {} [] pushed →
        ∀ served ∈ servedNotes alone (withSilent .pub) 11, served = pushed := by
  refine ⟨⟨_, (isPushed_iff (by decide)).mpr ⟨⟨rfl, by decide, by simp [silent]⟩, rfl⟩⟩, ?_⟩
  refine (pulled_agrees_iff rfl rfl rfl (by decide)).mpr fun _ _ => ⟨?_, fun _ => rfl, fun _ => ?_⟩
  · refine ⟨rfl, rfl, ?_, fun _ => rfl, fun h => ?_, noEmoji_nil, noEmoji_nil⟩
    · show (bodyTags alone (silent .pub) none).2 = []
      rw [bodyTags_eq]
      exact mentions_eq_nil_of_tags (by rw [silent, htmlAndTagsForBody_nil])
    · cases h
  · refine ⟨rfl, rfl, rfl, rfl, rfl, fun _ => ?_, noEmoji_nil⟩
    rw [silent, htmlAndTagsForBody_nil]

/-- What is sent as unlisted is public for those who find it in the outbox. -/
theorem pulled_agrees_counterexample : ∃ pushed served,
    IsPushed alone (withSilent .unlisted) (silent .unlisted) alice {} [] pushed ∧
      served ∈ servedNotes alone (withSilent .unlisted) 11 ∧
      classifyApVisibility pushed.toUris pushed.ccUris = .unlisted ∧
      classifyApVisibility served.toUris served.ccUris = .pub := by
  refine ⟨_, publicNote alone "alice".toList (alone.noteId 11),
    (isPushed_iff (by decide)).mpr ⟨⟨rfl, by decide, by simp [silent]⟩, rfl⟩, ?_, ?_, by decide⟩
  · rw [servedNotes, List.mem_append, List.mem_append]
    exact .inl (.inr (by decide))
  · show classifyApVisibility (alone.followersUri "alice".toList ::
      (bodyTags alone (silent .unlisted) none).2) [asPublic] = .unlisted
    rw [bodyTags_eq, silent, Option.isSome_none, htmlAndTagsForBody_nil]
    decide

end Agreement

end Seiran.Deliver
