import Seiran.Model.Dm.Send

/-!
# Where a direct message goes

* `Linked`: a conversation of a thread is one between two correspondents of it;
* `OnePeer`: a message to an actor of Bluesky goes into no thread in which its
  author has another correspondent;
* `inv_step`: then what is linked, asked for or cached for a message is the
  conversation with its recipient;
* `sent_to_recipients`: so no text goes to anybody else.
-/

namespace Seiran.BskyDm

variable {Convo : Type} {E : Env Convo} {s s' t : State Convo} {root root' a b : Int64} {c : Convo}
  {p q : DirectPost}

section Correspondents

/-- A message that goes over Bluesky to this recipient -/
def DirectPost.overBsky (E : Env Convo) (p : DirectPost) (recipient : Int64) : Bool :=
  E.isType .bsky recipient || p.bskyMessageId.isSome

/-- The other side of a message -/
def DirectPost.correspondents (E : Env Convo) (p : DirectPost) (actorId : Int64) : List Int64 :=
  (if p.actorId = actorId then p.recipientActorIds.filter fun b => p.overBsky E b else []) ++
    if actorId ∈ p.recipientActorIds ∧ p.overBsky E actorId then [p.actorId] else []

def correspondents (E : Env Convo) (posts : List DirectPost) (root actorId : Int64) : List Int64 :=
  (posts.filter fun p => p.threadRootPostId == root).flatMap fun p => p.correspondents E actorId

theorem DirectPost.mem_correspondents : b ∈ p.correspondents E a ↔
    (p.actorId = a ∧ b ∈ p.recipientActorIds ∧ p.overBsky E b = true) ∨
      (p.actorId = b ∧ a ∈ p.recipientActorIds ∧ p.overBsky E a = true) := by
  rw [DirectPost.correspondents, List.mem_append]
  refine or_congr ?_ ?_
  · split <;> simp_all
  · split
    · rename_i h
      simp [h, eq_comm]
    · rename_i h
      simp only [List.not_mem_nil, false_iff]
      exact fun hb => h hb.2

theorem mem_correspondents {posts : List DirectPost} : b ∈ correspondents E posts root a ↔
    ∃ p ∈ posts, p.threadRootPostId = root ∧ b ∈ p.correspondents E a := by
  simp [correspondents, and_assoc]

theorem correspondents_comm {posts : List DirectPost} :
    b ∈ correspondents E posts root a ↔ a ∈ correspondents E posts root b := by
  simp only [mem_correspondents, DirectPost.mem_correspondents]
  exact exists_congr fun p => and_congr_right fun _ => and_congr_right fun _ => or_comm

theorem mem_correspondents_append {posts : List DirectPost} :
    b ∈ correspondents E (posts ++ [p]) root a ↔
      b ∈ correspondents E posts root a ∨ (p.threadRootPostId = root ∧ b ∈ p.correspondents E a) := by
  simp [mem_correspondents, or_and_right, exists_or]

end Correspondents

section Invariant

/-- What is documented of the service: a direct conversation has two members. -/
structure Direct (E : Env Convo) : Prop where
  asked : ∀ did peerDid, E.peer (E.getConvoForMembers did peerDid) did = some peerDid
  members : ∀ c did peerDid did' peerDid', E.peer c did = some peerDid →
    E.peer c did' = some peerDid' → (did' = did ∧ peerDid' = peerDid) ∨
      (did' = peerDid ∧ peerDid' = did)

/-- `UNIQUE (at_did)` -/
def UniqueDids (E : Env Convo) : Prop :=
  ∀ a b did, E.atDid a = some did → E.atDid b = some did → a = b

/-- A conversation between two correspondents in the thread -/
def Linked (E : Env Convo) (posts : List DirectPost) (root : Int64) (c : Convo) : Prop :=
  ∃ a b did peerDid, b ∈ correspondents E posts root a ∧ E.atDid a = some did ∧
    E.atDid b = some peerDid ∧ E.peer c did = some peerDid

/-- What a job has read of the post -/
structure Material.Of (E : Env Convo) (posts : List DirectPost) (m : Material) : Prop where
  post : ∃ p ∈ posts, p.id = m.postId ∧ p.body = m.body ∧ p.threadRootPostId = m.threadRootPostId ∧
    p.bskyMessageId = none ∧ E.isType .localUser p.actorId = true ∧
    E.atDid p.actorId = some m.senderDid ∧
    ∃ b ∈ p.recipientActorIds, E.isType .bsky b = true ∧ E.atDid b = some m.peerDid

def Job.Of (E : Env Convo) (posts : List DirectPost) : Job Convo → Prop
  | .started m => m.Of E posts
  | .missed m => m.Of E posts
  | .answered m c => m.Of E posts ∧ Linked E posts m.threadRootPostId c
  | .resolved m c => m.Of E posts ∧ Linked E posts m.threadRootPostId c

structure Poll.Of (E : Env Convo) (posts : List DirectPost) (poll : Poll Convo) : Prop where
  account : ∃ did, E.atDid poll.actorId = some did ∧ E.peer poll.convoId did = some poll.peerDid
  peer : E.atDid poll.peerActorId = some poll.peerDid
  thread : ∀ root ∈ poll.currentThreadRoot, Linked E posts root poll.convoId

/-- The text of a message goes to one of its recipients, if it goes to anybody. -/
def Sent.ToRecipient (E : Env Convo) (posts : List DirectPost) (x : Sent Convo) : Prop :=
  ∀ did, E.peer x.convoId x.senderDid = some did →
    ∃ p ∈ posts, p.id = x.postId ∧ p.body = x.text ∧ ∃ b ∈ p.recipientActorIds, E.atDid b = some did

structure Inv (E : Env Convo) (s : State Convo) : Prop where
  keys : (s.posts.map DirectPost.id).Nodup
  roots : ∀ p ∈ s.posts, ∃ q ∈ s.posts, q.id = p.threadRootPostId
  /-- The author of a message to an actor of Bluesky has no other correspondent. -/
  own : ∀ p ∈ s.posts, p.bskyMessageId = none → E.isType .localUser p.actorId = true →
    ∀ b ∈ p.recipientActorIds, E.isType .bsky b = true →
      ∀ q ∈ correspondents E s.posts p.threadRootPostId p.actorId, q = b
  imported : ∀ p ∈ s.posts, ∀ messageId, p.bskyMessageId = some messageId → ∃ c senderDid a did,
    E.message messageId = some (c, senderDid) ∧ E.atDid p.actorId = some senderDid ∧
      p.recipientActorIds = [a] ∧ E.atDid a = some did ∧ E.peer c did = some senderDid
  links : ∀ l ∈ s.links, Linked E s.posts l.threadRootPostId l.convoId
  jobs : ∀ job ∈ s.jobs, job.Of E s.posts
  polls : ∀ poll ∈ s.polls, poll.Of E s.posts
  sent : ∀ x ∈ s.sent, x.ToRecipient E s.posts

/-- A message to an actor of Bluesky goes into no thread in which its author has
another correspondent. -/
def OnePeer (E : Env Convo) (s : State Convo) : Action Convo → Prop
  | .createNote actorId postId _ recipientActorIds replyTo =>
    ∀ root ∈ s.threadRoot actorId postId replyTo, ∀ b ∈ recipientActorIds, E.isType .bsky b = true →
      ∀ q ∈ correspondents E s.posts root actorId, q = b
  | _ => True

end Invariant

section Monotone

variable {posts posts' : List DirectPost}

theorem Linked.mono (h : Linked E posts root c) (hsub : posts ⊆ posts') : Linked E posts' root c := by
  obtain ⟨a, b, did, peerDid, hmem, hrest⟩ := h
  obtain ⟨p, hp, hroot, hb⟩ := mem_correspondents.mp hmem
  exact ⟨a, b, did, peerDid, mem_correspondents.mpr ⟨p, hsub hp, hroot, hb⟩, hrest⟩

theorem Material.Of.mono {m : Material} (h : m.Of E posts) (hsub : posts ⊆ posts') :
    m.Of E posts' := by
  obtain ⟨p, hp, hrest⟩ := h.post
  exact ⟨p, hsub hp, hrest⟩

theorem Job.Of.mono {job : Job Convo} (h : job.Of E posts) (hsub : posts ⊆ posts') :
    job.Of E posts' := by
  cases job with
  | started m => exact Material.Of.mono h hsub
  | missed m => exact Material.Of.mono h hsub
  | answered m c => exact ⟨h.1.mono hsub, h.2.mono hsub⟩
  | resolved m c => exact ⟨h.1.mono hsub, h.2.mono hsub⟩

theorem Poll.Of.mono {poll : Poll Convo} (h : poll.Of E posts) (hsub : posts ⊆ posts') :
    poll.Of E posts' :=
  ⟨h.account, h.peer, fun root hroot => (h.thread root hroot).mono hsub⟩

theorem Sent.ToRecipient.mono {x : Sent Convo} (h : x.ToRecipient E posts) (hsub : posts ⊆ posts') :
    x.ToRecipient E posts' := by
  intro did hdid
  obtain ⟨p, hp, hrest⟩ := h did hdid
  exact ⟨p, hsub hp, hrest⟩

end Monotone

section Posts

theorem findById_eq_some {postId : Int64} (h : s.findById postId = some p) :
    p ∈ s.posts ∧ p.id = postId :=
  ⟨List.mem_of_find?_eq_some h, by simpa using List.find?_some h⟩

theorem insertPost_eq_some (h : s.insertPost p = some s') :
    (∀ q ∈ s.posts, q.id ≠ p.id) ∧ s' = { s with posts := s.posts ++ [p] } := by
  rw [State.insertPost] at h
  split at h
  · cases h
  · rename_i hnone
    refine ⟨fun q hq heq => hnone ?_, (Option.some.inj h).symm⟩
    rw [State.findById, List.find?_isSome]
    exact ⟨q, hq, by simpa using heq⟩

/-- The thread of a new post, or the post itself -/
theorem threadRoot_eq_some (hroots : ∀ p ∈ s.posts, ∃ q ∈ s.posts, q.id = p.threadRootPostId)
    {actorId postId : Int64} {replyTo : Option Int64}
    (h : s.threadRoot actorId postId replyTo = some root) :
    root = postId ∨ ∃ q ∈ s.posts, q.id = root := by
  rw [State.threadRoot.eq_def] at h
  split at h
  · exact .inl (Option.some.inj h).symm
  split at h
  · exact .inl (Option.some.inj h).symm
  · rename_i parent hparent
    split at h
    · obtain ⟨q, hq, hid⟩ := hroots parent (findById_eq_some hparent).1
      exact .inr ⟨q, hq, hid.trans (Option.some.inj h)⟩
    · cases h

/-- A new post leaves the rest as it is, if what it adds to the correspondents of
authors of messages to Bluesky is nothing new. -/
theorem Inv.insert (h : Inv E s) (hs : s.insertPost p = some s')
    (hroot : p.threadRootPostId = p.id ∨ ∃ q ∈ s.posts, q.id = p.threadRootPostId)
    (hold : ∀ m ∈ s.posts, m.bskyMessageId = none → E.isType .localUser m.actorId = true →
      ∀ b ∈ m.recipientActorIds, E.isType .bsky b = true →
        p.threadRootPostId = m.threadRootPostId → ∀ q ∈ p.correspondents E m.actorId, q = b)
    (hown : p.bskyMessageId = none → E.isType .localUser p.actorId = true →
      ∀ b ∈ p.recipientActorIds, E.isType .bsky b = true →
        ∀ q ∈ correspondents E (s.posts ++ [p]) p.threadRootPostId p.actorId, q = b)
    (himported : ∀ messageId, p.bskyMessageId = some messageId → ∃ c senderDid a did,
      E.message messageId = some (c, senderDid) ∧ E.atDid p.actorId = some senderDid ∧
        p.recipientActorIds = [a] ∧ E.atDid a = some did ∧ E.peer c did = some senderDid) :
    Inv E s' := by
  obtain ⟨hfresh, rfl⟩ := insertPost_eq_some hs
  have hsub : s.posts ⊆ s.posts ++ [p] := List.subset_append_left _ _
  constructor
  case keys =>
    rw [List.map_append, List.nodup_append]
    refine ⟨h.keys, by simp, fun i hi j hj => ?_⟩
    obtain ⟨q, hq, rfl⟩ := List.mem_map.mp hi
    have hj : j = p.id := by simpa using hj
    rw [hj]
    exact hfresh q hq
  case roots =>
    intro m hm
    rcases List.mem_append.mp hm with hm | hm
    · obtain ⟨q, hq, hid⟩ := h.roots m hm
      exact ⟨q, hsub hq, hid⟩
    · have hm := List.mem_singleton.mp hm
      subst hm
      rcases hroot with hself | ⟨q, hq, hid⟩
      · exact ⟨m, by simp, hself.symm⟩
      · exact ⟨q, hsub hq, hid⟩
  case own =>
    intro m hm hnone hlocal b hb hbsky q hq
    rcases List.mem_append.mp hm with hm | hm
    · rcases mem_correspondents_append.mp hq with hq | ⟨hroot', hq⟩
      · exact h.own m hm hnone hlocal b hb hbsky q hq
      · exact hold m hm hnone hlocal b hb hbsky hroot' q hq
    · have hm := List.mem_singleton.mp hm
      subst hm
      exact hown hnone hlocal b hb hbsky q hq
  case imported =>
    intro m hm
    rcases List.mem_append.mp hm with hm | hm
    · exact h.imported m hm
    · have hm := List.mem_singleton.mp hm
      subst hm
      exact himported
  case links => exact fun l hl => (h.links l hl).mono hsub
  case jobs => exact fun job hjob => (h.jobs job hjob).mono hsub
  case polls => exact fun poll hpoll => (h.polls poll hpoll).mono hsub
  case sent => exact fun x hx => (h.sent x hx).mono hsub

theorem not_bsky_of_isType {actorType : Timeline.ActorType} (hne : actorType ≠ .bsky)
    (h : E.isType actorType a = true) : E.isType .bsky a = false := by
  cases ha : E.actor a with
  | none => simp [Env.isType, ha]
  | some actor =>
    have heq : actor.actorType = actorType := by simpa [Env.isType, ha] using h
    simp [Env.isType, ha, heq, hne]

theorem recipientsValid_bsky {recipients : List Int64} (h : recipientsValid E recipients = true)
    (hb : b ∈ recipients) (hbsky : E.isType .bsky b = true) : recipients = [b] := by
  simp only [recipientsValid, Bool.and_eq_true, Bool.or_eq_true, Bool.not_eq_true', beq_iff_eq] at h
  rcases h.2 with hnone | hone
  · exact absurd hbsky (by simpa using List.any_eq_false.mp hnone b hb)
  · obtain ⟨x, rfl⟩ := List.length_eq_one_iff.mp hone
    rw [List.mem_singleton.mp hb]

/-- A post of an account has the recipients of Bluesky as its correspondents. -/
theorem correspondents_own (hnone : p.bskyMessageId = none) (h : b ∈ p.correspondents E a) :
    (p.actorId = a ∧ b ∈ p.recipientActorIds ∧ E.isType .bsky b = true) ∨
      (p.actorId = b ∧ a ∈ p.recipientActorIds ∧ E.isType .bsky a = true) := by
  simpa [DirectPost.mem_correspondents, DirectPost.overBsky, hnone] using h

variable [DecidableEq Convo]

theorem inv_createNote (h : Inv E s) {actorId postId : Int64} {text : String}
    {recipientActorIds : List Int64} {replyTo : Option Int64}
    (hone : OnePeer E s (.createNote actorId postId text recipientActorIds replyTo))
    (hs : step E s (.createNote actorId postId text recipientActorIds replyTo) = some s') :
    Inv E s' := by
  simp only [step] at hs
  split at hs
  · cases hs
  rename_i hlocal
  have hlocal : E.isType .localUser actorId = true := by simpa using hlocal
  split at hs
  · cases hs
    exact h
  rename_i hvalid
  have hvalid : recipientsValid E recipientActorIds.dedup = true := by simpa using hvalid
  split at hs
  · cases hs
    exact h
  rename_i root hroot
  have hone : ∀ b ∈ recipientActorIds.dedup, E.isType .bsky b = true →
      ∀ q ∈ correspondents E s.posts root actorId, q = b :=
    fun b hb => hone root hroot b (List.mem_dedup.mp hb)
  have hlocal' := not_bsky_of_isType (by decide) hlocal
  refine h.insert hs (threadRoot_eq_some h.roots hroot) ?_ ?_ fun _ hsome => by cases hsome
  · intro m hm hnone hml b hb hbsky hsame q hq
    have hml' := not_bsky_of_isType (by decide) hml
    rcases correspondents_own rfl hq with ⟨hactor, hmem, hq'⟩ | ⟨-, -, hbad⟩
    · -- both messages are by this author: the earlier one is to a correspondent
      have hactor : actorId = m.actorId := hactor
      have hsame : root = m.threadRootPostId := hsame
      refine (hone q hmem hq' b ?_).symm
      rw [hsame, hactor, mem_correspondents]
      refine ⟨m, hm, rfl, DirectPost.mem_correspondents.mpr (.inl ⟨rfl, hb, ?_⟩)⟩
      rw [DirectPost.overBsky, hbsky]
      rfl
    · rw [hml'] at hbad
      cases hbad
  · intro _ _ b hb hbsky q hq
    rcases mem_correspondents_append.mp hq with hq | ⟨-, hq⟩
    · exact hone b hb hbsky q hq
    · have hsingle := recipientsValid_bsky hvalid hb hbsky
      rcases correspondents_own rfl hq with ⟨-, hmem, -⟩ | ⟨-, -, hbad⟩
      · have hmem : q ∈ recipientActorIds.dedup := hmem
        rw [hsingle] at hmem
        exact List.mem_singleton.mp hmem
      · exact absurd hbad (by simpa using hlocal')

theorem inv_saveNote (h : Inv E s) {actorId postId : Int64} {text : String}
    {recipientActorIds : List Int64} {replyTo : Option Int64}
    (hs : step E s (.saveNote actorId postId text recipientActorIds replyTo) = some s') :
    Inv E s' := by
  simp only [step] at hs
  split at hs
  · cases hs
  rename_i hremote
  obtain ⟨hlocal, hbsky⟩ : E.isType .localUser actorId = false ∧ E.isType .bsky actorId = false := by
    simpa using hremote
  split at hs
  · cases hs
    exact h
  rename_i root hroot
  refine h.insert hs (threadRoot_eq_some h.roots hroot) ?_ ?_ fun _ hsome => by cases hsome
  · intro m hm hnone hml b hb hb' hsame q hq
    have hml' := not_bsky_of_isType (by decide) hml
    rcases correspondents_own rfl hq with ⟨hactor, -⟩ | ⟨-, -, hbad⟩
    · have hactor : actorId = m.actorId := hactor
      rw [← hactor, hlocal] at hml
      cases hml
    · rw [hml'] at hbad
      cases hbad
  · intro _ hbad
    exact absurd hbad (by simpa using hlocal)

end Posts

section Jobs

variable {m : Material} {job : Job Convo}

/-- What becomes of the jobs, the links and the requests, with the posts as they are -/
theorem Inv.of_jobs (h : Inv E s) (hposts : s'.posts = s.posts) (hpolls : s'.polls = s.polls)
    (hlinks : ∀ l ∈ s'.links, Linked E s.posts l.threadRootPostId l.convoId)
    (hjobs : ∀ job ∈ s'.jobs, job.Of E s.posts) (hsent : ∀ x ∈ s'.sent, x.ToRecipient E s.posts) :
    Inv E s' := by
  rw [← hposts] at hlinks hjobs hsent
  constructor
  case keys => exact hposts ▸ h.keys
  case roots => exact hposts ▸ h.roots
  case own => exact hposts ▸ h.own
  case imported => exact hposts ▸ h.imported
  case links => exact hlinks
  case jobs => exact hjobs
  case polls => exact hposts ▸ hpolls ▸ h.polls
  case sent => exact hsent

theorem Inv.setJob (h : Inv E s) {i : Nat} (hjob : job.Of E s.posts) : Inv E (s.setJob i job) := by
  refine h.of_jobs rfl rfl h.links (fun job' hjob' => ?_) h.sent
  rcases List.mem_or_eq_of_mem_set hjob' with hmem | rfl
  · exact h.jobs job' hmem
  · exact hjob

theorem Inv.eraseJob (h : Inv E s) (i : Nat) : Inv E { s with jobs := s.jobs.eraseIdx i } :=
  h.of_jobs rfl rfl h.links (fun job hjob => h.jobs job (List.mem_of_mem_eraseIdx hjob)) h.sent

theorem Inv.jobAt (h : Inv E s) {i : Nat} (hi : s.jobs[i]? = some job) : job.Of E s.posts :=
  h.jobs job (List.mem_of_getElem? hi)

theorem material_eq_some {postId : Int64} (h : material E s postId = some m)
    (hown : ((s.findById postId).any fun p =>
      E.isType .localUser p.actorId && p.bskyMessageId.isNone) = true) : m.Of E s.posts := by
  simp only [material, Option.bind_eq_bind, Option.bind_eq_some_iff] at h
  obtain ⟨p, hp, sender, hsender, senderDid, hdid, -, -, peerDid, hpeer, hm⟩ := h
  have hm : (⟨p.id, p.body, p.threadRootPostId, senderDid, peerDid⟩ : Material) = m :=
    Option.some.inj hm
  subst hm
  obtain ⟨b, hb, hpeer⟩ := List.exists_of_findSome?_eq_some hpeer
  have hown : E.isType .localUser p.actorId = true ∧ p.bskyMessageId = none := by
    simpa [hp] using hown
  refine ⟨p, (findById_eq_some hp).1, rfl, rfl, rfl, hown.2, hown.1, ?_, b, hb, ?_⟩
  · show (E.actor p.actorId).bind Actor.atDid = some senderDid
    rw [hsender]
    exact hdid
  · split at hpeer
    · exact ⟨by assumption, hpeer⟩
    · cases hpeer

/-- The other member of a conversation of the thread is the recipient. -/
theorem toRecipient_of_linked (hd : Direct E) (hu : UniqueDids E) (h : Inv E s) (hm : m.Of E s.posts)
    (hlinked : Linked E s.posts m.threadRootPostId c) :
    Sent.ToRecipient E s.posts ⟨m.postId, m.senderDid, c, m.body⟩ := by
  intro did hdid
  obtain ⟨p, hp, hid, hbody, hroot, hnone, hlocal, hsender, b, hb, hbsky, hpeer⟩ := hm.post
  obtain ⟨x, y, didx, didy, hmem, hx, hy, hxy⟩ := hlinked
  rw [← hroot] at hmem
  refine ⟨p, hp, hid, hbody, b, hb, ?_⟩
  rcases hd.members c didx didy m.senderDid did hxy hdid with ⟨hsame, rfl⟩ | ⟨hsame, rfl⟩
  · have hxp : x = p.actorId := hu x p.actorId didx hx (hsame ▸ hsender)
    rw [← h.own p hp hnone hlocal b hb hbsky y (hxp ▸ hmem)]
    exact hy
  · have hyp : y = p.actorId := hu y p.actorId didy hy (hsame ▸ hsender)
    rw [← h.own p hp hnone hlocal b hb hbsky x (hyp ▸ correspondents_comm.mp hmem)]
    exact hx

/-- A new conversation is one with the recipient. -/
theorem linked_asked (hd : Direct E) (hm : m.Of E s.posts) :
    Linked E s.posts m.threadRootPostId (E.getConvoForMembers m.senderDid m.peerDid) := by
  obtain ⟨p, hp, -, -, hroot, -, -, hsender, b, hb, hbsky, hpeer⟩ := hm.post
  refine ⟨p.actorId, b, m.senderDid, m.peerDid, ?_, hsender, hpeer, hd.asked _ _⟩
  refine mem_correspondents.mpr ⟨p, hp, hroot, DirectPost.mem_correspondents.mpr (.inl ⟨rfl, hb, ?_⟩)⟩
  rw [DirectPost.overBsky, hbsky]
  rfl

theorem inv_runJob (hd : Direct E) (hu : UniqueDids E) (h : Inv E s) {i : Nat}
    (hi : s.jobs[i]? = some job) : Inv E (s.runJob E i job) := by
  have hjob := h.jobAt hi
  cases job with
  | started m =>
    have hm : m.Of E s.posts := hjob
    rw [State.runJob]
    split
    · rename_i cached hcached
      obtain ⟨l, hl, hroot, rfl⟩ := mem_of_convoIdForThread hcached
      exact h.setJob ⟨hm, hroot ▸ h.links l hl⟩
    · exact h.setJob hm
  | missed m =>
    have hm : m.Of E s.posts := hjob
    exact h.setJob ⟨hm, linked_asked hd hm⟩
  | answered m convoId =>
    obtain ⟨hm, hlinked⟩ : m.Of E s.posts ∧ Linked E s.posts m.threadRootPostId convoId := hjob
    have h' : Inv E (s.setJob i (.resolved m convoId)) := h.setJob ⟨hm, hlinked⟩
    refine h'.of_jobs rfl rfl (fun l hl => ?_) h'.jobs h'.sent
    rcases mem_saveConvoId hl with ⟨l', hl', hroot, hc⟩ | ⟨hroot, hc⟩
    · rw [← hroot, ← hc]
      exact h.links l' hl'
    · rw [hroot, hc]
      exact hlinked
  | resolved m convoId =>
    obtain ⟨hm, hlinked⟩ : m.Of E s.posts ∧ Linked E s.posts m.threadRootPostId convoId := hjob
    refine h.of_jobs rfl rfl h.links (h.eraseJob i).jobs fun x hx => ?_
    rcases List.mem_append.mp hx with hx | hx
    · exact h.sent x hx
    · rw [List.mem_singleton.mp hx]
      exact toRecipient_of_linked hd hu h hm hlinked

theorem inv_startJob (h : Inv E s) {postId : Int64} [DecidableEq Convo]
    (hs : step E s (.startJob postId) = some s') : Inv E s' := by
  simp only [step] at hs
  split at hs
  · rename_i hown
    split at hs
    · cases hs
      exact h
    · rename_i m hm
      cases hs
      refine h.of_jobs rfl rfl h.links (fun job hjob => ?_) h.sent
      rcases List.mem_append.mp hjob with hjob | hjob
      · exact h.jobs job hjob
      · rw [List.mem_singleton.mp hjob]
        exact material_eq_some hm hown
  · cases hs

end Jobs

section Polls

variable {poll : Poll Convo}

theorem Inv.of_polls (h : Inv E s) (hposts : s'.posts = s.posts) (hjobs : s'.jobs = s.jobs)
    (hsent : s'.sent = s.sent)
    (hlinks : ∀ l ∈ s'.links, Linked E s.posts l.threadRootPostId l.convoId)
    (hpolls : ∀ poll ∈ s'.polls, poll.Of E s.posts) : Inv E s' := by
  rw [← hposts] at hlinks hpolls
  constructor
  case keys => exact hposts ▸ h.keys
  case roots => exact hposts ▸ h.roots
  case own => exact hposts ▸ h.own
  case imported => exact hposts ▸ h.imported
  case links => exact hlinks
  case jobs => exact hposts ▸ hjobs ▸ h.jobs
  case polls => exact hpolls
  case sent => exact hposts ▸ hsent ▸ h.sent

theorem Inv.pollAt (h : Inv E s) {i : Nat} (hi : s.polls[i]? = some poll) : poll.Of E s.posts :=
  h.polls poll (List.mem_of_getElem? hi)

theorem Inv.setPoll (h : Inv E s) {i : Nat} (hpoll : poll.Of E s.posts) :
    Inv E { s with polls := s.polls.set i poll } := by
  refine h.of_polls rfl rfl rfl h.links fun poll' hpoll' => ?_
  rcases List.mem_or_eq_of_mem_set hpoll' with hmem | rfl
  · exact h.polls poll' hmem
  · exact hpoll

theorem Inv.advance (h : Inv E s) (hlinked : Linked E s.posts root c) (messageId : String) :
    Inv E { s with links := advanceConvoCursor s.links root c messageId } := by
  refine h.of_polls rfl rfl rfl (fun l hl => ?_) h.polls
  rcases mem_advanceConvoCursor hl with ⟨l', hl', hroot, hc⟩ | ⟨hroot, hc⟩
  · rw [← hroot, ← hc]
    exact h.links l' hl'
  · rw [hroot, hc]
    exact hlinked

theorem Inv.addPoll (h : Inv E s) (hpoll : poll.Of E s.posts) :
    Inv E { s with polls := s.polls ++ [poll] } := by
  refine h.of_polls rfl rfl rfl h.links fun poll' hpoll' => ?_
  rcases List.mem_append.mp hpoll' with hpoll' | hpoll'
  · exact h.polls poll' hpoll'
  · rw [List.mem_singleton.mp hpoll']
    exact hpoll

theorem Inv.erasePoll (h : Inv E s) (i : Nat) : Inv E { s with polls := s.polls.eraseIdx i } :=
  h.of_polls rfl rfl rfl h.links fun poll hpoll => h.polls poll (List.mem_of_mem_eraseIdx hpoll)

theorem loadConvoLink_eq_some [DecidableEq Convo] {links : List (ConvoLink Convo)}
    {link : Option (ConvoLink Convo)} (h : loadConvoLink links c link = some (some root)) :
    ∃ l ∈ links, l.threadRootPostId = root ∧ l.convoId = c := by
  cases link with
  | none =>
    simp only [loadConvoLink] at h
    split at h <;> cases h
  | some l =>
    simp only [loadConvoLink] at h
    split at h
    · rename_i hmem
      obtain ⟨hl, hc⟩ := List.mem_filter.mp hmem
      exact ⟨l, hl, by simpa using h, by simpa using hc⟩
    · cases h

theorem startPoll_eq_some [DecidableEq Convo] (h : Inv E s) {actorId peerActorId : Int64}
    {convoId : Convo} {link : Option (ConvoLink Convo)}
    (hs : startPoll E s actorId convoId peerActorId link = some poll) : poll.Of E s.posts := by
  simp only [startPoll, Option.bind_eq_bind, Option.bind_eq_some_iff, Option.guard_eq_some'] at hs
  obtain ⟨account, hactor, did, hdid, -, -, peerDid, hpeer, -, hpeerActor, thread, hthread, hs⟩ := hs
  rw [← Option.some.inj hs]
  have hdid' : E.atDid actorId = some did := by
    rw [Env.atDid, hactor]
    exact hdid
  refine ⟨⟨did, hdid', hpeer⟩, hpeerActor, fun root hroot => ?_⟩
  have hroot : thread = some root := hroot
  rw [hroot] at hthread
  obtain ⟨l, hl, hlr, hlc⟩ := loadConvoLink_eq_some hthread
  rw [← hlr, ← hlc]
  exact h.links l hl

theorem inv_persistCursor (h : Inv E s) (hpoll : poll.Of E s.posts) (messageId : String) :
    Inv E (s.persistCursor messageId poll) := by
  rw [State.persistCursor]
  split
  · exact h
  · rename_i root hroot
    exact h.advance (hpoll.thread root hroot) messageId

/-- A message of the peer is one of two members. -/
theorem linked_peer (hpoll : poll.Of E s.posts)
    (hmem : poll.peerActorId ∈ correspondents E s.posts root poll.actorId) :
    Linked E s.posts root poll.convoId := by
  obtain ⟨did, hdid, hpeer⟩ := hpoll.account
  exact ⟨poll.actorId, poll.peerActorId, did, poll.peerDid, hmem, hdid, hpoll.peer, hpeer⟩

/-- The two are correspondents in the thread of the poll. -/
theorem mem_of_linked (hd : Direct E) (hu : UniqueDids E) (hpoll : poll.Of E s.posts)
    (hlinked : Linked E s.posts root poll.convoId) :
    poll.peerActorId ∈ correspondents E s.posts root poll.actorId := by
  obtain ⟨did, hdid, hpeer⟩ := hpoll.account
  obtain ⟨x, y, didx, didy, hmem, hx, hy, hxy⟩ := hlinked
  rcases hd.members poll.convoId didx didy did poll.peerDid hxy hpeer with ⟨hsame, heq⟩ | ⟨hsame, heq⟩
  · rw [hu poll.actorId x didx (hsame ▸ hdid) hx, hu poll.peerActorId y didy (heq ▸ hpoll.peer) hy]
    exact hmem
  · rw [hu poll.actorId y didy (hsame ▸ hdid) hy, hu poll.peerActorId x didx (heq ▸ hpoll.peer) hx]
    exact correspondents_comm.mp hmem

/-- The message that is there is between the same two. -/
theorem imported_between (hd : Direct E) (hu : UniqueDids E) (h : Inv E s) (hpoll : poll.Of E s.posts)
    {messageId : String} (hmessage : E.message messageId = some (poll.convoId, poll.peerDid))
    (hp : p ∈ s.posts) (hid : p.bskyMessageId = some messageId) :
    p.actorId = poll.peerActorId ∧ p.recipientActorIds = [poll.actorId] := by
  obtain ⟨c, senderDid, x, didx, hmessage', hsender, hrecipients, hx, hpeerx⟩ :=
    h.imported p hp messageId hid
  rw [hmessage, Option.some.injEq, Prod.mk.injEq] at hmessage'
  obtain ⟨hc, hdid⟩ := hmessage'
  rw [← hdid] at hsender hpeerx
  rw [← hc] at hpeerx
  obtain ⟨did, hdid', hpeer⟩ := hpoll.account
  have hsame : didx = did := by
    rcases hd.members _ _ _ _ _ hpeer hpeerx with ⟨heq, -⟩ | ⟨heq, heq'⟩
    · exact heq
    · exact heq.trans heq'
  refine ⟨hu p.actorId poll.peerActorId _ hsender hpoll.peer, ?_⟩
  rw [hrecipients, hu x poll.actorId did (hsame ▸ hx) hdid']

theorem inv_importBskyDm (hd : Direct E) (hu : UniqueDids E) (h : Inv E s)
    (hpoll : poll.Of E s.posts) {postId : Int64} {messageId text : String}
    (hmessage : E.message messageId = some (poll.convoId, poll.peerDid))
    (hs : s.importBskyDm poll postId messageId text = some (s', root)) :
    Inv E s' ∧ s.posts ⊆ s'.posts ∧ Linked E s'.posts root poll.convoId := by
  have hover : ∀ {p : DirectPost}, p.actorId = poll.peerActorId →
      p.recipientActorIds = [poll.actorId] → p.bskyMessageId = some messageId →
        poll.peerActorId ∈ p.correspondents E poll.actorId := by
    intro p hactor hrecipients hid
    refine DirectPost.mem_correspondents.mpr (.inr ⟨hactor, by simp [hrecipients], ?_⟩)
    simp [DirectPost.overBsky, hid]
  rw [State.importBskyDm] at hs
  split at hs
  · -- it is there already
    rename_i p hp
    have hmem := List.mem_of_find?_eq_some hp
    have hid : p.bskyMessageId = some messageId := by simpa using List.find?_some hp
    obtain ⟨hactor, hrecipients⟩ := imported_between hd hu h hpoll hmessage hmem hid
    simp only [Option.some.injEq, Prod.mk.injEq] at hs
    obtain ⟨hs', rfl⟩ := hs
    -- the account is a recipient already
    have hposts : s'.posts = s.posts := by
      rw [← hs']
      refine (List.map_congr_left fun q hq => if_neg fun hne => hne.2 ?_).trans s.posts.map_id
      rw [List.inj_on_of_nodup_map h.keys hq hmem hne.1, hrecipients]
      exact List.mem_singleton_self _
    have hlinked : Linked E s.posts p.threadRootPostId poll.convoId :=
      linked_peer hpoll (mem_correspondents.mpr ⟨p, hmem, rfl, hover hactor hrecipients hid⟩)
    have h' := h.advance hlinked messageId
    refine ⟨?_, hposts ▸ List.Subset.refl _, hposts ▸ hlinked⟩
    have heq : s' = { s with
        links := advanceConvoCursor s.links p.threadRootPostId poll.convoId messageId } := by
      rw [← hposts, ← hs']
    rw [heq]
    exact h'
  · -- it is new
    rename_i hnew
    simp only [Option.map_eq_some_iff, Prod.mk.injEq] at hs
    obtain ⟨s₁, hs₁, hs', rfl⟩ := hs
    obtain ⟨hfresh, heq⟩ := insertPost_eq_some hs₁
    have hsub : s.posts ⊆ s₁.posts := by
      rw [heq]
      exact List.subset_append_left _ _
    -- what is new between the two is there already, or the thread is new
    have hthread : (∃ q ∈ s.posts, q.id = poll.currentThreadRoot.getD postId) ∧
        poll.peerActorId ∈ correspondents E s.posts (poll.currentThreadRoot.getD postId) poll.actorId ∨
        poll.currentThreadRoot.getD postId = postId := by
      cases hroot : poll.currentThreadRoot with
      | none => exact .inr rfl
      | some r =>
        have hmem := mem_of_linked hd hu hpoll (hpoll.thread r hroot)
        obtain ⟨p, hp, hpr, -⟩ := mem_correspondents.mp hmem
        obtain ⟨q, hq, hid⟩ := h.roots p hp
        exact .inl ⟨⟨q, hq, hid.trans hpr⟩, hmem⟩
    obtain ⟨did, hdid, hpeer⟩ := hpoll.account
    have h₁ : Inv E s₁ := by
      refine h.insert hs₁ ?_ ?_ (fun hnone => by cases hnone) fun messageId' hid => ?_
      · rcases hthread with ⟨hq, -⟩ | hself
        · exact .inr hq
        · exact .inl hself
      · intro m hm hnone hlocal b hb hbsky hsame q hq
        rcases hthread with ⟨-, hmem⟩ | hself
        · refine h.own m hm hnone hlocal b hb hbsky q ?_
          rw [← hsame]
          rcases DirectPost.mem_correspondents.mp hq with ⟨hactor, hr, -⟩ | ⟨hactor, hr, -⟩
          · rw [List.mem_singleton.mp hr, ← hactor]
            exact correspondents_comm.mp hmem
          · rw [List.mem_singleton.mp hr, ← hactor]
            exact hmem
        · obtain ⟨q', hq', hid⟩ := h.roots m hm
          exact absurd (hid.trans (hsame.symm.trans hself)) (hfresh q' hq')
      · cases hid
        exact ⟨poll.convoId, poll.peerDid, poll.actorId, did, hmessage, hpoll.peer, rfl, hdid, hpeer⟩
    have hmem : poll.peerActorId ∈
        correspondents E s₁.posts (poll.currentThreadRoot.getD postId) poll.actorId := by
      rw [heq]
      exact mem_correspondents_append.mpr (.inr ⟨rfl, hover rfl rfl rfl⟩)
    have hlinked := linked_peer (s := s₁) ⟨⟨did, hdid, hpeer⟩, hpoll.peer,
      fun r hr => (hpoll.thread r hr).mono hsub⟩ hmem
    rw [← hs']
    exact ⟨h₁.advance hlinked messageId, hsub, hlinked⟩

end Polls

section Runs

variable [DecidableEq Convo] {act : Action Convo} {as : List (Action Convo)}

theorem inv_step (hd : Direct E) (hu : UniqueDids E) (h : Inv E s) (hone : OnePeer E s act)
    (hs : step E s act = some s') : Inv E s' := by
  cases act with
  | createNote actorId postId text recipientActorIds replyTo => exact inv_createNote h hone hs
  | saveNote actorId postId text recipientActorIds replyTo => exact inv_saveNote h hs
  | startJob postId => exact inv_startJob h hs
  | runJob i =>
    obtain ⟨job, hi, rfl⟩ := Option.map_eq_some_iff.mp hs
    exact inv_runJob hd hu h hi
  | failJob i =>
    cases hs
    exact h.eraseJob i
  | startPoll actorId convoId peerActorId link =>
    obtain ⟨poll, hpoll, rfl⟩ := Option.map_eq_some_iff.mp hs
    exact h.addPoll (startPoll_eq_some h hpoll)
  | persistCursor i messageId =>
    obtain ⟨poll, hi, rfl⟩ := Option.map_eq_some_iff.mp hs
    exact inv_persistCursor h (h.pollAt hi) messageId
  | importMessage i postId messageId text =>
    obtain ⟨poll, hi, hs⟩ := Option.bind_eq_some_iff.mp hs
    split at hs
    · rename_i hmessage
      obtain ⟨⟨s₁, root⟩, hs₁, rfl⟩ := Option.map_eq_some_iff.mp hs
      have hpoll := h.pollAt hi
      obtain ⟨h₁, hsub, hlinked⟩ := inv_importBskyDm hd hu h hpoll hmessage hs₁
      exact h₁.setPoll ⟨hpoll.account, hpoll.peer, fun r hr => Option.some.inj hr ▸ hlinked⟩
    · cases hs
  | endPoll i =>
    cases hs
    exact h.erasePoll i

omit [DecidableEq Convo] in
theorem inv_start : Inv E start := by
  constructor <;> simp [start]

/-- In threads where an author has one correspondent on Bluesky, a text goes to a
recipient of its message. -/
theorem sent_to_recipients (hd : Direct E) (hu : UniqueDids E)
    (hr : (machine E).run start as = some t) (hone : (machine E).Along (OnePeer E) start as) :
    ∀ x ∈ t.sent, x.ToRecipient E t.posts :=
  ((machine E).run_inv_along (inv_step hd hu) inv_start hone hr).sent

/-- An account, two actors of Bluesky and a service that calls a conversation by its members -/
def three : Env (String × String) where
  actor a :=
    if a = 1 then some ⟨.localUser, some "did:plc:me", true⟩
    else if a = 2 then some ⟨.bsky, some "did:plc:you", false⟩
    else if a = 3 then some ⟨.bsky, some "did:plc:them", false⟩
    else none
  getConvoForMembers did peerDid := (did, peerDid)
  peer c did := if did = c.1 then some c.2 else if did = c.2 then some c.1 else none
  message messageId :=
    if messageId = "3l" then some (("did:plc:me", "did:plc:you"), "did:plc:you") else none

theorem direct_three : Direct three := by
  refine ⟨fun did peerDid => if_pos rfl, fun c did peerDid did' peerDid' h h' => ?_⟩
  have hpeer : ∀ did peerDid, three.peer c did = some peerDid →
      (did = c.1 ∧ peerDid = c.2) ∨ (did = c.2 ∧ peerDid = c.1) := by
    intro did peerDid h
    simp only [three] at h
    split at h
    · rename_i hfirst
      exact .inl ⟨hfirst, (Option.some.inj h).symm⟩
    split at h
    · rename_i hsecond
      exact .inr ⟨hsecond, (Option.some.inj h).symm⟩
    · cases h
  rcases hpeer did peerDid h with ⟨rfl, rfl⟩ | ⟨rfl, rfl⟩
  · exact hpeer did' peerDid' h'
  · exact (hpeer did' peerDid' h').symm

theorem uniqueDids_three : UniqueDids three := by
  have howner : ∀ a did, three.atDid a = some did →
      a = if did = "did:plc:me" then 1 else if did = "did:plc:you" then 2 else 3 := by
    intro a did ha
    simp only [Env.atDid, three] at ha
    split at ha
    · rename_i h
      cases ha
      exact h
    split at ha
    · rename_i h
      cases ha
      exact h
    split at ha
    · rename_i h
      cases ha
      exact h
    · cases ha
  intro a b did ha hb
  rw [howner a did ha, howner b did hb]

instance (E : Env Convo) (s : State Convo) (act : Action Convo) : Decidable (OnePeer E s act) :=
  match act with
  -- through the options and lists, not through all identifiers
  | .createNote .. =>
    @Option.decidableForallMem _ _
      (fun _ => @List.decidableBAll _ _
        (fun _ => @instDecidableForall _ _ _ (List.decidableBAll _ _)) _) _
  | .saveNote .. | .startJob .. | .runJob .. | .failJob .. | .startPoll .. | .persistCursor ..
  | .importMessage .. | .endPoll .. => .isTrue trivial

/-- A message with a reply from Bluesky and an answer to it -/
def answered : List (Action (String × String)) :=
  [.createNote 1 10 "hello" [2] none, .startJob 10, .runJob 0, .runJob 0, .runJob 0, .runJob 0,
    .startPoll 1 ("did:plc:me", "did:plc:you") 2 (some ⟨10, ("did:plc:me", "did:plc:you"), none⟩),
    .importMessage 0 11 "3l" "hi", .endPoll 0,
    .createNote 1 12 "bye" [2] (some 11), .startJob 12, .runJob 0, .runJob 0]

theorem sent_to_recipients_answered : ∃ t, (machine three).run start answered = some t ∧
    t.sent.map Sent.text = ["hello", "bye"] ∧ ∀ x ∈ t.sent, x.ToRecipient three t.posts := by
  have hr : (machine three).run start answered = some _ := rfl
  exact ⟨_, hr, by decide, sent_to_recipients direct_three uniqueDids_three hr (by decide)⟩

/-- A reply in the thread that is for another actor goes to the first one. -/
theorem sent_to_recipients_counterexample : ∃ t, (machine three).run start
    [.createNote 1 10 "hello" [2] none, .startJob 10, .runJob 0, .runJob 0, .runJob 0, .runJob 0,
      .createNote 1 11 "about you" [3] (some 10), .startJob 11, .runJob 0, .runJob 0] = some t ∧
    t.sent = [⟨10, "did:plc:me", ("did:plc:me", "did:plc:you"), "hello"⟩,
      ⟨11, "did:plc:me", ("did:plc:me", "did:plc:you"), "about you"⟩] ∧
    ¬ ∀ x ∈ t.sent, x.ToRecipient three t.posts := by
  refine ⟨⟨[⟨10, 1, "hello", [2], 10, none⟩, ⟨11, 1, "about you", [3], 10, none⟩], _, _, _, _⟩,
    rfl, rfl, fun h => ?_⟩
  obtain ⟨p, hp, hid, -, b, hb, hdid⟩ :=
    h _ (List.mem_cons_of_mem _ (List.mem_singleton_self _)) "did:plc:you" rfl
  simp only [List.mem_cons, List.not_mem_nil, or_false] at hp
  rcases hp with rfl | rfl
  · exact absurd hid (by decide)
  · rw [List.mem_singleton.mp hb] at hdid
    exact absurd hdid (by decide)

end Runs

end Seiran.BskyDm
