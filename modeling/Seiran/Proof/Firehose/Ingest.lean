import Seiran.Model.Firehose.Ingest

/-!
# Jetstream events one after another

* `footprint`: the posts, and the lists of an account, that a handler may still use;
* `Gone`: a record whose last event has deleted it;
* `sequential`: where handlers that have not ended keep apart, the rows are in the end those
  of the events one after another, and no record is there that was deleted last.
-/

namespace Seiran.Ingest

variable {E : Env} {db db' : Db} {uri subject u : AtUri} {did : String}

section Keys

/-- What is written as a whole -/
inductive Key where
  | post (uri : AtUri)
  | apPost (apObjectId : String)
  | reposts (did : String)
  | reactions (did : String)
deriving DecidableEq

inductive Value where
  | post (row : Option Post)
  | apPost (row : Option ApPost)
  | reposts (rows : List Repost)
  | reactions (rows : List Reaction)

def Db.get (db : Db) : Key → Value
  | .post uri => .post (db.posts uri)
  | .apPost apObjectId => .apPost (db.apPosts apObjectId)
  | .reposts did => .reposts (db.reposts did)
  | .reactions did => .reactions (db.reactions did)

theorem Db.ext_get (h : ∀ k, db.get k = db'.get k) : db = db' := by
  obtain ⟨posts, apPosts, reposts, reactions⟩ := db
  obtain ⟨posts', apPosts', reposts', reactions'⟩ := db'
  have h1 : posts = posts' := funext fun uri => Value.post.inj (h (.post uri))
  have h2 : apPosts = apPosts' := funext fun i => Value.apPost.inj (h (.apPost i))
  have h3 : reposts = reposts' := funext fun did => Value.reposts.inj (h (.reposts did))
  have h4 : reactions = reactions' := funext fun did => Value.reactions.inj (h (.reactions did))
  rw [h1, h2, h3, h4]

theorem get_setPost {row : Option Post} {k : Key} :
    (db.setPost uri row).get k = if k = .post uri then .post row else db.get k := by
  cases k with
  | post u =>
    show Value.post (Function.update db.posts uri row u) = _
    by_cases hu : u = uri <;> simp [hu, Db.get]
  | _ => simp [Db.get, Db.setPost]

theorem get_setApPost {i : String} {row : Option ApPost} {k : Key} :
    (db.setApPost i row).get k = if k = .apPost i then .apPost row else db.get k := by
  cases k with
  | apPost j =>
    show Value.apPost (Function.update db.apPosts i row j) = _
    by_cases hj : j = i <;> simp [hj, Db.get]
  | _ => simp [Db.get, Db.setApPost]

theorem get_setReposts {rows : List Repost} {k : Key} :
    (db.setReposts did rows).get k = if k = .reposts did then .reposts rows else db.get k := by
  cases k with
  | reposts d =>
    show Value.reposts (Function.update db.reposts did rows d) = _
    by_cases hd : d = did <;> simp [hd, Db.get]
  | _ => simp [Db.get, Db.setReposts]

theorem get_setReactions {rows : List Reaction} {k : Key} :
    (db.setReactions did rows).get k = if k = .reactions did then .reactions rows else db.get k := by
  cases k with
  | reactions d =>
    show Value.reactions (Function.update db.reactions did rows d) = _
    by_cases hd : d = did <;> simp [hd, Db.get]
  | _ => simp [Db.get, Db.setReactions]

end Keys

section Statements

variable {row : Post} {k : Key}

theorem posts_of_get (h : db.get (.post u) = db'.get (.post u)) : db.posts u = db'.posts u :=
  Value.post.inj h

theorem reposts_of_get (h : db.get (.reposts did) = db'.get (.reposts did)) :
    db.reposts did = db'.reposts did := Value.reposts.inj h

theorem reactions_of_get (h : db.get (.reactions did) = db'.get (.reactions did)) :
    db.reactions did = db'.reactions did := Value.reactions.inj h

theorem findPost_congr (h : db.get (.post u) = db'.get (.post u)) : db.findPost u = db'.findPost u :=
  congrArg (·.any fun p => !p.deleted) (posts_of_get h)

theorem get_insertPost : (db.insertPost uri row).get k =
    if k = .post uri then .post (some ((db.posts uri).getD row)) else db.get k := by
  rw [Db.insertPost]
  cases hrow : db.posts uri with
  | none => exact get_setPost
  | some p =>
    show db.get k = _
    split
    · rename_i hk
      rw [hk, Db.get, hrow]
      rfl
    · rfl

theorem get_addExtra {e : Extra} : (db.addExtra uri e).get k = if k = .post uri then
    .post ((db.posts uri).map fun p => { p with extras := p.extras ++ [e] }) else db.get k := get_setPost

theorem get_deletePost : (db.deletePost uri).get k = if k = .post uri then
    .post ((db.posts uri).map fun p => { p with deleted := true }) else db.get k := get_setPost

/-- The reposts of an account with a new one -/
def withRepost (rows : List Repost) (uri subject : AtUri) : List Repost :=
  if rows.any (·.rkey = uri.rkey) then rows else rows ++ [{ rkey := uri.rkey, repostOf := subject }]

theorem get_insertRepost : (db.insertRepost uri subject).get k = if k = .reposts uri.did then
    .reposts (withRepost (db.reposts uri.did) uri subject) else db.get k := by
  rw [Db.insertRepost, withRepost]
  split
  · split
    · rename_i hk
      rw [hk]
      rfl
    · rfl
  · exact get_setReposts

theorem get_deleteRepost : (db.deleteRepost uri).get k = if k = .reposts uri.did then
    .reposts ((db.reposts uri.did).map fun r =>
      if r.rkey = uri.rkey then { r with deleted := true } else r) else db.get k := get_setReposts

/-- The reactions of an account with a new one -/
def withReaction (rows : List Reaction) (uri subject : AtUri) (content : String) : List Reaction :=
  if rows.any fun r => r.atRkey = some uri.rkey && r.post ≠ subject then rows
  else if rows.any (·.post = subject) then
    rows.map fun r => if r.post = subject then ⟨subject, content, none, some uri.rkey⟩ else r
  else rows ++ [⟨subject, content, none, some uri.rkey⟩]

theorem get_upsertReaction {content : String} : (db.upsertReaction uri subject content).get k =
    if k = .reactions uri.did then
      .reactions (withReaction (db.reactions uri.did) uri subject content) else db.get k := by
  rw [Db.upsertReaction, withReaction]
  split
  · split
    · rename_i hk
      rw [hk]
      rfl
    · rfl
  · split <;> exact get_setReactions

theorem get_deleteReaction : (db.deleteReaction uri).get k = if k = .reactions uri.did then
    .reactions ((db.reactions uri.did).filter fun r => r.atRkey ≠ some uri.rkey) else db.get k :=
  get_setReactions

theorem counterpart_claimed {i : String} {ap : ApPost} (h : db.counterpart uri row = some (i, ap)) :
    row.claimedApObjectId = some i := by
  obtain ⟨j, hj, h⟩ := Option.bind_eq_some_iff.mp h
  obtain ⟨ap', -, h⟩ := Option.bind_eq_some_iff.mp h
  simp only [Option.ite_none_right_eq_some, Option.some.injEq, Prod.mk.injEq] at h
  rw [hj, h.2.1]

theorem counterpart_congr (h : ∀ i ∈ row.claimedApObjectId, db.apPosts i = db'.apPosts i) :
    db.counterpart uri row = db'.counterpart uri row := by
  rw [Db.counterpart, Db.counterpart]
  cases hrow : row.claimedApObjectId with
  | none => rfl
  | some i =>
    show (db.apPosts i).bind _ = (db'.apPosts i).bind _
    rw [h i hrow]

/-- What inserting or merging a post reads -/
structure SameFor (uri : AtUri) (row : Post) (db db' : Db) : Prop where
  post : db.get (.post uri) = db'.get (.post uri)
  claimed : ∀ i ∈ row.claimedApObjectId, db.get (.apPost i) = db'.get (.apPost i)

theorem get_insertOrMerge_of_ne (hpost : k ≠ .post uri) (hclaimed : ∀ i ∈ row.claimedApObjectId, k ≠ .apPost i) :
    (insertOrMergeBskyPost db uri row).2.get k = db.get k := by
  have hinsert : (db.insertPost uri row).get k = db.get k := by rw [get_insertPost, if_neg hpost]
  rw [insertOrMergeBskyPost]
  split
  · exact hinsert
  · rename_i i ap hcounterpart
    have hne := hclaimed i (counterpart_claimed hcounterpart)
    split
    · split
      · rfl
      · rw [get_setApPost, if_neg hne, get_setPost, if_neg hpost]
    · split
      · exact hinsert
      · rfl

theorem insertOrMerge_congr (h : SameFor uri row db db') :
    (insertOrMergeBskyPost db uri row).1 = (insertOrMergeBskyPost db' uri row).1 ∧
      ∀ k, db.get k = db'.get k →
        (insertOrMergeBskyPost db uri row).2.get k = (insertOrMergeBskyPost db' uri row).2.get k := by
  have hpost := posts_of_get h.post
  have hinsert : ∀ k, db.get k = db'.get k →
      (db.insertPost uri row).get k = (db'.insertPost uri row).get k := by
    intro k hk
    rw [get_insertPost, get_insertPost, hpost, hk]
  rw [insertOrMergeBskyPost, insertOrMergeBskyPost, hpost,
    counterpart_congr fun i hi => Value.apPost.inj (h.claimed i hi)]
  split
  · exact ⟨rfl, hinsert⟩
  · split
    · split
      · exact ⟨rfl, fun k hk => hk⟩
      · refine ⟨rfl, fun k hk => ?_⟩
        rw [get_setApPost, get_setApPost, get_setPost, get_setPost, hk]
    · split
      · exact ⟨rfl, hinsert⟩
      · exact ⟨rfl, fun k hk => hk⟩

end Statements

section Footprint

/-- The AP post that the record claims to be -/
def PostRecord.claims (record : PostRecord) : List Key :=
  record.counterpartPostId.toList.map .apPost

/-- What a handler may still write -/
def Task.writes : Task → List Key
  | .resolveReply uri record | .resolveQuote uri record _ | .insertPost uri record _ _ =>
    .post uri :: record.claims
  | .storeExtras uri _ | .deletePost uri => [.post uri]
  | .resolveReposter uri subject | .findSubject uri subject | .fetchSubject uri subject
  | .upsertSubject uri subject _ => [.post subject, .reposts uri.did]
  | .findRepost uri _ | .insertRepost uri _ | .deleteRepost uri => [.reposts uri.did]
  | .findLiked uri _ _ | .resolveLiker uri _ _ | .upsertReaction uri _ _ | .deleteLike uri =>
    [.reactions uri.did]

/-- What it may still read and not write -/
def Task.reads : Task → List Key
  | .resolveReply _ record => (record.replyParentUri.toList ++ record.quoteUri.toList).map .post
  | .resolveQuote _ record _ => record.quoteUri.toList.map .post
  | .findLiked _ subject _ => [.post subject]
  | _ => []

def Task.uses (task : Task) : List Key := task.writes ++ task.reads

/-- What `process_message` reads before it spawns the handler -/
def Event.reads : Event → List Key
  | .createPost uri _ => [.post uri]
  | _ => []

theorem mem_claims {record : PostRecord} {i : String} (h : i ∈ record.counterpartPostId) :
    .apPost i ∈ record.claims :=
  List.mem_map_of_mem (Option.mem_toList.mpr h)

theorem next_frame {task : Task} {k : Key} (hk : k ∉ task.writes) :
    (next E task db).2.get k = db.get k := by
  cases task with
  | insertPost uri record replyTo quoteOf =>
    refine get_insertOrMerge_of_ne (fun heq => hk (heq ▸ List.mem_cons_self)) fun i hi heq => ?_
    exact hk (heq ▸ List.mem_cons_of_mem _ (mem_claims hi))
  | storeExtras uri left =>
    cases left with
    | nil => rfl
    | cons e left => exact get_addExtra.trans (if_neg (List.ne_of_not_mem_cons hk))
  | deletePost uri => exact get_deletePost.trans (if_neg (List.ne_of_not_mem_cons hk))
  | upsertSubject uri subject text =>
    exact get_insertPost.trans (if_neg (List.ne_of_not_mem_cons hk))
  | insertRepost uri subject =>
    exact get_insertRepost.trans (if_neg (List.ne_of_not_mem_cons hk))
  | deleteRepost uri => exact get_deleteRepost.trans (if_neg (List.ne_of_not_mem_cons hk))
  | upsertReaction uri subject content =>
    exact get_upsertReaction.trans (if_neg (List.ne_of_not_mem_cons hk))
  | deleteLike uri => exact get_deleteReaction.trans (if_neg (List.ne_of_not_mem_cons hk))
  | _ => rfl

theorem next_congr {task : Task} (h : ∀ k ∈ task.uses, db.get k = db'.get k) :
    (next E task db).1 = (next E task db').1 ∧
      ∀ k ∈ task.writes, (next E task db).2.get k = (next E task db').2.get k := by
  have hwrites : ∀ k ∈ task.writes, db.get k = db'.get k :=
    fun k hk => h k (List.mem_append_left _ hk)
  have hreads : ∀ k ∈ task.reads, db.get k = db'.get k :=
    fun k hk => h k (List.mem_append_right _ hk)
  cases task with
  | resolveReply uri record =>
    refine ⟨?_, hwrites⟩
    have hfind : record.replyParentUri.filter db.findPost = record.replyParentUri.filter db'.findPost := by
      cases hparent : record.replyParentUri with
      | none => rfl
      | some parent =>
        have hget : db.get (.post parent) = db'.get (.post parent) :=
          hreads _ (by simp [Task.reads, hparent])
        rw [Option.filter_some, Option.filter_some, findPost_congr hget]
    simp only [next, hfind]
  | resolveQuote uri record replyTo =>
    refine ⟨?_, hwrites⟩
    have hfind : record.quoteUri.filter db.findPost = record.quoteUri.filter db'.findPost := by
      cases hquote : record.quoteUri with
      | none => rfl
      | some quoted =>
        have hget : db.get (.post quoted) = db'.get (.post quoted) :=
          hreads _ (by simp [Task.reads, hquote])
        rw [Option.filter_some, Option.filter_some, findPost_congr hget]
    simp only [next, hfind]
  | insertPost uri record replyTo quoteOf =>
    have hsame : SameFor uri
        { text := record.text, replyTo, quoteOf, claimedApObjectId := record.counterpartPostId } db db' :=
      ⟨hwrites _ List.mem_cons_self, fun i hi => hwrites _ (List.mem_cons_of_mem _ (mem_claims hi))⟩
    obtain ⟨hinserted, hget⟩ := insertOrMerge_congr hsame
    refine ⟨?_, fun k hk => hget k (hwrites k hk)⟩
    simp only [next, hinserted]
  | storeExtras uri left =>
    have hpost := posts_of_get (hwrites (.post uri) List.mem_cons_self)
    cases left with
    | nil => exact ⟨rfl, hwrites⟩
    | cons e left =>
      refine ⟨rfl, fun k hk => ?_⟩
      show (db.addExtra uri e).get k = (db'.addExtra uri e).get k
      rw [get_addExtra, get_addExtra, hpost, hwrites k hk]
  | deletePost uri =>
    have hpost := posts_of_get (hwrites (.post uri) List.mem_cons_self)
    refine ⟨rfl, fun k hk => ?_⟩
    show (db.deletePost uri).get k = (db'.deletePost uri).get k
    rw [get_deletePost, get_deletePost, hpost, hwrites k hk]
  | findSubject uri subject =>
    have hpost := posts_of_get (hwrites (.post subject) List.mem_cons_self)
    refine ⟨?_, hwrites⟩
    simp only [next, hpost]
  | upsertSubject uri subject text =>
    have hpost := posts_of_get (hwrites (.post subject) List.mem_cons_self)
    refine ⟨rfl, fun k hk => ?_⟩
    show (db.insertPost subject _).get k = (db'.insertPost subject _).get k
    rw [get_insertPost, get_insertPost, hpost, hwrites k hk]
  | findRepost uri subject =>
    have hreposts := reposts_of_get (hwrites (.reposts uri.did) List.mem_cons_self)
    have hfind : db.findRepost uri.did subject = db'.findRepost uri.did subject := by
      rw [Db.findRepost, Db.findRepost, hreposts]
    refine ⟨?_, hwrites⟩
    simp only [next, hfind]
  | insertRepost uri subject =>
    have hreposts := reposts_of_get (hwrites (.reposts uri.did) List.mem_cons_self)
    refine ⟨rfl, fun k hk => ?_⟩
    show (db.insertRepost uri subject).get k = (db'.insertRepost uri subject).get k
    rw [get_insertRepost, get_insertRepost, hreposts, hwrites k hk]
  | deleteRepost uri =>
    have hreposts := reposts_of_get (hwrites (.reposts uri.did) List.mem_cons_self)
    refine ⟨rfl, fun k hk => ?_⟩
    show (db.deleteRepost uri).get k = (db'.deleteRepost uri).get k
    rw [get_deleteRepost, get_deleteRepost, hreposts, hwrites k hk]
  | findLiked uri subject content =>
    refine ⟨?_, hwrites⟩
    simp only [next, findPost_congr (hreads (.post subject) List.mem_cons_self)]
  | upsertReaction uri subject content =>
    have hreactions := reactions_of_get (hwrites (.reactions uri.did) List.mem_cons_self)
    refine ⟨rfl, fun k hk => ?_⟩
    show (db.upsertReaction uri subject content).get k = (db'.upsertReaction uri subject content).get k
    rw [get_upsertReaction, get_upsertReaction, hreactions, hwrites k hk]
  | deleteLike uri =>
    have hreactions := reactions_of_get (hwrites (.reactions uri.did) List.mem_cons_self)
    refine ⟨rfl, fun k hk => ?_⟩
    show (db.deleteReaction uri).get k = (db'.deleteReaction uri).get k
    rw [get_deleteReaction, get_deleteReaction, hreactions, hwrites k hk]
  | resolveReposter | fetchSubject | resolveLiker => exact ⟨rfl, hwrites⟩

/-- A handler goes on with less. -/
theorem next_subset {task task' : Task} (h : (next E task db).1 = some task') :
    task'.writes ⊆ task.writes ∧ task'.uses ⊆ task.uses := by
  cases task with
  | storeExtras uri left =>
    cases left with
    | nil => cases h
    | cons e left =>
      cases h
      exact ⟨fun _ hk => hk, fun _ hk => hk⟩
  | fetchSubject uri subject =>
    obtain ⟨text, -, h⟩ := Option.bind_eq_some_iff.mp h
    simp only [Option.ite_none_right_eq_some, Option.some.injEq] at h
    rw [← h.2]
    exact ⟨fun _ hk => hk, fun _ hk => hk⟩
  | findSubject uri subject =>
    simp only [next, Option.some.injEq] at h
    split at h <;> subst h <;> simp [Task.writes, Task.uses, Task.reads]
  | insertPost | resolveReposter | findRepost | findLiked | resolveLiker =>
    simp only [next] at h
    split at h <;> cases h
    simp [Task.writes, Task.uses, Task.reads]
  | resolveReply uri record =>
    cases h
    refine ⟨fun _ hk => hk, fun k hk => ?_⟩
    rcases List.mem_append.mp hk with hk | hk
    · exact List.mem_append_left _ hk
    · refine List.mem_append_right _ ?_
      rw [Task.reads, List.map_append]
      exact List.mem_append_right _ hk
  | resolveQuote | upsertSubject =>
    cases h
    simp [Task.writes, Task.uses, Task.reads]
  | deletePost | insertRepost | deleteRepost | upsertReaction | deleteLike => cases h

theorem start_congr {e : Event} (h : ∀ k ∈ e.reads, db.get k = db'.get k) :
    start E e db = start E e db' := by
  cases e with
  | createPost uri record =>
    rw [start, start, posts_of_get (h (.post uri) List.mem_cons_self)]
  | _ => rfl

def footprint (E : Env) : (handlers E).Footprint Key Value where
  get := Db.get
  ext := Db.ext_get
  uses := Task.uses
  writes := Task.writes
  reads := Event.reads
  writes_uses := List.mem_append_left _
  frame := next_frame
  congr := next_congr
  next_uses h _ hk := (next_subset h).2 hk
  next_writes h _ hk := (next_subset h).1 hk
  start_congr := start_congr

end Footprint

section Gone

inductive Record where
  | post (uri : AtUri)
  | repost (uri : AtUri)
  | like (uri : AtUri)
deriving DecidableEq

/-- Where its row is -/
def Record.key : Record → Key
  | .post uri => .post uri
  | .repost uri => .reposts uri.did
  | .like uri => .reactions uri.did

/-- Its row is there, and not deleted. -/
def Record.InValue : Record → Value → Prop
  | .post _, .post row => ∃ p ∈ row, p.deleted = false
  | .repost uri, .reposts rows => ∃ r ∈ rows, r.rkey = uri.rkey ∧ r.deleted = false
  | .like uri, .reactions rows => ∃ r ∈ rows, r.atRkey = some uri.rkey
  | _, _ => False

def Present (db : Db) (rec : Record) : Prop := rec.InValue (db.get rec.key)

def Event.deletes : Event → Option Record
  | .deletePost uri => some (.post uri)
  | .deleteRepost uri => some (.repost uri)
  | .deleteLike uri => some (.like uri)
  | _ => none

/-- The records that an event may make; the post that a repost is of may be fetched. -/
def Event.makes : Event → List Record
  | .createPost uri _ => [.post uri]
  | .createRepost uri subject => [.post subject, .repost uri]
  | .createLike uri _ _ => [.like uri]
  | _ => []

/-- The records whose rows a handler may still make or fill -/
def Task.makes : Task → List Record
  | .resolveReply uri _ | .resolveQuote uri _ _ | .insertPost uri _ _ _ | .storeExtras uri _ =>
    [.post uri]
  | .resolveReposter uri subject | .findSubject uri subject | .fetchSubject uri subject
  | .upsertSubject uri subject _ => [.post subject, .repost uri]
  | .findRepost uri _ | .insertRepost uri _ => [.repost uri]
  | .findLiked uri _ _ | .resolveLiker uri _ _ | .upsertReaction uri _ _ => [.like uri]
  | .deletePost _ | .deleteRepost _ | .deleteLike _ => []

variable {rec : Record}

theorem absent_of_get {k : Key} {v : Value} (h : ¬ Present db rec)
    (hget : db'.get rec.key = if rec.key = k then v else db.get rec.key)
    (hv : rec.key = k → ¬ rec.InValue v) : ¬ Present db' rec := by
  rw [Present, hget]
  split
  · rename_i hk
    exact hv hk
  · exact h

theorem eq_post_of_key (h : rec.key = .post uri) : rec = .post uri := by
  cases rec with
  | post u => exact congrArg Record.post (Key.post.inj h)
  | repost u | like u => cases h

theorem eq_repost_of_key (h : rec.key = .reposts did) : ∃ u, rec = .repost u ∧ u.did = did := by
  cases rec with
  | repost u => exact ⟨u, rfl, Key.reposts.inj h⟩
  | post u | like u => cases h

theorem eq_like_of_key (h : rec.key = .reactions did) : ∃ u, rec = .like u ∧ u.did = did := by
  cases rec with
  | like u => exact ⟨u, rfl, Key.reactions.inj h⟩
  | post u | repost u => cases h

theorem rkey_ne (hdid : u.did = uri.did) (hne : u ≠ uri) : uri.rkey ≠ u.rkey := by
  intro hrkey
  refine hne ?_
  cases u
  cases uri
  simp_all

theorem absent_deletePost : ¬ Present (db.deletePost uri) (.post uri) := by
  rw [Present, Record.key, get_deletePost, if_pos rfl]
  rintro ⟨p, hp, hdeleted⟩
  obtain ⟨q, -, rfl⟩ := Option.map_eq_some_iff.mp hp
  cases hdeleted

/-- A repost that is there after the deletion of one was there before, under another rkey. -/
theorem mem_of_deleted {rows : List Repost} {r : Repost} {rkey : String}
    (hr : r ∈ rows.map fun r => if r.rkey = rkey then { r with deleted := true } else r)
    (hdeleted : r.deleted = false) : r ∈ rows ∧ r.rkey ≠ rkey := by
  obtain ⟨q, hq, rfl⟩ := List.mem_map.mp hr
  split at hdeleted
  · cases hdeleted
  · rename_i hne
    rw [if_neg hne]
    exact ⟨hq, hne⟩

theorem absent_deleteRepost : ¬ Present (db.deleteRepost uri) (.repost uri) := by
  rw [Present, Record.key, get_deleteRepost, if_pos rfl]
  rintro ⟨r, hr, hrkey, hdeleted⟩
  exact (mem_of_deleted hr hdeleted).2 hrkey

theorem absent_deleteReaction : ¬ Present (db.deleteReaction uri) (.like uri) := by
  rw [Present, Record.key, get_deleteReaction, if_pos rfl]
  rintro ⟨r, hr, hrkey⟩
  exact of_decide_eq_true (List.mem_filter.mp hr).2 hrkey

theorem absent_insertRepost (h : ¬ Present db rec) (hne : rec ≠ .repost uri) :
    ¬ Present (db.insertRepost uri subject) rec := by
  refine absent_of_get h get_insertRepost fun hk => ?_
  obtain ⟨u, rfl, hdid⟩ := eq_repost_of_key hk
  rintro ⟨r, hr, hrkey, hdeleted⟩
  rw [withRepost] at hr
  split at hr
  · exact h ⟨r, hdid ▸ hr, hrkey, hdeleted⟩
  · rcases List.mem_append.mp hr with hr | hr
    · exact h ⟨r, hdid ▸ hr, hrkey, hdeleted⟩
    · rw [List.mem_singleton.mp hr] at hrkey
      exact rkey_ne hdid (fun heq => hne (congrArg Record.repost heq)) hrkey

theorem absent_upsertReaction {content : String} (h : ¬ Present db rec) (hne : rec ≠ .like uri) :
    ¬ Present (db.upsertReaction uri subject content) rec := by
  refine absent_of_get h get_upsertReaction fun hk => ?_
  obtain ⟨u, rfl, hdid⟩ := eq_like_of_key hk
  have hother := rkey_ne hdid fun heq => hne (congrArg Record.like heq)
  rintro ⟨r, hr, hrkey⟩
  rw [withReaction] at hr
  split at hr
  · exact h ⟨r, hdid ▸ hr, hrkey⟩
  · split at hr
    · obtain ⟨q, hq, rfl⟩ := List.mem_map.mp hr
      split at hrkey
      · exact hother (Option.some.inj hrkey)
      · exact h ⟨q, hdid ▸ hq, hrkey⟩
    · rcases List.mem_append.mp hr with hr | hr
      · exact h ⟨r, hdid ▸ hr, hrkey⟩
      · rw [List.mem_singleton.mp hr] at hrkey
        exact hother (Option.some.inj hrkey)

/-- A handler that is not about the record leaves it away. -/
theorem next_absent {task : Task} (hmakes : rec ∉ task.makes) (h : ¬ Present db rec) :
    ¬ Present (next E task db).2 rec := by
  cases task with
  | insertPost uri record replyTo quoteOf =>
    have hne : rec.key ≠ .post uri :=
      fun hk => hmakes (List.mem_singleton.mpr (eq_post_of_key hk))
    have hget : (next E (.insertPost uri record replyTo quoteOf) db).2.get rec.key = db.get rec.key :=
      get_insertOrMerge_of_ne hne fun i _ => by cases rec <;> exact nofun
    rw [Present, hget]
    exact h
  | storeExtras uri left =>
    cases left with
    | nil => exact h
    | cons e left =>
      exact absent_of_get h get_addExtra fun hk => absurd (List.mem_singleton.mpr (eq_post_of_key hk)) hmakes
  | upsertSubject uri subject text =>
    refine absent_of_get h get_insertPost fun hk => absurd ?_ hmakes
    rw [eq_post_of_key hk]
    exact List.mem_cons_self
  | deletePost uri =>
    refine absent_of_get h get_deletePost fun hk => ?_
    obtain rfl := eq_post_of_key hk
    rintro ⟨p, hp, hdeleted⟩
    obtain ⟨q, -, rfl⟩ := Option.map_eq_some_iff.mp hp
    cases hdeleted
  | insertRepost uri subject => exact absent_insertRepost h (List.ne_of_not_mem_cons hmakes)
  | deleteRepost uri =>
    refine absent_of_get h get_deleteRepost fun hk => ?_
    obtain ⟨u, rfl, hdid⟩ := eq_repost_of_key hk
    rintro ⟨r, hr, hrkey, hdeleted⟩
    exact h ⟨r, hdid ▸ (mem_of_deleted hr hdeleted).1, hrkey, hdeleted⟩
  | upsertReaction uri subject content => exact absent_upsertReaction h (List.ne_of_not_mem_cons hmakes)
  | deleteLike uri =>
    refine absent_of_get h get_deleteReaction fun hk => ?_
    obtain ⟨u, rfl, hdid⟩ := eq_like_of_key hk
    rintro ⟨r, hr, hrkey⟩
    exact h ⟨r, hdid ▸ (List.mem_filter.mp hr).1, hrkey⟩
  | _ => exact h

theorem next_makes {task task' : Task} (h : (next E task db).1 = some task') :
    task'.makes ⊆ task.makes := by
  cases task with
  | storeExtras uri left =>
    cases left with
    | nil => cases h
    | cons e left =>
      cases h
      exact fun _ hk => hk
  | fetchSubject uri subject =>
    obtain ⟨text, -, h⟩ := Option.bind_eq_some_iff.mp h
    simp only [Option.ite_none_right_eq_some, Option.some.injEq] at h
    rw [← h.2]
    exact fun _ hk => hk
  | findSubject uri subject =>
    simp only [next, Option.some.injEq] at h
    split at h <;> subst h <;> simp [Task.makes]
  | insertPost | resolveReposter | findRepost | findLiked | resolveLiker =>
    simp only [next] at h
    split at h <;> cases h
    simp [Task.makes]
  | resolveReply | resolveQuote | upsertSubject =>
    cases h
    simp [Task.makes]
  | deletePost | insertRepost | deleteRepost | upsertReaction | deleteLike => cases h

theorem start_makes {e : Event} {task : Task} (h : start E e db = some task) :
    task.makes ⊆ e.makes := by
  cases e with
  | createPost uri record =>
    simp only [start] at h
    split at h <;> cases h
    exact fun _ hk => hk
  | _ =>
    cases h
    simp [Task.makes, Event.makes]

theorem handle_absent {e : Event} (hmakes : rec ∉ e.makes) (h : ¬ Present db rec) :
    ¬ Present ((handlers E).handle db e) rec := by
  show ¬ Present ((handlers E).finish? (start E e db) db) rec
  cases ho : start E e db with
  | none => exact h
  | some task =>
    refine (handlers E).finish_inv (P := fun task => rec ∉ task.makes) (I := fun db => ¬ Present db rec)
      (fun hm hdb => ⟨next_absent hm hdb, fun task' ho' hm' => hm (next_makes ho' hm')⟩) ?_ h
    exact fun hm => hmakes (start_makes ho hm)

/-- The handler of a deletion deletes the record. -/
theorem handle_deletes {e : Event} (hdeletes : e.deletes = some rec) :
    ¬ Present ((handlers E).handle db e) rec := by
  cases e with
  | deletePost uri =>
    cases hdeletes
    exact absent_deletePost
  | deleteRepost uri =>
    cases hdeletes
    exact absent_deleteRepost
  | deleteLike uri =>
    cases hdeletes
    exact absent_deleteReaction
  | createPost | createRepost | createLike => cases hdeletes

/-- One after another, the record that was deleted last is away. -/
theorem inOrder_absent {before after : List Event} {e : Event} (hdeletes : e.deletes = some rec)
    (hafter : ∀ e' ∈ after, rec ∉ e'.makes) :
    ¬ Present ((handlers E).inOrder (before ++ e :: after) db) rec := by
  have hrest : ∀ (es : List Event) (db : Db), (∀ e' ∈ es, rec ∉ e'.makes) → ¬ Present db rec →
      ¬ Present ((handlers E).inOrder es db) rec := by
    intro es
    induction es with
    | nil => exact fun db _ h => h
    | cons e' es ih =>
      intro db hes h
      obtain ⟨he, hes⟩ := List.forall_mem_cons.mp hes
      exact ih _ hes (handle_absent he h)
  rw [Handlers.inOrder, List.foldl_append]
  exact hrest after _ hafter (handle_deletes hdeletes)

end Gone

section Runs

variable {acts : List (Handlers.Action Event)} {t : Running Db Task}

/-- The rows are those of the events one after another, and a record that was deleted after it
was last made is not there. -/
structure Sequential (E : Env) (events : List Event) (db db' : Db) : Prop where
  rows : db' = (handlers E).inOrder events db
  gone : ∀ before after e rec, events = before ++ e :: after → e.deletes = some rec →
    (∀ e' ∈ after, rec ∉ e'.makes) → ¬ Present db' rec

/-- The condition on a step: what it may use, or write of that, is not written, or used, by the
handlers of earlier events. -/
def KeepsApart (E : Env) : Running Db Task → Handlers.Action Event → Prop := (footprint E).Clear

theorem one_after_another (hr : (handlers E).machine.run ⟨db, []⟩ acts = some t)
    (hapart : (handlers E).machine.Along (KeepsApart E) ⟨db, []⟩ acts) (hended : t.tasks = []) :
    Sequential E (Handlers.Footprint.events acts) db t.state := by
  have hrows := (footprint E).inOrder_of_run hr hapart hended
  refine ⟨hrows, fun before after e rec hevents hdeletes hafter => ?_⟩
  rw [hrows, hevents]
  exact inOrder_absent hdeletes hafter

instance (E : Env) (S : Running Db Task) (act : Handlers.Action Event) :
    Decidable (KeepsApart E S act) := inferInstanceAs (Decidable ((footprint E).Clear S act))

/-- Everybody is wanted and found, and the AppView has nothing. -/
def everybody : Env := ⟨fun _ => true, fun _ => true, fun _ => false, fun _ => none, fun _ => (none, false)⟩

def old : AtUri := ⟨"did:plc:a", "3k0"⟩

def new : AtUri := ⟨"did:plc:a", "3k1"⟩

/-- One post is there. -/
def onePost : Db where
  posts uri := if uri = old then some { text := "old" } else none
  apPosts _ := none
  reposts _ := []
  reactions _ := []

/-- A post is saved while the old one is liked, and is deleted after that. -/
def mixed : List (Handlers.Action Event) :=
  [.take (.createPost new { text := "new", replyParentUri := some old }),
    .take (.createLike ⟨"did:plc:b", "3k2"⟩ old none), .run 1, .run 0, .run 1, .run 0, .run 0, .run 1,
    .run 0, .run 0, .run 0, .take (.deletePost new), .run 0]

theorem one_after_another_mixed : ∃ t, (handlers everybody).machine.run ⟨onePost, []⟩ mixed = some t ∧
    (t.state.posts new).isSome = true ∧ (t.state.reactions "did:plc:b").length = 1 ∧
    Sequential everybody (Handlers.Footprint.events mixed) onePost t.state := by
  have hr : (handlers everybody).machine.run ⟨onePost, []⟩ mixed = some _ := rfl
  exact ⟨_, hr, by decide, by decide, one_after_another hr (by decide) rfl⟩

/-- The post is deleted before its handler has inserted it, and is there for good. -/
theorem one_after_another_counterexample : ∃ t, (handlers everybody).machine.run ⟨onePost, []⟩
    [.take (.createPost new { text := "new" }), .take (.deletePost new), .run 1, .run 0, .run 0, .run 0,
      .run 0, .run 0, .run 0] = some t ∧
    t.tasks = [] ∧ Present t.state (.post new) ∧
    ¬ Sequential everybody [.createPost new { text := "new" }, .deletePost new] onePost t.state := by
  refine ⟨_, rfl, rfl, ⟨_, rfl, rfl⟩, fun h => ?_⟩
  exact h.gone [.createPost new { text := "new" }] [] (.deletePost new) (.post new) rfl rfl nofun
    ⟨_, rfl, rfl⟩

end Runs

end Seiran.Ingest
