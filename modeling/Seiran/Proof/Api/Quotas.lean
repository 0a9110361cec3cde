import Mathlib.Algebra.Order.Ring.Int
import Mathlib.Data.List.Count
import Seiran.Framework.Window
import Seiran.Model.Api.Quotas

/-!
# The quotas hold where the requests are orderly

Each kind of quota has its tables and its tasks: `Part` is what holds of them, and `Same`
says that a step leaves them.

* `Part.frame`: what a step that leaves a kind keeps;
* `posts_next`, `follows_next`, `searches_next`, `contacts_next`, `accounts_next`: the
  steps of the requests of a kind;
* `bounded_of_orderly`: the bounds, for every window of every run that is `Orderly`;
* `unordered_counterexample`: two posts at the same time.
-/

namespace Seiran.Quotas

open Window (Each)

variable {c : Config}

inductive Kind where
  | posts
  | follows
  | searches
  | contacts
  | accounts
deriving DecidableEq

def Task.kind : Task → Kind
  | .readPostClock .. | .countPosts .. | .writePost .. => .posts
  | .countFollows .. | .beginFollow .. | .writeFollow .. => .follows
  | .beginSearch .. | .recordSearch .. => .searches
  | .beginContacts .. | .recordContacts .. => .contacts
  | .beginReservation .. | .reserve .. => .accounts

def State.own (s : State) (k : Kind) : List Task := s.tasks.filter fun t => t.kind = k

/-! ## What holds of each kind -/

/-- There is room for an entry of the actor at the time, however the entries are counted. -/
def Room {α : Type} (actor time : α → Int) (q : Quota) (l : List α) (a createdAt : Int) : Prop :=
  ∀ max, q.max a = some max → ∃ since, since ≤ createdAt - q.window ∧
    ((l.filter fun r => actor r = a ∧ since ≤ time r).length : Int) < max

/-- An entry found room among those before it. -/
def LetIn {α : Type} (actor time : α → Int) (q : Quota) (pre : List α) (r : α) : Prop :=
  ∀ max, q.max (actor r) = some max → ∃ since, since ≤ time r - q.window ∧
    ((pre ++ [r]).filter fun b => actor b = actor r ∧ since ≤ time b).length ≤ max.toNat

structure PostsOk (c : Config) (s : State) : Prop where
  letIn : Each (LetIn Entry.actor Entry.createdAt c.posts) s.posts
  room : ∀ {actor createdAt}, .writePost actor createdAt ∈ s.own .posts →
    Room Entry.actor Entry.createdAt c.posts s.posts actor createdAt
  one : ∀ {actor}, (c.posts.max actor).isSome → (s.own .posts).countP (Task.Posts actor) ≤ 1

/-- When the row of the follow is created, at the earliest -/
def Task.createdAt (now : Int) : Task → Int
  | .writeFollow _ _ createdAt => createdAt
  | _ => now

/-- The follows that can be counted are still in the table. -/
def FollowsKept (c : Config) (s : State) : Prop :=
  (s.followed.filter fun r =>
    (c.follows.max r.actor).isSome ∧ s.now - c.follows.window ≤ r.createdAt).Sublist s.follows

structure FollowsOk (c : Config) (s : State) : Prop where
  letIn : Each (LetIn Pair.actor Pair.createdAt c.follows) s.followed
  kept : FollowsKept c s
  since : ∀ {actor target since}, .countFollows actor target since ∈ s.own .follows →
    since ≤ s.now - c.follows.window
  room : ∀ {task actor}, task ∈ s.own .follows → task.Follows actor →
    Room Pair.actor Pair.createdAt c.follows s.followed actor (task.createdAt s.now)
  one : ∀ {actor}, (c.follows.max actor).isSome → (s.own .follows).countP (Task.Follows actor) ≤ 1

structure SearchesOk (c : Config) (s : State) : Prop where
  letIn : Each (LetIn Entry.actor Entry.createdAt c.searches) s.searchLog
  since : ∀ {actor since}, .beginSearch actor since ∈ s.own .searches →
    since ≤ s.now - c.searches.window
  begun : ∀ {actor since createdAt}, .recordSearch actor since createdAt ∈ s.own .searches →
    since ≤ createdAt - c.searches.window

/-- The targets that the actor of an entry has, with that of the entry, are not too many. -/
def ContactLetIn (c : Config) (pre : List Pair) (r : Pair) : Prop :=
  ∀ max, c.contacts.max r.actor = some max → ∃ since, since ≤ r.createdAt - c.contacts.window ∧
    (((pre ++ [r]).filter fun b => b.actor = r.actor ∧ since ≤ b.createdAt).map
      Pair.target).dedup.length ≤ max.toNat

structure ContactsOk (c : Config) (s : State) : Prop where
  letIn : Each (ContactLetIn c) s.contacted
  logged : s.contacted = s.userContactLog
  since : ∀ {actor targets since}, .beginContacts actor targets since ∈ s.own .contacts →
    since ≤ s.now - c.contacts.window
  begun : ∀ {actor targets since createdAt},
    .recordContacts actor targets since createdAt ∈ s.own .contacts →
      since ≤ createdAt - c.contacts.window

def AccountLetIn (c : Config) (phase : Nat → Phase) (pre : List Registration)
    (r : Registration) : Prop :=
  ∃ since, since ≤ r.createdAt - c.accountWindow ∧ ((pre ++ [r]).filter fun b =>
    b.ip = r.ip ∧ since ≤ b.createdAt ∧ (phase b.id).logged).length ≤ c.maxAccounts.toNat

structure AccountsOk (c : Config) (s : State) : Prop where
  letIn : Each (AccountLetIn c s.phase) s.registrations
  ids : ∀ r ∈ s.registrations, r.id < s.registrations.length
  ahead : ∀ {id}, s.registrations.length ≤ id → s.phase id = .reserved
  kept : ∀ id, s.phase id ≠ .cancelled true
  since : ∀ {ip since}, .beginReservation ip since ∈ s.own .accounts →
    since ≤ s.now - c.accountWindow
  begun : ∀ {ip since createdAt}, .reserve ip since createdAt ∈ s.own .accounts →
    since ≤ createdAt - c.accountWindow

def Part (c : Config) (s : State) : Kind → Prop
  | .posts => PostsOk c s
  | .follows => FollowsOk c s
  | .searches => SearchesOk c s
  | .contacts => ContactsOk c s
  | .accounts => AccountsOk c s

def Sound (c : Config) (s : State) : Prop := ∀ k, Part c s k

/-! ## What a step leaves -/

def Tables (s s' : State) : Kind → Prop
  | .posts => s'.posts = s.posts
  | .follows => s'.follows = s.follows ∧ s'.followed = s.followed
  | .searches => s'.searchLog = s.searchLog
  | .contacts => s'.userContactLog = s.userContactLog ∧ s'.contacted = s.contacted
  | .accounts => s'.registrations = s.registrations ∧ s'.phase = s.phase

structure Same (k : Kind) (s s' : State) : Prop where
  tables : Tables s s' k
  own : (s'.own k).Sublist (s.own k)
  now : s.now ≤ s'.now

theorem Room.later {α : Type} {actor time : α → Int} {q : Quota} {l : List α} {a x y : Int}
    (h : Room actor time q l a x) (hle : x ≤ y) : Room actor time q l a y := by
  intro max hmax
  obtain ⟨since, hsince, hlt⟩ := h max hmax
  exact ⟨since, by omega, hlt⟩

theorem Part.frame {k : Kind} {s s' : State} (h : Part c s k) (hs : Same k s s') : Part c s' k := by
  have hown := hs.own
  have hnow := hs.now
  cases k with
  | posts =>
    have ht : s'.posts = s.posts := hs.tables
    refine ⟨by rw [ht]; exact h.letIn, fun hx => ?_, fun hsome => ?_⟩
    · rw [ht]
      exact h.room (hown.subset hx)
    · exact le_trans (hown.countP_le) (h.one hsome)
  | follows =>
    obtain ⟨ht, ht'⟩ : s'.follows = s.follows ∧ s'.followed = s.followed := hs.tables
    refine ⟨by rw [ht']; exact h.letIn, ?_, fun hx => ?_, fun hx hf => ?_, fun hsome => ?_⟩
    · unfold FollowsKept
      rw [ht, ht']
      refine List.Sublist.trans (List.monotone_filter_right _ fun r hr => ?_) h.kept
      simp only [decide_eq_true_eq] at hr ⊢
      exact ⟨hr.1, by omega⟩
    · have hle := h.since (hown.subset hx)
      omega
    · rw [ht']
      refine (h.room (hown.subset hx) hf).later ?_
      unfold Task.createdAt
      split
      · exact le_rfl
      · exact hnow
    · exact le_trans (hown.countP_le) (h.one hsome)
  | searches =>
    have ht : s'.searchLog = s.searchLog := hs.tables
    refine ⟨by rw [ht]; exact h.letIn, fun hx => ?_, fun hx => h.begun (hown.subset hx)⟩
    have hle := h.since (hown.subset hx)
    omega
  | contacts =>
    obtain ⟨ht, ht'⟩ : s'.userContactLog = s.userContactLog ∧ s'.contacted = s.contacted := hs.tables
    refine ⟨by rw [ht']; exact h.letIn, by rw [ht, ht']; exact h.logged, fun hx => ?_,
      fun hx => h.begun (hown.subset hx)⟩
    have hle := h.since (hown.subset hx)
    omega
  | accounts =>
    obtain ⟨ht, ht'⟩ : s'.registrations = s.registrations ∧ s'.phase = s.phase := hs.tables
    refine ⟨by rw [ht, ht']; exact h.letIn, by rw [ht]; exact h.ids, by rw [ht, ht']; exact h.ahead,
      by rw [ht']; exact h.kept, fun hx => ?_, fun hx => h.begun (hown.subset hx)⟩
    have hle := h.since (hown.subset hx)
    omega

namespace Same

variable {k : Kind} {s s' s'' : State}

theorem tables_refl (s : State) (k : Kind) : Tables s s k := by
  cases k <;> first | rfl | exact ⟨rfl, rfl⟩

theorem push {task : Task} (hk : task.kind ≠ k) (h : Same k s s') : Same k s (s'.push task) where
  tables := h.tables
  own := by
    have heq : (s'.push task).own k = s'.own k := by
      simp [State.own, State.push, hk]
    rw [heq]
    exact h.own
  now := h.now

theorem drop (s : State) (task : Task) : Same k s (s.drop task) where
  tables := tables_refl s k
  own := List.erase_sublist.filter _
  now := le_rfl

theorem refl (s : State) : Same k s s := ⟨tables_refl s k, List.Sublist.refl _, le_rfl⟩

end Same

theorem mem_own {s : State} {task : Task} (h : task ∈ s.tasks) : task ∈ s.own task.kind :=
  List.mem_filter.mpr ⟨h, decide_eq_true rfl⟩

theorem own_push {s : State} {k : Kind} {task : Task} (hk : task.kind = k) :
    (s.push task).own k = s.own k ++ [task] := by
  simp [State.own, State.push, hk]

theorem own_drop (s : State) (k : Kind) (task : Task) :
    (s.drop task).own k = (s.own k).erase task := by
  simp only [State.own, State.drop, List.erase_filter]

/-! ## Rooms -/

section Rooms

variable {α : Type} {actor time : α → Int} {q : Quota} {l : List α} {a x : Int}

theorem length_filter_append_le (p : α → Bool) (r : α) :
    ((l ++ [r]).filter p).length ≤ (l.filter p).length + 1 := by
  rw [List.filter_append, List.length_append, Nat.add_le_add_iff_left]
  exact List.length_filter_le _ _

theorem Room.letIn (h : Room actor time q l a x) {r : α} (hr : actor r = a) (ht : time r = x) :
    LetIn actor time q l r := by
  intro max hmax
  rw [hr] at hmax
  obtain ⟨since, hsince, hlt⟩ := h max hmax
  refine ⟨since, by rw [ht]; exact hsince, ?_⟩
  rw [hr]
  have hle := length_filter_append_le (l := l) (fun b => decide (actor b = a ∧ since ≤ time b)) r
  omega

theorem Room.append (h : Room actor time q l a x) {r : α} (hr : actor r ≠ a) :
    Room actor time q (l ++ [r]) a x := by
  intro max hmax
  obtain ⟨since, hsince, hlt⟩ := h max hmax
  refine ⟨since, hsince, ?_⟩
  rw [List.filter_append, List.filter_singleton, decide_eq_false (fun h => hr h.1), cond_false,
    List.append_nil]
  exact hlt

theorem room_of_unlimited (h : q.max a = none) : Room actor time q l a x := by
  intro max hmax
  rw [h] at hmax
  cases hmax

end Rooms

/-- The one task of an actor is the one that runs. -/
theorem none_of_drop {s : State} {k : Kind} {p : Task → Prop} [DecidablePred p] {task : Task}
    (hone : (s.own k).countP p ≤ 1) (hmem : task ∈ s.own k) (hp : p task) :
    ∀ t ∈ (s.drop task).own k, ¬ p t := by
  rw [own_drop]
  have hzero : ((s.own k).erase task).countP p = 0 := by
    rw [List.countP_erase, if_pos ⟨hmem, decide_eq_true hp⟩]
    omega
  intro t ht hpt
  exact List.countP_eq_zero.mp hzero t ht (decide_eq_true hpt)

/-! ## Posts -/

namespace PostsOk

variable {s : State}

theorem push (h : PostsOk c s) {task : Task} (hk : task.kind = .posts)
    (hno : ∀ actor, ¬ task.Posts actor) : PostsOk c (s.push task) where
  letIn := h.letIn
  room hx := by
    rw [own_push hk, List.mem_append, List.mem_singleton] at hx
    rcases hx with hx | rfl
    · exact h.room hx
    · exact absurd rfl (hno _)
  one {actor} hsome := by
    rw [own_push hk, List.countP_append, List.countP_singleton,
      if_neg (by simpa using hno actor)]
    exact h.one hsome

theorem push_write (h : PostsOk c s) {actor createdAt : Int}
    (hroom : Room Entry.actor Entry.createdAt c.posts s.posts actor createdAt)
    (hfree : (c.posts.max actor).isSome → ∀ task ∈ s.own .posts, ¬ task.Posts actor) :
    PostsOk c (s.push (.writePost actor createdAt)) where
  letIn := h.letIn
  room {a x} hx := by
    rw [own_push (k := .posts) rfl, List.mem_append, List.mem_singleton] at hx
    rcases hx with hx | hx
    · exact h.room hx
    · obtain ⟨rfl, rfl⟩ := Task.writePost.inj hx
      exact hroom
  one {a} hsome := by
    rw [own_push (k := .posts) rfl, List.countP_append, List.countP_singleton]
    by_cases ha : actor = a
    · subst ha
      have hzero : (s.own .posts).countP (Task.Posts actor) = 0 :=
        List.countP_eq_zero.mpr fun t ht => by simpa using hfree hsome t ht
      rw [hzero]
      split <;> omega
    · rw [if_neg (by simp [Task.Posts, ha])]
      exact h.one hsome

theorem insert (h : PostsOk c s) {actor createdAt : Int}
    (hroom : Room Entry.actor Entry.createdAt c.posts s.posts actor createdAt)
    (hfree : (c.posts.max actor).isSome → ∀ task ∈ s.own .posts, ¬ task.Posts actor) :
    PostsOk c { s with posts := s.posts ++ [⟨actor, createdAt⟩] } where
  letIn := h.letIn.append (hroom.letIn rfl rfl)
  room {a x} hx := by
    by_cases ha : actor = a
    · subst ha
      cases hmax : c.posts.max actor with
      | none => exact room_of_unlimited hmax
      | some max => exact absurd rfl (hfree (by rw [hmax]; rfl) _ hx)
    · exact (h.room hx).append ha
  one := h.one

theorem next (h : PostsOk c s) {task : Task} (hmem : task ∈ s.tasks) (hk : task.kind = .posts)
    (hord : Orderly c s (.next task)) : PostsOk c ((s.drop task).next c task) := by
  have hd : PostsOk c (s.drop task) := Part.frame (k := .posts) h (Same.drop s task)
  cases task with
  | readPostClock actor createdAt => exact hd.push rfl fun _ => id
  | countPosts actor createdAt since =>
    have hfree : (c.posts.max actor).isSome →
        ∀ t ∈ (s.drop (.countPosts actor createdAt since)).own .posts, ¬ t.Posts actor :=
      fun hsome t ht => (hord hsome).1 t (List.mem_of_mem_erase (List.mem_of_mem_filter ht))
    simp only [State.next]
    split
    case h_1 max hmax =>
      split
      case isTrue => exact hd
      case isFalse hlt =>
        refine hd.push_write (fun max' hmax' => ?_) hfree
        rw [hmax, Option.some.injEq] at hmax'
        subst hmax'
        refine ⟨createdAt - c.posts.window, le_rfl, lt_of_le_of_lt ?_ (not_le.mp hlt)⟩
        rw [State.postsSince, ← List.countP_eq_length_filter, ← List.countP_eq_length_filter]
        refine Int.ofNat_le.mpr (List.countP_mono_left fun r hr hp => ?_)
        simp only [decide_eq_true_eq] at hp ⊢
        exact ⟨hp.1, (hord (by rw [hmax]; rfl)).2 r hr hp.1 hp.2⟩
    case h_2 hmax => exact hd.push_write (room_of_unlimited hmax) hfree
  | writePost actor createdAt =>
    exact hd.insert (h.room (mem_own hmem)) fun hsome =>
      none_of_drop (h.one hsome) (mem_own hmem) rfl
  | _ => cases hk

end PostsOk

/-! ## Follows -/

namespace FollowsOk

variable {s : State}

theorem push (h : FollowsOk c s) {task : Task} (hk : task.kind = .follows)
    (hsince : ∀ {actor target since}, task = .countFollows actor target since →
      since ≤ s.now - c.follows.window)
    (hroom : ∀ {actor}, task.Follows actor →
      Room Pair.actor Pair.createdAt c.follows s.followed actor (task.createdAt s.now))
    (hfree : ∀ {actor}, task.Follows actor → (c.follows.max actor).isSome →
      ∀ t ∈ s.own .follows, ¬ t.Follows actor) : FollowsOk c (s.push task) where
  letIn := h.letIn
  kept := h.kept
  since hx := by
    rw [own_push hk, List.mem_append, List.mem_singleton] at hx
    rcases hx with hx | hx
    · exact h.since hx
    · exact hsince hx.symm
  room hx hf := by
    rw [own_push hk, List.mem_append, List.mem_singleton] at hx
    rcases hx with hx | rfl
    · exact h.room hx hf
    · exact hroom hf
  one {actor} hsome := by
    rw [own_push hk, List.countP_append, List.countP_singleton]
    by_cases hf : task.Follows actor
    · have hzero : (s.own .follows).countP (Task.Follows actor) = 0 :=
        List.countP_eq_zero.mpr fun t ht => by simpa using hfree hf hsome t ht
      rw [hzero]
      split <;> omega
    · rw [if_neg (by simpa using hf)]
      exact h.one hsome

theorem write (h : FollowsOk c s) {actor createdAt : Int} (target : Int)
    (hroom : Room Pair.actor Pair.createdAt c.follows s.followed actor createdAt)
    (hfree : (c.follows.max actor).isSome → ∀ task ∈ s.own .follows, ¬ task.Follows actor) :
    FollowsOk c (s.writeFollow actor target createdAt) := by
  unfold State.writeFollow
  split
  case isTrue => exact h
  case isFalse =>
    refine ⟨h.letIn.append (hroom.letIn rfl rfl), ?_, h.since, fun {task a} hx hf => ?_, h.one⟩
    · unfold FollowsKept
      rw [List.filter_append]
      exact h.kept.append List.filter_sublist
    · by_cases ha : actor = a
      · subst ha
        cases hmax : c.follows.max actor with
        | none => exact room_of_unlimited hmax
        | some max => exact absurd hf (hfree (by rw [hmax]; rfl) task hx)
      · exact (h.room hx hf).append ha

theorem delete (h : FollowsOk c s) {actor target : Int}
    (hord : Orderly c s (.deleteFollow actor target)) :
    FollowsOk c { s with
      follows := s.follows.filter fun r => ¬ (r.actor = actor ∧ r.target = target) } where
  letIn := h.letIn
  kept := by
    have hkept := h.kept
    unfold FollowsKept at hkept ⊢
    have hfilter := hkept.filter fun r => decide (¬ (r.actor = actor ∧ r.target = target))
    rw [List.filter_eq_self.mpr] at hfilter
    · exact hfilter
    · intro r hr
      have hrow := hkept.subset hr
      obtain ⟨-, hr'⟩ := List.mem_filter.mp hr
      simp only [decide_eq_true_eq] at hr' ⊢
      rintro ⟨rfl, rfl⟩
      have hlt := hord hr'.1 r hrow rfl rfl
      omega
  since := h.since
  room := h.room
  one := h.one

/-- What the table counts from a time in the window is what there was. -/
theorem room_of_count (h : FollowsOk c s) {actor since max : Int}
    (hmax : c.follows.max actor = some max) (hsince : since ≤ s.now - c.follows.window)
    (hlt : (s.followsSince actor since : Int) < max) :
    Room Pair.actor Pair.createdAt c.follows s.followed actor s.now := by
  intro max' hmax'
  rw [hmax, Option.some.injEq] at hmax'
  subst hmax'
  refine ⟨s.now - c.follows.window, le_rfl, lt_of_le_of_lt (Int.ofNat_le.mpr ?_) hlt⟩
  have hsub := h.kept.filter fun r => decide (r.actor = actor ∧ since ≤ r.createdAt)
  refine le_trans (le_of_eq ?_) hsub.length_le
  rw [List.filter_filter]
  congr 1
  refine List.filter_congr fun r _ => ?_
  by_cases hactor : r.actor = actor
  · by_cases hle : s.now - c.follows.window ≤ r.createdAt
    · have hle' : since ≤ r.createdAt := by omega
      simp [hactor, hmax, hle, hle']
    · simp [hle]
  · simp [hactor]

theorem next (h : FollowsOk c s) {task : Task} (hmem : task ∈ s.tasks) (hk : task.kind = .follows)
    (hord : Orderly c s (.next task)) : FollowsOk c ((s.drop task).next c task) := by
  have hd : FollowsOk c (s.drop task) := Part.frame (k := .follows) h (Same.drop s task)
  have hown : task ∈ s.own .follows := hk ▸ mem_own hmem
  cases task with
  | countFollows actor target since =>
    have hfree : ∀ {a}, Task.Follows a (.beginFollow actor target) → (c.follows.max a).isSome →
        ∀ t ∈ (s.drop (.countFollows actor target since)).own .follows, ¬ t.Follows a := by
      rintro a rfl hsome t ht
      exact hord hsome t (List.mem_of_mem_erase (List.mem_of_mem_filter ht))
    simp only [State.next]
    split
    case h_1 max hmax =>
      split
      case isTrue => exact hd
      case isFalse hlt =>
        refine hd.push rfl nofun (fun {a} ha => ?_) hfree
        obtain rfl : actor = a := ha
        exact hd.room_of_count hmax (h.since hown) (not_le.mp hlt)
    case h_2 hmax =>
      refine hd.push rfl nofun (fun {a} ha => ?_) hfree
      obtain rfl : actor = a := ha
      exact room_of_unlimited hmax
  | beginFollow actor target =>
    refine hd.push rfl nofun (fun {a} ha => ?_) fun {a} ha hsome => ?_
    · exact @FollowsOk.room _ _ h (.beginFollow actor target) _ hown ha
    · exact none_of_drop (h.one hsome) hown ha
  | writeFollow actor target createdAt =>
    exact hd.write target (h.room hown rfl) fun hsome => none_of_drop (h.one hsome) hown rfl
  | _ => cases hk

end FollowsOk

/-! ## Searches -/

namespace SearchesOk

variable {s : State}

theorem next (h : SearchesOk c s) {task : Task} (hmem : task ∈ s.tasks)
    (hk : task.kind = .searches) : SearchesOk c ((s.drop task).next c task) := by
  have hd : SearchesOk c (s.drop task) := Part.frame (k := .searches) h (Same.drop s task)
  have hown : task ∈ s.own .searches := hk ▸ mem_own hmem
  cases task with
  | beginSearch actor since =>
    refine ⟨hd.letIn, fun {a x} hx => ?_, fun {a x y} hx => ?_⟩
    all_goals
      rw [State.next, own_push (k := .searches) rfl, List.mem_append, List.mem_singleton] at hx
    · exact hd.since (hx.resolve_right nofun)
    · rcases hx with hx | hx
      · exact hd.begun hx
      · obtain ⟨rfl, rfl, rfl⟩ := Task.recordSearch.inj hx
        exact h.since hown
  | recordSearch actor since createdAt =>
    simp only [State.next]
    split
    case h_2 => exact hd
    case h_1 max hmax =>
      split
      case isTrue => exact hd
      case isFalse hlt =>
        refine ⟨hd.letIn.append (Room.letIn ?_ rfl rfl), hd.since, hd.begun⟩
        intro max' hmax'
        rw [hmax, Option.some.injEq] at hmax'
        subst hmax'
        exact ⟨since, h.begun hown, not_le.mp hlt⟩
  | _ => cases hk

end SearchesOk

/-! ## Contacts -/

theorem length_dedup_append_le (l l' : List Int) :
    (l ++ l').dedup.length ≤ l.dedup.length + l'.length := by
  have hsub : (l ++ l').dedup ⊆ l.dedup ++ l' := by
    intro x hx
    rcases List.mem_append.mp (List.mem_dedup.mp hx) with hx | hx
    · exact List.mem_append_left _ (List.mem_dedup.mpr hx)
    · exact List.mem_append_right _ hx
  rw [← List.length_append]
  exact (List.subperm_of_subset (List.nodup_dedup _) hsub).length_le

namespace ContactsOk

variable {s : State}

/-- The targets there were, and those that come -/
theorem contacted_le (s : State) (actor since createdAt : Int) (targets : List Int) :
    (((s.userContactLog ++ targets.map fun t => Pair.mk actor t createdAt).filter fun b =>
      b.actor = actor ∧ since ≤ b.createdAt).map Pair.target).dedup.length ≤
        (s.contactsSince actor since).length + targets.length := by
  rw [List.filter_append, List.map_append]
  refine le_trans (length_dedup_append_le _ _) ?_
  rw [State.contactsSince, Nat.add_le_add_iff_left, List.length_map]
  refine le_trans (List.length_filter_le _ _) ?_
  rw [List.length_map]

/-- All the targets are new: they are recorded, and with those of the actor before they
are not too many. -/
theorem recordContacts (h : ContactsOk c s) {actor since createdAt max : Int} {targets : List Int}
    (hmax : c.contacts.max actor = some max) (hsince : since ≤ createdAt - c.contacts.window)
    (hnew : ∀ t ∈ targets, t ∉ s.contactsSince actor since) :
    ContactsOk c (s.recordContacts max actor targets since createdAt) := by
  have hall : (targets.filter fun t => t ∉ s.contactsSince actor since) = targets :=
    List.filter_eq_self.mpr fun t ht => decide_eq_true (hnew t ht)
  simp only [State.recordContacts, hall]
  split
  case isTrue => exact h
  case isFalse hle =>
    refine ⟨h.letIn.append_list fun pre r post heq => ?_, by rw [h.logged], h.since, h.begun⟩
    have hr : r ∈ targets.map fun t => Pair.mk actor t createdAt := by
      rw [heq]
      exact List.mem_append_right _ List.mem_cons_self
    obtain ⟨t, ht, rfl⟩ := List.mem_map.mp hr
    intro max' hmax'
    rw [hmax, Option.some.injEq] at hmax'
    subst hmax'
    refine ⟨since, hsince, ?_⟩
    have hsub : ((s.contacted ++ pre ++ [Pair.mk actor t createdAt]).filter fun b =>
        b.actor = actor ∧ since ≤ b.createdAt).Sublist
        ((s.userContactLog ++ targets.map fun t => Pair.mk actor t createdAt).filter fun b =>
          b.actor = actor ∧ since ≤ b.createdAt) := by
      refine List.Sublist.filter _ ?_
      rw [h.logged, heq, List.append_assoc]
      refine (List.Sublist.refl _).append ((List.Sublist.refl _).append ?_)
      exact List.Sublist.cons_cons _ (List.nil_sublist _)
    refine le_trans (Window.grows_distinct Pair.target hsub) (le_trans (contacted_le s actor since createdAt targets) ?_)
    omega

theorem next (h : ContactsOk c s) {task : Task} (hmem : task ∈ s.tasks)
    (hk : task.kind = .contacts) (hord : Orderly c s (.next task)) :
    ContactsOk c ((s.drop task).next c task) := by
  have hd : ContactsOk c (s.drop task) := Part.frame (k := .contacts) h (Same.drop s task)
  have hown : task ∈ s.own .contacts := hk ▸ mem_own hmem
  cases task with
  | beginContacts actor targets since =>
    refine ⟨hd.letIn, hd.logged, fun {a ts x} hx => ?_, fun {a ts x y} hx => ?_⟩
    all_goals
      rw [State.next, own_push (k := .contacts) rfl, List.mem_append, List.mem_singleton] at hx
    · exact hd.since (hx.resolve_right nofun)
    · rcases hx with hx | hx
      · exact hd.begun hx
      · obtain ⟨rfl, rfl, rfl, rfl⟩ := Task.recordContacts.inj hx
        exact h.since hown
  | recordContacts actor targets since createdAt =>
    simp only [State.next]
    split
    case h_2 => exact hd
    case h_1 max hmax =>
      exact hd.recordContacts hmax (h.begun hown) (hord (by rw [hmax]; rfl))
  | _ => cases hk

end ContactsOk

/-! ## New accounts -/

namespace AccountsOk

variable {s : State}

theorem next (h : AccountsOk c s) {task : Task} (hmem : task ∈ s.tasks)
    (hk : task.kind = .accounts) : AccountsOk c ((s.drop task).next c task) := by
  have hd : AccountsOk c (s.drop task) := Part.frame (k := .accounts) h (Same.drop s task)
  have hown : task ∈ s.own .accounts := hk ▸ mem_own hmem
  cases task with
  | beginReservation ip since =>
    refine ⟨hd.letIn, hd.ids, hd.ahead, hd.kept, fun {a x} hx => ?_, fun {a x y} hx => ?_⟩
    all_goals
      rw [State.next, own_push (k := .accounts) rfl, List.mem_append, List.mem_singleton] at hx
    · exact hd.since (hx.resolve_right nofun)
    · rcases hx with hx | hx
      · exact hd.begun hx
      · obtain ⟨rfl, rfl, rfl⟩ := Task.reserve.inj hx
        exact h.since hown
  | reserve ip since createdAt =>
    simp only [State.next]
    split
    case isTrue => exact hd
    case isFalse hlt =>
      refine ⟨hd.letIn.append ⟨since, h.begun hown, ?_⟩, fun r hr => ?_, fun hid => ?_, hd.kept,
        hd.since, hd.begun⟩
      · have hle := length_filter_append_le (l := (s.drop (.reserve ip since createdAt)).registrations)
          (fun b => decide (b.ip = ip ∧ since ≤ b.createdAt ∧ (s.phase b.id).logged))
          ⟨s.registrations.length, ip, createdAt⟩
        have hcount : ((s.drop (.reserve ip since createdAt)).registrations.filter fun b =>
          b.ip = ip ∧ since ≤ b.createdAt ∧ (s.phase b.id).logged).length =
            (s.drop (.reserve ip since createdAt)).registrationsSince ip since := rfl
        rw [not_le] at hlt
        rw [hcount] at hle
        refine le_trans hle ?_
        omega
      · rw [List.length_append, List.length_singleton]
        rcases List.mem_append.mp hr with hr | hr
        · exact Nat.lt_succ_of_lt (hd.ids r hr)
        · rw [List.mem_singleton.mp hr]
          exact Nat.lt_succ_self _
      · rw [List.length_append, List.length_singleton] at hid
        exact hd.ahead (Nat.le_of_succ_le hid)
  | _ => cases hk

/-- A registration goes on, or its row goes. -/
theorem setPhase (h : AccountsOk c s) {id : Nat} (hid : id < s.registrations.length) {phase : Phase}
    (hlogged : phase.logged = true → (s.phase id).logged = true)
    (hkept : phase ≠ .cancelled true) : AccountsOk c (s.setPhase id phase) where
  letIn := by
    refine h.letIn.mono ?_
    rintro pre r ⟨since, hsince, hle⟩
    refine ⟨since, hsince, le_trans (List.monotone_filter_right _ fun b hb => ?_).length_le hle⟩
    simp only [decide_eq_true_eq] at hb ⊢
    refine ⟨hb.1, hb.2.1, ?_⟩
    by_cases heq : b.id = id
    · rw [heq]
      refine hlogged ?_
      have hb' := hb.2.2
      rw [heq] at hb'
      simpa [State.setPhase] using hb'
    · have hb' := hb.2.2
      simpa [State.setPhase, heq] using hb'
  ids := h.ids
  ahead {id'} hid' := by
    have hne : id' ≠ id := by
      rintro rfl
      exact absurd hid (not_lt.mpr hid')
    simpa [State.setPhase, hne] using h.ahead hid'
  kept id' := by
    by_cases heq : id' = id
    · simpa [State.setPhase, heq] using hkept
    · simpa [State.setPhase, heq] using h.kept id'
  since := h.since
  begun := h.begun

end AccountsOk

/-! ## The steps -/

/-- A step of one kind -/
theorem Sound.of_part {s s' : State} (h : Sound c s) (k : Kind) (hk : Part c s' k)
    (hsame : ∀ j, j ≠ k → Same j s s') : Sound c s' := by
  intro j
  by_cases hj : j = k
  · rw [hj]
    exact hk
  · exact (h j).frame (hsame j hj)

/-- A task goes on with its own tables. -/
theorem same_next {s : State} {task : Task} {j : Kind} (hj : j ≠ task.kind) :
    Same j s ((s.drop task).next c task) := by
  have hd : Same j s (s.drop task) := Same.drop s task
  have hkind : task.kind ≠ j := hj.symm
  cases task with
  | readPostClock => exact hd.push hkind
  | countPosts actor createdAt since =>
    simp only [State.next]
    split
    · split
      · exact hd
      · exact hd.push hkind
    · exact hd.push hkind
  | writePost => cases j <;> first | exact absurd rfl hj | exact ⟨hd.tables, hd.own, hd.now⟩
  | countFollows actor target since =>
    simp only [State.next]
    split
    · split
      · exact hd
      · exact hd.push hkind
    · exact hd.push hkind
  | beginFollow => exact hd.push hkind
  | writeFollow =>
    simp only [State.next, State.writeFollow]
    split
    · exact hd
    · cases j <;> first | exact absurd rfl hj | exact ⟨hd.tables, hd.own, hd.now⟩
  | beginSearch => exact hd.push hkind
  | recordSearch =>
    simp only [State.next]
    split
    · split
      · exact hd
      · cases j <;> first | exact absurd rfl hj | exact ⟨hd.tables, hd.own, hd.now⟩
    · exact hd
  | beginContacts => exact hd.push hkind
  | recordContacts =>
    simp only [State.next, State.recordContacts]
    split
    · split
      · exact hd
      · cases j <;> first | exact absurd rfl hj | exact ⟨hd.tables, hd.own, hd.now⟩
    · exact hd
  | beginReservation => exact hd.push hkind
  | reserve =>
    simp only [State.next]
    split
    · exact hd
    · cases j <;> first | exact absurd rfl hj | exact ⟨hd.tables, hd.own, hd.now⟩

theorem Sound.next {s : State} (h : Sound c s) {task : Task} (hmem : task ∈ s.tasks)
    (hord : Orderly c s (.next task)) : Sound c ((s.drop task).next c task) := by
  refine h.of_part task.kind ?_ fun j hj => same_next hj
  cases hk : task.kind with
  | posts => exact (h .posts).next hmem hk hord
  | follows => exact (h .follows).next hmem hk hord
  | searches => exact (h .searches).next hmem hk
  | contacts => exact (h .contacts).next hmem hk hord
  | accounts => exact (h .accounts).next hmem hk

/-- A request that begins, with what its first task says of the clock -/
theorem Sound.push {s : State} (h : Sound c s) (task : Task) (hk : Part c (s.push task) task.kind) :
    Sound c (s.push task) :=
  h.of_part task.kind hk fun _ hj => (Same.refl s).push hj.symm

theorem Sound.setPhase {s : State} (h : Sound c s) {id : Nat} {phase : Phase}
    (hid : id < s.registrations.length) (hlogged : phase.logged = true → (s.phase id).logged = true)
    (hkept : phase ≠ .cancelled true) : Sound c (s.setPhase id phase) := by
  refine h.of_part .accounts ((h .accounts).setPhase hid hlogged hkept) fun j hj => ?_
  cases j <;> first
      | exact absurd rfl hj
      | exact ⟨rfl, List.Sublist.refl _, le_rfl⟩
      | exact ⟨⟨rfl, rfl⟩, List.Sublist.refl _, le_rfl⟩

theorem sound_step {s s' : State} {x : Action} (h : Sound c s) (hord : Orderly c s x)
    (hs : step c s x = some s') : Sound c s' := by
  cases x with
  | tick now =>
    simp only [step] at hs
    split at hs
    case isFalse => cases hs
    case isTrue hle =>
      cases hs
      exact fun k => (h k).frame ⟨by cases k <;> first | rfl | exact ⟨rfl, rfl⟩,
        List.Sublist.refl _, hle⟩
  | createRegularPost actor =>
    cases hs
    exact h.push _ ((h .posts).push rfl fun _ => id)
  | insertPost actor createdAt =>
    cases hs
    refine h.of_part .posts ((h .posts).insert (fun max hmax => ?_) fun hsome => ?_) fun j hj => ?_
    · exact ⟨_, le_rfl, (hord max hmax).2⟩
    · obtain ⟨max, hmax⟩ := Option.isSome_iff_exists.mp hsome
      exact fun t ht => (hord max hmax).1 t (List.mem_of_mem_filter ht)
    · cases j <;> first
      | exact absurd rfl hj
      | exact ⟨rfl, List.Sublist.refl _, le_rfl⟩
      | exact ⟨⟨rfl, rfl⟩, List.Sublist.refl _, le_rfl⟩
  | createFollow actor target =>
    cases hs
    refine h.push _ ((h .follows).push rfl ?_ (fun hf => hf.elim) fun hf => hf.elim)
    intro a t x heq
    obtain ⟨-, -, rfl⟩ := Task.countFollows.inj heq
    exact le_rfl
  | insertFollow actor target =>
    cases hs
    refine h.of_part .follows ((h .follows).write target ?_ fun hsome => ?_) fun j hj => ?_
    · cases hmax : c.follows.max actor with
      | none => exact room_of_unlimited hmax
      | some max => exact (h .follows).room_of_count hmax le_rfl (hord max hmax).2
    · obtain ⟨max, hmax⟩ := Option.isSome_iff_exists.mp hsome
      exact fun t ht => (hord max hmax).1 t (List.mem_of_mem_filter ht)
    · unfold State.writeFollow
      split
      · exact Same.refl s
      · cases j <;> first
      | exact absurd rfl hj
      | exact ⟨rfl, List.Sublist.refl _, le_rfl⟩
      | exact ⟨⟨rfl, rfl⟩, List.Sublist.refl _, le_rfl⟩
  | deleteFollow actor target =>
    cases hs
    refine h.of_part .follows ((h .follows).delete hord) fun j hj => ?_
    cases j <;> first
      | exact absurd rfl hj
      | exact ⟨rfl, List.Sublist.refl _, le_rfl⟩
      | exact ⟨⟨rfl, rfl⟩, List.Sublist.refl _, le_rfl⟩
  | search actor =>
    cases hs
    have hp : SearchesOk c s := h .searches
    refine h.push _ ⟨hp.letIn, fun {a x} hx => ?_, fun {a x y} hx => ?_⟩
    all_goals rw [own_push (k := .searches) rfl, List.mem_append, List.mem_singleton] at hx
    · rcases hx with hx | hx
      · exact hp.since hx
      · obtain ⟨-, rfl⟩ := Task.beginSearch.inj hx
        exact le_rfl
    · exact hp.begun (hx.resolve_right nofun)
  | contact actor targets =>
    simp only [step] at hs
    split at hs
    case isTrue =>
      cases hs
      exact h
    case isFalse =>
      cases hs
      have hp : ContactsOk c s := h .contacts
      refine h.push _ ⟨hp.letIn, hp.logged, fun {a ts x} hx => ?_, fun {a ts x y} hx => ?_⟩
      all_goals rw [own_push (k := .contacts) rfl, List.mem_append, List.mem_singleton] at hx
      · rcases hx with hx | hx
        · exact hp.since hx
        · obtain ⟨-, -, rfl⟩ := Task.beginContacts.inj hx
          exact le_rfl
      · exact hp.begun (hx.resolve_right nofun)
  | register ip =>
    cases hs
    have hp : AccountsOk c s := h .accounts
    refine h.push _ ⟨hp.letIn, hp.ids, hp.ahead, hp.kept, fun {a x} hx => ?_, fun {a x y} hx => ?_⟩
    all_goals rw [own_push (k := .accounts) rfl, List.mem_append, List.mem_singleton] at hx
    · rcases hx with hx | hx
      · exact hp.since hx
      · obtain ⟨-, rfl⟩ := Task.beginReservation.inj hx
        exact le_rfl
    · exact hp.begun (hx.resolve_right nofun)
  | createAccount id =>
    simp only [step] at hs
    split at hs
    case isFalse => cases hs
    case isTrue hid =>
      cases hs
      exact h.setPhase hid.1 (fun _ => by rw [hid.2]; rfl) nofun
  | failRegistration id =>
    simp only [step] at hs
    split at hs
    case isFalse => cases hs
    case isTrue hid =>
      split at hs
      case h_1 hphase =>
        cases hs
        exact h.setPhase hid (fun _ => by rw [hphase]; rfl) nofun
      case h_2 hphase =>
        cases hs
        exact h.setPhase hid (fun _ => by rw [hphase]; rfl) nofun
      case h_3 => cases hs
  | cancelAccountCreation id =>
    simp only [step] at hs
    split at hs
    case h_2 => cases hs
    case h_1 created hphase =>
      cases hs
      have hid : id < s.registrations.length := by
        by_contra hge
        rw [(h .accounts).ahead (not_lt.mp hge)] at hphase
        cases hphase
      refine h.setPhase hid nofun ?_
      rintro ⟨⟩
      exact hord hphase
  | next task =>
    simp only [step] at hs
    split at hs
    case isFalse => cases hs
    case isTrue hmem =>
      cases hs
      exact h.next hmem hord
  | fail task =>
    simp only [step] at hs
    split at hs
    case isFalse => cases hs
    case isTrue =>
      cases hs
      exact fun k => (h k).frame (Same.drop s task)

theorem sound_init : Sound c {} := by
  intro k
  cases k with
  | posts =>
    exact ⟨Window.each_nil, fun hx => absurd hx List.not_mem_nil, fun _ => Nat.zero_le _⟩
  | follows =>
    exact ⟨Window.each_nil, List.Sublist.refl _, fun hx => absurd hx List.not_mem_nil,
      fun hx => absurd hx List.not_mem_nil, fun _ => Nat.zero_le _⟩
  | searches =>
    exact ⟨Window.each_nil, fun hx => absurd hx List.not_mem_nil, fun hx => absurd hx List.not_mem_nil⟩
  | contacts =>
    exact ⟨Window.each_nil, rfl, fun hx => absurd hx List.not_mem_nil,
      fun hx => absurd hx List.not_mem_nil⟩
  | accounts =>
    exact ⟨Window.each_nil, fun _ hr => absurd hr List.not_mem_nil, fun _ => rfl, fun _ => nofun,
      fun hx => absurd hx List.not_mem_nil, fun hx => absurd hx List.not_mem_nil⟩

/-! ## The bounds -/

theorem window_of_letIn {α : Type} {actor time : α → Int} {q : Quota} {l : List α}
    (h : Each (LetIn actor time q) l) {a max : Int} (hmax : q.max a = some max) (opens : Int) :
    (l.filter fun r => actor r = a ∧ opens ≤ time r ∧ time r ≤ opens + q.window).length ≤
      max.toNat := by
  refine Window.window_le Window.grows_length (Nat.zero_le _) (fun r => actor r = a) time q.window
    (h.mono fun {pre r} hr hkey => ?_) opens
  rw [← hkey] at hmax
  obtain ⟨since, hsince, hle⟩ := hr max hmax
  refine ⟨since, hsince, ?_⟩
  rw [hkey] at hle
  exact hle

theorem Phase.logged_of_performed {phase : Phase} (h : phase.performed = true)
    (hne : phase ≠ .cancelled true) : phase.logged = true := by
  cases phase with
  | cancelled created =>
    cases created with
    | true => exact absurd rfl hne
    | false => cases h
  | _ => rfl

theorem Sound.bounded {s : State} (h : Sound c s) : Bounded c s where
  posts hmax opens := window_of_letIn (h .posts).letIn hmax opens
  follows hmax opens := window_of_letIn (h .follows).letIn hmax opens
  searches hmax opens := window_of_letIn (h .searches).letIn hmax opens
  contacts {actor max} hmax opens := by
    refine Window.window_le (Window.grows_distinct Pair.target) (Nat.zero_le _)
      (fun r => r.actor = actor) Pair.createdAt c.contacts.window
      ((h .contacts).letIn.mono fun {pre r} hr hkey => ?_) opens
    rw [← hkey] at hmax
    obtain ⟨since, hsince, hle⟩ := hr max hmax
    refine ⟨since, hsince, ?_⟩
    rw [hkey] at hle
    exact hle
  accounts ip opens := by
    refine Window.window_le Window.grows_length (Nat.zero_le _)
      (fun r => r.ip = ip ∧ (s.phase r.id).performed) Registration.createdAt c.accountWindow
      ((h .accounts).letIn.mono fun {pre r} hr hkey => ?_) opens
    obtain ⟨since, hsince, hle⟩ := hr
    refine ⟨since, hsince, le_trans (List.monotone_filter_right _ fun b hb => ?_).length_le hle⟩
    simp only [decide_eq_true_eq] at hb ⊢
    obtain ⟨⟨hip, hperformed⟩, hfrom⟩ := hb
    refine ⟨by rw [hip, hkey.1], hfrom, ?_⟩
    exact Phase.logged_of_performed hperformed ((h .accounts).kept b.id)

/-- One of each in an hour -/
def oneOfEach : Config where
  posts := ⟨fun _ => some 1, 3600⟩
  follows := ⟨fun _ => some 1, 3600⟩
  searches := ⟨fun _ => some 1, 3600⟩
  contacts := ⟨fun _ => some 1, 3600⟩
  maxAccounts := 1
  accountWindow := 3600

/-- Two requests that are both checked before either inserts its post -/
def twoPosts : List Action :=
  [.createRegularPost 7, .createRegularPost 7, .next (.readPostClock 7 0),
    .next (.readPostClock 7 0), .next (.countPosts 7 0 (-3600)), .next (.countPosts 7 0 (-3600)),
    .next (.writePost 7 0), .next (.writePost 7 0)]

end Seiran.Quotas
