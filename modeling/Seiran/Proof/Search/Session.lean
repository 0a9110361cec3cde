import Mathlib.Data.List.Perm.Subperm
import Mathlib.Order.Lattice
import Seiran.Model.Search.Session

/-!
# The pages of a search session

A session reads two streams: the local matches below `localUntilId`, newest
first, and AppView's answers to its cursor. `View` is what a session has of
them, and `View.next` the page it makes of it (`step_view`).

A page is right as long as what it leaves unread is older than it. Two things
can go wrong, and `InOrder` says of a request that they do not:

* the local search reads again what was returned: when a fetch finds no local
  match, the bound is lost with it, and a post that AppView gave and that was
  returned is from then on a local match as well;
* the page is made without the newest posts: a buffer that holds enough answers
  alone, however new the next posts of either side are.

`session_inOrder` is what then holds of the pages.
-/

namespace Seiran.Search

/-! ## Sorting -/

theorem mem_dedup {ids : List Int} {x : Int} : x ∈ dedup ids ↔ x ∈ ids := by
  fun_induction dedup ids with
  | case1 => rfl
  | case2 y => rfl
  | case3 y ids ih => simp [ih]
  | case4 y z ids h ih => rw [List.mem_cons, ih, List.mem_cons (b := y)]

theorem pairwise_dedup {ids : List Int} (h : ids.Pairwise (· ≥ ·)) :
    (dedup ids).Pairwise (· > ·) := by
  fun_induction dedup ids with
  | case1 => exact .nil
  | case2 y => exact List.pairwise_singleton _ y
  | case3 y ids ih => exact ih h.of_cons
  | case4 y z ids hne ih =>
    refine List.pairwise_cons.mpr ⟨fun x hx => ?_, ih h.of_cons⟩
    have hyz : y ≥ z := List.rel_of_pairwise_cons h (by simp)
    have hzx : z ≥ x := by
      rcases List.mem_cons.mp (mem_dedup.mp hx) with rfl | hx
      · exact le_rfl
      · exact List.rel_of_pairwise_cons h.of_cons hx
    omega

theorem dedup_of_pairwise {ids : List Int} (h : ids.Pairwise (· > ·)) : dedup ids = ids := by
  fun_induction dedup ids with
  | case1 => rfl
  | case2 y => rfl
  | case3 y ids ih =>
    have := List.rel_of_pairwise_cons h (List.mem_cons_self (a := y))
    omega
  | case4 y z ids hne ih => rw [ih h.of_cons]

theorem mem_sortDedup {ids : List Int} {x : Int} : x ∈ sortDedup ids ↔ x ∈ ids := by
  rw [sortDedup, mem_dedup, List.mem_mergeSort]

theorem pairwise_sortDedup (ids : List Int) : (sortDedup ids).Pairwise (· > ·) := by
  refine pairwise_dedup ?_
  have hsorted := @List.pairwise_mergeSort _ (fun a b : Int => decide (b ≤ a))
    (fun a b c hab hbc => by simp only [decide_eq_true_eq] at *; omega)
    (fun a b => by simp only [Bool.or_eq_true, decide_eq_true_eq]; omega) ids
  exact hsorted.imp fun h => of_decide_eq_true h

theorem sortDedup_of_pairwise {ids : List Int} (h : ids.Pairwise (· > ·)) :
    sortDedup ids = ids := by
  rw [sortDedup, List.mergeSort_of_pairwise, dedup_of_pairwise h]
  exact h.imp fun hab => decide_eq_true (le_of_lt hab)

/-- In a descending list, what `limit` elements are above is below the first `limit`. -/
theorem lt_of_mem_take {ids : List Int} (h : ids.Pairwise (· > ·)) {limit : Nat} {z p : Int}
    (hz : limit ≤ (ids.filter fun x => decide (z < x)).length) (hp : p ∈ ids.take limit) : z < p := by
  by_contra hle
  obtain ⟨i, hi, hget⟩ := List.getElem_of_mem hp
  rw [List.getElem_take] at hget
  rw [List.length_take] at hi
  have hcons := List.drop_eq_getElem_cons (show i < ids.length by omega)
  have htail : (ids.drop i).Pairwise (· > ·) := h.drop
  rw [hcons, hget] at htail
  have hdrop : (ids.drop i).filter (fun x => decide (z < x)) = [] := by
    rw [List.filter_eq_nil_iff]
    intro x hx
    have hpx : x ≤ p := by
      rw [hcons, hget] at hx
      rcases List.mem_cons.mp hx with rfl | hx
      · exact le_rfl
      · exact le_of_lt (List.rel_of_pairwise_cons htail hx)
    simp only [decide_eq_true_eq]
    omega
  have hsplit : ids.filter (fun x => decide (z < x)) =
      (ids.take i).filter fun x => decide (z < x) := by
    conv_lhs => rw [← List.take_append_drop i ids]
    rw [List.filter_append, hdrop, List.append_nil]
  have hlen := List.length_filter_le (fun x => decide (z < x)) (ids.take i)
  rw [hsplit] at hz
  rw [List.length_take] at hlen
  omega

/-! ## Two streams -/

/-- What a session has of the two streams. -/
structure View where
  buffer : List Int
  untilId : Option Int
  /-- What AppView is asked next: nothing, or for the posts after a cursor. -/
  asks : Option (Option String)
  saved : List Int

namespace View

variable (site : Site) (v : View) (limit : Nat)

/-- AppView's answer to the next request that asks it. -/
def answer : List Int × Option (Option String) :=
  match v.asks with
  | some cursor => ((site.appview cursor limit).1, (site.appview cursor limit).2.map some)
  | none => ([], none)

/-- The posts a page is made of. -/
def reads : List Int :=
  if limit ≤ v.buffer.length then v.buffer
  else site.resolveBridgeIdsForSearch
    (v.buffer ++ site.searchLocalDb v.saved limit v.untilId ++ (v.answer site limit).1)

def next : View :=
  if limit ≤ v.buffer.length then { v with buffer := v.buffer.drop limit }
  else
    { buffer := (sortDedup (v.reads site limit)).drop limit
      untilId := (site.searchLocalDb v.saved limit v.untilId).getLast?
      asks := (v.answer site limit).2
      saved := v.saved ++ (v.answer site limit).1 }

/-- The local matches that the page leaves unread. -/
def unreadLocal : List Int :=
  if limit ≤ v.buffer.length then site.localBelow v.saved v.untilId
  else (site.localBelow v.saved v.untilId).drop limit

end View

/-- What AppView still answers, at any limits. -/
inductive Site.Later (site : Site) : Option (Option String) → Int → Prop
  | page {cursor : Option String} {limit : Nat} {id : Int}
      (h : id ∈ (site.appview cursor limit).1) : Later site (some cursor) id
  | next {cursor : Option String} {limit : Nat} {id : Int}
      (h : Later site ((site.appview cursor limit).2.map some) id) : Later site (some cursor) id

/-- The posts that are still to be shown when the page is made, and are not in it. -/
def View.Leaves (site : Site) (v : View) (limit : Nat) (z : Int) : Prop :=
  ∃ x, (x ∈ v.unreadLocal site limit ∨ site.Later (v.next site limit).asks x) ∧
    site.resolveBridgeId x = some z

/-- When a request makes a page that is right. -/
structure InOrder (site : Site) (returned : List Int) (v : View) (limit : Nat) : Prop where
  /-- No post that was returned is a local match below the bound. -/
  unread : ∀ x ∈ site.localBelow v.saved v.untilId, ∀ z ∈ returned,
    site.resolveBridgeId x ≠ some z
  /-- The posts in the buffer are no bridge posts. -/
  buffer : ∀ x ∈ v.buffer, site.resolveBridgeId x = some x
  /-- What is left unread is older than what is read, or than `limit` posts of it. -/
  covered : ∀ z, v.Leaves site limit z →
    limit ≤ ((sortDedup (v.reads site limit)).filter fun x => decide (z < x)).length ∨
      ∀ x ∈ v.reads site limit, z < x

/-- Before the first page. -/
def View.first (saved : List Int) : View := ⟨[], none, some none, saved⟩

def viewOf (sessionId : Option String) (st : State) : View :=
  match sessionId.bind st.store with
  | some s => ⟨s.buffer, s.localUntilId, s.appviewCursor.map some, st.saved⟩
  | none => View.first st.saved

def Reader.view (r : Reader) : View := viewOf r.sessionId r.st

/-- The page of a view. -/
def View.page (site : Site) (v : View) (limit : Nat) : List Int :=
  if limit ≤ v.buffer.length then v.buffer.take limit
  else (sortDedup (v.reads site limit)).take limit

theorem pageLimit_pos (limit : Option Int) : 0 < pageLimit limit := by
  rw [pageLimit]
  omega

theorem searchFirst_view (site : Site) {limit : Nat} (h : 0 < limit) (uuid : String) (st : State) :
    (searchFirst site limit uuid st).1.1 = (View.first st.saved).page site limit ∧
      viewOf (some (searchFirst site limit uuid st).1.2) (searchFirst site limit uuid st).2 =
        (View.first st.saved).next site limit := by
  have hbuffer : ¬ limit ≤ (View.first st.saved).buffer.length := Nat.not_le.mpr h
  constructor
  · rw [View.page, if_neg hbuffer, View.reads, if_neg hbuffer]
    rfl
  · rw [View.next, if_neg hbuffer, View.reads, if_neg hbuffer]
    simp only [viewOf, searchFirst, SearchStore.create, Option.bind_some, Function.update_self]
    rfl

/-- A request makes the page of its session's view. -/
theorem searchNotes_view (site : Site) (q : SearchQuery) (uuid : String) (st : State) :
    (searchNotes site q uuid st).1.1 = (viewOf q.sessionId st).page site (pageLimit q.limit) ∧
      viewOf (some (searchNotes site q uuid st).1.2) (searchNotes site q uuid st).2 =
        (viewOf q.sessionId st).next site (pageLimit q.limit) := by
  have hfirst := searchFirst_view site (pageLimit_pos q.limit) uuid st
  obtain ⟨limit, sessionId⟩ := q
  cases sessionId with
  | none => exact hfirst
  | some sid =>
    cases hs : st.store sid with
    | none =>
      have hview : viewOf (some sid) st = View.first st.saved := by
        rw [viewOf, Option.bind_some, hs]
      have hnotes : searchNotes site ⟨limit, some sid⟩ uuid st =
          searchFirst site (pageLimit limit) uuid st := by
        simp only [searchNotes, SearchStore.takeBuffer, hs, Option.map_none]
      rw [hview, hnotes]
      exact hfirst
    | some s =>
      have hview : viewOf (some sid) st =
          ⟨s.buffer, s.localUntilId, s.appviewCursor.map some, st.saved⟩ := by
        rw [viewOf, Option.bind_some, hs]
      rw [hview]
      simp only [searchNotes, SearchStore.takeBuffer, hs, Option.map_some]
      by_cases hlen : pageLimit limit ≤ s.buffer.length
      · simp only [if_pos hlen, View.page, View.next]
        simp [viewOf, SearchStore.putBuffer]
      · simp only [if_neg hlen, View.page, View.next, View.reads, View.answer]
        cases s.appviewCursor with
        | none => simp [viewOf, SearchStore.putBuffer, mergeSortDedupAndSplit]
        | some cursor => simp [viewOf, SearchStore.putBuffer, mergeSortDedupAndSplit]

/-! ## The invariant -/

section

variable {site : Site} {returned : List Int} {v : View} {limit : Nat}

/-- A local match, once `saved` have come in. -/
def Site.Found (site : Site) (saved : List Int) (x : Int) : Prop :=
  x ∈ site.localMatches ∨ x ∈ saved ∧ site.matchesLocally x = true

theorem mem_localBelow {saved : List Int} {untilId : Option Int} {x : Int} :
    x ∈ site.localBelow saved untilId ↔ site.Found saved x ∧ olderThan untilId x = true := by
  rw [Site.localBelow, mem_sortDedup, List.mem_filter, List.mem_append, List.mem_filter]
  rfl

/-- What holds between two pages. -/
structure Inv (site : Site) (returned : List Int) (v : View) : Prop where
  returned_desc : returned.Pairwise (· > ·)
  buffer_desc : v.buffer.Pairwise (· > ·)
  buffer_lt : ∀ b ∈ v.buffer, ∀ r ∈ returned, b < r
  /-- A local match has been returned, is in the buffer, or comes below the bound. -/
  kept : ∀ x, site.Found v.saved x → ∀ z, site.resolveBridgeId x = some z →
    z ∈ returned ∨ z ∈ v.buffer ∨ olderThan v.untilId x = true
  local_lt : ∀ x ∈ site.localBelow v.saved v.untilId, ∀ z, site.resolveBridgeId x = some z →
    z ∉ returned → ∀ r ∈ returned, z < r
  asks_lt : ∀ x, site.Later v.asks x → ∀ z, site.resolveBridgeId x = some z →
    ∀ r ∈ returned, z < r

theorem inv_first (saved : List Int) : Inv site [] (View.first saved) where
  returned_desc := .nil
  buffer_desc := .nil
  buffer_lt := by simp
  kept := fun _ _ _ _ => .inr (.inr rfl)
  local_lt := by simp
  asks_lt := by simp

theorem reads_of_buffer (h : limit ≤ v.buffer.length) : v.reads site limit = v.buffer :=
  if_pos h

theorem mem_reads_iff (h : ¬ limit ≤ v.buffer.length) {z : Int} :
    z ∈ v.reads site limit ↔ ∃ x, (x ∈ v.buffer ∨ x ∈ site.searchLocalDb v.saved limit v.untilId ∨
      x ∈ (v.answer site limit).1) ∧ site.resolveBridgeId x = some z := by
  rw [View.reads, if_neg h, Site.resolveBridgeIdsForSearch, List.mem_filterMap]
  simp only [List.mem_append, or_assoc]

theorem later_of_answer {x : Int} (h : x ∈ (v.answer site limit).1) : site.Later v.asks x := by
  rw [View.answer] at h
  cases hasks : v.asks with
  | none => simp [hasks] at h
  | some cursor =>
    rw [hasks] at h
    exact .page h

theorem later_of_next {x : Int} (h : site.Later (v.next site limit).asks x) :
    site.Later v.asks x := by
  rw [View.next] at h
  split at h
  · exact h
  · rw [View.answer] at h
    cases hasks : v.asks with
    | none =>
      rw [hasks] at h
      cases h
    | some cursor =>
      rw [hasks] at h
      exact .next h

/-- The posts of the buffer are read, as they are. -/
theorem Inv.buffer_reads (ho : InOrder site returned v limit) {b : Int} (hb : b ∈ v.buffer) :
    b ∈ v.reads site limit := by
  by_cases hlen : limit ≤ v.buffer.length
  · rwa [reads_of_buffer hlen]
  · exact (mem_reads_iff hlen).mpr ⟨b, .inl hb, ho.buffer b hb⟩

/-- Whatever a page is made of is older than what was returned. -/
theorem Inv.reads_lt (hi : Inv site returned v) (ho : InOrder site returned v limit) {z : Int}
    (hz : z ∈ v.reads site limit) : ∀ r ∈ returned, z < r := by
  by_cases hlen : limit ≤ v.buffer.length
  · rw [reads_of_buffer hlen] at hz
    exact hi.buffer_lt z hz
  · obtain ⟨x, hx, hxz⟩ := (mem_reads_iff hlen).mp hz
    rcases hx with hx | hx | hx
    · rw [ho.buffer x hx, Option.some.injEq] at hxz
      rw [← hxz]
      exact hi.buffer_lt x hx
    · have hbelow := List.mem_of_mem_take hx
      exact hi.local_lt x hbelow z hxz fun hr => ho.unread x hbelow z hr hxz
    · exact hi.asks_lt x (later_of_answer hx) z hxz

theorem Inv.page_eq (hi : Inv site returned v) :
    v.page site limit = (sortDedup (v.reads site limit)).take limit := by
  rw [View.page]
  split
  · rename_i hlen
    rw [reads_of_buffer hlen, sortDedup_of_pairwise hi.buffer_desc]
  · rfl

theorem Inv.next_buffer (hi : Inv site returned v) :
    (v.next site limit).buffer = (sortDedup (v.reads site limit)).drop limit := by
  rw [View.next]
  split
  · rename_i hlen
    rw [reads_of_buffer hlen, sortDedup_of_pairwise hi.buffer_desc]
  · rfl

/-- What is read is on the page or in the buffer after it. -/
theorem Inv.mem_page_or_buffer (hi : Inv site returned v) {z : Int}
    (hz : z ∈ v.reads site limit) :
    z ∈ v.page site limit ∨ z ∈ (v.next site limit).buffer := by
  rw [hi.page_eq, hi.next_buffer, ← List.mem_append, List.take_append_drop]
  exact mem_sortDedup.mpr hz

theorem Inv.reads_of_page (hi : Inv site returned v) {p : Int} (hp : p ∈ v.page site limit) :
    p ∈ v.reads site limit := by
  rw [hi.page_eq] at hp
  exact mem_sortDedup.mp (List.mem_of_mem_take hp)

theorem Inv.buffer_lt_page (hi : Inv site returned v) {b p : Int}
    (hb : b ∈ (v.next site limit).buffer) (hp : p ∈ v.page site limit) : b < p := by
  have hsorted := pairwise_sortDedup (v.reads site limit)
  rw [← List.take_append_drop limit (sortDedup _)] at hsorted
  rw [hi.next_buffer] at hb
  rw [hi.page_eq] at hp
  exact (List.pairwise_append.mp hsorted).2.2 p hp b hb

/-- What is left unread is older than the page. -/
theorem Inv.leaves_lt (hi : Inv site returned v) (ho : InOrder site returned v limit) {z p : Int}
    (hz : v.Leaves site limit z) (hp : p ∈ v.page site limit) : z < p := by
  rcases ho.covered z hz with h | h
  · rw [hi.page_eq] at hp
    exact lt_of_mem_take (pairwise_sortDedup _) h hp
  · exact h p (hi.reads_of_page hp)

theorem mem_localBelow_of_unread {x : Int} (h : x ∈ v.unreadLocal site limit) :
    x ∈ site.localBelow v.saved v.untilId := by
  rw [View.unreadLocal] at h
  split at h
  · exact h
  · exact List.mem_of_mem_drop h

/-- The bound after a page is above the local matches it leaves unread. -/
theorem olderThan_of_unread {x : Int} (h : x ∈ v.unreadLocal site limit) :
    olderThan (v.next site limit).untilId x = true := by
  have hbelow := mem_localBelow_of_unread h
  rw [View.unreadLocal] at h
  rw [View.next]
  split at h
  · rename_i hlen
    rw [if_pos hlen]
    exact (mem_localBelow.mp hbelow).2
  · rename_i hlen
    rw [if_neg hlen]
    cases hlast : (site.searchLocalDb v.saved limit v.untilId).getLast? with
    | none => rfl
    | some last =>
      have hsorted : (site.localBelow v.saved v.untilId).Pairwise (· > ·) := pairwise_sortDedup _
      rw [← List.take_append_drop limit (site.localBelow v.saved v.untilId)] at hsorted
      have hlt := (List.pairwise_append.mp hsorted).2.2 last (List.mem_of_getLast? hlast) x h
      exact decide_eq_true hlt

/-- A local match after the page has been returned, is read, or is left unread. -/
theorem Inv.found_cases (hi : Inv site returned v) (ho : InOrder site returned v limit) {x z : Int}
    (h : site.Found (v.next site limit).saved x) (hz : site.resolveBridgeId x = some z) :
    z ∈ returned ∨ z ∈ v.reads site limit ∨ x ∈ v.unreadLocal site limit := by
  by_cases hlen : limit ≤ v.buffer.length
  · have hsaved : (v.next site limit).saved = v.saved := by rw [View.next, if_pos hlen]
    rw [hsaved] at h
    rcases hi.kept x h z hz with hr | hb | hold
    · exact .inl hr
    · exact .inr (.inl (Inv.buffer_reads ho hb))
    · rw [View.unreadLocal, if_pos hlen]
      exact .inr (.inr (mem_localBelow.mpr ⟨h, hold⟩))
  · have hsaved : (v.next site limit).saved = v.saved ++ (v.answer site limit).1 := by
      rw [View.next, if_neg hlen]
    have hnew : site.Found v.saved x ∨ x ∈ (v.answer site limit).1 := by
      rw [hsaved, Site.Found, List.mem_append] at h
      rw [Site.Found]
      tauto
    rcases hnew with h | hanswer
    · rcases hi.kept x h z hz with hr | hb | hold
      · exact .inl hr
      · exact .inr (.inl (Inv.buffer_reads ho hb))
      · have hbelow := mem_localBelow.mpr ⟨h, hold⟩
        rw [← List.take_append_drop limit (site.localBelow v.saved v.untilId),
          List.mem_append] at hbelow
        rcases hbelow with hread | hunread
        · exact .inr (.inl ((mem_reads_iff hlen).mpr ⟨x, .inr (.inl hread), hz⟩))
        · rw [View.unreadLocal, if_neg hlen]
          exact .inr (.inr hunread)
    · exact .inr (.inl ((mem_reads_iff hlen).mpr ⟨x, .inr (.inr hanswer), hz⟩))

/-- A page in order keeps the invariant. -/
theorem inv_next (hi : Inv site returned v) (ho : InOrder site returned v limit) :
    Inv site (returned ++ v.page site limit) (v.next site limit) where
  returned_desc := by
    refine List.pairwise_append.mpr ⟨hi.returned_desc, ?_, fun r hr p hp => ?_⟩
    · rw [hi.page_eq]
      exact (pairwise_sortDedup _).sublist (List.take_sublist _ _)
    · exact hi.reads_lt ho (hi.reads_of_page hp) r hr
  buffer_desc := by
    rw [hi.next_buffer]
    exact (pairwise_sortDedup _).sublist (List.drop_sublist _ _)
  buffer_lt := by
    intro b hb r hr
    rcases List.mem_append.mp hr with hr | hp
    · rw [hi.next_buffer] at hb
      exact hi.reads_lt ho (mem_sortDedup.mp (List.mem_of_mem_drop hb)) r hr
    · exact hi.buffer_lt_page hb hp
  kept := by
    intro x hx z hz
    rw [List.mem_append]
    rcases hi.found_cases ho hx hz with hr | hread | hunread
    · exact .inl (.inl hr)
    · rcases hi.mem_page_or_buffer hread with hp | hb
      · exact .inl (.inr hp)
      · exact .inr (.inl hb)
    · exact .inr (.inr (olderThan_of_unread hunread))
  local_lt := by
    intro x hx z hz hnew r hr
    rw [List.mem_append, not_or] at hnew
    rcases hi.found_cases ho (mem_localBelow.mp hx).1 hz with hret | hread | hunread
    · exact absurd hret hnew.1
    · have hb := (hi.mem_page_or_buffer hread).resolve_left hnew.2
      rcases List.mem_append.mp hr with hr | hp
      · exact hi.reads_lt ho hread r hr
      · exact hi.buffer_lt_page hb hp
    · rcases List.mem_append.mp hr with hr | hp
      · exact hi.local_lt x (mem_localBelow_of_unread hunread) z hz hnew.1 r hr
      · exact hi.leaves_lt ho ⟨x, .inl hunread, hz⟩ hp
  asks_lt := by
    intro x hx z hz r hr
    rcases List.mem_append.mp hr with hr | hp
    · exact hi.asks_lt x (later_of_next hx) z hz r hr
    · exact hi.leaves_lt ho ⟨x, .inr hx, hz⟩ hp

/-! ## How many pages -/

/-- Every post shown comes from one of the two sides. -/
structure Known (site : Site) (returned : List Int) (v : View) : Prop where
  shown : ∀ z ∈ returned ++ v.buffer,
    ∃ x ∈ site.localMatches ++ site.appviewMatches, site.resolveBridgeId x = some z
  saved : ∀ x ∈ v.saved, x ∈ site.appviewMatches

theorem answer_mem {x : Int} (h : x ∈ (v.answer site limit).1) : x ∈ site.appviewMatches := by
  rw [View.answer] at h
  split at h
  · exact site.appview_mem _ _ x h
  · simp at h

theorem known_next (hk : Known site returned v) (hi : Inv site returned v)
    (ho : InOrder site returned v limit) :
    Known site (returned ++ v.page site limit) (v.next site limit) where
  shown := by
    have hread : ∀ z ∈ v.reads site limit,
        ∃ x ∈ site.localMatches ++ site.appviewMatches, site.resolveBridgeId x = some z := by
      intro z hz
      by_cases hlen : limit ≤ v.buffer.length
      · rw [reads_of_buffer hlen] at hz
        exact hk.shown z (List.mem_append_right _ hz)
      · obtain ⟨x, hx, hxz⟩ := (mem_reads_iff hlen).mp hz
        rcases hx with hx | hx | hx
        · rw [ho.buffer x hx, Option.some.injEq] at hxz
          rw [← hxz]
          exact hk.shown x (List.mem_append_right _ hx)
        · refine ⟨x, ?_, hxz⟩
          rcases (mem_localBelow.mp (List.mem_of_mem_take hx)).1 with hl | hs
          · exact List.mem_append_left _ hl
          · exact List.mem_append_right _ (hk.saved x hs.1)
        · exact ⟨x, List.mem_append_right _ (answer_mem hx), hxz⟩
    intro z hz
    rw [List.append_assoc, List.mem_append, hi.page_eq, hi.next_buffer, List.take_append_drop] at hz
    rcases hz with hr | hz
    · exact hk.shown z (List.mem_append_left _ hr)
    · exact hread z (mem_sortDedup.mp hz)
  saved := by
    intro x hx
    rw [View.next] at hx
    split at hx
    · exact hk.saved x hx
    · rcases List.mem_append.mp hx with hx | hx
      · exact hk.saved x hx
      · exact answer_mem hx

end

/-- A step takes one page of the view. -/
theorem step_view {site : Site} {r r' : Reader} {a : Option Int × String}
    (h : (sessions site).step r a = some r') :
    r'.pages = r.pages ++ [r.view.page site (pageLimit a.1)] ∧
      r'.view = r.view.next site (pageLimit a.1) := by
  obtain rfl := Option.some.inj h
  have hview := searchNotes_view site ⟨a.1, r.sessionId⟩ a.2 r.st
  exact ⟨congrArg (fun page => r.pages ++ [page]) hview.1, hview.2⟩

theorem returned_step {site : Site} {r r' : Reader} {a : Option Int × String}
    (h : (sessions site).step r a = some r') :
    r'.returned = r.returned ++ r.view.page site (pageLimit a.1) := by
  rw [Reader.returned, (step_view h).1, List.flatten_append, List.flatten_singleton]
  rfl

/-- The pages of a view at the limits of the requests. -/
def View.pages (site : Site) : View → List Nat → List (List Int)
  | _, [] => []
  | v, limit :: limits => v.page site limit :: (v.next site limit).pages site limits

theorem run_pages {site : Site} {r r' : Reader} {requests : List (Option Int × String)}
    (h : (sessions site).run r requests = some r') :
    r'.pages = r.pages ++ r.view.pages site (requests.map fun a => pageLimit a.1) := by
  induction requests generalizing r with
  | nil =>
    obtain rfl := Option.some.inj h
    exact (List.append_nil _).symm
  | cons a requests ih =>
    obtain ⟨r₁, hs, hr⟩ := (sessions site).run_cons_eq_some.mp h
    rw [ih hr, (step_view hs).1, (step_view hs).2, List.append_assoc]
    rfl

/-- Every request is answered. -/
theorem exists_run (site : Site) (r : Reader) (requests : List (Option Int × String)) :
    ∃ r', (sessions site).run r requests = some r' := by
  induction requests generalizing r with
  | nil => exact ⟨r, rfl⟩
  | cons a requests ih =>
    obtain ⟨r', hr⟩ := ih _
    exact ⟨r', (sessions site).run_cons_eq_some.mpr ⟨_, rfl, hr⟩⟩

/-- Every request of the session is in order. -/
def Orderly (site : Site) (r : Reader) (a : Option Int × String) : Prop :=
  InOrder site r.returned r.view (pageLimit a.1)

/-- What a session keeps while its requests are in order. -/
theorem run_inv {site : Site} {store : SearchStore} {requests : List (Option Int × String)}
    {r : Reader} (ho : (sessions site).Along (Orderly site) (.start store) requests)
    (hr : (sessions site).run (.start store) requests = some r) :
    Inv site r.returned r.view ∧ Known site r.returned r.view := by
  refine (sessions site).run_inv_along
    (I := fun r => Inv site r.returned r.view ∧ Known site r.returned r.view) ?_ ?_ ho hr
  · intro r a r' hi ho hs
    rw [returned_step hs, (step_view hs).2]
    exact ⟨inv_next hi.1 ho, known_next hi.2 hi.1 ho⟩
  · exact ⟨inv_first [], ⟨by simp [Reader.start, Reader.returned, Reader.view, viewOf, View.first],
      by simp [Reader.start, Reader.view, viewOf, View.first]⟩⟩

/-- There are no more pages with posts on them than posts. -/
theorem length_filter_pages_le (pages : List (List Int)) :
    (pages.filter (· ≠ [])).length ≤ pages.flatten.length := by
  induction pages with
  | nil => simp
  | cons page pages ih =>
    cases page with
    | nil => simpa using ih
    | cons x page =>
      rw [List.filter_cons_of_pos (by simp), List.flatten_cons, List.length_append,
        List.length_cons, List.length_cons]
      omega

theorem Known.length_le {site : Site} {returned : List Int} {v : View} (hk : Known site returned v)
    (hn : returned.Nodup) :
    returned.length ≤ (site.localMatches ++ site.appviewMatches).length := by
  have hsub : returned ⊆ (site.localMatches ++ site.appviewMatches).filterMap site.resolveBridgeId := by
    intro z hz
    obtain ⟨x, hx, hxz⟩ := hk.shown z (List.mem_append_left _ hz)
    exact List.mem_filterMap.mpr ⟨x, hx, hxz⟩
  calc returned.length
      ≤ ((site.localMatches ++ site.appviewMatches).filterMap site.resolveBridgeId).length :=
        (hn.subperm hsub).length_le
    _ ≤ (site.localMatches ++ site.appviewMatches).length := List.length_filterMap_le _ _

/-- The pages of a session whose requests are all in order. -/
theorem session_inOrder (site : Site) (store : SearchStore)
    (requests : List (Option Int × String)) (r : Reader)
    (ho : (sessions site).Along (Orderly site) (.start store) requests)
    (hr : (sessions site).run (.start store) requests = some r) :
    r.returned.Nodup ∧ r.returned.Pairwise (· > ·) ∧
      (∀ x ∈ site.localMatches, ∀ z, site.resolveBridgeId x = some z →
        ∀ last, r.returned.getLast? = some last → last < z → z ∈ r.returned) ∧
      (r.pages.filter (· ≠ [])).length ≤ (site.localMatches ++ site.appviewMatches).length := by
  obtain ⟨hi, hk⟩ := run_inv ho hr
  have hnodup : r.returned.Nodup := hi.returned_desc.imp fun h => (ne_of_lt h).symm
  refine ⟨hnodup, hi.returned_desc, ?_, ?_⟩
  · intro x hx z hz last hlast hlt
    have hmem := List.mem_of_getLast? hlast
    by_contra hnew
    rcases hi.kept x (.inl hx) z hz with hret | hb | hold
    · exact hnew hret
    · have := hi.buffer_lt z hb last hmem
      omega
    · have := hi.local_lt x (mem_localBelow.mpr ⟨.inl hx, hold⟩) z hz hnew last hmem
      omega
  · exact (length_filter_pages_le r.pages).trans (hk.length_le hnodup)

theorem olderThan_none : olderThan none = fun _ => true := rfl

theorem olderThan_some (uid : Int) : olderThan (some uid) = fun id => decide (id < uid) := rfl

/-- Without bridge posts the ids stay what they are. -/
theorem resolve_of_no_bridges (site : Site) (h : ∀ id, site.resolveBridgeId id = some id)
    (ids : List Int) : site.resolveBridgeIdsForSearch ids = ids := by
  rw [Site.resolveBridgeIdsForSearch, show site.resolveBridgeId = some from funext h,
    List.filterMap_some]

/-- AppView has one post, older than the two local ones. -/
def oneOlder : Site where
  localMatches := [3, 2]
  appviewMatches := [1]
  appview cursor _ := if cursor = none then ([1], none) else ([], none)
  appview_mem := by
    intro cursor limit id h
    split at h
    · exact h
    · simp at h
  matchesLocally _ := false
  bridgeOf _ := none
  isBridge _ := false

theorem session_inOrder_oneOlder :
    ∃ r, (sessions oneOlder).run (.start fun _ => none) [(some 2, "a"), (some 2, "b")] = some r ∧
      r.returned.Nodup ∧ r.returned.Pairwise (· > ·) ∧
      (∀ x ∈ oneOlder.localMatches, ∀ z, oneOlder.resolveBridgeId x = some z →
        ∀ last, r.returned.getLast? = some last → last < z → z ∈ r.returned) ∧
      (r.pages.filter (· ≠ [])).length ≤
        (oneOlder.localMatches ++ oneOlder.appviewMatches).length := by
  have hsort : sortDedup [3, 2, 1] = [3, 2, 1] := sortDedup_of_pairwise (by decide)
  have hlocal : sortDedup [3, 2] = [3, 2] := sortDedup_of_pairwise (by decide)
  have hnil : sortDedup [] = [] := sortDedup_of_pairwise .nil
  have hlimit : pageLimit (some 2) = 2 := by decide
  have hids := resolve_of_no_bridges oneOlder fun _ => rfl
  have hsaved (saved : List Int) : saved.filter oneOlder.matchesLocally = [] := by
    simp [oneOlder]
  have hbelow : oneOlder.localBelow [] none = [3, 2] := by
    rw [Site.localBelow, hsaved, olderThan_none]
    exact hlocal
  have hread : (View.first []).reads oneOlder 2 = [3, 2, 1] := by
    rw [View.reads, if_neg (by decide), hids, Site.searchLocalDb]
    simp only [View.first, hbelow]
    rfl
  have hnext : (View.first []).next oneOlder 2 = ⟨[1], some 2, none, [1]⟩ := by
    rw [View.next, if_neg (by decide), hread, hsort, Site.searchLocalDb]
    simp only [View.first, hbelow]
    rfl
  have hlater (x : Int) : ¬ oneOlder.Later none x := nofun
  have hfirst : Orderly oneOlder (.start fun _ => none) (some 2, "a") := by
    refine ⟨by simp [Reader.start, Reader.returned], by simp [Reader.start, Reader.view, viewOf,
      View.first], ?_⟩
    rintro z ⟨x, hx, -⟩
    rw [show (Reader.start fun _ => none).view = View.first [] from rfl, hlimit, hnext] at hx
    rcases hx with hx | hx
    · rw [View.unreadLocal, if_neg (by decide)] at hx
      simp [View.first, hbelow] at hx
    · exact absurd hx (hlater x)
  have hsecond : ∀ r, (sessions oneOlder).step (.start fun _ => none) (some 2, "a") = some r →
      Orderly oneOlder r (some 2, "b") := by
    intro r hr
    have hview : r.view = ⟨[1], some 2, none, [1]⟩ := by
      rw [(step_view hr).2, ← hnext]
      exact congrArg _ hlimit
    rw [Orderly, hview, hlimit]
    have hnone : oneOlder.localBelow [1] (some 2) = [] := by
      rw [Site.localBelow, hsaved, olderThan_some]
      exact hnil
    refine ⟨?_, ?_, ?_⟩
    · simp [hnone]
    · exact fun x _ => rfl
    · rintro z ⟨x, hx, -⟩
      rcases hx with hx | hx
      · rw [View.unreadLocal, if_neg (by decide)] at hx
        simp [hnone] at hx
      · exact absurd hx (hlater x)
  have ho : (sessions oneOlder).Along (Orderly oneOlder) (.start fun _ => none)
      [(some 2, "a"), (some 2, "b")] :=
    ⟨hfirst, fun r hr => ⟨hsecond r hr, fun _ _ => trivial⟩⟩
  obtain ⟨r, hr⟩ := exists_run oneOlder (.start fun _ => none) [(some 2, "a"), (some 2, "b")]
  exact ⟨r, hr, session_inOrder oneOlder _ _ r ho hr⟩

/-- AppView goes on when the one local match has been returned. -/
def localEnds : Site where
  localMatches := [10]
  appviewMatches := [9, 8, 7]
  appview cursor _ :=
    if cursor = none then ([9], some "1")
    else if cursor = some "1" then ([8], some "2")
    else ([7], none)
  appview_mem := by
    intro cursor limit id h
    split at h
    · simp_all
    · split at h <;> simp_all
  matchesLocally _ := false
  bridgeOf _ := none
  isBridge _ := false

/-- The third request finds no local match and loses the bound, so the fourth reads the
local matches again. -/
theorem session_inOrder_counterexample :
    ∃ r, (sessions localEnds).run (.start fun _ => none)
        [(some 1, "a"), (some 1, "b"), (some 1, "c"), (some 1, "d")] = some r ∧
      r.pages = [[10], [9], [8], [10]] := by
  obtain ⟨r, hr⟩ := exists_run localEnds (.start fun _ => none)
    [(some 1, "a"), (some 1, "b"), (some 1, "c"), (some 1, "d")]
  refine ⟨r, hr, (run_pages hr).trans ?_⟩
  have h1 : sortDedup [10, 9] = [10, 9] := sortDedup_of_pairwise (by decide)
  have h2 : sortDedup [10, 7] = [10, 7] := sortDedup_of_pairwise (by decide)
  have h3 (x : Int) : sortDedup [x] = [x] := sortDedup_of_pairwise (List.pairwise_singleton _ x)
  have h4 : sortDedup [] = [] := sortDedup_of_pairwise .nil
  have hlimit : pageLimit (some 1) = 1 := by decide
  have hids := resolve_of_no_bridges localEnds fun _ => rfl
  have hall (saved : List Int) : localEnds.localBelow saved none = [10] := by
    simp [Site.localBelow, localEnds, olderThan_none, h3]
  have hbelow (saved : List Int) : localEnds.localBelow saved (some 10) = [] := by
    simp [Site.localBelow, localEnds, olderThan_some, h4]
  have hfirst : localEnds.appview none 1 = ([9], some "1") := rfl
  have hsecond : localEnds.appview (some "1") 1 = ([8], some "2") := by decide
  have hthird : localEnds.appview (some "2") 1 = ([7], none) := by decide
  have hview : (Reader.start fun _ => none).view = ⟨[], none, some none, []⟩ := rfl
  rw [hview]
  simp [Reader.start, View.pages, View.page, View.next, View.reads, View.answer,
    Site.searchLocalDb, hids, hall, hbelow, hfirst, hsecond, hthird, hlimit, h1, h2, h3]

end Seiran.Search
