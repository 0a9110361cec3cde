import Mathlib.Data.List.Basic

/-!
# Reading pages along links

A client reads the items of a collection: those it has itself, or those of a first
page and of the pages that follow by their links. Where the links lead is up to a
server; the client stops at a number of elements, at an element that says so, at a
page it does not get and at the last page.

* `follow_length_le`, `read_length_le`: it has no more elements than it may have;
* `follow_requests_iff`: it makes no more than so many requests exactly if there is
  no path of that many pages that leaves room for more;
* `read_of_pages`, `pages_of_read`: what it has when it reads to the last page.
-/

namespace Seiran.Links

variable {Url Page Item α : Type}

inductive First (Url Page : Type) where
  | url (u : Url)
  | page (p : Page)
  | none

structure Reader (Url Page Item α : Type) where
  get : Url → Option Page
  /-- The items of a page, if it has a list of them. -/
  inline : Page → Option (List Item)
  first : Page → First Url Page
  next : Page → Option Url
  extract : Item → Option α
  isEnd : α → Bool

inductive Ending where
  | last
  | stopped
  | full
  | failed
deriving DecidableEq

structure Outcome (α : Type) where
  taken : List α
  requests : Nat
  ending : Ending

/-- One request more -/
def Outcome.more (o : Outcome α) : Outcome α := { o with requests := o.requests + 1 }

namespace Reader

variable (R : Reader Url Page Item α) (limit : Nat)

def items (page : Page) : List Item := (R.inline page).getD []

/-- The elements of some pages -/
def elements (pages : List Page) : List α := (pages.flatMap R.items).filterMap R.extract

/-- The elements of the items, and whether they end the reading. -/
def collect : List Item → List α → List α × Bool
  | [], taken => (taken, false)
  | item :: items, taken =>
    if limit ≤ taken.length then (taken, true)
    else
      match R.extract item with
      | some a => if R.isEnd a then (taken, true) else collect items (taken ++ [a])
      | none => collect items taken

/-- The loop over the pages. `none` is for a loop that has not ended yet. -/
def follow : Nat → Option Url → List α → Option (Outcome α)
  | _, none, taken => some ⟨taken, 0, .last⟩
  | 0, some _, _ => none
  | fuel + 1, some url, taken =>
    if limit ≤ taken.length then some ⟨taken, 0, .full⟩
    else
      match R.get url with
      | none => some ⟨taken, 1, .failed⟩
      | some page =>
        match R.collect limit (R.items page) taken with
        | (taken, true) => some ⟨taken, 1, .stopped⟩
        | (taken, false) => (follow fuel (R.next page) taken).map Outcome.more

def read (fuel : Nat) (collection : Page) : Option (Outcome α) :=
  match R.inline collection with
  | some items =>
    match R.collect limit items [] with
    | (taken, true) => some ⟨taken, 0, .stopped⟩
    | (taken, false) => some ⟨taken, 0, .last⟩
  | none =>
    match R.first collection with
    | .url u => R.follow limit fuel (some u) []
    | .page p =>
      match R.collect limit (R.items p) [] with
      | (taken, true) => some ⟨taken, 0, .stopped⟩
      | (taken, false) => R.follow limit fuel (R.next p) taken
    | .none => some ⟨[], 0, .last⟩

/-- Pages that follow one another from a link, and the link after them. -/
inductive Path : Url → List Page → Url → Prop where
  | nil (u : Url) : Path u [] u
  | cons {u v w : Url} {page : Page} {pages : List Page} :
      R.get u = some page → R.next page = some v → Path v pages w → Path u (page :: pages) w

/-- All the pages from a link on -/
inductive Chain : Option Url → List Page → Prop where
  | nil : Chain none []
  | cons {u : Url} {page : Page} {pages : List Page} :
      R.get u = some page → Chain (R.next page) pages → Chain (some u) (page :: pages)

/-- The pages that are read of a collection if nothing ends the reading. -/
inductive Pages (collection : Page) : List Page → Prop where
  | inline {items : List Item} : R.inline collection = some items → Pages collection [collection]
  | url {u : Url} {pages : List Page} : R.inline collection = none →
      R.first collection = .url u → R.Chain (some u) pages → Pages collection pages
  | page {p : Page} {pages : List Page} : R.inline collection = none →
      R.first collection = .page p → R.Chain (R.next p) pages → Pages collection (p :: pages)
  | none : R.inline collection = none → R.first collection = .none → Pages collection []

/-- The first link that is followed, after the page the collection has in it -/
inductive Opening (collection : Page) : List Page → Url → Prop where
  | url {u : Url} : R.inline collection = none → R.first collection = .url u → Opening collection [] u
  | page {p : Page} {u : Url} : R.inline collection = none → R.first collection = .page p →
      R.next p = some u → Opening collection [p] u

/-- There is room for one more after these, and none of them ends the reading. -/
structure Room (taken more : List α) : Prop where
  length : taken.length + more.length < limit
  noEnd : ∀ a ∈ more, R.isEnd a = false

variable {R} {limit fuel n : Nat} {taken : List α} {items : List Item} {url : Url}
  {start : Option Url} {o : Outcome α} {page collection : Page} {pages : List Page}

theorem elements_cons (page : Page) (pages : List Page) :
    R.elements (page :: pages) = (R.items page).filterMap R.extract ++ R.elements pages := by
  rw [elements, List.flatMap_cons, List.filterMap_append]
  rfl

theorem elements_singleton (page : Page) :
    R.elements [page] = (R.items page).filterMap R.extract := by
  rw [elements_cons]
  exact List.append_nil _

/-! ## One page -/

theorem collect_length_le (h : taken.length ≤ limit) :
    (R.collect limit items taken).1.length ≤ limit := by
  induction items generalizing taken with
  | nil => exact h
  | cons item items ih =>
    rw [collect]
    split
    · exact h
    · split
      · split
        · exact h
        · refine ih ?_
          rw [List.length_append, List.length_singleton]
          omega
      · exact ih h

theorem collect_of_not_stopped (h : (R.collect limit items taken).2 = false) :
    R.collect limit items taken = (taken ++ items.filterMap R.extract, false) ∧
      ∀ a ∈ items.filterMap R.extract, R.isEnd a = false := by
  induction items generalizing taken with
  | nil => exact ⟨by rw [List.filterMap_nil, List.append_nil]; rfl, by simp⟩
  | cons item items ih =>
    rw [collect] at h ⊢
    by_cases hfull : limit ≤ taken.length
    · rw [if_pos hfull] at h
      cases h
    · rw [if_neg hfull] at h ⊢
      cases hitem : R.extract item with
      | none =>
        simp only [hitem] at h ⊢
        rw [List.filterMap_cons_none hitem]
        exact ih h
      | some a =>
        simp only [hitem] at h ⊢
        by_cases hend : R.isEnd a = true
        · rw [if_pos hend] at h
          cases h
        · rw [if_neg hend] at h ⊢
          obtain ⟨hcollect, hnoEnd⟩ := ih h
          rw [List.filterMap_cons_some hitem, hcollect, List.append_assoc]
          refine ⟨rfl, fun b hb => ?_⟩
          obtain rfl | hb := List.mem_cons.mp hb
          · exact Bool.eq_false_iff.mpr hend
          · exact hnoEnd b hb

theorem collect_of_room (h : R.Room limit taken (items.filterMap R.extract)) :
    R.collect limit items taken = (taken ++ items.filterMap R.extract, false) := by
  induction items generalizing taken with
  | nil =>
    rw [List.filterMap_nil, List.append_nil]
    rfl
  | cons item items ih =>
    have hlen := h.length
    rw [collect, if_neg (by omega)]
    cases hitem : R.extract item with
    | none =>
      rw [List.filterMap_cons_none hitem] at h ⊢
      exact ih h
    | some a =>
      rw [List.filterMap_cons_some hitem] at h hlen ⊢
      have hrest : R.Room limit (taken ++ [a]) (items.filterMap R.extract) := by
        refine ⟨?_, fun b hb => h.noEnd b (List.mem_cons_of_mem a hb)⟩
        rw [List.length_append, List.length_singleton]
        rw [List.length_cons] at hlen
        omega
      have hend : ¬ R.isEnd a = true := by
        rw [h.noEnd a List.mem_cons_self]
        decide
      show (if R.isEnd a then (taken, true) else R.collect limit items (taken ++ [a])) = _
      rw [if_neg hend, ih hrest, List.append_assoc]
      rfl

/-- Room after some pages, as it is left by the first of them -/
theorem room_cons_iff (hnoEnd : ∀ a ∈ (R.items page).filterMap R.extract, R.isEnd a = false) :
    R.Room limit taken (R.elements (page :: pages)) ↔
      R.Room limit (taken ++ (R.items page).filterMap R.extract) (R.elements pages) := by
  rw [elements_cons]
  constructor
  · intro h
    refine ⟨?_, fun a ha => h.noEnd a (List.mem_append_right _ ha)⟩
    have hlen := h.length
    rw [List.length_append] at hlen ⊢
    omega
  · intro h
    refine ⟨?_, fun a ha => ?_⟩
    · have hlen := h.length
      rw [List.length_append] at hlen ⊢
      omega
    · obtain ha | ha := List.mem_append.mp ha
      · exact hnoEnd a ha
      · exact h.noEnd a ha

theorem Room.first (h : R.Room limit taken (R.elements (page :: pages))) :
    R.Room limit taken ((R.items page).filterMap R.extract) := by
  rw [elements_cons] at h
  refine ⟨?_, fun a ha => h.noEnd a (List.mem_append_left _ ha)⟩
  have hlen := h.length
  rw [List.length_append] at hlen
  omega

/-! ## The loop -/

/-- What a round of the loop finds. -/
inductive Round (R : Reader Url Page Item α) (limit : Nat) (url : Url) (taken : List α) : Prop where
  | full : limit ≤ taken.length → Round R limit url taken
  | failed : taken.length < limit → R.get url = none → Round R limit url taken
  | stopped {page : Page} : taken.length < limit → R.get url = some page →
      (R.collect limit (R.items page) taken).2 = true → Round R limit url taken
  | next {page : Page} : taken.length < limit → R.get url = some page →
      R.collect limit (R.items page) taken = (taken ++ (R.items page).filterMap R.extract, false) →
      (∀ a ∈ (R.items page).filterMap R.extract, R.isEnd a = false) → Round R limit url taken

theorem round (R : Reader Url Page Item α) (limit : Nat) (url : Url) (taken : List α) : R.Round limit url taken := by
  by_cases hfull : limit ≤ taken.length
  · exact .full hfull
  · cases hget : R.get url with
    | none => exact .failed (Nat.not_le.mp hfull) hget
    | some page =>
      cases hstop : (R.collect limit (R.items page) taken).2 with
      | true => exact .stopped (Nat.not_le.mp hfull) hget hstop
      | false =>
        obtain ⟨hcollect, hnoEnd⟩ := collect_of_not_stopped hstop
        exact .next (Nat.not_le.mp hfull) hget hcollect hnoEnd

theorem follow_none (R : Reader Url Page Item α) (limit fuel : Nat) (taken : List α) :
    R.follow limit fuel none taken = some ⟨taken, 0, .last⟩ := by
  cases fuel <;> rfl

theorem follow_full (h : limit ≤ taken.length) :
    R.follow limit (fuel + 1) (some url) taken = some ⟨taken, 0, .full⟩ := by
  rw [follow, if_pos h]

theorem follow_failed (h : taken.length < limit) (hget : R.get url = none) :
    R.follow limit (fuel + 1) (some url) taken = some ⟨taken, 1, .failed⟩ := by
  rw [follow, if_neg (by omega), hget]

theorem follow_stopped (h : taken.length < limit) (hget : R.get url = some page)
    (hstop : (R.collect limit (R.items page) taken).2 = true) :
    R.follow limit (fuel + 1) (some url) taken =
      some ⟨(R.collect limit (R.items page) taken).1, 1, .stopped⟩ := by
  have hpair : R.collect limit (R.items page) taken = ((R.collect limit (R.items page) taken).1, true) := by
    rw [← hstop]
  rw [follow, if_neg (by omega), hget]
  simp only
  rw [hpair]

theorem follow_next (h : taken.length < limit) (hget : R.get url = some page)
    (hcollect : R.collect limit (R.items page) taken =
      (taken ++ (R.items page).filterMap R.extract, false)) :
    R.follow limit (fuel + 1) (some url) taken =
      (R.follow limit fuel (R.next page) (taken ++ (R.items page).filterMap R.extract)).map
        Outcome.more := by
  rw [follow, if_neg (by omega), hget]
  simp only
  rw [hcollect]

theorem follow_length_le (h : R.follow limit fuel start taken = some o) (hlen : taken.length ≤ limit) :
    o.taken.length ≤ limit := by
  induction fuel generalizing start taken o with
  | zero =>
    cases start with
    | none =>
      obtain rfl := Option.some.inj h
      exact hlen
    | some url => cases h
  | succ fuel ih =>
    cases start with
    | none =>
      obtain rfl := Option.some.inj h
      exact hlen
    | some url =>
      cases R.round limit url taken with
      | full hfull =>
        rw [follow_full hfull] at h
        obtain rfl := Option.some.inj h
        exact hlen
      | failed hlt hget =>
        rw [follow_failed hlt hget] at h
        obtain rfl := Option.some.inj h
        exact hlen
      | stopped hlt hget hstop =>
        rw [follow_stopped hlt hget hstop] at h
        obtain rfl := Option.some.inj h
        exact collect_length_le hlen
      | @next page hlt hget hcollect _ =>
        have hle : (taken ++ (R.items page).filterMap R.extract).length ≤ limit := by
          have hle := @collect_length_le _ _ _ _ R limit taken (R.items page) hlen
          rwa [hcollect] at hle
        rw [follow_next hlt hget hcollect] at h
        obtain ⟨rest, hrest, rfl⟩ := Option.map_eq_some_iff.mp h
        show rest.taken.length ≤ limit
        exact ih hrest hle

/-- Along a path that leaves room all pages are requested, and one more. -/
theorem requests_of_path {v : Url} (hpath : R.Path url pages v)
    (hroom : R.Room limit taken (R.elements pages)) (h : R.follow limit fuel (some url) taken = some o) :
    pages.length < o.requests := by
  induction hpath generalizing taken fuel o with
  | nil url =>
    have hlt : taken.length < limit := hroom.length
    cases fuel with
    | zero => cases h
    | succ fuel =>
      cases R.round limit url taken with
      | full hfull => omega
      | failed hlt hget =>
        rw [follow_failed hlt hget] at h
        obtain rfl := Option.some.inj h
        exact Nat.one_pos
      | stopped hlt hget hstop =>
        rw [follow_stopped hlt hget hstop] at h
        obtain rfl := Option.some.inj h
        exact Nat.one_pos
      | next hlt hget hcollect _ =>
        rw [follow_next hlt hget hcollect] at h
        obtain ⟨rest, -, rfl⟩ := Option.map_eq_some_iff.mp h
        exact Nat.succ_pos _
  | @cons url url' v page pages hget hnext _ ih =>
    have hcollect := collect_of_room hroom.first
    have hlt : taken.length < limit := Nat.lt_of_le_of_lt (Nat.le_add_right _ _) hroom.length
    cases fuel with
    | zero => cases h
    | succ fuel =>
      rw [follow_next hlt hget hcollect, hnext] at h
      obtain ⟨rest, hrest, rfl⟩ := Option.map_eq_some_iff.mp h
      have hless := ih ((room_cons_iff hroom.first.noEnd).mp hroom) hrest
      exact Nat.succ_lt_succ hless

/-- Where no path of `n` pages leaves room, the loop ends. -/
theorem exists_follow
    (h : ∀ pages v, R.Path url pages v → pages.length = n → ¬ R.Room limit taken (R.elements pages)) :
    ∃ fuel o, R.follow limit fuel (some url) taken = some o ∧ o.requests ≤ n := by
  induction n generalizing url taken with
  | zero =>
    have hfull : limit ≤ taken.length := by
      by_contra hlt
      exact h [] url (.nil url) rfl ⟨Nat.not_le.mp hlt, fun a ha => absurd ha List.not_mem_nil⟩
    exact ⟨1, _, follow_full hfull, Nat.le_refl 0⟩
  | succ n ih =>
    cases R.round limit url taken with
    | full hfull => exact ⟨1, _, follow_full hfull, Nat.zero_le _⟩
    | failed hlt hget => exact ⟨1, _, follow_failed hlt hget, Nat.succ_le_succ (Nat.zero_le n)⟩
    | stopped hlt hget hstop =>
      exact ⟨1, _, follow_stopped hlt hget hstop, Nat.succ_le_succ (Nat.zero_le n)⟩
    | @next page hlt hget hcollect hnoEnd =>
      have hstep : ∀ fuel, R.follow limit (fuel + 1) (some url) taken =
          (R.follow limit fuel (R.next page) (taken ++ (R.items page).filterMap R.extract)).map
            Outcome.more := fun _ => follow_next hlt hget hcollect
      cases hnext : R.next page with
      | none =>
        rw [hnext] at hstep
        refine ⟨1, _, (by rw [hstep, follow_none]; rfl), Nat.succ_le_succ (Nat.zero_le n)⟩
      | some url' =>
        obtain ⟨fuel, o, hfuel, hle⟩ :=
          @ih (taken ++ (R.items page).filterMap R.extract) url' fun pages v hpath hlen hroom =>
            h (page :: pages) v (.cons hget hnext hpath) (congrArg Nat.succ hlen)
              ((room_cons_iff hnoEnd).mpr hroom)
        refine ⟨fuel + 1, o.more, ?_, Nat.succ_le_succ hle⟩
        rw [hstep, hnext, hfuel]
        rfl

theorem follow_requests_iff :
    (∃ fuel o, R.follow limit fuel (some url) taken = some o ∧ o.requests ≤ n) ↔
      ∀ pages v, R.Path url pages v → pages.length = n → ¬ R.Room limit taken (R.elements pages) := by
  refine ⟨?_, exists_follow⟩
  rintro ⟨fuel, o, h, hle⟩ pages v hpath rfl hroom
  exact absurd (requests_of_path hpath hroom h) (Nat.not_lt.mpr hle)

/-- A loop that ends at the last page has taken all there is. -/
theorem chain_of_follow (h : R.follow limit fuel start taken = some o) (hlast : o.ending = .last) :
    ∃ pages, R.Chain start pages ∧ o.taken = taken ++ R.elements pages := by
  induction fuel generalizing start taken o with
  | zero =>
    cases start with
    | none =>
      obtain rfl := Option.some.inj h
      exact ⟨[], .nil, (List.append_nil _).symm⟩
    | some url => cases h
  | succ fuel ih =>
    cases start with
    | none =>
      obtain rfl := Option.some.inj h
      exact ⟨[], .nil, (List.append_nil _).symm⟩
    | some url =>
      cases R.round limit url taken with
      | full hfull =>
        rw [follow_full hfull] at h
        obtain rfl := Option.some.inj h
        cases hlast
      | failed hlt hget =>
        rw [follow_failed hlt hget] at h
        obtain rfl := Option.some.inj h
        cases hlast
      | stopped hlt hget hstop =>
        rw [follow_stopped hlt hget hstop] at h
        obtain rfl := Option.some.inj h
        cases hlast
      | @next page hlt hget hcollect _ =>
        rw [follow_next hlt hget hcollect] at h
        obtain ⟨rest, hrest, rfl⟩ := Option.map_eq_some_iff.mp h
        obtain ⟨pages, hchain, htaken⟩ := ih hrest hlast
        refine ⟨page :: pages, .cons hget hchain, ?_⟩
        rw [elements_cons, ← List.append_assoc]
        exact htaken

theorem follow_of_chain (hchain : R.Chain start pages) (hroom : R.Room limit taken (R.elements pages)) :
    ∃ fuel o, R.follow limit fuel start taken = some o ∧ o.ending = .last ∧
      o.taken = taken ++ R.elements pages := by
  induction hchain generalizing taken with
  | nil => exact ⟨0, _, rfl, rfl, (List.append_nil _).symm⟩
  | @cons url page pages hget _ ih =>
    have hcollect := collect_of_room hroom.first
    have hlt : taken.length < limit := Nat.lt_of_le_of_lt (Nat.le_add_right _ _) hroom.length
    obtain ⟨fuel, o, h, hlast, htaken⟩ := ih ((room_cons_iff hroom.first.noEnd).mp hroom)
    refine ⟨fuel + 1, o.more, ?_, hlast, ?_⟩
    · rw [follow_next hlt hget hcollect, h]
      rfl
    · rw [elements_cons, ← List.append_assoc]
      exact htaken

/-! ## A collection -/

/-- What a collection begins with. -/
inductive Start (R : Reader Url Page Item α) (limit : Nat) (collection : Page) : Prop where
  | inline {items : List Item} : R.inline collection = some items → Start R limit collection
  | url {u : Url} : R.inline collection = none → R.first collection = .url u → Start R limit collection
  | stopped {page : Page} : R.inline collection = none → R.first collection = .page page →
      (R.collect limit (R.items page) []).2 = true → Start R limit collection
  | page {page : Page} : R.inline collection = none → R.first collection = .page page →
      R.collect limit (R.items page) [] = ((R.items page).filterMap R.extract, false) →
      (∀ a ∈ (R.items page).filterMap R.extract, R.isEnd a = false) → Start R limit collection
  | none : R.inline collection = none → R.first collection = .none → Start R limit collection

theorem starts (R : Reader Url Page Item α) (limit : Nat) (collection : Page) : R.Start limit collection := by
  cases hinline : R.inline collection with
  | some items => exact .inline hinline
  | none =>
    cases hfirst : R.first collection with
    | url u => exact .url hinline hfirst
    | none => exact .none hinline hfirst
    | page page =>
      cases hstop : (R.collect limit (R.items page) []).2 with
      | true => exact .stopped hinline hfirst hstop
      | false =>
        obtain ⟨hcollect, hnoEnd⟩ := collect_of_not_stopped hstop
        exact .page hinline hfirst hcollect hnoEnd

theorem read_inline (h : R.inline collection = some items) :
    R.read limit fuel collection = some ⟨(R.collect limit items []).1, 0,
      if (R.collect limit items []).2 then .stopped else .last⟩ := by
  rw [read, h]
  simp only
  rcases R.collect limit items [] with ⟨taken, _ | _⟩ <;> rfl

theorem read_url (h : R.inline collection = none) (hfirst : R.first collection = .url url) :
    R.read limit fuel collection = R.follow limit fuel (some url) [] := by
  rw [read, h, hfirst]

theorem read_none (h : R.inline collection = none) (hfirst : R.first collection = .none) :
    R.read limit fuel collection = some ⟨[], 0, .last⟩ := by
  rw [read, h, hfirst]

theorem read_stopped (h : R.inline collection = none) (hfirst : R.first collection = .page page)
    (hstop : (R.collect limit (R.items page) []).2 = true) :
    R.read limit fuel collection = some ⟨(R.collect limit (R.items page) []).1, 0, .stopped⟩ := by
  have hpair : R.collect limit (R.items page) [] = ((R.collect limit (R.items page) []).1, true) := by
    rw [← hstop]
  rw [read, h, hfirst]
  simp only
  rw [hpair]

theorem read_page (h : R.inline collection = none) (hfirst : R.first collection = .page page)
    (hcollect : R.collect limit (R.items page) [] = ((R.items page).filterMap R.extract, false)) :
    R.read limit fuel collection =
      R.follow limit fuel (R.next page) ((R.items page).filterMap R.extract) := by
  rw [read, h, hfirst]
  simp only
  rw [hcollect]

theorem read_length_le (h : R.read limit fuel collection = some o) : o.taken.length ≤ limit := by
  have hnil : ([] : List α).length ≤ limit := Nat.zero_le _
  cases R.starts limit collection with
  | inline hinline =>
    rw [read_inline hinline] at h
    obtain rfl := Option.some.inj h
    exact collect_length_le hnil
  | url hinline hfirst =>
    rw [read_url hinline hfirst] at h
    exact follow_length_le h hnil
  | stopped hinline hfirst hstop =>
    rw [read_stopped hinline hfirst hstop] at h
    obtain rfl := Option.some.inj h
    exact collect_length_le hnil
  | @page page hinline hfirst hcollect _ =>
    have hle : ((R.items page).filterMap R.extract).length ≤ limit := by
      have hle := @collect_length_le _ _ _ _ R limit [] (R.items page) hnil
      rwa [hcollect] at hle
    rw [read_page hinline hfirst hcollect] at h
    exact follow_length_le h hle
  | none hinline hfirst =>
    rw [read_none hinline hfirst] at h
    obtain rfl := Option.some.inj h
    exact hnil

section Opening

variable {before : List Page} {u : Url}

theorem Opening.inline_eq (h : R.Opening collection before u) : R.inline collection = none := by
  cases h with
  | url hinline => exact hinline
  | page hinline => exact hinline

theorem Opening.of_url (h : R.Opening collection before u) (hfirst : R.first collection = .url url) :
    before = [] ∧ u = url := by
  cases h with
  | url _ hu => exact ⟨rfl, First.url.inj (hu.symm.trans hfirst)⟩
  | page _ hp =>
    rw [hfirst] at hp
    cases hp

theorem Opening.of_page (h : R.Opening collection before u)
    (hfirst : R.first collection = .page page) : before = [page] ∧ R.next page = some u := by
  cases h with
  | url _ hu =>
    rw [hfirst] at hu
    cases hu
  | page _ hp hnext =>
    obtain rfl := First.page.inj (hp.symm.trans hfirst)
    exact ⟨rfl, hnext⟩

theorem Opening.first_ne (h : R.Opening collection before u) : R.first collection ≠ .none := by
  intro hfirst
  cases h with
  | url _ hu =>
    rw [hfirst] at hu
    cases hu
  | page _ hp =>
    rw [hfirst] at hp
    cases hp

end Opening

theorem read_requests_iff :
    (∃ fuel o, R.read limit fuel collection = some o ∧ o.requests ≤ n) ↔
      ∀ before u pages v, R.Opening collection before u → R.Path u pages v → pages.length = n →
        ¬ R.Room limit [] (R.elements (before ++ pages)) := by
  cases R.starts limit collection with
  | inline hinline =>
    refine iff_of_true ⟨0, _, read_inline hinline, Nat.zero_le n⟩ ?_
    intro before u pages v hopening
    cases hinline.symm.trans hopening.inline_eq
  | none hinline hfirst =>
    refine iff_of_true ⟨0, _, read_none hinline hfirst, Nat.zero_le n⟩ ?_
    intro before u pages v hopening
    exact absurd hfirst hopening.first_ne
  | stopped hinline hfirst hstop =>
    refine iff_of_true ⟨0, _, read_stopped hinline hfirst hstop, Nat.zero_le n⟩ ?_
    intro before u pages v hopening _ _ hroom
    obtain ⟨rfl, -⟩ := hopening.of_page hfirst
    rw [collect_of_room (Room.first hroom)] at hstop
    cases hstop
  | @url url hinline hfirst =>
    have hread : ∀ fuel, R.read limit fuel collection = R.follow limit fuel (some url) [] :=
      fun _ => read_url hinline hfirst
    simp only [hread, follow_requests_iff]
    constructor
    · intro h before u pages v hopening hpath
      obtain ⟨rfl, rfl⟩ := hopening.of_url hfirst
      exact h pages v hpath
    · intro h pages v hpath
      exact h [] _ pages v (.url hinline hfirst) hpath
  | @page page hinline hfirst hcollect hnoEnd =>
    have hread : ∀ fuel, R.read limit fuel collection =
        R.follow limit fuel (R.next page) ((R.items page).filterMap R.extract) :=
      fun _ => read_page hinline hfirst hcollect
    simp only [hread]
    cases hnext : R.next page with
    | none =>
      refine iff_of_true ⟨0, _, follow_none _ _ _ _, Nat.zero_le n⟩ ?_
      intro before u pages v hopening
      cases hnext.symm.trans (hopening.of_page hfirst).2
    | some url =>
      rw [follow_requests_iff]
      constructor
      · intro h before u pages v hopening hpath hlen hroom
        obtain ⟨rfl, hu⟩ := hopening.of_page hfirst
        obtain rfl := Option.some.inj (hnext.symm.trans hu)
        exact h pages v hpath hlen ((room_cons_iff hnoEnd).mp hroom)
      · intro h pages v hpath hlen hroom
        exact h [page] url pages v (.page hinline hfirst hnext) hpath hlen
          ((room_cons_iff hnoEnd).mpr hroom)

theorem pages_of_read (h : R.read limit fuel collection = some o) (hlast : o.ending = .last) :
    ∃ pages, R.Pages collection pages ∧ o.taken = R.elements pages := by
  cases R.starts limit collection with
  | @inline items hinline =>
    rw [read_inline hinline] at h
    obtain rfl := Option.some.inj h
    cases hstop : (R.collect limit items []).2 with
    | true =>
      rw [hstop] at hlast
      cases hlast
    | false =>
      refine ⟨[collection], .inline hinline, ?_⟩
      show (R.collect limit items []).1 = _
      rw [(collect_of_not_stopped hstop).1, elements_singleton, Reader.items, hinline]
      rfl
  | none hinline hfirst =>
    rw [read_none hinline hfirst] at h
    obtain rfl := Option.some.inj h
    exact ⟨[], .none hinline hfirst, rfl⟩
  | stopped hinline hfirst hstop =>
    rw [read_stopped hinline hfirst hstop] at h
    obtain rfl := Option.some.inj h
    cases hlast
  | url hinline hfirst =>
    rw [read_url hinline hfirst] at h
    obtain ⟨pages, hchain, htaken⟩ := chain_of_follow h hlast
    exact ⟨pages, .url hinline hfirst hchain, htaken⟩
  | page hinline hfirst hcollect _ =>
    rw [read_page hinline hfirst hcollect] at h
    obtain ⟨pages, hchain, htaken⟩ := chain_of_follow h hlast
    exact ⟨_ :: pages, .page hinline hfirst hchain, htaken.trans (elements_cons _ _).symm⟩

theorem read_of_pages (hpages : R.Pages collection pages) (hroom : R.Room limit [] (R.elements pages)) :
    ∃ fuel o, R.read limit fuel collection = some o ∧ o.ending = .last ∧ o.taken = R.elements pages := by
  cases hpages with
  | @inline items hinline =>
    have helements : R.elements [collection] = items.filterMap R.extract := by
      rw [elements_singleton, Reader.items, hinline]
      rfl
    rw [helements] at hroom ⊢
    have hcollect := collect_of_room hroom
    refine ⟨0, _, read_inline hinline, ?_, ?_⟩
    · show (if (R.collect limit items []).2 then Ending.stopped else .last) = .last
      rw [hcollect]
      rfl
    · show (R.collect limit items []).1 = _
      rw [hcollect]
      rfl
  | none hinline hfirst => exact ⟨0, _, read_none hinline hfirst, rfl, rfl⟩
  | url hinline hfirst hchain =>
    obtain ⟨fuel, o, h, hlast, htaken⟩ := follow_of_chain hchain hroom
    exact ⟨fuel, o, (read_url hinline hfirst).trans h, hlast, htaken⟩
  | @page page pages hinline hfirst hchain =>
    have hcollect := collect_of_room (Room.first hroom)
    obtain ⟨fuel, o, h, hlast, htaken⟩ :=
      follow_of_chain hchain ((room_cons_iff (Room.first hroom).noEnd).mp hroom)
    exact ⟨fuel, o, (read_page hinline hfirst hcollect).trans h, hlast,
      htaken.trans (elements_cons _ _).symm⟩

end Reader

end Seiran.Links
