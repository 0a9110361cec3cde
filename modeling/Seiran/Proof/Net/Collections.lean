import Seiran.Model.Net.Collections

/-!
# What a fetch of a collection promises

* `uris_requests_iff`, `notes_requests_iff`: when a fetch makes no more than so many
  requests;
* `uris_honest`, `allRead_of_honest`: when a list of URIs that is called complete is;
* `collections_kept_iff`: both, for every server.
-/

namespace Seiran.Collections

open Links (First Reader)
open Links.Reader (Room)

variable {ε : Type} {W : Web ε} {get : String → Option Json} {collectionUrl actorUri : String}
  {maxItems maxPosts requests fuel : Nat} {maxDays : Int} {fetched : Fetched}

/-! ## Promises -/

/-- The items of a page, under both names -/
def itemsOf (page : Json) : List Json :=
  ((page.lookup "orderedItems").bind Json.asArray).getD [] ++
    ((page.lookup "items").bind Json.asArray).getD []

/-- The pages that `first` and `next` lead to. Each is a link or the page itself. -/
inductive Reaches (get : String → Option Json) (collection : Json) : Json → Prop where
  | first {url : String} {page : Json} : collection.lookup "first" = some (.str url) →
      get url = some page → Reaches get collection page
  | firstPage {entries : List (String × Json)} : collection.lookup "first" = some (.obj entries) →
      Reaches get collection (.obj entries)
  | next {page page' : Json} {url : String} : Reaches get collection page →
      page.lookup "next" = some (.str url) → get url = some page' → Reaches get collection page'
  | nextPage {page : Json} {entries : List (String × Json)} : Reaches get collection page →
      page.lookup "next" = some (.obj entries) → Reaches get collection (.obj entries)

/-- Every item of the collection and of the pages it leads to is one of these URIs. -/
def AllAmong (get : String → Option Json) (collection : Json) (uris : List String) : Prop :=
  ∀ page, page = collection ∨ Reaches get collection page → ∀ item ∈ itemsOf page,
    ∃ uri ∈ uris, extractUri item = some uri

/-- One request is for the collection. -/
structure UrisKept (get : String → Option Json) (collectionUrl : String)
    (maxItems requests : Nat) : Prop where
  requests : ∃ fuel fetched, fetchApCollectionUris get collectionUrl maxItems fuel = some fetched ∧
    fetched.requests ≤ requests + 1
  size : ∀ fuel fetched, fetchApCollectionUris get collectionUrl maxItems fuel = some fetched →
    fetched.uris.length ≤ maxItems
  honest : ∀ fuel fetched collection,
    fetchApCollectionUris get collectionUrl maxItems fuel = some fetched →
    fetched.complete = true → get collectionUrl = some collection →
    AllAmong get collection fetched.uris

/-- Two requests are for the actor and the outbox. -/
structure NotesKept (W : Web ε) (actorUri : String) (maxDays : Int) (maxPosts requests : Nat) :
    Prop where
  requests : ∃ fuel r, fetchApOutboxObjects W actorUri maxPosts maxDays fuel = some r ∧
    r.2 ≤ requests + 2
  size : ∀ fuel notes n, fetchApOutboxObjects W actorUri maxPosts maxDays fuel =
    some (.ok notes, n) → notes.length ≤ maxPosts

/-! ## Conditions on the server -/

/-- So many pages on a path of links, with one link more after them, have as many URIs as
may be returned. -/
def UrisEnd (get : String → Option Json) (collectionUrl : String) (maxItems requests : Nat) :
    Prop :=
  ∀ collection before u pages v, get collectionUrl = some collection →
    (uriReader get).Opening collection before u → (uriReader get).Path u pages v →
    pages.length = requests → maxItems ≤ ((uriReader get).elements (before ++ pages)).length

def sinceOf (W : Web ε) (maxDays : Int) : Int := W.now - maxDays * 86400

/-- The same of notes, one of which may also be too old. -/
def NotesEnd (W : Web ε) (actorUri : String) (maxDays : Int) (maxPosts requests : Nat) : Prop :=
  ∀ outboxUrl collection before u pages v, W.fetchActor actorUri = .ok (some outboxUrl) →
    W.get outboxUrl = some collection →
    (noteReader W (sinceOf W maxDays)).Opening collection before u →
    (noteReader W (sinceOf W maxDays)).Path u pages v → pages.length = requests →
    maxPosts ≤ ((noteReader W (sinceOf W maxDays)).elements (before ++ pages)).length ∨
      ∃ note ∈ (noteReader W (sinceOf W maxDays)).elements (before ++ pages),
        isOlder W (sinceOf W maxDays) note = true

/-- If the links come to an end, the pages that are read have the URIs of all items. -/
def AllRead (get : String → Option Json) (collectionUrl : String) : Prop :=
  ∀ collection pages, get collectionUrl = some collection →
    (uriReader get).Pages collection pages →
    AllAmong get collection ((uriReader get).elements pages)

/-! ## URIs -/

theorem not_room_uris {uris : List String} :
    ¬ (uriReader get).Room maxItems [] uris ↔ maxItems ≤ uris.length := by
  constructor
  · intro h
    by_contra hlt
    refine h ⟨?_, fun _ _ => rfl⟩
    rw [List.length_nil]
    omega
  · intro h hroom
    have hlt := hroom.length
    rw [List.length_nil] at hlt
    omega

theorem uris_requests_iff :
    (∃ fuel fetched, fetchApCollectionUris get collectionUrl maxItems fuel = some fetched ∧
      fetched.requests ≤ requests + 1) ↔ UrisEnd get collectionUrl maxItems requests := by
  cases hget : get collectionUrl with
  | none =>
    refine iff_of_true ⟨0, ⟨[], false, 1⟩, ?_, Nat.le_add_left 1 requests⟩ ?_
    · rw [fetchApCollectionUris, hget]
    · intro collection before u pages v hcollection
      cases hget.symm.trans hcollection
  | some collection =>
    have hfetch : ∀ fuel, fetchApCollectionUris get collectionUrl maxItems fuel =
        ((uriReader get).read maxItems fuel collection).map Fetched.of := by
      intro fuel
      rw [fetchApCollectionUris, hget]
    have hread := @Reader.read_requests_iff _ _ _ _ (uriReader get) maxItems requests collection
    simp only [not_room_uris] at hread
    constructor
    · rintro ⟨fuel, fetched, h, hle⟩ collection' before u pages v hcollection
      obtain rfl := Option.some.inj (hget.symm.trans hcollection)
      rw [hfetch] at h
      obtain ⟨o, ho, rfl⟩ := Option.map_eq_some_iff.mp h
      exact hread.mp ⟨fuel, o, ho, Nat.le_of_succ_le_succ hle⟩ before u pages v
    · intro h
      obtain ⟨fuel, o, ho, hle⟩ := hread.mpr fun before u pages v =>
        h collection before u pages v hget
      refine ⟨fuel, .of o, ?_, Nat.succ_le_succ hle⟩
      rw [hfetch, ho]
      rfl

theorem uris_length_le
    (h : fetchApCollectionUris get collectionUrl maxItems fuel = some fetched) :
    fetched.uris.length ≤ maxItems := by
  rw [fetchApCollectionUris] at h
  split at h
  · obtain rfl := Option.some.inj h
    exact Nat.zero_le _
  · obtain ⟨o, ho, rfl⟩ := Option.map_eq_some_iff.mp h
    exact Reader.read_length_le ho

/-- A list that is called complete has the URIs of the pages that are read. -/
theorem uris_honest {collection : Json} (hall : AllRead get collectionUrl)
    (h : fetchApCollectionUris get collectionUrl maxItems fuel = some fetched)
    (hcomplete : fetched.complete = true) (hget : get collectionUrl = some collection) :
    AllAmong get collection fetched.uris := by
  rw [fetchApCollectionUris, hget] at h
  obtain ⟨o, ho, rfl⟩ := Option.map_eq_some_iff.mp h
  obtain ⟨pages, hpages, htaken⟩ := Reader.pages_of_read ho (of_decide_eq_true hcomplete)
  show AllAmong get collection o.taken
  rw [htaken]
  exact hall collection pages hget hpages

/-- With a limit that is high enough, all the pages are read. -/
theorem allRead_of_honest
    (h : ∀ maxItems fuel fetched collection,
      fetchApCollectionUris get collectionUrl maxItems fuel = some fetched →
      fetched.complete = true → get collectionUrl = some collection →
      AllAmong get collection fetched.uris) :
    AllRead get collectionUrl := by
  intro collection pages hget hpages
  have hroom : (uriReader get).Room (((uriReader get).elements pages).length + 1) []
      ((uriReader get).elements pages) := by
    refine ⟨?_, fun _ _ => rfl⟩
    rw [List.length_nil]
    omega
  obtain ⟨fuel, o, ho, hlast, htaken⟩ := Reader.read_of_pages hpages hroom
  rw [← htaken]
  refine h (((uriReader get).elements pages).length + 1) fuel (.of o) collection ?_
    (decide_eq_true hlast) hget
  rw [fetchApCollectionUris, hget]
  simp only
  rw [ho]
  rfl

/-! ## Notes -/

theorem not_room_notes {since : Int} {notes : List Json} :
    ¬ (noteReader W since).Room maxPosts [] notes ↔
      maxPosts ≤ notes.length ∨ ∃ note ∈ notes, isOlder W since note = true := by
  constructor
  · intro h
    by_contra hnone
    refine h ⟨?_, fun note hnote => ?_⟩
    · rw [List.length_nil]
      omega
    · by_contra hold
      exact hnone (.inr ⟨note, hnote, Bool.not_eq_false _ ▸ hold⟩)
  · rintro (h | ⟨note, hnote, hold⟩) hroom
    · have hlt := hroom.length
      rw [List.length_nil] at hlt
      omega
    · have hnew := hroom.noEnd note hnote
      rw [show (noteReader W since).isEnd note = isOlder W since note from rfl, hold] at hnew
      cases hnew

theorem notes_requests_iff :
    (∃ fuel r, fetchApOutboxObjects W actorUri maxPosts maxDays fuel = some r ∧
      r.2 ≤ requests + 2) ↔ NotesEnd W actorUri maxDays maxPosts requests := by
  cases hactor : W.fetchActor actorUri with
  | error e =>
    refine iff_of_true ⟨0, (.error e, 1), ?_, Nat.le_add_left 1 (requests + 1)⟩ ?_
    · rw [fetchApOutboxObjects, hactor]
    · intro outboxUrl collection before u pages v hurl
      cases hactor.symm.trans hurl
  | ok outbox =>
    cases outbox with
    | none =>
      refine iff_of_true ⟨0, (.ok [], 1), ?_, Nat.le_add_left 1 (requests + 1)⟩ ?_
      · rw [fetchApOutboxObjects, hactor]
      · intro outboxUrl collection before u pages v hurl
        cases hactor.symm.trans hurl
    | some outboxUrl =>
      cases hget : W.get outboxUrl with
      | none =>
        refine iff_of_true ⟨0, (.ok [], 2), ?_, Nat.le_add_left 2 requests⟩ ?_
        · rw [fetchApOutboxObjects, hactor]
          simp only
          rw [hget]
        · intro outboxUrl' collection before u pages v hurl hcollection
          obtain rfl := Option.some.inj (Except.ok.inj (hactor.symm.trans hurl))
          cases hget.symm.trans hcollection
      | some collection =>
        have hfetch : ∀ fuel, fetchApOutboxObjects W actorUri maxPosts maxDays fuel =
            ((noteReader W (sinceOf W maxDays)).read maxPosts fuel collection).map fun o =>
              (.ok o.taken, o.requests + 2) := by
          intro fuel
          rw [fetchApOutboxObjects, hactor]
          simp only
          rw [hget]
          rfl
        have hread := @Reader.read_requests_iff _ _ _ _ (noteReader W (sinceOf W maxDays))
          maxPosts requests collection
        simp only [not_room_notes] at hread
        constructor
        · rintro ⟨fuel, r, h, hle⟩ outboxUrl' collection' before u pages v hurl hcollection
          obtain rfl := Option.some.inj (Except.ok.inj (hactor.symm.trans hurl))
          obtain rfl := Option.some.inj (hget.symm.trans hcollection)
          rw [hfetch] at h
          obtain ⟨o, ho, rfl⟩ := Option.map_eq_some_iff.mp h
          exact hread.mp ⟨fuel, o, ho, Nat.le_of_add_le_add_right hle⟩ before u pages v
        · intro h
          obtain ⟨fuel, o, ho, hle⟩ := hread.mpr fun before u pages v =>
            h outboxUrl collection before u pages v hactor hget
          refine ⟨fuel, (.ok o.taken, o.requests + 2), ?_, Nat.add_le_add_right hle 2⟩
          rw [hfetch, ho]
          rfl

theorem notes_length_le {notes : List Json} {n : Nat}
    (h : fetchApOutboxObjects W actorUri maxPosts maxDays fuel = some (.ok notes, n)) :
    notes.length ≤ maxPosts := by
  rw [fetchApOutboxObjects] at h
  split at h
  · cases Option.some.inj h
  · obtain ⟨hnotes, -⟩ := Prod.mk.inj (Option.some.inj h)
    rw [← Except.ok.inj hnotes]
    exact Nat.zero_le _
  · split at h
    · obtain ⟨hnotes, -⟩ := Prod.mk.inj (Option.some.inj h)
      rw [← Except.ok.inj hnotes]
      exact Nat.zero_le _
    · obtain ⟨o, ho, heq⟩ := Option.map_eq_some_iff.mp h
      obtain ⟨hnotes, -⟩ := Prod.mk.inj heq
      rw [← Except.ok.inj hnotes]
      exact Reader.read_length_le ho

theorem collections_kept_iff (W : Web ε) (collectionUrl actorUri : String) (maxDays : Int)
    (bound : Nat → Nat) :
    ((∀ maxItems, UrisKept W.get collectionUrl maxItems (bound maxItems)) ↔
      (∀ maxItems, UrisEnd W.get collectionUrl maxItems (bound maxItems)) ∧
        AllRead W.get collectionUrl) ∧
    ((∀ maxPosts, NotesKept W actorUri maxDays maxPosts (bound maxPosts)) ↔
      ∀ maxPosts, NotesEnd W actorUri maxDays maxPosts (bound maxPosts)) := by
  refine ⟨⟨fun h => ⟨fun maxItems => ?_, ?_⟩, fun ⟨hend, hall⟩ maxItems => ?_⟩,
    ⟨fun h maxPosts => ?_, fun h maxPosts => ?_⟩⟩
  · exact uris_requests_iff.mp (h maxItems).requests
  · exact allRead_of_honest fun maxItems => (h maxItems).honest
  · exact ⟨uris_requests_iff.mpr (hend maxItems), fun _ _ => uris_length_le,
      fun _ _ _ => uris_honest hall⟩
  · exact notes_requests_iff.mp (h maxPosts).requests
  · exact ⟨notes_requests_iff.mpr (h maxPosts), fun _ _ _ => notes_length_le⟩

/-! ## Two servers -/

def pageUrl : String := "https://remote.example/page"

/-- A page without items that comes after itself -/
def emptyPage : Json := .obj [("next", .str pageUrl), ("orderedItems", .arr [])]

def linked : Json := .obj [("first", .str pageUrl)]

/-- A collection that has one item, and a page with another one -/
def parted : Json := .obj
  [("first", .obj [("orderedItems", .arr [.str "https://b.example/users/2"])]),
    ("orderedItems", .arr [.str "https://a.example/users/1"])]

def serve : String → Option Json
  | "https://remote.example/page" => some emptyPage
  | "https://remote.example/followers" => some linked
  | "https://remote.example/following" => some parted
  | _ => none

def web : Web Unit where
  get := serve
  fetchActor _ := .ok (some "https://remote.example/followers")
  parseDate _ := none
  now := 0

theorem path_emptyPage {Item α : Type} {R : Reader String Json Item α}
    (hget : R.get pageUrl = some emptyPage) (hnext : R.next emptyPage = some pageUrl) (n : Nat) :
    R.Path pageUrl (List.replicate n emptyPage) pageUrl := by
  induction n with
  | zero => exact .nil pageUrl
  | succ n ih => exact .cons hget hnext ih

theorem elements_emptyPage {α : Type} {R : Reader String Json Json α}
    (hitems : R.items emptyPage = []) (n : Nat) : R.elements (List.replicate n emptyPage) = [] := by
  induction n with
  | zero => rfl
  | succ n ih => rw [List.replicate_succ, Reader.elements_cons, hitems, ih, List.filterMap_nil]; rfl

/-- Neither fetch ever ends, and a list is called complete without the item of a page. -/
theorem collections_kept_counterexample :
    (¬ ∃ fuel fetched,
      fetchApCollectionUris serve "https://remote.example/followers" 500 fuel = some fetched) ∧
    (¬ ∃ fuel r,
      fetchApOutboxObjects web "https://remote.example/users/bob" 300 30 fuel = some r) ∧
    ∃ fuel fetched,
      fetchApCollectionUris serve "https://remote.example/following" 500 fuel = some fetched ∧
      fetched.complete = true ∧ ¬ AllAmong serve parted fetched.uris := by
  refine ⟨?_, ?_, ?_⟩
  · rintro ⟨fuel, fetched, h⟩
    have hend := uris_requests_iff.mp ⟨fuel, fetched, h, Nat.le_succ _⟩ linked [] pageUrl
      (List.replicate fetched.requests emptyPage) pageUrl rfl (.url rfl rfl)
      (path_emptyPage rfl rfl _) (List.length_replicate ..)
    rw [List.nil_append, elements_emptyPage rfl] at hend
    cases hend
  · rintro ⟨fuel, r, h⟩
    have hend := notes_requests_iff.mp ⟨fuel, r, h, Nat.le_add_right _ 2⟩
      "https://remote.example/followers" linked [] pageUrl (List.replicate r.2 emptyPage) pageUrl
      rfl rfl (.url rfl rfl) (path_emptyPage rfl rfl _) (List.length_replicate ..)
    rw [List.nil_append, elements_emptyPage rfl] at hend
    obtain hend | ⟨note, hnote, -⟩ := hend
    · cases hend
    · exact absurd hnote List.not_mem_nil
  · refine ⟨0, ⟨["https://a.example/users/1"], true, 1⟩, rfl, rfl, fun hall => ?_⟩
    obtain ⟨uri, hmem, huri⟩ := hall _ (.inr (.firstPage rfl)) (.str "https://b.example/users/2")
      List.mem_cons_self
    obtain rfl := Option.some.inj huri
    exact absurd hmem (by decide)

end Seiran.Collections
