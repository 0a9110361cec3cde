import Seiran.Framework.Excerpt
import Seiran.Model.Timeline.HomePage

/-!
# What the home page shows

* `Inv`: the notes on the page and in the cache are excerpts of their tabs' timelines, and a
  request under way is of an old tab, or goes on from a note of this one; orderly steps keep it
  (`inv_step`);
* `home_faithful`: what an orderly run shows;
* `Lost`: a note that is missing between two others is missing on the page and in the cache, and
  every answer that has it has the newer of the two before it; all steps keep it (`lost_step`);
* `lost_for_good`: such a note does not come back.
-/

namespace Seiran.HomePage

/-- A request for a page of this generation is of this tab: the first page, while the notes of
another are shown, or one that goes on from a note on the page. -/
inductive Request.Ok (s : State) : Request → Prop
  | first {key g rows} (le : g ≤ s.generation)
      (now : g = s.generation → key = s.currentFeedKey ∧ ¬ Shown s)
      (page : ∀ p ∈ rows, p <:+: s.server key) : Ok s ⟨key, .first g, rows⟩
  | more {key g u rows} (le : g ≤ s.generation) (mem : u ∈ s.server key)
      (now : g = s.generation → key = s.currentFeedKey ∧ Shown s ∧
        s.loadingGeneration = some g ∧ Unbroken (s.server key) s.notes u)
      (page : ∀ p ∈ rows, (u :: p) <:+: s.server key) : Ok s ⟨key, .more g u, rows⟩
  | head {key rows} (page : ∀ p ∈ rows, p <:+: s.server key) : Ok s ⟨key, .head, rows⟩

structure Requests (s : State) : Prop where
  ok : ∀ i, ∀ r ∈ s.requests i, r.Ok s
  lt_next : ∀ i, ∀ r ∈ s.requests i, i < s.nextRequest
  unique : ∀ i j, ∀ r ∈ s.requests i, ∀ r' ∈ s.requests j, ∀ g ∈ r.kind.generation,
    g ∈ r'.kind.generation → i = j

structure Timelines (server : String → List Nat) (nextId : Nat) : Prop where
  sorted : ∀ key, (server key).Pairwise (· > ·)
  lt_next : ∀ key, ∀ x ∈ server key, x < nextId

structure Inv (s : State) : Prop where
  timelines : Timelines s.server s.nextId
  shown : Shown s → Excerpt (s.server s.currentFeedKey) s.gapBeforeIds s.notes
  ref : s.notesFeedKeyRef = some s.currentFeedKey → Shown s ∧
    ∀ u ∈ s.notesRef.getLast?, Unbroken (s.server s.currentFeedKey) s.notes u
  cache : ∀ key, ∀ c ∈ s.cache key, Excerpt (s.server key) c.gapBeforeIds c.notes
  requests : Requests s

section Steps

variable {s s' : State} {key : String} {kind : Kind} {i : Nat} {r : Request}

theorem Request.Ok.mono (h : r.Ok s) (hserver : ∀ key, s.server key <:+ s'.server key)
    (hgen : s.generation ≤ s'.generation)
    (hnow : s'.generation ∈ r.kind.generation → s.generation = s'.generation →
      s.currentFeedKey = s'.currentFeedKey ∧ (Shown s ↔ Shown s') ∧
        (s.loadingGeneration = some s.generation → s'.loadingGeneration = some s.generation) ∧
        ∀ u, Unbroken (s'.server s'.currentFeedKey) s.notes u →
          Unbroken (s'.server s'.currentFeedKey) s'.notes u) : r.Ok s' := by
  cases h with
  | first le now page =>
    refine .first (le.trans hgen) (fun hg => ?_) fun p hp => (page p hp).trans (hserver _).isInfix
    have hsame : s.generation = s'.generation := le_antisymm hgen (hg ▸ le)
    obtain ⟨hcur, hshown, -⟩ := hnow (by rw [hg]; rfl) hsame
    obtain ⟨hkey, hnot⟩ := now (hg.trans hsame.symm)
    exact ⟨hkey.trans hcur, hshown.not.mp hnot⟩
  | more le mem now page =>
    refine .more (le.trans hgen) ((hserver _).subset mem) (fun hg => ?_)
      fun p hp => (page p hp).trans (hserver _).isInfix
    have hsame : s.generation = s'.generation := le_antisymm hgen (hg ▸ le)
    obtain ⟨hcur, hshown, hload, hnotes⟩ := hnow (by rw [hg]; rfl) hsame
    obtain ⟨hkey, hs, hl, hu⟩ := now (hg.trans hsame.symm)
    have hkey' := hkey.trans hcur
    refine ⟨hkey', hshown.mp hs, ?_, ?_⟩
    · rw [hg, ← hsame]
      exact hload (by rw [hl, hg, hsame])
    · subst hkey'
      exact hnotes _ (hu.mono (hserver _))
  | head page => exact .head fun p hp => (page p hp).trans (hserver _).isInfix

/-- Notes come to the head of those on the page, or nothing changes for the requests. -/
theorem Request.Ok.prepend (h : r.Ok s)
    (heq : (s'.server, s'.generation, s'.currentFeedKey, s'.notesFeedKey, s'.loadingGeneration) =
      (s.server, s.generation, s.currentFeedKey, s.notesFeedKey, s.loadingGeneration))
    (hnotes : s.notes <:+ s'.notes) : r.Ok s' := by
  simp only [Prod.mk.injEq] at heq
  obtain ⟨hserver, hgen, hcur, hkey, hload⟩ := heq
  refine h.mono (by simp [hserver]) hgen.ge fun _ _ => ⟨hcur.symm, ?_, by rw [hload]; exact id, ?_⟩
  · rw [Shown, Shown, hkey, hcur]
  · intro u hu
    obtain ⟨new, heq⟩ := hnotes
    exact heq ▸ hu.append_left new

/-- The requests under way stay as they are, or some go. -/
theorem Requests.mono (h : Requests s) (hreq : ∀ i, ∀ r ∈ s'.requests i, r ∈ s.requests i)
    (hnext : s'.nextRequest = s.nextRequest) (hok : ∀ i, ∀ r ∈ s'.requests i, r.Ok s → r.Ok s') :
    Requests s' where
  ok := fun i r hr => hok i r hr (h.ok i r (hreq i r hr))
  lt_next := fun i r hr => hnext ▸ h.lt_next i r (hreq i r hr)
  unique := fun i j r hr r' hr' => h.unique i j r (hreq i r hr) r' (hreq j r' hr')

/-- One more request, of a generation of which no other page is asked for -/
theorem Requests.add (h : Requests s) (hok : (⟨key, kind, none⟩ : Request).Ok s)
    (hnew : ∀ g ∈ kind.generation, ∀ i, ∀ r ∈ s.requests i, g ∉ r.kind.generation) :
    Requests (request s key kind) := by
  have hcases : ∀ i, ∀ r ∈ (request s key kind).requests i,
      (i = s.nextRequest ∧ r = ⟨key, kind, none⟩) ∨ (i < s.nextRequest ∧ r ∈ s.requests i) := by
    intro i r hr
    simp only [request, Function.update_apply] at hr
    split at hr
    · cases hr
      exact .inl ⟨by assumption, rfl⟩
    · exact .inr ⟨h.lt_next i r hr, hr⟩
  have hmono : ∀ {r : Request}, r.Ok s → r.Ok (request s key kind) := fun hr =>
    hr.prepend rfl List.suffix_rfl
  refine ⟨fun i r hr => ?_, fun i r hr => ?_, fun i j r hr r' hr' g hg hg' => ?_⟩
  · rcases hcases i r hr with ⟨-, rfl⟩ | ⟨-, hr⟩
    · exact hmono hok
    · exact hmono (h.ok i r hr)
  · rcases hcases i r hr with ⟨rfl, -⟩ | ⟨hi, -⟩
    · exact Nat.lt_succ_self _
    · exact Nat.lt_succ_of_lt hi
  · rcases hcases i r hr with ⟨rfl, rfl⟩ | ⟨-, hr⟩
    · rcases hcases j r' hr' with ⟨rfl, -⟩ | ⟨-, hr'⟩
      · rfl
      · exact absurd hg' (hnew g hg j r' hr')
    · rcases hcases j r' hr' with ⟨-, rfl⟩ | ⟨-, hr'⟩
      · exact absurd hg (hnew g hg' i r hr)
      · exact h.unique i j r hr r' hr' g hg hg'

theorem mem_setRequest {r' : Option Request} {j : Nat} :
    r ∈ (setRequest s i r').requests j ↔ (j = i ∧ r ∈ r') ∨ (j ≠ i ∧ r ∈ s.requests j) := by
  by_cases hj : j = i
  · subst hj
    simp [setRequest]
  · simp [setRequest, hj]

theorem mem_setRequest_none {j : Nat} (hr : r ∈ (setRequest s i none).requests j) :
    j ≠ i ∧ r ∈ s.requests j := by
  rcases mem_setRequest.mp hr with ⟨-, h⟩ | h
  · cases h
  · exact h

theorem Request.Ok.le (h : r.Ok s) {g : Nat} (hg : g ∈ r.kind.generation) : g ≤ s.generation := by
  cases h with
  | first le =>
    cases hg
    exact le
  | more le =>
    cases hg
    exact le
  | head => cases hg

/-- What is under way when `mergeHead` is done -/
theorem mergeHead_cases (s : State) (fetched : List Nat) :
    mergeHead s fetched = s ∨
    (s.notesRef = [] ∧ mergeHead s fetched = { s with notes := fetched }) ∨
    (∃ first ∈ s.notesRef.head?, (∀ x ∈ fetched, x ∉ s.notesRef) ∧ mergeHead s fetched =
      { s with gapBeforeIds := first :: s.gapBeforeIds, notes := fetched ++ s.notes }) ∨
    ∃ newOnes v rest, fetched = newOnes ++ v :: rest ∧ (∀ x ∈ newOnes, x ∉ s.notesRef) ∧
      v ∈ s.notesRef ∧ mergeHead s fetched = { s with notes := newOnes ++ s.notes } := by
  rcases hf : fetched with _ | ⟨w, ws⟩
  · exact .inl rfl
  rcases hn : s.notesRef with _ | ⟨first, rest⟩
  · exact .inr (.inl ⟨rfl, by simp only [mergeHead, hn]⟩)
  refine .inr (.inr ?_)
  simp only [mergeHead, hn]
  rcases hi : (w :: ws).findIdx? (· ∈ first :: rest) with _ | i
  · refine .inl ⟨first, rfl, fun x hx => ?_, rfl⟩
    exact of_decide_eq_false (List.findIdx?_eq_none_iff.mp hi x hx)
  · obtain ⟨hlt, hv, hbefore⟩ := List.findIdx?_eq_some_iff_getElem.mp hi
    refine .inr ⟨(w :: ws).take i, (w :: ws)[i], (w :: ws).drop (i + 1), ?_, fun x hx => ?_,
      of_decide_eq_true hv, rfl⟩
    · rw [← List.drop_eq_getElem_cons hlt, List.take_append_drop]
    · obtain ⟨j, hj, rfl⟩ := List.mem_take_iff_getElem.mp hx
      simpa using hbefore j (by omega)

theorem mergeHead_eq (s : State) (fetched : List Nat) :
    ∃ l gaps, mergeHead s fetched = { s with notes := l, gapBeforeIds := gaps } := by
  rcases mergeHead_cases s fetched with h | ⟨-, h⟩ | ⟨first, -, -, h⟩ | ⟨newOnes, v, rest, -, -, -, h⟩
  · exact ⟨s.notes, s.gapBeforeIds, h⟩
  · exact ⟨fetched, s.gapBeforeIds, h⟩
  · exact ⟨fetched ++ s.notes, first :: s.gapBeforeIds, h⟩
  · exact ⟨newOnes ++ s.notes, s.gapBeforeIds, h⟩

theorem settle_eq (s : State) (g : Nat) :
    ∃ l, settle s g = { s with loadingGeneration := l } ∧
      ∀ g', s.loadingGeneration = some g' → g' ≠ g → l = some g' := by
  simp only [settle]
  split
  · rename_i hl
    exact ⟨none, rfl, fun g' hg' hne => absurd (Option.some.inj (hg'.symm.trans hl)) hne⟩
  · exact ⟨_, rfl, fun g' hg' _ => hg'⟩

/-! ## What the server has -/

/-- The server's timelines stay as they are. -/
def SameServer (s s' : State) : Prop := s'.server = s.server ∧ s'.nextId = s.nextId

theorem sameServer_mergeHead (s : State) (fetched : List Nat) :
    SameServer s (mergeHead s fetched) := by
  obtain ⟨l, gaps, h⟩ := mergeHead_eq s fetched
  rw [h]
  exact ⟨rfl, rfl⟩

theorem sameServer_settle (s : State) (g : Nat) : SameServer s (settle s g) := by
  obtain ⟨l, h, -⟩ := settle_eq s g
  rw [h]
  exact ⟨rfl, rfl⟩

theorem sameServer_resolved (s : State) (key : String) (rows : List Nat) (kind : Kind) :
    SameServer s (resolved s key rows kind) := by
  cases kind with
  | first g =>
    simp only [resolved]
    split <;> exact ⟨rfl, rfl⟩
  | more g u =>
    simp only [resolved]
    split <;> exact sameServer_settle _ g
  | head =>
    simp only [resolved]
    split
    · exact sameServer_mergeHead s rows
    · exact ⟨rfl, rfl⟩

theorem sameServer_rejected (s : State) (kind : Kind) : SameServer s (rejected s kind) := by
  cases kind with
  | first g =>
    simp only [rejected]
    split <;> exact ⟨rfl, rfl⟩
  | more g u => exact sameServer_settle s g
  | head => exact ⟨rfl, rfl⟩

theorem sameServer_showTab (s : State) (key : String) : SameServer s (showTab s key) := by
  simp only [showTab]
  split <;> exact ⟨rfl, rfl⟩

/-! What each action leads to -/

theorem switchTab_eq_some : step s (.switchTab key) = some s' ↔ key ≠ s.currentFeedKey ∧
    showTab { s with currentFeedKey := key, generation := s.generation + 1 } key = s' := by
  simp only [step, Option.ite_none_left_eq_some, Option.some.injEq, ne_eq]

theorem render_eq_some : step s .render = some s' ↔
    (s' = setCache (rendered s) ⟨s.notes, s.hasMore, s.gapBeforeIds⟩ ∧ s.loading = false ∧ Shown s) ∨
      (s' = rendered s ∧ ¬ (s.loading = false ∧ Shown s)) := by
  simp only [step]
  constructor
  · intro h
    split at h <;> cases h
    · exact .inl ⟨rfl, by assumption⟩
    · exact .inr ⟨rfl, by assumption⟩
  · rintro (⟨rfl, h⟩ | ⟨rfl, h⟩)
    · exact if_pos h
    · exact if_neg h

theorem loadMore_eq_some : step s .loadMore = some s' ↔
    s.notesFeedKeyRef = some s.currentFeedKey ∧ s.loadingGeneration ≠ some s.generation ∧
      ∃ u ∈ s.notesRef.getLast?, request { s with loadingGeneration := some s.generation }
        s.currentFeedKey (.more s.generation u) = s' := by
  simp only [step, Option.ite_none_right_eq_some, and_assoc]
  refine and_congr_right fun _ => and_congr_right fun _ => ?_
  cases s.notesRef.getLast? with
  | none => simp
  | some u => simp [request]

theorem onResync_eq_some : step s .onResync = some s' ↔
    s.loadingRef = false ∧ request s s.currentFeedKey .head = s' := by
  simp only [step, Option.ite_none_left_eq_some, Option.some.injEq, Bool.not_eq_true]

theorem serve_eq_some : step s (.serve i) = some s' ↔ ∃ r ∈ s.requests i, r.rows = none ∧
    setRequest s i (some { r with rows := some (rowsFor (s.server r.key) r.kind) }) = s' := by
  simp only [step, Option.bind_eq_some_iff, Option.ite_none_right_eq_some, Option.some.injEq,
    Option.mem_def]

theorem resolve_eq_some : step s (.resolve i) = some s' ↔ ∃ r ∈ s.requests i, ∃ rows ∈ r.rows,
    resolved (setRequest s i none) r.key rows r.kind = s' := by
  simp only [step, Option.bind_eq_some_iff, Option.map_eq_some_iff, Option.mem_def]

theorem reject_eq_some : step s (.reject i) = some s' ↔ ∃ r ∈ s.requests i,
    rejected (setRequest s i none) r.kind = s' := by
  simp only [step, Option.map_eq_some_iff, Option.mem_def]

theorem sameServer_step {a : Action} (hs : step s a = some s') (ha : ∀ keys, a ≠ .post keys) :
    SameServer s s' := by
  cases a with
  | post keys => exact absurd rfl (ha keys)
  | switchTab key =>
    obtain ⟨-, rfl⟩ := switchTab_eq_some.mp hs
    exact sameServer_showTab _ key
  | render => rcases render_eq_some.mp hs with ⟨rfl, -⟩ | ⟨rfl, -⟩ <;> exact ⟨rfl, rfl⟩
  | loadMore =>
    obtain ⟨-, -, u, -, rfl⟩ := loadMore_eq_some.mp hs
    exact ⟨rfl, rfl⟩
  | onResync =>
    obtain ⟨-, rfl⟩ := onResync_eq_some.mp hs
    exact ⟨rfl, rfl⟩
  | prepend id =>
    cases hs
    split <;> exact ⟨rfl, rfl⟩
  | scroll =>
    cases hs
    exact ⟨rfl, rfl⟩
  | serve i =>
    obtain ⟨r, -, -, rfl⟩ := serve_eq_some.mp hs
    exact ⟨rfl, rfl⟩
  | resolve i =>
    obtain ⟨r, -, rows, -, rfl⟩ := resolve_eq_some.mp hs
    exact sameServer_resolved (setRequest s i none) r.key rows r.kind
  | reject i =>
    obtain ⟨r, -, rfl⟩ := reject_eq_some.mp hs
    exact sameServer_rejected (setRequest s i none) r.kind

/-- A timeline grows at its head. -/
theorem server_suffix {a : Action} (hs : step s a = some s') (key : String) :
    s.server key <:+ s'.server key := by
  cases a with
  | post keys =>
    cases hs
    dsimp only
    split
    · exact List.suffix_cons _ _
    · exact List.suffix_rfl
  | _ => rw [(sameServer_step hs (by simp)).1]

theorem timelines_step {a : Action} (h : Timelines s.server s.nextId) (hs : step s a = some s') :
    Timelines s'.server s'.nextId := by
  cases a with
  | post keys =>
    cases hs
    refine ⟨fun key => ?_, fun key x hx => ?_⟩
    · dsimp only
      split
      · exact List.pairwise_cons.mpr ⟨h.lt_next key, h.sorted key⟩
      · exact h.sorted key
    · dsimp only at hx
      split at hx
      · rcases List.mem_cons.mp hx with rfl | hx
        · exact Nat.lt_succ_self _
        · exact Nat.lt_succ_of_lt (h.lt_next key x hx)
      · exact Nat.lt_succ_of_lt (h.lt_next key x hx)
  | _ =>
    obtain ⟨hserver, hnext⟩ := sameServer_step hs (by simp)
    rwa [hserver, hnext]

/-! ## Orderly steps -/

theorem Inv.add (h : Inv s) (hok : (⟨key, kind, none⟩ : Request).Ok s)
    (hnew : ∀ g ∈ kind.generation, ∀ i, ∀ r ∈ s.requests i, g ∉ r.kind.generation) :
    Inv (request s key kind) where
  timelines := h.timelines
  shown := h.shown
  ref := h.ref
  cache := h.cache
  requests := h.requests.add hok hnew

theorem Inv.remove (h : Inv s) (i : Nat) : Inv (setRequest s i none) where
  timelines := h.timelines
  shown := h.shown
  ref := h.ref
  cache := h.cache
  requests := h.requests.mono (fun _ _ hr => (mem_setRequest_none hr).2) rfl
    fun _ _ _ hok => hok.prepend rfl List.suffix_rfl

theorem inv_post (h : Inv s) {keys : List String} (hs : step s (.post keys) = some s') :
    Inv s' := by
  have hserver := server_suffix hs
  have htimelines := timelines_step h.timelines hs
  cases hs
  refine ⟨htimelines, fun hshown => (h.shown hshown).grow (hserver _), fun href => ?_,
    fun key c hc => (h.cache key c hc).grow (hserver key),
    h.requests.mono (fun i r hr => hr) rfl fun i r hr hok =>
      hok.mono hserver le_rfl fun _ _ => ⟨rfl, Iff.rfl, id, fun _ => id⟩⟩
  obtain ⟨hshown, hlast⟩ := h.ref href
  exact ⟨hshown, fun u hu => (hlast u hu).mono (hserver _)⟩

/-- What is under way for the tab that is left is of an old generation. -/
theorem inv_switchTab (h : Inv s) (ho : Orderly s (.switchTab key))
    (hs : step s (.switchTab key) = some s') : Inv s' := by
  obtain ⟨hne, rfl⟩ := switchTab_eq_some.mp hs
  have hrequests : ∀ t : State, t.requests = s.requests → t.nextRequest = s.nextRequest →
      t.server = s.server → t.generation = s.generation + 1 → Requests t := by
    intro t hreq hnext hserver hgen
    refine h.requests.mono (by rw [hreq]; exact fun i r hr => hr) hnext fun i r hr hok =>
      hok.mono (by simp [hserver]) (by omega) fun _ hsame => by omega
  simp only [showTab]
  split
  · rename_i cached hcached
    have hexcerpt := h.cache key cached hcached
    refine Inv.add (s := rendered { s with
      currentFeedKey := key, generation := s.generation + 1, notes := cached.notes
      notesFeedKey := some key, hasMore := cached.hasMore, gapBeforeIds := cached.gapBeforeIds
      loading := false }) ?_ (.head (by simp)) (by simp [Kind.generation])
    refine ⟨h.timelines, fun _ => hexcerpt, fun _ => ⟨rfl, fun u hu => ?_⟩, h.cache,
      hrequests _ rfl rfl rfl rfl⟩
    exact unbroken_getLast? (fun a ha => hexcerpt.mem ha) hu
  · rename_i hcached
    have hnot : s.notesFeedKey ≠ some key := ho hcached
    refine Inv.add (s := rendered { s with
      currentFeedKey := key, generation := s.generation + 1, hasMore := true, gapBeforeIds := []
      loading := true }) ?_ (.first le_rfl (fun _ => ⟨rfl, hnot⟩) (by simp)) ?_
    · exact ⟨h.timelines, fun hshown => absurd hshown hnot, fun href => absurd href hnot, h.cache,
        hrequests _ rfl rfl rfl rfl⟩
    · rintro _ ⟨⟩ i r hr hg
      have hle := (h.requests.ok i r hr).le hg
      exact absurd hle (Nat.not_succ_le_self _)

theorem Inv.rendered (h : Inv s) : Inv (rendered s) where
  timelines := h.timelines
  shown := h.shown
  ref := fun href =>
    ⟨href, fun _ hu => unbroken_getLast? (fun _ ha => (h.shown href).mem ha) hu⟩
  cache := h.cache
  requests := h.requests.mono (fun _ _ hr => hr) rfl fun _ _ _ hok => hok.prepend rfl List.suffix_rfl

theorem Inv.setCache (h : Inv s) {c : CacheEntry}
    (hc : Excerpt (s.server s.currentFeedKey) c.gapBeforeIds c.notes) : Inv (setCache s c) where
  timelines := h.timelines
  shown := h.shown
  ref := h.ref
  cache := by
    intro key c' hc'
    simp only [HomePage.setCache, Function.update_apply] at hc'
    split at hc'
    · rename_i hkey
      cases hc'
      exact hkey ▸ hc
    · exact h.cache key c' hc'
  requests := h.requests.mono (fun _ _ hr => hr) rfl fun _ _ _ hok => hok.prepend rfl List.suffix_rfl

theorem inv_render (h : Inv s) (hs : step s .render = some s') : Inv s' := by
  rcases render_eq_some.mp hs with ⟨rfl, -, hshown⟩ | ⟨rfl, -⟩
  · exact h.rendered.setCache (h.shown hshown)
  · exact h.rendered

theorem inv_scroll (h : Inv s) (hs : step s .scroll = some s') : Inv s' := by
  cases hs
  refine h.setCache ?_
  simp only [cachedScroll]
  cases hc : s.cache s.currentFeedKey with
  | none => exact Excerpt.nil
  | some c => exact h.cache _ c hc

/-- A page of this generation goes on from the last note on the page, and no other is asked for. -/
theorem inv_loadMore (h : Inv s) (hs : step s .loadMore = some s') : Inv s' := by
  obtain ⟨href, hload, u, hu, rfl⟩ := loadMore_eq_some.mp hs
  obtain ⟨hshown, hlast⟩ := h.ref href
  have hloading : Inv { s with loadingGeneration := some s.generation } :=
    ⟨h.timelines, h.shown, h.ref, h.cache, h.requests.mono (fun _ _ hr => hr) rfl
      fun _ _ _ hok => hok.mono (fun _ => List.suffix_rfl) le_rfl
        fun _ _ => ⟨rfl, Iff.rfl, fun _ => rfl, fun _ => id⟩⟩
  refine hloading.add (.more le_rfl (hlast u hu).mem.1 (fun _ => ⟨rfl, hshown, rfl, hlast u hu⟩)
    (by simp)) ?_
  rintro _ ⟨⟩ i r hr hg
  cases h.requests.ok i r hr with
  | first le now page =>
    cases hg
    exact (now rfl).2 hshown
  | more le mem now page =>
    cases hg
    exact hload (now rfl).2.2.1
  | head page => cases hg

theorem inv_onResync (h : Inv s) (hs : step s .onResync = some s') : Inv s' := by
  obtain ⟨-, rfl⟩ := onResync_eq_some.mp hs
  exact h.add (.head (by simp)) (by simp [Kind.generation])

/-- What is new on the page is on the tab's timeline, before what was on the page. -/
theorem Inv.prepend (h : Inv s) (new gaps : List Nat)
    (hnew : Shown s → Excerpt (s.server s.currentFeedKey) gaps (new ++ s.notes)) :
    Inv { s with notes := new ++ s.notes, gapBeforeIds := gaps } where
  timelines := h.timelines
  shown := hnew
  ref := fun href => (h.ref href).imp id fun hlast u hu => (hlast u hu).append_left new
  cache := h.cache
  requests := h.requests.mono (fun _ _ hr => hr) rfl
    fun _ _ _ hok => hok.prepend rfl (List.suffix_append _ _)

theorem inv_prepend (h : Inv s) {id : Nat} (ho : Orderly s (.prepend id))
    (hs : step s (.prepend id) = some s') : Inv s' := by
  cases hs
  split
  · exact h
  · rename_i hid
    refine h.prepend [id] s.gapBeforeIds fun hshown => ?_
    obtain ⟨hmem, hhead⟩ := (ho hshown).resolve_left hid
    exact (h.shown hshown).cons (h.timelines.sorted _) hmem hhead

theorem rowsFor_ok (h : Timelines s.server s.nextId) (hr : r.Ok s) :
    ({ r with rows := some (rowsFor (s.server r.key) r.kind) } : Request).Ok s := by
  cases hr with
  | first le now page =>
    refine .first le now ?_
    rintro _ ⟨⟩
    exact (List.take_prefix _ _).isInfix
  | more le mem now page =>
    refine .more le mem now ?_
    rintro _ ⟨⟩
    exact page_infix (h.sorted _) mem _
  | head page =>
    refine .head ?_
    rintro _ ⟨⟩
    exact (List.take_prefix _ _).isInfix

theorem inv_serve (h : Inv s) (hs : step s (.serve i) = some s') : Inv s' := by
  obtain ⟨r, hr, -, rfl⟩ := serve_eq_some.mp hs
  have hcases : ∀ j, ∀ r' ∈ (setRequest s i (some { r with
      rows := some (rowsFor (s.server r.key) r.kind) })).requests j,
      ∃ r₀ ∈ s.requests j, r₀.kind = r'.kind ∧ r'.Ok s := by
    intro j r' hr'
    rcases mem_setRequest.mp hr' with ⟨rfl, ⟨⟩⟩ | ⟨-, hr'⟩
    · exact ⟨r, hr, rfl, rowsFor_ok h.timelines (h.requests.ok j r hr)⟩
    · exact ⟨r', hr', rfl, h.requests.ok j r' hr'⟩
  refine ⟨h.timelines, h.shown, h.ref, h.cache, fun j r' hr' => ?_, fun j r' hr' => ?_,
    fun j k r' hr' r'' hr'' g hg hg' => ?_⟩
  · obtain ⟨-, -, -, hok⟩ := hcases j r' hr'
    exact hok.prepend rfl List.suffix_rfl
  · obtain ⟨r₀, hr₀, -⟩ := hcases j r' hr'
    exact h.requests.lt_next j r₀ hr₀
  · obtain ⟨r₀, hr₀, hkind, -⟩ := hcases j r' hr'
    obtain ⟨r₁, hr₁, hkind', -⟩ := hcases k r'' hr''
    exact h.requests.unique j k r₀ hr₀ r₁ hr₁ g (hkind ▸ hg) (hkind' ▸ hg')

/-- `finally`, where no other page of the generation is asked for -/
theorem Inv.settle (h : Inv s) {g : Nat}
    (hg : ∀ i, ∀ r ∈ s.requests i, g ∉ r.kind.generation) : Inv (settle s g) := by
  obtain ⟨l, heq, hl⟩ := settle_eq s g
  rw [heq]
  refine ⟨h.timelines, h.shown, h.ref, h.cache, h.requests.mono (fun _ _ hr => hr) rfl
    fun i r hr hok => hok.mono (fun _ => List.suffix_rfl) le_rfl
      fun hnow _ => ⟨rfl, Iff.rfl, fun hload => hl _ hload ?_, fun _ => id⟩⟩
  rintro rfl
  exact hg i r hr hnow

/-- The first page comes in. -/
theorem inv_first (h : Inv s) {rows : List Nat} {g : Nat}
    (hok : (⟨key, .first g, some rows⟩ : Request).Ok s)
    (hg : ∀ i, ∀ r ∈ s.requests i, g ∉ r.kind.generation) :
    Inv (resolved s key rows (.first g)) := by
  simp only [resolved]
  split
  · rename_i hgen
    obtain ⟨hkey, hnot⟩ : key = s.currentFeedKey ∧ ¬ Shown s := by
      cases hok with
      | first le now page => exact now hgen
    have hpage : rows <:+: s.server s.currentFeedKey := by
      cases hok with
      | first le now page => exact hkey ▸ page rows rfl
    refine ⟨h.timelines, fun _ => Excerpt.of_infix (h.timelines.sorted _) hpage,
      fun href => absurd (h.ref href).1 hnot, h.cache, h.requests.mono (fun _ _ hr => hr) rfl
        fun i r hr hok => hok.mono (fun _ => List.suffix_rfl) le_rfl fun hnow _ => ?_⟩
    exact absurd (hgen ▸ hnow) (hg i r hr)
  · exact h

/-- The next page comes in. -/
theorem inv_more (h : Inv s) {rows : List Nat} {g u : Nat}
    (hok : (⟨key, .more g u, some rows⟩ : Request).Ok s)
    (hg : ∀ i, ∀ r ∈ s.requests i, g ∉ r.kind.generation) :
    Inv (resolved s key rows (.more g u)) := by
  simp only [resolved]
  split
  · rename_i hgen
    obtain ⟨hkey, hshown, hu, hpage⟩ : key = s.currentFeedKey ∧ Shown s ∧
        Unbroken (s.server s.currentFeedKey) s.notes u ∧
          (u :: rows) <:+: s.server s.currentFeedKey := by
      cases hok with
      | more le mem now page =>
        obtain ⟨rfl, hshown, -, hu⟩ := now hgen
        exact ⟨rfl, hshown, hu, page rows rfl⟩
    obtain ⟨hexcerpt, hunbroken⟩ := (h.shown hshown).extend (h.timelines.sorted _) hu hpage
    have hmore : Inv { s with
        notes := s.notes ++ rows.filter fun x => decide (x ∉ s.notes)
        hasMore := decide (pageSize ≤ rows.length) } :=
      ⟨h.timelines, fun _ => hexcerpt,
        fun href => ⟨hshown, fun v hv => hunbroken v ((h.ref href).2 v hv)⟩, h.cache,
        h.requests.mono (fun _ _ hr => hr) rfl fun i r hr hok =>
          hok.mono (fun _ => List.suffix_rfl) le_rfl fun hnow _ =>
            absurd (hgen ▸ hnow) (hg i r hr)⟩
    exact hmore.settle hg
  · exact h.settle hg

/-- The newest page comes in: where it meets what is on the page, it meets the newest note. -/
theorem inv_head (h : Inv s) {rows : List Nat} (hok : (⟨key, .head, some rows⟩ : Request).Ok s)
    (ho : key = s.currentFeedKey → s.notesFeedKeyRef = some key → s.notesRef = s.notes ∧
      ∀ first ∈ s.notes.head?, ∀ newest ∈ rows.head?, first ≤ newest) :
    Inv (resolved s key rows .head) := by
  simp only [resolved]
  split
  · rename_i hcur
    obtain ⟨rfl, href⟩ := hcur
    obtain ⟨hnotes, hnewest⟩ := ho rfl href
    have hpage : rows <:+: s.server s.currentFeedKey := by
      cases hok with
      | head page => exact page rows rfl
    have hshown := (h.ref href).1
    have hexcerpt := h.shown hshown
    have hsorted := h.timelines.sorted s.currentFeedKey
    -- a page that has notes older than the newest one on the page has that one, too
    have hfirst : ∀ first ∈ s.notes.head?, ∀ x ∈ rows, x ≤ first → first ∈ rows := by
      intro first hf x hx hle
      obtain ⟨newest, hn⟩ : ∃ newest, newest ∈ rows.head? := by
        cases rows with
        | nil => cases hx
        | cons w ws => exact ⟨w, rfl⟩
      exact mem_of_between hsorted hpage (hexcerpt.mem (List.mem_of_mem_head? hf))
        (List.mem_of_mem_head? hn) hx hle (hnewest first hf newest hn)
    rcases mergeHead_cases s rows with heq | ⟨hnil, heq⟩ | ⟨first, hf, hnone, heq⟩ |
      ⟨newOnes, v, rest, rfl, hnew, hv, heq⟩ <;> rw [heq]
    · exact h
    · rw [hnotes] at hnil
      have hpart : Excerpt (s.server s.currentFeedKey) s.gapBeforeIds rows :=
        Excerpt.of_infix hsorted hpage
      simpa only [hnil, List.append_nil] using
        h.prepend rows s.gapBeforeIds fun _ => by rwa [hnil, List.append_nil]
    · rw [hnotes] at hf hnone
      have hgt : ∀ x ∈ rows, first < x := by
        intro x hx
        by_contra hle
        exact hnone first (hfirst first hf x hx (not_lt.mp hle)) (List.mem_of_mem_head? hf)
      refine h.prepend _ _ fun _ => (hexcerpt.mono fun a ha => List.mem_cons_of_mem _ ha).append hsorted
        hpage (fun x hx b hb => ?_) fun b hb => ?_
      · cases hb.symm.trans hf
        exact hgt x hx
      · cases hb.symm.trans hf
        exact .inl List.mem_cons_self
    · rw [hnotes] at hnew hv
      obtain ⟨-, hrest, hgt⟩ := List.pairwise_append.mp (hsorted.sublist hpage.sublist)
      have hpart : newOnes <:+: s.server s.currentFeedKey := (List.infix_append' [] newOnes
        (v :: rest)).trans hpage
      -- the first note of the page that is known is the newest one on the page
      have hv' : ∀ first ∈ s.notes.head?, first = v := by
        intro first hf
        have hle := le_of_head? hexcerpt.falling hf hv
        rcases List.mem_append.mp (hfirst first hf v (by simp) hle) with hmem | hmem
        · exact absurd (List.mem_of_mem_head? hf) (hnew first hmem)
        · rcases List.mem_cons.mp hmem with rfl | hmem
          · rfl
          · exact absurd ((List.pairwise_cons.mp hrest).1 first hmem) (not_lt.mpr hle)
      refine h.prepend _ _ fun _ => hexcerpt.append hsorted hpart (fun x hx b hb => ?_) fun b hb => ?_
      · cases hv' b hb
        exact hgt x hx _ List.mem_cons_self
      · cases hv' b hb
        refine .inr (List.IsInfix.trans ⟨[], rest, ?_⟩ hpage)
        rw [List.nil_append, List.append_assoc, List.singleton_append]
  · exact h

theorem inv_resolve (h : Inv s) (ho : Orderly s (.resolve i)) (hs : step s (.resolve i) = some s') :
    Inv s' := by
  obtain ⟨⟨key, kind, _⟩, hr, rows, ⟨⟩, rfl⟩ := resolve_eq_some.mp hs
  have hok : Request.Ok (setRequest s i none) ⟨key, kind, some rows⟩ :=
    (h.requests.ok i _ hr).prepend rfl List.suffix_rfl
  have hother : ∀ g ∈ kind.generation, ∀ j, ∀ r' ∈ (setRequest s i none).requests j,
      g ∉ r'.kind.generation := by
    intro g hg j r' hr' hg'
    obtain ⟨hne, hr'⟩ := mem_setRequest_none hr'
    exact hne (h.requests.unique j i r' hr' _ hr g hg' hg)
  cases kind with
  | first g => exact inv_first (h.remove i) hok (hother g rfl)
  | more g u => exact inv_more (h.remove i) hok (hother g rfl)
  | head =>
    refine inv_head (h.remove i) hok fun hkey href => ?_
    obtain ⟨hnotes, hfirst⟩ := ho _ hr rfl hkey href
    exact ⟨hnotes, fun first hf => hfirst first hf rows rfl⟩

theorem inv_reject (h : Inv s) (hs : step s (.reject i) = some s') : Inv s' := by
  obtain ⟨⟨key, kind, rows⟩, hr, rfl⟩ := reject_eq_some.mp hs
  cases kind with
  | first g =>
    simp only [rejected]
    split
    · have h' := h.remove i
      exact ⟨h'.timelines, h'.shown, h'.ref, h'.cache, h'.requests.mono (fun _ _ hr => hr) rfl
        fun _ _ _ hok => hok.prepend rfl List.suffix_rfl⟩
    · exact h.remove i
  | more g u =>
    refine (h.remove i).settle fun j r' hr' hg => ?_
    obtain ⟨hne, hr'⟩ := mem_setRequest_none hr'
    exact hne (h.requests.unique j i r' hr' _ hr g hg rfl)
  | head => exact h.remove i

theorem inv_step {a : Action} (h : Inv s) (ho : Orderly s a) (hs : step s a = some s') :
    Inv s' := by
  cases a with
  | post keys => exact inv_post h hs
  | switchTab key => exact inv_switchTab h ho hs
  | render => exact inv_render h hs
  | loadMore => exact inv_loadMore h hs
  | onResync => exact inv_onResync h hs
  | prepend id => exact inv_prepend h ho hs
  | scroll => exact inv_scroll h hs
  | serve i => exact inv_serve h hs
  | resolve i => exact inv_resolve h ho hs
  | reject i => exact inv_reject h hs

end Steps

theorem timelines_init (key : String) : Timelines (init key).server (init key).nextId :=
  ⟨fun _ => List.Pairwise.nil, by simp [init, request]⟩

theorem inv_init (key : String) : Inv (init key) := by
  refine Inv.add ⟨⟨fun _ => List.Pairwise.nil, by simp⟩, ?_, ?_, by simp, by simp, by simp, by simp⟩
    (.first le_rfl (fun _ => ⟨rfl, ?_⟩) (by simp)) (by simp) <;>
  simp [Shown]

/-- Two tabs, a note while each is shown, and the rest of the timeline of the first one -/
def twoTabs : List Action :=
  [.post ["home", "local"], .serve 0, .resolve 0, .render, .post ["home"], .prepend 1, .render,
    .switchTab "local", .serve 1, .resolve 1, .render, .switchTab "home", .post ["home"], .serve 2,
    .loadMore, .resolve 2, .serve 3, .resolve 3, .render]

/-- `m` is not on the list, which has `n` and, further on, `h` and what is older than `m`. -/
structure Misses (n m h : Nat) (l : List Nat) : Prop where
  newer : n ∈ l
  older : h ∈ l
  inner : h ∉ l.head?
  missing : m ∉ l
  last : ∀ u ∈ l.getLast?, u < m

/-- An answer with `m` has `n` before it; a page of this generation goes on from an older note. -/
inductive Request.Late (s : State) (key : String) (n m : Nat) : Request → Prop
  | first {k g rows} (le : g ≤ s.generation) (now : g = s.generation → k = s.currentFeedKey)
      (other : k ≠ key) : Late s key n m ⟨k, .first g, rows⟩
  | more {k g u rows} (le : g ≤ s.generation)
      (now : g = s.generation → k = s.currentFeedKey ∧ (k = key → u < m))
      (page : ∀ p ∈ rows, ∀ x ∈ p, x < u) : Late s key n m ⟨k, .more g u, rows⟩
  | head {k rows} (page : k = key → ∀ p ∈ rows, p.Pairwise (· > ·) ∧ (m ∈ p → n ∈ p)) :
      Late s key n m ⟨k, .head, rows⟩

structure Lost (key : String) (n m h : Nat) (s : State) : Prop where
  timelines : Timelines s.server s.nextId
  lt : m < n
  mem : n ∈ s.server key
  notes : s.currentFeedKey = key → Misses n m h s.notes ∧ h ∉ s.gapBeforeIds
  ref : s.currentFeedKey = key → Misses n m h s.notesRef
  cache : ∃ c ∈ s.cache key, Misses n m h c.notes ∧ h ∉ c.gapBeforeIds
  late : ∀ i, ∀ r ∈ s.requests i, r.Late s key n m

section Lost

variable {s s' : State} {key k : String} {kind : Kind} {n m h i : Nat} {r : Request}
  {l new : List Nat}

theorem Misses.prepend (hl : Misses n m h l) (hm : m ∉ new) (hh : h ∉ new) :
    Misses n m h (new ++ l) where
  newer := List.mem_append_right _ hl.newer
  older := List.mem_append_right _ hl.older
  inner := by
    cases new with
    | nil => exact hl.inner
    | cons w new =>
      rintro ⟨⟩
      exact hh List.mem_cons_self
  missing := by simp [hm, hl.missing]
  last := by
    rw [List.getLast?_append_of_ne_nil _ (List.ne_nil_of_mem hl.newer)]
    exact hl.last

theorem Misses.append (hl : Misses n m h l) (hnew : ∀ x ∈ new, x < m) :
    Misses n m h (l ++ new) where
  newer := List.mem_append_left _ hl.newer
  older := List.mem_append_left _ hl.older
  inner := by
    rw [List.head?_append_of_ne_nil _ (List.ne_nil_of_mem hl.newer)]
    exact hl.inner
  missing := by
    rw [List.mem_append, not_or]
    exact ⟨hl.missing, fun hm => lt_irrefl m (hnew m hm)⟩
  last := by
    intro u hu
    cases hnew' : new.getLast? with
    | none =>
      rw [List.getLast?_eq_none_iff.mp hnew', List.append_nil] at hu
      exact hl.last u hu
    | some v =>
      rw [List.getLast?_append, hnew'] at hu
      cases hu
      exact hnew u (List.mem_of_getLast? hnew')

theorem Request.Late.mono (hr : r.Late s key n m) (hgen : s.generation ≤ s'.generation)
    (hcur : s.generation = s'.generation → s.currentFeedKey = s'.currentFeedKey) :
    r.Late s' key n m := by
  cases hr with
  | first le now other =>
    refine .first (le.trans hgen) (fun hg => ?_) other
    have hsame : s.generation = s'.generation := le_antisymm hgen (hg ▸ le)
    exact (now (hg.trans hsame.symm)).trans (hcur hsame)
  | more le now page =>
    refine .more (le.trans hgen) (fun hg => ?_) page
    have hsame : s.generation = s'.generation := le_antisymm hgen (hg ▸ le)
    exact (now (hg.trans hsame.symm)).imp_left fun hk => hk.trans (hcur hsame)
  | head page => exact .head page

theorem Lost.add (hl : Lost key n m h s) (hr : (⟨k, kind, none⟩ : Request).Late s key n m) :
    Lost key n m h (request s k kind) := by
  refine ⟨hl.timelines, hl.lt, hl.mem, hl.notes, hl.ref, hl.cache, fun i r hir => ?_⟩
  simp only [request, Function.update_apply] at hir
  split at hir
  · cases hir
    exact hr.mono le_rfl fun _ => rfl
  · exact (hl.late i r hir).mono le_rfl fun _ => rfl

theorem Lost.remove (hl : Lost key n m h s) (i : Nat) : Lost key n m h (setRequest s i none) :=
  ⟨hl.timelines, hl.lt, hl.mem, hl.notes, hl.ref, hl.cache, fun j r hr =>
    (hl.late j r (mem_setRequest_none hr).2).mono le_rfl fun _ => rfl⟩

/-- The notes on the page and the dividers change, if the page is of the tab for the better. -/
theorem Lost.setNotes (hl : Lost key n m h s) {gaps : List Nat} {feedKey : Option String}
    {hasMore loading : Bool} {l : List Nat}
    (hnotes : s.currentFeedKey = key → Misses n m h l ∧ h ∉ gaps) :
    Lost key n m h { s with
      notes := l, notesFeedKey := feedKey, gapBeforeIds := gaps, hasMore, loading } :=
  ⟨hl.timelines, hl.lt, hl.mem, hnotes, hl.ref, hl.cache, fun j r hr =>
    (hl.late j r hr).mono le_rfl fun _ => rfl⟩

theorem Lost.settle (hl : Lost key n m h s) (g : Nat) : Lost key n m h (settle s g) := by
  obtain ⟨l, heq, -⟩ := settle_eq s g
  rw [heq]
  exact ⟨hl.timelines, hl.lt, hl.mem, hl.notes, hl.ref, hl.cache, fun j r hr =>
    (hl.late j r hr).mono le_rfl fun _ => rfl⟩

theorem Lost.rendered (hl : Lost key n m h s) : Lost key n m h (rendered s) :=
  ⟨hl.timelines, hl.lt, hl.mem, hl.notes, fun hkey => (hl.notes hkey).1, hl.cache, fun j r hr =>
    (hl.late j r hr).mono le_rfl fun _ => rfl⟩

theorem Lost.setCache (hl : Lost key n m h s) {c : CacheEntry}
    (hc : s.currentFeedKey = key → Misses n m h c.notes ∧ h ∉ c.gapBeforeIds) :
    Lost key n m h (setCache s c) := by
  refine ⟨hl.timelines, hl.lt, hl.mem, hl.notes, hl.ref, ?_, fun j r hr =>
    (hl.late j r hr).mono le_rfl fun _ => rfl⟩
  by_cases hkey : s.currentFeedKey = key
  · exact ⟨c, by simp [HomePage.setCache, hkey], hc hkey⟩
  · obtain ⟨c', hc', hmiss⟩ := hl.cache
    exact ⟨c', by simpa [HomePage.setCache, Function.update_of_ne (Ne.symm hkey)] using hc', hmiss⟩

/-- The tab comes back as it was. -/
theorem lost_switchTab (hl : Lost key n m h s) (hs : step s (.switchTab k) = some s') :
    Lost key n m h s' := by
  obtain ⟨-, rfl⟩ := switchTab_eq_some.mp hs
  have hrequest : ∀ i, ∀ r ∈ s.requests i, ∀ t : State, t.generation = s.generation + 1 →
      r.Late t key n m := fun i r hr t ht =>
    (hl.late i r hr).mono (by omega) fun hsame => by omega
  simp only [showTab]
  split
  · rename_i cached hcached
    have hmiss : k = key → Misses n m h cached.notes ∧ h ∉ cached.gapBeforeIds := by
      rintro rfl
      obtain ⟨c, hc, hmiss⟩ := hl.cache
      cases hc.symm.trans hcached
      exact hmiss
    refine Lost.add (s := HomePage.rendered { s with
      currentFeedKey := k, generation := s.generation + 1, notes := cached.notes
      notesFeedKey := some k, hasMore := cached.hasMore, gapBeforeIds := cached.gapBeforeIds
      loading := false }) ?_ (.head (by simp))
    exact ⟨hl.timelines, hl.lt, hl.mem, hmiss, fun hk => (hmiss hk).1, hl.cache, fun i r hr =>
      hrequest i r hr _ rfl⟩
  · rename_i hcached
    have hne : k ≠ key := by
      rintro rfl
      obtain ⟨c, hc, -⟩ := hl.cache
      cases hc.symm.trans hcached
    refine Lost.add (s := HomePage.rendered { s with
      currentFeedKey := k, generation := s.generation + 1, hasMore := true, gapBeforeIds := []
      loading := true }) ?_ (.first le_rfl (fun _ => rfl) hne)
    exact ⟨hl.timelines, hl.lt, hl.mem, fun hk => absurd hk hne, fun hk => absurd hk hne, hl.cache,
      fun i r hr => hrequest i r hr _ rfl⟩

/-- The answer of the server has no older note before a newer one. -/
theorem rowsFor_late (h : Timelines s.server s.nextId) (hmem : n ∈ s.server key) (hlt : m < n)
    (hr : r.Late s key n m) :
    ({ r with rows := some (rowsFor (s.server r.key) r.kind) } : Request).Late s key n m := by
  cases hr with
  | first le now other => exact .first le now other
  | more le now page =>
    refine .more le now ?_
    rintro _ ⟨⟩ x hx
    exact of_decide_eq_true (List.mem_filter.mp (List.mem_of_mem_take hx)).2
  | @head k rows page =>
    refine .head ?_
    rintro rfl _ ⟨⟩
    have hprefix := List.take_prefix pageSize (s.server k)
    exact ⟨(h.sorted _).sublist hprefix.sublist, fun hm =>
      mem_of_prefix (h.sorted _) hprefix hmem hm hlt.le⟩

theorem lost_serve (hl : Lost key n m h s) (hs : step s (.serve i) = some s') :
    Lost key n m h s' := by
  obtain ⟨r, hr, -, rfl⟩ := serve_eq_some.mp hs
  refine ⟨hl.timelines, hl.lt, hl.mem, hl.notes, hl.ref, hl.cache, fun j r' hr' => ?_⟩
  rcases mem_setRequest.mp hr' with ⟨-, ⟨⟩⟩ | ⟨-, hr'⟩
  · exact (rowsFor_late hl.timelines hl.mem hl.lt (hl.late i r hr)).mono le_rfl fun _ => rfl
  · exact (hl.late j r' hr').mono le_rfl fun _ => rfl

/-- The newest page brings nothing older than `n` to a page that has `n`. -/
theorem lost_mergeHead (hl : Lost key n m h s) {rows : List Nat} (hcur : s.currentFeedKey = key)
    (hrows : rows.Pairwise (· > ·)) (hbefore : m ∈ rows → n ∈ rows) :
    Lost key n m h (mergeHead s rows) := by
  obtain ⟨hnotes, hgap⟩ := hl.notes hcur
  have href := hl.ref hcur
  rcases mergeHead_cases s rows with heq | ⟨hnil, heq⟩ | ⟨first, hf, hnone, heq⟩ |
    ⟨newOnes, v, rest, rfl, hnew, hv, heq⟩ <;> rw [heq]
  · exact hl
  · exact absurd (hnil ▸ href.newer) List.not_mem_nil
  · refine hl.setNotes fun _ => ⟨hnotes.prepend (fun hm => hnone n (hbefore hm) href.newer)
      fun hh => hnone h hh href.older, fun hh => ?_⟩
    rcases List.mem_cons.mp hh with rfl | hh
    · exact href.inner hf
    · exact hgap hh
  · refine hl.setNotes fun _ => ⟨hnotes.prepend (fun hm => ?_) fun hh => hnew h hh href.older, hgap⟩
    rcases List.mem_append.mp (hbefore (List.mem_append_left _ hm)) with hn | hn
    · exact hnew n hn href.newer
    · have hgt := (List.pairwise_append.mp hrows).2.2 m hm n hn
      exact absurd hl.lt (not_lt.mpr hgt.le)

theorem lost_resolve (hl : Lost key n m h s) (hs : step s (.resolve i) = some s') :
    Lost key n m h s' := by
  obtain ⟨⟨k, kind, _⟩, hr, rows, ⟨⟩, rfl⟩ := resolve_eq_some.mp hs
  have hlate := hl.late i _ hr
  have hl := hl.remove i
  cases kind with
  | first g =>
    simp only [resolved]
    split
    · rename_i hg
      refine hl.setNotes fun hkey => ?_
      cases hlate with
      | first le now other => exact absurd ((now hg).trans hkey) other
    · exact hl
  | more g u =>
    simp only [resolved]
    split
    · rename_i hg
      refine Lost.settle (hl.setNotes fun hkey => ?_) g
      obtain ⟨hnotes, hgap⟩ := hl.notes hkey
      cases hlate with
      | more le now page =>
        obtain ⟨hk, hu⟩ := now hg
        refine ⟨hnotes.append fun x hx => ?_, hgap⟩
        exact (page rows rfl x (List.mem_of_mem_filter hx)).trans (hu (hk.trans hkey))
    · exact hl.settle g
  | head =>
    simp only [resolved]
    split
    · rename_i hcur
      by_cases hkey : k = key
      · cases hlate with
        | head page =>
          obtain ⟨hrows, hbefore⟩ := page hkey rows rfl
          exact lost_mergeHead hl (hcur.1.trans hkey) hrows hbefore
      · obtain ⟨l, gaps, heq⟩ := mergeHead_eq (setRequest s i none) rows
        rw [heq]
        exact hl.setNotes fun hk => absurd (hcur.1.symm.trans hk) hkey
    · exact hl

theorem lost_reject (hl : Lost key n m h s) (hs : step s (.reject i) = some s') :
    Lost key n m h s' := by
  obtain ⟨⟨k, kind, rows⟩, hr, rfl⟩ := reject_eq_some.mp hs
  have hl := hl.remove i
  cases kind with
  | first g =>
    simp only [rejected]
    split
    · exact hl.setNotes hl.notes
    · exact hl
  | more g u => exact hl.settle g
  | head => exact hl

theorem lost_step {a : Action} (hl : Lost key n m h s) (ha : a ≠ .prepend m)
    (hs : step s a = some s') : Lost key n m h s' := by
  cases a with
  | post keys =>
    have hserver := server_suffix hs key
    have htimelines := timelines_step hl.timelines hs
    cases hs
    exact ⟨htimelines, hl.lt, hserver.subset hl.mem, hl.notes, hl.ref, hl.cache, fun j r hr =>
      (hl.late j r hr).mono le_rfl fun _ => rfl⟩
  | switchTab k => exact lost_switchTab hl hs
  | render =>
    rcases render_eq_some.mp hs with ⟨rfl, -⟩ | ⟨rfl, -⟩
    · exact hl.rendered.setCache hl.notes
    · exact hl.rendered
  | loadMore =>
    obtain ⟨-, -, u, hu, rfl⟩ := loadMore_eq_some.mp hs
    have hloading : Lost key n m h { s with loadingGeneration := some s.generation } :=
      ⟨hl.timelines, hl.lt, hl.mem, hl.notes, hl.ref, hl.cache, fun j r hr =>
        (hl.late j r hr).mono le_rfl fun _ => rfl⟩
    exact hloading.add (.more le_rfl (fun _ => ⟨rfl, fun hkey => (hl.ref hkey).last u hu⟩) (by simp))
  | onResync =>
    obtain ⟨-, rfl⟩ := onResync_eq_some.mp hs
    exact hl.add (.head (by simp))
  | prepend id =>
    cases hs
    split
    · exact hl
    · rename_i hid
      refine hl.setNotes (l := id :: s.notes) fun hkey => ?_
      obtain ⟨hnotes, hgap⟩ := hl.notes hkey
      have hm : m ∉ [id] := fun hm => ha (congrArg Action.prepend (List.mem_singleton.mp hm).symm)
      have hh : h ∉ [id] := fun hh => hid (List.mem_singleton.mp hh ▸ hnotes.older)
      exact ⟨hnotes.prepend hm hh, hgap⟩
  | scroll =>
    cases hs
    refine hl.setCache ?_
    rintro rfl
    obtain ⟨c, hc, hmiss⟩ := hl.cache
    simp only [cachedScroll, Option.mem_def.mp hc, Option.getD_some]
    exact hmiss
  | serve i => exact lost_serve hl hs
  | resolve i => exact lost_resolve hl hs
  | reject i => exact lost_reject hl hs

theorem misses_of_next (hl : l.Pairwise (· > ·)) (hnext : [n, h] <:+: l) (hmn : m < n)
    (hhm : h < m) : Misses n m h l := by
  have hn : n ∈ l := hnext.subset List.mem_cons_self
  have hh : h ∈ l := hnext.subset (List.mem_cons_of_mem _ List.mem_cons_self)
  have hinner : h ∉ l.head? := fun hf => absurd (le_of_head? hl hf hn) (by omega)
  obtain ⟨pre, post, rfl⟩ := hnext
  obtain ⟨hpre, -, hgt⟩ := List.pairwise_append.mp hl
  obtain ⟨-, -, hgt'⟩ := List.pairwise_append.mp hpre
  refine ⟨hn, hh, hinner, fun hm => ?_, fun u hu => ?_⟩
  · rcases List.mem_append.mp hm with hm | hm
    · rcases List.mem_append.mp hm with hm | hm
      · exact absurd (hgt' m hm n List.mem_cons_self) (by omega)
      · rcases List.mem_cons.mp hm with rfl | hm
        · exact lt_irrefl m hmn
        · exact absurd (List.mem_singleton.mp hm) hhm.ne'
    · exact absurd (hgt h (by simp) m hm) (by omega)
  · rw [List.append_assoc, List.cons_append, List.cons_append, List.nil_append,
      List.getLast?_append_of_ne_nil _ (by simp), List.getLast?_cons_cons] at hu
    rcases List.mem_cons.mp (List.mem_of_getLast? hu) with rfl | hu
    · exact hhm
    · exact (hgt h (by simp) u hu).trans hhm

/-- The page as it was rendered, and as it is in the cache; no page is asked for, and no answer is
on its way. -/
structure AtRest (s : State) : Prop where
  notesRef : s.notesRef = s.notes
  cached : s.cache s.currentFeedKey = some ⟨s.notes, s.hasMore, s.gapBeforeIds⟩
  requests : ∀ i, ∀ r ∈ s.requests i, r.kind = .head ∧ r.rows = none

/-- A note between two notes that are next to each other on the page does not come back to the page
or the cache of the tab, and no divider is set, whatever is asked for. -/
theorem lost_for_good {key : String} {as bs : List Action} {s t : State} {n m h : Nat}
    (hs : machine.run (init key) as = some s) (hrest : AtRest s)
    (hfalling : s.notes.Pairwise (· > ·)) (hnext : [n, h] <:+: s.notes) (hgap : h ∉ s.gapBeforeIds)
    (hn : n ∈ s.server s.currentFeedKey) (hmn : m < n) (hhm : h < m)
    (hr : machine.run s bs = some t) (hm : .prepend m ∉ bs) :
    (t.currentFeedKey = s.currentFeedKey →
      n ∈ t.notes ∧ h ∈ t.notes ∧ m ∉ t.notes ∧ h ∉ t.gapBeforeIds) ∧
    ∃ c ∈ t.cache s.currentFeedKey,
      n ∈ c.notes ∧ h ∈ c.notes ∧ m ∉ c.notes ∧ h ∉ c.gapBeforeIds := by
  have htimelines : Timelines s.server s.nextId :=
    machine.run_inv (I := fun s => Timelines s.server s.nextId) timelines_step
      (timelines_init key) hs
  have hmiss := misses_of_next hfalling hnext hmn hhm
  have hlost : Lost s.currentFeedKey n m h s := by
    refine ⟨htimelines, hmn, hn, fun _ => ⟨hmiss, hgap⟩, fun _ => hrest.notesRef ▸ hmiss,
      ⟨_, hrest.cached, hmiss, hgap⟩, fun i r hir => ?_⟩
    obtain ⟨k, kind, rows⟩ := r
    obtain ⟨rfl, rfl⟩ := hrest.requests i _ hir
    exact .head (by simp)
  have hl : Lost s.currentFeedKey n m h t :=
    machine.run_inv_along lost_step hlost
      (machine.along_of_forall s fun a ha heq => hm (heq ▸ ha)) hr
  refine ⟨fun hcur => ?_, ?_⟩
  · obtain ⟨hnotes, hgap⟩ := hl.notes hcur
    exact ⟨hnotes.newer, hnotes.older, hnotes.missing, hgap⟩
  · obtain ⟨c, hc, hnotes, hgap⟩ := hl.cache
    exact ⟨c, hc, hnotes.newer, hnotes.older, hnotes.missing, hgap⟩

/-- Note 1 is posted while the WebSocket is down, and note 2 after it is up again, but before the
server looks up the newest page. -/
def overtaken : List Action :=
  [.post ["home"], .serve 0, .resolve 0, .render, .post ["home"], .onResync, .post ["home"],
    .prepend 2, .render]

def comeBack : List Action :=
  [.serve 1, .resolve 1, .render, .switchTab "local", .switchTab "home", .serve 3, .resolve 3,
    .loadMore, .serve 4, .resolve 4, .render]

theorem lost_for_good_overtaken : ∃ s t, machine.run (init "home") overtaken = some s ∧
    machine.run s comeBack = some t ∧ t.server "home" = [2, 1, 0] ∧ t.notes = [2, 0] ∧
    (t.currentFeedKey = s.currentFeedKey →
      2 ∈ t.notes ∧ 0 ∈ t.notes ∧ 1 ∉ t.notes ∧ 0 ∉ t.gapBeforeIds) ∧
    ∃ c ∈ t.cache s.currentFeedKey,
      2 ∈ c.notes ∧ 0 ∈ c.notes ∧ 1 ∉ c.notes ∧ 0 ∉ c.gapBeforeIds := by
  obtain ⟨s, hs⟩ : ∃ s, machine.run (init "home") overtaken = some s :=
    Option.isSome_iff_exists.mp (by decide)
  have hpage : ∀ s ∈ machine.run (init "home") overtaken, s.notes = [2, 0] ∧ s.gapBeforeIds = [] ∧
      2 ∈ s.server s.currentFeedKey := by decide
  have hsome : ∀ s ∈ machine.run (init "home") overtaken,
      (machine.run s comeBack).isSome = true := by decide
  have hend : ∀ s ∈ machine.run (init "home") overtaken, ∀ t ∈ machine.run s comeBack,
      t.server "home" = [2, 1, 0] ∧ t.notes = [2, 0] := by decide
  have hrest : AtRest s := by
    cases hs
    refine ⟨rfl, rfl, fun i r hr => ?_⟩
    change r ∈ Function.update (Function.update (Function.update (Function.update (fun _ => none) 0
      (some ⟨"home", .first 0, none⟩)) 0 (some ⟨"home", .first 0, some [0]⟩)) 0 none) 1
      (some ⟨"home", .head, none⟩) i at hr
    simp only [Function.update_apply] at hr
    split at hr
    · cases hr
      exact ⟨rfl, rfl⟩
    · by_cases h0 : i = 0 <;> simp [h0] at hr
  obtain ⟨hnotes, hgaps, hn⟩ := hpage s hs
  obtain ⟨t, ht⟩ := Option.isSome_iff_exists.mp (hsome s hs)
  obtain ⟨hserver, hnotes'⟩ := hend s hs t ht
  refine ⟨s, t, hs, ht, hserver, hnotes', lost_for_good hs hrest ?_ ?_ ?_ hn (by decide) (by decide)
    ht (by decide)⟩
  · rw [hnotes]
    decide
  · rw [hnotes]
  · rw [hgaps]
    decide

end Lost

end Seiran.HomePage
