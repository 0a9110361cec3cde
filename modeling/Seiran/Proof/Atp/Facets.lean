import Seiran.Framework.Sorting
import Seiran.Model.Atp.Facets

/-!
# The shown text of a post with facets

`linkStep` and `mentionStep` are the edits of `Splice.step`, so what each pass
makes of a text is a `Splice.render`. The two passes do not use the same text:
the ranges of the mentions are those of the record's text, and are replaced in
the stored body.

* `shown_eq`: where no mention comes after a link the stored body is the text as
  far as the mentions reach, and the passes give what replacing all facets at
  once gives.
* `shown_ne`: after a link the last mention is replaced too early.
* `replacedSpans`: what is replaced in a body that is not made from the text.
-/

namespace Seiran.Facets

open Mention (Text utf8Len)
open Splice

/-! ## What a facet does -/

def linkOf (f : ParsedFacet) : Option Text := f.features.findSome? ParsedFacetFeature.uri

def dids (f : ParsedFacet) : List Text := f.features.filterMap ParsedFacetFeature.did

def isMentionFacet (f : ParsedFacet) : Prop := dids f ≠ []

/-- The handle that is shown over the facet. -/
def handleOf (mentionPaths : Text → Option Text) (f : ParsedFacet) : Option Text :=
  (dids f).findSome? mentionPaths

def mark (link : Option Text) (text : Text) : Text :=
  match link with
  | some uri => markdownLink text uri
  | none => text

def edit (f : ParsedFacet) (value : Option (Text → Text)) : Edit Char :=
  ⟨f.index.byteStart, f.index.byteEnd, value⟩

def linkEdit (f : ParsedFacet) : Edit Char :=
  edit f ((linkOf f).map fun uri text => markdownLink text uri)

def mentionEdit (mentionPaths : Text → Option Text) (f : ParsedFacet) : Edit Char :=
  edit f ((handleOf mentionPaths f).map fun handle _ => handle)

/-- The handle, or the text where there is none, inside the link. -/
def shownEdit (mentionPaths : Text → Option Text) (f : ParsedFacet) : Edit Char :=
  edit f (some fun text => mark (linkOf f) ((handleOf mentionPaths f).getD text))

abbrev sortFacets (facets : List ParsedFacet) : List ParsedFacet :=
  sortByKeyReverse (fun f => f.index.byteStart) facets

/-- The text with each mention's substring, and nothing else, replaced by its handle. -/
def expected (r : PostRecord) (mentionPaths : Text → Option Text) : Text :=
  render Char.utf8Size ((sortFacets r.facets).map (shownEdit mentionPaths)) r.text

/-- The byte ranges are valid and lie apart. -/
structure ValidFacets (text : Text) (facets : List ParsedFacet) : Prop where
  inText : ∀ f ∈ facets, f.index.byteStart < f.index.byteEnd ∧ f.index.byteEnd ≤ utf8Len text ∧
    isCharBoundary text f.index.byteStart = true ∧ isCharBoundary text f.index.byteEnd = true
  apart : facets.Pairwise fun f g =>
    f.index.byteEnd ≤ g.index.byteStart ∨ g.index.byteEnd ≤ f.index.byteStart

/-! ## The passes are edits -/

section Steps

variable {text : Text} {upper : Nat}

theorem utf8Size_pos (c : Char) : 0 < Char.utf8Size c := Char.utf8Size_pos c

theorem isSome_cut_iff {start stop : Nat} (hle : start ≤ stop) :
    (cut Char.utf8Size text start stop).isSome = true ↔
      isCharBoundary text start = true ∧ isCharBoundary text stop = true :=
  isSome_cut utf8Size_pos hle

theorem guard_of_skip {start stop : Nat} (h : stop ≤ start ∨ upper < stop) :
    (decide (start ≥ stop) || decide (stop > utf8Len text) || decide (stop > upper)) = true := by
  rcases h with h | h
  · simp [h]
  · simp [h]

theorem guards_of_cut {start stop : Nat} (h : ¬ (stop ≤ start ∨ upper < stop))
    (hcut : (cut Char.utf8Size text start stop).isSome = true) :
    (decide (start ≥ stop) || decide (stop > utf8Len text) || decide (stop > upper)) = false ∧
      (!isCharBoundary text start || !isCharBoundary text stop) = false := by
  rw [not_or, Nat.not_le, Nat.not_lt] at h
  have hb := (isSome_cut_iff (Nat.le_of_lt h.1)).mp hcut
  have hlen : stop ≤ utf8Len text := le_size_of_split hb.2
  rw [hb.1, hb.2]
  constructor
  · simp only [Bool.or_eq_false_iff, decide_eq_false_iff_not]
    omega
  · rfl

theorem guard_of_cut_none {start stop : Nat} (h : ¬ (stop ≤ start ∨ upper < stop))
    (hcut : cut Char.utf8Size text start stop = none) :
    (!isCharBoundary text start || !isCharBoundary text stop) = true := by
  rw [not_or, Nat.not_le, Nat.not_lt] at h
  have hb := mt (isSome_cut_iff (Nat.le_of_lt h.1)).mpr (by rw [hcut]; exact Bool.false_ne_true)
  rw [← Bool.and_eq_true, Bool.not_eq_true, Bool.and_eq_false_iff] at hb
  rcases hb with hb | hb
  · simp [hb]
  · simp [hb]

theorem linkStep_eq (state : Text × Nat) (f : ParsedFacet) :
    linkStep state f = step Char.utf8Size state (linkEdit f) := by
  obtain ⟨result, upper⟩ := state
  by_cases hskip : f.index.byteEnd ≤ f.index.byteStart ∨ upper < f.index.byteEnd
  · rw [@step_of_skip _ _ (result, upper) (linkEdit f) hskip]
    exact if_pos (guard_of_skip hskip)
  · cases hcut : cut Char.utf8Size result f.index.byteStart f.index.byteEnd with
    | none =>
      rw [@step_of_cut_none _ _ (result, upper) (linkEdit f) hcut]
      simp only [linkStep, guard_of_cut_none hskip hcut, if_true, ite_self]
    | some p =>
      have hguards := guards_of_cut hskip (by rw [hcut]; rfl)
      rw [@step_of_range _ _ (result, upper) (linkEdit f) hskip]
      simp only [linkStep, hguards.1, hguards.2, Bool.false_eq_true, if_false, linkEdit, edit, hcut,
        linkOf, replaceRange, slice]
      cases f.features.findSome? ParsedFacetFeature.uri <;> rfl

theorem mentionStep_eq (mentionPaths : Text → Option Text) (state : Text × Nat)
    (s : MentionFacetSpan) :
    mentionStep mentionPaths state s =
      step Char.utf8Size state
        ⟨s.byteStart, s.byteEnd, (mentionPaths s.did).map fun handle _ => handle⟩ := by
  obtain ⟨result, upper⟩ := state
  by_cases hskip : s.byteEnd ≤ s.byteStart ∨ upper < s.byteEnd
  · rw [@step_of_skip _ _ (result, upper) ⟨s.byteStart, s.byteEnd, _⟩ hskip]
    simp only [mentionStep, replacement, guard_of_skip hskip, if_true]
  · cases hcut : cut Char.utf8Size result s.byteStart s.byteEnd with
    | none =>
      rw [@step_of_cut_none _ _ (result, upper) ⟨s.byteStart, s.byteEnd, _⟩ hcut]
      simp only [mentionStep, replacement, guard_of_cut_none hskip hcut, if_true, ite_self]
    | some p =>
      have hguards := guards_of_cut hskip (by rw [hcut]; rfl)
      rw [@step_of_range _ _ (result, upper) ⟨s.byteStart, s.byteEnd, _⟩ hskip]
      simp only [mentionStep, replacement, hguards.1, hguards.2, Bool.false_eq_true, if_false, hcut,
        replaceRange]
      cases mentionPaths s.did <;> rfl

/-- The spans of one facet: the first that has a handle is written over it. -/
theorem foldl_mentionStep_dids (mentionPaths : Text → Option Text) (state : Text × Nat)
    (start stop : Nat) (names : List Text) :
    (names.map fun did => (⟨start, stop, did⟩ : MentionFacetSpan)).foldl
        (mentionStep mentionPaths) state =
      step Char.utf8Size state
        ⟨start, stop, (names.findSome? mentionPaths).map fun handle _ => handle⟩ := by
  induction names generalizing state with
  | nil => exact (step_of_none rfl).symm
  | cons did names ih =>
    rw [List.map_cons, List.foldl_cons, ih, mentionStep_eq, List.findSome?_cons]
    cases mentionPaths did with
    | none =>
      show step Char.utf8Size (step Char.utf8Size state ⟨start, stop, none⟩) _ = _
      rw [@step_of_none _ _ state ⟨start, stop, none⟩ rfl]
    | some handle => exact step_step _ _ _ _ _

end Steps

/-! ## Facets in descending order -/

section Descending

variable {text : Text} {fs : List ParsedFacet}

/-- The facet's range is one of the text. -/
def Fits (text : Text) (f : ParsedFacet) : Prop := (edit f none).In Char.utf8Size text

def SortedFacets (fs : List ParsedFacet) : Prop :=
  fs.Pairwise fun f g => g.index.byteEnd ≤ f.index.byteStart

/-- No mention comes after a link, or on one. -/
def MentionsFirst (fs : List ParsedFacet) : Prop :=
  ∀ f ∈ fs, ∀ g ∈ fs, (linkOf f).isSome = true → isMentionFacet g →
    g.index.byteStart < f.index.byteStart

theorem descending_map {value : ParsedFacet → Option (Text → Text)} (h : SortedFacets fs) :
    Descending (fs.map fun f => edit f (value f)) := List.pairwise_map.mpr h

theorem in_map {value : ParsedFacet → Option (Text → Text)} (h : ∀ f ∈ fs, Fits text f) :
    ∀ e ∈ fs.map (fun f => edit f (value f)), e.In Char.utf8Size text := by
  intro e he
  obtain ⟨f, hf, rfl⟩ := List.mem_map.mp he
  exact ⟨(h f hf).lt, (h f hf).isSome_cut⟩

/-- The parts of the text around the last facet, where the other facets lie. -/
theorem exists_cut {f : ParsedFacet} (hsorted : SortedFacets (f :: fs))
    (hfits : ∀ g ∈ f :: fs, Fits text g) :
    ∃ a m b, cut Char.utf8Size text f.index.byteStart f.index.byteEnd = some (a, m, b) ∧
      ∀ g ∈ fs, Fits a g ∧ g.index.byteEnd ≤ utf8Len a := by
  have hf := hfits f List.mem_cons_self
  obtain ⟨⟨a, m, b⟩, hcut⟩ := Option.isSome_iff_exists.mp hf.isSome_cut
  refine ⟨a, m, b, hcut, fun g hg => ?_⟩
  have hdesc := @descending_map _ (fun _ => none) hsorted
  have hin := @in_map text _ (fun _ => none) hfits
  exact hdesc.in_before utf8Size_pos hin hcut (edit g none) (List.mem_map_of_mem hg)

theorem MentionsFirst.of_cons {f : ParsedFacet} (h : MentionsFirst (f :: fs)) : MentionsFirst fs :=
  fun g hg g' hg' => h g (List.mem_cons_of_mem f hg) g' (List.mem_cons_of_mem f hg')

/-- Where the last facet is a mention there are no links. -/
theorem MentionsFirst.no_links {f : ParsedFacet} (h : MentionsFirst (f :: fs))
    (hsorted : SortedFacets (f :: fs)) (hfits : ∀ g ∈ f :: fs, Fits text g)
    (hf : isMentionFacet f) : ∀ g ∈ f :: fs, linkOf g = none := by
  intro g hg
  by_contra hne
  have hlt := h g hg f List.mem_cons_self (Option.isSome_iff_ne_none.mpr hne) hf
  rcases List.mem_cons.mp hg with rfl | hg
  · omega
  · have hle : g.index.byteEnd ≤ f.index.byteStart := List.rel_of_pairwise_cons hsorted hg
    have : g.index.byteStart < g.index.byteEnd := (hfits g (List.mem_cons_of_mem f hg)).lt
    omega

theorem handleOf_of_not_mention {mentionPaths : Text → Option Text} {f : ParsedFacet}
    (h : ¬ isMentionFacet f) : handleOf mentionPaths f = none := by
  rw [handleOf, Classical.not_not.mp h]
  rfl

theorem render_of_no_links (h : ∀ f ∈ fs, linkOf f = none) (hsorted : SortedFacets fs)
    (hfits : ∀ f ∈ fs, Fits text f) :
    render Char.utf8Size (fs.map linkEdit) text = text := by
  induction fs generalizing text with
  | nil => rfl
  | cons f fs ih =>
    obtain ⟨a, m, b, hcut, hbefore⟩ := exists_cut hsorted hfits
    have hrest := ih (fun g hg => h g (List.mem_cons_of_mem f hg)) hsorted.of_cons
      (fun g hg => (hbefore g hg).1)
    obtain ⟨rfl, -, -⟩ := eq_of_cut (hfits f List.mem_cons_self).le hcut
    rw [List.map_cons, render_of_cut hcut, hrest, Edit.apply, linkEdit, edit,
      h f List.mem_cons_self]
    rfl

theorem render_mentions (mentionPaths : Text → Option Text) (h : ∀ f ∈ fs, linkOf f = none) :
    render Char.utf8Size (fs.map (mentionEdit mentionPaths)) text =
      render Char.utf8Size (fs.map (shownEdit mentionPaths)) text := by
  induction fs generalizing text with
  | nil => rfl
  | cons f fs ih =>
    have hrest (xs : Text) := @ih xs fun g hg => h g (List.mem_cons_of_mem f hg)
    have happly (xs : Text) : (mentionEdit mentionPaths f).apply xs =
        (shownEdit mentionPaths f).apply xs := by
      simp only [mentionEdit, shownEdit, edit, Edit.apply, h f List.mem_cons_self, mark]
      cases handleOf mentionPaths f <;> rfl
    rw [List.map_cons, List.map_cons, render, render]
    simp only [happly, hrest]
    rfl

/-- The mentions are replaced in the stored body as they are in the text. -/
theorem shown_eq (mentionPaths : Text → Option Text) (hsorted : SortedFacets fs)
    (hfits : ∀ f ∈ fs, Fits text f) (hfirst : MentionsFirst fs) (post : Text) {upper : Nat}
    (hupper : ∀ f ∈ fs, f.index.byteEnd ≤ upper) :
    ((fs.map (mentionEdit mentionPaths)).foldl (step Char.utf8Size)
        (render Char.utf8Size (fs.map linkEdit) text ++ post, upper)).1 =
      render Char.utf8Size (fs.map (shownEdit mentionPaths)) text ++ post := by
  induction fs generalizing text post with
  | nil => rfl
  | cons f fs ih =>
    by_cases hmention : isMentionFacet f
    · -- the stored body is the text
      have hno := hfirst.no_links hsorted hfits hmention
      rw [render_of_no_links hno hsorted hfits, ← render_mentions mentionPaths hno]
      refine foldl_step_render utf8Size_pos (descending_map hsorted) (in_map hfits) ?_
      intro e he
      obtain ⟨g, hg, rfl⟩ := List.mem_map.mp he
      exact hupper g hg
    · obtain ⟨a, m, b, hcut, hbefore⟩ := exists_cut hsorted hfits
      have hnone : (mentionEdit mentionPaths f).value = none := by
        rw [mentionEdit, handleOf_of_not_mention hmention]
        rfl
      have happly : (shownEdit mentionPaths f).apply m = (linkEdit f).apply m := by
        simp only [shownEdit, linkEdit, edit, Edit.apply, handleOf_of_not_mention hmention, mark]
        cases linkOf f <;> rfl
      rw [List.map_cons, List.map_cons, List.map_cons, List.foldl_cons, step_of_none hnone,
        render_of_cut hcut, render_of_cut hcut, happly, List.append_assoc, List.append_assoc,
        ih hsorted.of_cons (fun g hg => (hbefore g hg).1) hfirst.of_cons _
          (fun g hg => hupper g (List.mem_cons_of_mem f hg)), List.append_assoc, List.append_assoc]

theorem mark_around (link : Option Text) :
    ∃ opening closing, (∀ xs, mark link xs = opening ++ xs ++ closing) ∧
      (link.isSome = true → 0 < size Char.utf8Size opening) := by
  cases link with
  | none =>
    refine ⟨[], [], fun xs => ?_, fun h => ?_⟩
    · rw [List.append_nil]
      rfl
    · cases h
  | some uri =>
    refine ⟨['['], "](".toList ++ uri ++ [')'], fun xs => ?_, fun _ => by decide⟩
    rw [mark, markdownLink]
    simp only [List.append_assoc, List.cons_append, List.nil_append]

theorem size_linkEdit (f : ParsedFacet) (xs : Text) :
    size Char.utf8Size xs ≤ size Char.utf8Size ((linkEdit f).apply xs) ∧
      ((linkOf f).isSome = true →
        size Char.utf8Size xs < size Char.utf8Size ((linkEdit f).apply xs)) := by
  obtain ⟨opening, closing, hmark, hpos⟩ := mark_around (linkOf f)
  have happly : (linkEdit f).apply xs = mark (linkOf f) xs := by
    simp only [linkEdit, edit, Edit.apply, mark]
    cases linkOf f <;> rfl
  rw [happly, hmark, size_append, size_append]
  constructor
  · omega
  · intro h
    have := hpos h
    omega

/-- After a link, the last mention's place in the stored body is not its place in the text. -/
theorem shown_ne (hsorted : SortedFacets fs) (hfits : ∀ f ∈ fs, Fits text f)
    (hfirst : ¬ MentionsFirst fs) :
    ∃ mentionPaths, ∀ (post : Text) (upper : Nat),
      ((fs.map (mentionEdit mentionPaths)).foldl (step Char.utf8Size)
          (render Char.utf8Size (fs.map linkEdit) text ++ post, upper)).1 ≠
        render Char.utf8Size (fs.map (shownEdit mentionPaths)) text ++ post := by
  induction fs generalizing text with
  | nil => exact absurd (fun f hf => absurd hf List.not_mem_nil) hfirst
  | cons f fs ih =>
    obtain ⟨a, m, b, hcut, hbefore⟩ := exists_cut hsorted hfits
    have hf := hfits f List.mem_cons_self
    have hstart : size Char.utf8Size a = f.index.byteStart := (eq_of_cut hf.le hcut).2.1
    have hstop : size Char.utf8Size (a ++ m) = f.index.byteEnd := (eq_of_cut hf.le hcut).2.2
    by_cases hmention : isMentionFacet f
    · -- the last character of the mention stays, as every range ends before it
      obtain ⟨did, names, hdids⟩ := List.exists_cons_of_ne_nil hmention
      have hm : m ≠ [] := by
        intro hm
        have hlt : f.index.byteStart < f.index.byteEnd := hf.lt
        rw [hm, List.append_nil] at hstop
        omega
      obtain ⟨m', y, rfl⟩ := (List.eq_nil_or_concat' m).resolve_left hm
      obtain ⟨c, hc⟩ : ∃ c : Char, c ≠ y := by
        by_cases hy : y = 'a'
        · exact ⟨'b', by rw [hy]; decide⟩
        · exact ⟨'a', fun h => hy h.symm⟩
      refine ⟨fun d => if d = did then some [c] else none, fun post upper heq => ?_⟩
      have hhandle : handleOf (fun d => if d = did then some [c] else none) f = some [c] := by
        rw [handleOf, hdids, List.findSome?_cons, if_pos rfl]
      obtain ⟨opening, closing, hmark, hpos⟩ := mark_around (linkOf f)
      have hlink : (linkEdit f).apply (m' ++ [y]) = opening ++ (m' ++ [y]) ++ closing := by
        rw [← hmark]
        simp only [linkEdit, edit, Edit.apply, mark]
        cases linkOf f <;> rfl
      have hshown : (shownEdit (fun d => if d = did then some [c] else none) f).apply (m' ++ [y]) =
          opening ++ [c] ++ closing := by
        rw [← hmark]
        simp only [shownEdit, edit, Edit.apply, hhandle]
        rfl
      -- the links before the end of the mention move it
      have hmoved : size Char.utf8Size a <
          size Char.utf8Size (render Char.utf8Size (fs.map linkEdit) a) +
            size Char.utf8Size opening := by
        have hgrow : ∀ e ∈ fs.map linkEdit, ∀ xs,
            size Char.utf8Size xs ≤ size Char.utf8Size (e.apply xs) := by
          intro e he xs
          obtain ⟨g, -, rfl⟩ := List.mem_map.mp he
          exact (size_linkEdit g xs).1
        have hdesc : Descending (fs.map linkEdit) := descending_map hsorted.of_cons
        have hin : ∀ e ∈ fs.map linkEdit, e.In Char.utf8Size a :=
          in_map fun g hg => (hbefore g hg).1
        have hle := size_render utf8Size_pos hgrow hdesc hin
        by_cases hself : (linkOf f).isSome = true
        · have := hpos hself
          omega
        · have hexists : ∃ g ∈ fs, (linkOf g).isSome = true := by
            by_contra hno
            refine hfirst fun g hg _ _ hsome _ => ?_
            rcases List.mem_cons.mp hg with rfl | hg
            · exact absurd hsome hself
            · exact absurd ⟨g, hg, hsome⟩ hno
          obtain ⟨g, hg, hsome⟩ := hexists
          have := size_render_lt utf8Size_pos hgrow hdesc hin (List.mem_map_of_mem hg)
            fun xs => (size_linkEdit g xs).2 hsome
          omega
      have hstops : ∀ e ∈ (f :: fs).map (mentionEdit fun d => if d = did then some [c] else none),
          e.stop < size Char.utf8Size
            (render Char.utf8Size (fs.map linkEdit) a ++ opening ++ m') + Char.utf8Size y := by
        intro e he
        obtain ⟨g, hg, rfl⟩ := List.mem_map.mp he
        have hle : g.index.byteEnd ≤ f.index.byteEnd := by
          rcases List.mem_cons.mp hg with rfl | hg
          · exact Nat.le_refl _
          · have : g.index.byteEnd ≤ f.index.byteStart := List.rel_of_pairwise_cons hsorted hg
            have : f.index.byteStart < f.index.byteEnd := hf.lt
            omega
        show g.index.byteEnd < _
        rw [size_append, size_append, size_cons, size_nil] at hstop
        rw [size_append, size_append]
        omega
      obtain ⟨q, hq⟩ := @foldl_step_suffix _ _ utf8Size_pos _ _ (closing ++ b ++ post) y upper
        (Or.inl hstops)
      have hstored : render Char.utf8Size ((f :: fs).map linkEdit) text =
          render Char.utf8Size (fs.map linkEdit) a ++ (opening ++ (m' ++ [y]) ++ closing) ++ b := by
        rw [List.map_cons, render_of_cut hcut, hlink]
      rw [hstored, List.map_cons, List.map_cons, render_of_cut hcut, hshown,
        ← List.map_cons] at heq
      simp only [List.append_assoc, List.cons_append, List.nil_append] at heq hq
      rw [hq, ← List.append_assoc _ opening] at heq
      have hsuffix := List.append_inj_right' heq rfl
      exact hc (List.cons.inj hsuffix).1.symm
    · have hrest : ¬ MentionsFirst fs := by
        intro h
        refine hfirst fun g hg g' hg' hsome hm => ?_
        rcases List.mem_cons.mp hg' with rfl | hrest'
        · exact absurd hm hmention
        · rcases List.mem_cons.mp hg with rfl | hrest
          · have : g'.index.byteEnd ≤ g.index.byteStart := List.rel_of_pairwise_cons hsorted hrest'
            have : g'.index.byteStart < g'.index.byteEnd := (hfits g' hg').lt
            omega
          · exact h g hrest g' hrest' hsome hm
      obtain ⟨mentionPaths, hne⟩ := ih hsorted.of_cons (fun g hg => (hbefore g hg).1) hrest
      refine ⟨mentionPaths, fun post upper => ?_⟩
      have hnone : (mentionEdit mentionPaths f).value = none := by
        rw [mentionEdit, handleOf_of_not_mention hmention]
        rfl
      have happly : (shownEdit mentionPaths f).apply m = (linkEdit f).apply m := by
        simp only [shownEdit, linkEdit, edit, Edit.apply, handleOf_of_not_mention hmention, mark]
        cases linkOf f <;> rfl
      rw [List.map_cons, List.map_cons, List.map_cons, List.foldl_cons, step_of_none hnone,
        render_of_cut hcut, render_of_cut hcut, happly, List.append_assoc, List.append_assoc,
        List.append_assoc, List.append_assoc]
      exact hne _ upper

end Descending

/-! ## What is replaced in a body -/

section Replaced

variable {mentionPaths : Text → Option Text} {body : Text}

/-- The spans whose range the loop replaces by a handle. -/
def replacedSpans (mentionPaths : Text → Option Text) :
    List MentionFacetSpan → Text × Nat → List MentionFacetSpan
  | [], _ => []
  | s :: spans, state =>
    if (replacement mentionPaths state s).isSome then
      s :: replacedSpans mentionPaths spans (mentionStep mentionPaths state s)
    else replacedSpans mentionPaths spans (mentionStep mentionPaths state s)

/-- The spans that are replaced when the post is shown. -/
def StoredPost.replaced (p : StoredPost) (mentionPaths : Text → Option Text) :
    List MentionFacetSpan :=
  match p.mentionFacets with
  | .arr facets =>
    replacedSpans mentionPaths
      (sortByKeyReverse MentionFacetSpan.byteStart (facets.filterMap spanOfJson))
      (p.body, utf8Len p.body)
  | _ => []

/-- As far as ranges may still be replaced, the text is the body. -/
def Agrees (body : Text) (state : Text × Nat) : Prop :=
  ∃ pre post post', state.1 = pre ++ post ∧ body = pre ++ post' ∧ state.2 ≤ utf8Len pre

theorem Agrees.start (body : Text) : Agrees body (body, utf8Len body) :=
  ⟨body, [], [], (List.append_nil _).symm, (List.append_nil _).symm, Nat.le_refl _⟩

theorem replacement_eq_some {state : Text × Nat} {s : MentionFacetSpan} {handle : Text} :
    replacement mentionPaths state s = some handle ↔
      ¬ (s.byteEnd ≤ s.byteStart ∨ state.2 < s.byteEnd) ∧
        (cut Char.utf8Size state.1 s.byteStart s.byteEnd).isSome = true ∧
        mentionPaths s.did = some handle := by
  obtain ⟨result, upper⟩ := state
  by_cases hskip : s.byteEnd ≤ s.byteStart ∨ upper < s.byteEnd
  · simp only [replacement, guard_of_skip hskip, if_true, hskip, not_true, false_and]
    simp
  · cases hcut : cut Char.utf8Size result s.byteStart s.byteEnd with
    | none => simp [replacement, guard_of_cut_none hskip hcut]
    | some p =>
      have hguards := guards_of_cut hskip (by rw [hcut]; rfl)
      simp only [replacement, hguards.1, hguards.2, Bool.false_eq_true, if_false, hskip,
        not_false_eq_true, true_and, Option.isSome_some]

/-- A range that may be replaced is one of the text where it is one of the body. -/
theorem Agrees.isSome_cut {state : Text × Nat} (h : Agrees body state) {start stop : Nat}
    (hle : start ≤ stop) (hstop : stop ≤ state.2) :
    (cut Char.utf8Size state.1 start stop).isSome = true ↔
      (cut Char.utf8Size body start stop).isSome = true := by
  obtain ⟨pre, post, post', hstate, hbody, hupper⟩ := h
  have hiff (xs : Text) : (cut Char.utf8Size (pre ++ xs) start stop).isSome = true ↔
      (cut Char.utf8Size pre start stop).isSome = true := by
    constructor
    · intro hsome
      obtain ⟨⟨a, m, b⟩, hcut⟩ := Option.isSome_iff_exists.mp hsome
      obtain ⟨b', hpre, -⟩ := cut_of_append utf8Size_pos hle (Nat.le_trans hstop hupper) hcut
      obtain ⟨-, ha, hm⟩ := eq_of_cut hle hcut
      rw [hpre, ← ha, ← hm, cut_append utf8Size_pos]
      rfl
    · intro hsome
      obtain ⟨⟨a, m, b⟩, hcut⟩ := Option.isSome_iff_exists.mp hsome
      rw [cut_append_right utf8Size_pos hle hcut]
      rfl
  rw [hstate, hbody, hiff, hiff]

theorem Agrees.mentionStep {state : Text × Nat} (h : Agrees body state) (s : MentionFacetSpan) :
    Agrees body (mentionStep mentionPaths state s) ∧
      ((mentionStep mentionPaths state s).2 = state.2 ∨
        (mentionStep mentionPaths state s).2 = s.byteStart) := by
  rw [Facets.mentionStep]
  split
  · rename_i handle hsome
    obtain ⟨hrange, hcut, -⟩ := replacement_eq_some.mp hsome
    rw [not_or, Nat.not_le, Nat.not_lt] at hrange
    obtain ⟨⟨a, m, b⟩, hcut⟩ := Option.isSome_iff_exists.mp hcut
    obtain ⟨pre, post, post', hstate, hbody, hupper⟩ := h
    have hle := Nat.le_of_lt hrange.1
    rw [hstate] at hcut ⊢
    obtain ⟨b', rfl, -⟩ := cut_of_append utf8Size_pos hle (Nat.le_trans hrange.2 hupper) hcut
    have ha := (eq_of_cut hle hcut).2.1
    refine ⟨⟨a, handle ++ b, m ++ b' ++ post', ?_, ?_, ?_⟩, Or.inr rfl⟩
    · rw [replaceRange, hcut]
      exact List.append_assoc _ _ _
    · rw [hbody]
      simp only [List.append_assoc]
    · exact Nat.le_of_eq ha.symm
  · exact ⟨h, Or.inl rfl⟩

theorem mem_of_mem_replacedSpans {spans : List MentionFacetSpan} {state : Text × Nat}
    (h : Agrees body state) {s : MentionFacetSpan}
    (hs : s ∈ replacedSpans mentionPaths spans state) :
    s ∈ spans ∧ s.byteStart < s.byteEnd ∧
      (cut Char.utf8Size body s.byteStart s.byteEnd).isSome = true := by
  induction spans generalizing state with
  | nil => exact absurd hs List.not_mem_nil
  | cons s' spans ih =>
    rw [replacedSpans] at hs
    split at hs
    · rename_i hsome
      rcases List.mem_cons.mp hs with rfl | hs
      · obtain ⟨handle, hsome⟩ := Option.isSome_iff_exists.mp hsome
        obtain ⟨hrange, hcut, -⟩ := replacement_eq_some.mp hsome
        rw [not_or, Nat.not_le, Nat.not_lt] at hrange
        exact ⟨List.mem_cons_self, hrange.1,
          (h.isSome_cut (Nat.le_of_lt hrange.1) hrange.2).mp hcut⟩
      · obtain ⟨hmem, hrest⟩ := ih (h.mentionStep s').1 hs
        exact ⟨List.mem_cons_of_mem s' hmem, hrest⟩
    · obtain ⟨hmem, hrest⟩ := ih (h.mentionStep s').1 hs
      exact ⟨List.mem_cons_of_mem s' hmem, hrest⟩

/-- A span with a handle, of a range of the body, is replaced where the spans before it start
behind its end. -/
theorem mem_replacedSpans {spans rest : List MentionFacetSpan} {state : Text × Nat}
    (h : Agrees body state) {s : MentionFacetSpan} (hlt : s.byteStart < s.byteEnd)
    (hcut : (cut Char.utf8Size body s.byteStart s.byteEnd).isSome = true)
    (hhandle : (mentionPaths s.did).isSome = true) (hupper : s.byteEnd ≤ state.2)
    (hbehind : ∀ s' ∈ spans, s.byteEnd ≤ s'.byteStart) :
    s ∈ replacedSpans mentionPaths (spans ++ s :: rest) state := by
  induction spans generalizing state with
  | nil =>
    obtain ⟨handle, hhandle⟩ := Option.isSome_iff_exists.mp hhandle
    have hsome : replacement mentionPaths state s = some handle :=
      replacement_eq_some.mpr ⟨by omega, (h.isSome_cut (Nat.le_of_lt hlt) hupper).mpr hcut, hhandle⟩
    rw [List.nil_append, replacedSpans, hsome]
    exact List.mem_cons_self
  | cons s' spans ih =>
    have hstep := @Agrees.mentionStep mentionPaths _ _ h s'
    have hrest := ih hstep.1 (by
      have := hbehind s' List.mem_cons_self
      omega) fun t ht => hbehind t (List.mem_cons_of_mem s' ht)
    rw [List.cons_append, replacedSpans]
    split
    · exact List.mem_cons_of_mem s' hrest
    · exact hrest

end Replaced

/-! ## A record's post -/

section Record

variable {text : Text} {facets : List ParsedFacet}

theorem mem_sortFacets {f : ParsedFacet} : f ∈ sortFacets facets ↔ f ∈ facets := List.mem_mergeSort

theorem ValidFacets.fits (h : ValidFacets text facets) : ∀ f ∈ sortFacets facets, Fits text f := by
  intro f hf
  obtain ⟨hlt, -, hstart, hstop⟩ := h.inText f (mem_sortFacets.mp hf)
  exact ⟨hlt, (isSome_cut_iff (Nat.le_of_lt hlt)).mpr ⟨hstart, hstop⟩⟩

theorem ValidFacets.sorted (h : ValidFacets text facets) : SortedFacets (sortFacets facets) := by
  have hdesc := @Sorting.pairwise_mergeSort_key _ (fun f : ParsedFacet => f.index.byteStart) facets
  have hapart := (List.mergeSort_perm facets
    fun a b => decide (b.index.byteStart ≤ a.index.byteStart)).pairwise_iff
      (fun {a b} => Or.symm) |>.mpr h.apart
  refine (hdesc.and hapart).imp_of_mem fun {f g} hf hg hfg => ?_
  have := (h.fits g hg).lt
  have := (h.fits f hf).lt
  simp only [edit] at *
  omega

theorem isLinkFacet_eq (f : ParsedFacet) : isLinkFacet f = (linkOf f).isSome :=
  List.isSome_findSome?.symm

theorem foldl_linkStep (fs : List ParsedFacet) (state : Text × Nat) :
    (fs.filter isLinkFacet).foldl linkStep state =
      (fs.map linkEdit).foldl (step Char.utf8Size) state := by
  induction fs generalizing state with
  | nil => rfl
  | cons f fs ih =>
    rw [List.filter_cons, List.map_cons, List.foldl_cons]
    split
    · rw [List.foldl_cons, ih, linkStep_eq]
    · rename_i hlink
      rw [isLinkFacet_eq, Option.not_isSome_iff_eq_none] at hlink
      have hnone : (linkEdit f).value = none := by
        rw [linkEdit, hlink]
        rfl
      rw [ih, step_of_none hnone]

theorem ValidFacets.body_eq (h : ValidFacets text facets) :
    (applyBskyFacets text facets).1 =
      render Char.utf8Size ((sortFacets facets).map linkEdit) text := by
  have hfold : (((sortByKeyReverse (fun f => f.index.byteStart)
      (facets.filter isLinkFacet)).foldl linkStep (text, utf8Len text)).1) =
      render Char.utf8Size ((sortFacets facets).map linkEdit) text := by
    have hsort : sortByKeyReverse (fun f => f.index.byteStart) (facets.filter isLinkFacet) =
        (sortFacets facets).filter isLinkFacet := Sorting.mergeSort_filter _ _
    have hfoldl := @foldl_step_render _ _ utf8Size_pos ((sortFacets facets).map linkEdit) text []
      (utf8Len text) (descending_map h.sorted) (in_map h.fits) (by
        intro e he
        obtain ⟨f, hf, rfl⟩ := List.mem_map.mp he
        exact (h.inText f (mem_sortFacets.mp hf)).2.1)
    rw [List.append_nil, List.append_nil] at hfoldl
    rw [hsort, foldl_linkStep, hfoldl]
  cases facets with
  | nil =>
    rw [← hfold, List.filter_nil, sortByKeyReverse, List.mergeSort_nil]
    rfl
  | cons f facets => exact hfold

theorem spanOfJson_json (s : MentionFacetSpan) : spanOfJson s.json = some s := by
  rw [MentionFacetSpan.json, spanOfJson]
  simp [Json.getU64, Json.getStr, List.lookup_cons, Number.asU64]

theorem ValidFacets.mentionSpans_eq (h : ValidFacets text facets) {f : ParsedFacet}
    (hf : f ∈ facets) :
    mentionSpans text f =
      (dids f).map fun did => ⟨f.index.byteStart, f.index.byteEnd, did⟩ := by
  obtain ⟨hlt, hlen, hstart, hstop⟩ := h.inText f hf
  rw [mentionSpans, hstart, hstop, if_neg]
  · rfl
  · simp only [Bool.or_eq_true, decide_eq_true_eq, Bool.not_true, Bool.false_eq_true, or_false]
    omega

/-- The spans that are read back from the row, in the order in which they are replaced. -/
theorem ValidFacets.spans_eq (h : ValidFacets text facets) :
    ∃ items, (applyBskyFacets text facets).2 = .arr items ∧
      sortByKeyReverse MentionFacetSpan.byteStart (items.filterMap spanOfJson) =
        (sortFacets facets).flatMap fun f =>
          (dids f).map fun did => ⟨f.index.byteStart, f.index.byteEnd, did⟩ := by
  refine ⟨(facets.flatMap (mentionSpans text)).map MentionFacetSpan.json, ?_, ?_⟩
  · cases facets with
    | nil => rfl
    | cons f facets => rfl
  · have hread : ((facets.flatMap (mentionSpans text)).map MentionFacetSpan.json).filterMap
        spanOfJson = facets.flatMap (mentionSpans text) := by
      have hcomp : spanOfJson ∘ MentionFacetSpan.json = some := funext spanOfJson_json
      rw [List.filterMap_map, hcomp, List.filterMap_some]
    have hkey : ∀ f ∈ facets, ∀ s ∈ mentionSpans text f, s.byteStart = f.index.byteStart := by
      intro f hf s hs
      rw [h.mentionSpans_eq hf] at hs
      obtain ⟨did, -, rfl⟩ := List.mem_map.mp hs
      rfl
    rw [hread]
    refine (Sorting.mergeSort_flatMap hkey).trans ?_
    exact List.flatMap_congr fun f hf => h.mentionSpans_eq (mem_sortFacets.mp hf)

theorem foldl_mentionStep (mentionPaths : Text → Option Text) (fs : List ParsedFacet)
    (state : Text × Nat) :
    (fs.flatMap fun f => (dids f).map fun did =>
        (⟨f.index.byteStart, f.index.byteEnd, did⟩ : MentionFacetSpan)).foldl
          (mentionStep mentionPaths) state =
      (fs.map (mentionEdit mentionPaths)).foldl (step Char.utf8Size) state := by
  induction fs generalizing state with
  | nil => rfl
  | cons f fs ih =>
    rw [List.flatMap_cons, List.foldl_append, foldl_mentionStep_dids, ih]
    rfl

theorem ValidFacets.shown (h : ValidFacets text facets) (mentionPaths : Text → Option Text)
    (body : Text) :
    StoredPost.shown ⟨body, (applyBskyFacets text facets).2⟩ mentionPaths =
      (((sortFacets facets).map (mentionEdit mentionPaths)).foldl (step Char.utf8Size)
        (body, utf8Len body)).1 := by
  obtain ⟨items, hitems, hspans⟩ := h.spans_eq
  rw [StoredPost.shown, hitems, ← foldl_mentionStep, ← hspans]
  cases items with
  | nil => rw [List.filterMap_nil, sortByKeyReverse, List.mergeSort_nil]; rfl
  | cons item items => rfl

/-- The post is shown as its text with the mentions replaced, or not, for every answer. -/
theorem ValidFacets.shown_iff (h : ValidFacets text facets) (seiranPost : Option Text) :
    (∀ mentionPaths, StoredPost.shown
        ⟨(applyBskyFacets text facets).1, (applyBskyFacets text facets).2⟩ mentionPaths =
          expected ⟨text, facets, seiranPost⟩ mentionPaths) ↔
      MentionsFirst facets := by
  have hsorted := h.sorted
  have hfits := h.fits
  have hfirst : MentionsFirst (sortFacets facets) ↔ MentionsFirst facets := by
    simp only [MentionsFirst, mem_sortFacets]
  have hupper : ∀ f ∈ sortFacets facets,
      f.index.byteEnd ≤ utf8Len (applyBskyFacets text facets).1 := by
    intro f hf
    have hlen := (h.inText f (mem_sortFacets.mp hf)).2.1
    have hgrow : ∀ e ∈ (sortFacets facets).map linkEdit, ∀ xs,
        size Char.utf8Size xs ≤ size Char.utf8Size (e.apply xs) := by
      intro e he xs
      obtain ⟨g, -, rfl⟩ := List.mem_map.mp he
      exact (size_linkEdit g xs).1
    have := size_render utf8Size_pos hgrow (descending_map hsorted) (in_map hfits)
    rw [h.body_eq]
    exact Nat.le_trans hlen this
  rw [← hfirst]
  constructor
  · intro hall
    by_contra hnot
    obtain ⟨mentionPaths, hne⟩ := shown_ne hsorted hfits hnot
    have := hall mentionPaths
    rw [h.shown, h.body_eq] at this
    have hne := hne [] (utf8Len (render Char.utf8Size ((sortFacets facets).map linkEdit) text))
    rw [List.append_nil, List.append_nil] at hne
    exact hne this
  · intro hfirst mentionPaths
    have heq := shown_eq mentionPaths hsorted hfits hfirst [] hupper
    rw [List.append_nil, List.append_nil, ← h.body_eq] at heq
    rw [h.shown, heq, expected]

/-! ## Both ways in -/

/-- A text that a mention of the record covers. -/
def Covered (r : PostRecord) (covered : Text) : Prop :=
  ∃ f ∈ r.facets, isMentionFacet f ∧ slice r.text f.index.byteStart f.index.byteEnd = covered

theorem createPostFromRecord_eq (r : PostRecord) :
    createPostFromRecord r =
      ⟨(applyBskyFacets r.text r.facets).1, (applyBskyFacets r.text r.facets).2⟩ := by
  have harr : ∃ items, (applyBskyFacets r.text r.facets).2 = .arr items := by
    rw [applyBskyFacets]
    split
    · exact ⟨[], rfl⟩
    · exact ⟨_, rfl⟩
  obtain ⟨items, hitems⟩ := harr
  rw [createPostFromRecord]
  cases items with
  | nil => simp only [hitems]
  | cons item items => simp only [hitems]

/-- What is replaced in a body that is not made from the text. -/
theorem ValidFacets.replaced_iff {r : PostRecord} (h : ValidFacets r.text r.facets) (full : Text) :
    (∀ mentionPaths,
        ∀ s ∈ StoredPost.replaced ⟨full, (applyBskyFacets r.text r.facets).2⟩ mentionPaths,
          Covered r (slice full s.byteStart s.byteEnd)) ↔
      ∀ g ∈ r.facets, isMentionFacet g → Fits full g →
        Covered r (slice full g.index.byteStart g.index.byteEnd) := by
  obtain ⟨items, hitems, hspans⟩ := h.spans_eq
  have hreplaced (mentionPaths : Text → Option Text) :
      StoredPost.replaced ⟨full, (applyBskyFacets r.text r.facets).2⟩ mentionPaths =
        replacedSpans mentionPaths
          ((sortFacets r.facets).flatMap fun f =>
            (dids f).map fun did => ⟨f.index.byteStart, f.index.byteEnd, did⟩)
          (full, utf8Len full) := by
    rw [StoredPost.replaced, hitems, ← hspans]
  constructor
  · intro hall g hg hmention hfits
    -- the facet's first DID alone has a handle
    obtain ⟨did, names, hdids⟩ := List.exists_cons_of_ne_nil hmention
    obtain ⟨fs, gs, hsplit⟩ := List.append_of_mem (mem_sortFacets.mpr hg)
    have hsorted := h.sorted
    rw [hsplit] at hsorted
    refine hall (fun d => if d = did then some ['x'] else none)
      ⟨g.index.byteStart, g.index.byteEnd, did⟩ ?_
    rw [hreplaced, hsplit, List.flatMap_append, List.flatMap_cons, hdids, List.map_cons,
      List.cons_append]
    refine mem_replacedSpans (Agrees.start full) hfits.lt hfits.isSome_cut ?_ ?_ ?_
    · rw [if_pos rfl]
      rfl
    · exact le_size_of_split ((isSome_cut_iff (Nat.le_of_lt hfits.lt)).mp hfits.isSome_cut).2
    · intro s hs
      obtain ⟨f, hf, hs⟩ := List.mem_flatMap.mp hs
      obtain ⟨name, -, rfl⟩ := List.mem_map.mp hs
      exact (List.pairwise_append.mp hsorted).2.2 f hf g List.mem_cons_self
  · intro hall mentionPaths s hs
    rw [hreplaced] at hs
    obtain ⟨hmem, hlt, hcut⟩ := mem_of_mem_replacedSpans (Agrees.start full) hs
    obtain ⟨g, hg, hs⟩ := List.mem_flatMap.mp hmem
    obtain ⟨did, hdid, rfl⟩ := List.mem_map.mp hs
    exact hall g (mem_sortFacets.mp hg) (List.ne_nil_of_mem hdid) ⟨hlt, hcut⟩

/-- A shown post is its text with the mentions replaced where no mention comes after a link;
and in a body of its own no text is replaced that no mention covers where the body reads as
the mentions do at their ranges. -/
theorem shown_replaces_mentions (r : PostRecord) (h : ValidFacets r.text r.facets) :
    ((∀ mentionPaths, (createPostFromRecord r).shown mentionPaths = expected r mentionPaths) ↔
      MentionsFirst r.facets) ∧
    (r.seiranPost = none →
      ((∀ mentionPaths, (saveNewBskyPost r).shown mentionPaths = expected r mentionPaths) ↔
        MentionsFirst r.facets)) ∧
    ∀ full, r.seiranPost = some full →
      ((saveNewBskyPost r).body = full ∧
        ((∀ mentionPaths, ∀ s ∈ (saveNewBskyPost r).replaced mentionPaths,
            Covered r (slice full s.byteStart s.byteEnd)) ↔
          ∀ g ∈ r.facets, isMentionFacet g → Fits full g →
            Covered r (slice full g.index.byteStart g.index.byteEnd))) := by
  refine ⟨?_, ?_, ?_⟩
  · rw [createPostFromRecord_eq]
    exact h.shown_iff r.seiranPost
  · intro hnone
    have hsaved : saveNewBskyPost r =
        ⟨(applyBskyFacets r.text r.facets).1, (applyBskyFacets r.text r.facets).2⟩ := by
      rw [saveNewBskyPost, hnone]
    rw [hsaved]
    exact h.shown_iff r.seiranPost
  · intro full hfull
    have hsaved : saveNewBskyPost r = ⟨full, (applyBskyFacets r.text r.facets).2⟩ := by
      rw [saveNewBskyPost, hfull]
    rw [hsaved]
    exact ⟨rfl, h.replaced_iff full⟩

/-- A mention with a link after it, in a record with a longer text of its own. -/
def mentionThenLink : PostRecord :=
  ⟨"@a b".toList, [⟨⟨0, 2⟩, [.mention "d".toList]⟩, ⟨⟨3, 4⟩, [.link "u".toList]⟩],
    some "@a b c".toList⟩

def linkThenMention : PostRecord :=
  ⟨"b @a".toList, [⟨⟨2, 4⟩, [.mention "d".toList]⟩, ⟨⟨0, 1⟩, [.link "u".toList]⟩], none⟩

theorem shown_replaces_mentions_mentionThenLink :
    (∀ mentionPaths, (createPostFromRecord mentionThenLink).shown mentionPaths =
      expected mentionThenLink mentionPaths) ↔ MentionsFirst mentionThenLink.facets :=
  (shown_replaces_mentions mentionThenLink ⟨by decide, by decide⟩).1

/-- `b @a`, with `b` a link: `](` is replaced by the handle, and `@a` is not. -/
theorem shown_replaces_mentions_counterexample :
    ValidFacets linkThenMention.text linkThenMention.facets ∧
    (createPostFromRecord linkThenMention).shown (fun _ => some "@alice".toList) =
      "[b@aliceu) @a".toList ∧
    (saveNewBskyPost linkThenMention).shown (fun _ => some "@alice".toList) =
      "[b@aliceu) @a".toList ∧
    expected linkThenMention (fun _ => some "@alice".toList) = "[b](u) @alice".toList := by
  have hvalid : ValidFacets linkThenMention.text linkThenMention.facets := ⟨by decide, by decide⟩
  have hsort : sortFacets linkThenMention.facets = linkThenMention.facets :=
    List.mergeSort_of_pairwise (by decide)
  have hshown : StoredPost.shown
      ⟨(applyBskyFacets linkThenMention.text linkThenMention.facets).1,
        (applyBskyFacets linkThenMention.text linkThenMention.facets).2⟩
      (fun _ => some "@alice".toList) = "[b@aliceu) @a".toList := by
    rw [hvalid.shown, hvalid.body_eq, hsort]
    decide
  refine ⟨hvalid, ?_, hshown, ?_⟩
  · rw [createPostFromRecord_eq]
    exact hshown
  · rw [expected, hsort]
    decide

end Record

end Seiran.Facets
