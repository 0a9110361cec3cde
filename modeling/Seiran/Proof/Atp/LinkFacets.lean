import Mathlib.Data.List.Perm.Subperm
import Seiran.Framework.Marks
import Seiran.Proof.Atp.Facets

/-!
# Links of any facets

`apply_link_facets` goes through the link facets from the back, whatever their ranges
are. What it makes of a text is the text with some of the valid ranges (`linkMark`) made
links, which lie apart, and with all of them if they all do.

* `linkStepChecked_eq`: no step panics.
* `filter_linkEdit`: of the edits, only those of valid ranges count.
* `exists_made`: the edits that are made.
-/

namespace Seiran.Facets

open Mention (Text utf8Len)
open Splice

/-- The range of a link facet, if it is valid, and what it links to. -/
def linkMark (text : Text) (f : ParsedFacet) : Option (Marks.Mark Text) :=
  if f.index.byteStart < f.index.byteEnd ∧ f.index.byteEnd ≤ utf8Len text ∧
      isCharBoundary text f.index.byteStart = true ∧ isCharBoundary text f.index.byteEnd = true then
    (linkOf f).map fun uri => ⟨f.index.byteStart, f.index.byteEnd, uri⟩
  else none

/-- The ranges lie apart, in any order. -/
def Apart (ms : List (Marks.Mark Text)) : Prop :=
  ms.Pairwise fun m m' => m.stop ≤ m'.start ∨ m'.stop ≤ m.start

def linked (uri text : Text) : Text := markdownLink text uri

/-- The valid ranges of the link facets, in the order in which they are gone through. -/
def sortedMarks (text : Text) (facets : List ParsedFacet) : List (Marks.Mark Text) :=
  (sortByKeyReverse (fun f => f.index.byteStart) (facets.filter isLinkFacet)).filterMap
    (linkMark text)

/-! ## No panics -/

theorem linkStepChecked_eq (state : Text × Nat) (f : ParsedFacet) :
    linkStepChecked state f = some (linkStep state f) := by
  obtain ⟨result, upper⟩ := state
  rw [linkStepChecked, linkStep]
  split
  · rfl
  · rename_i hguard
    split
    · rfl
    · rename_i hboundary
      rw [Bool.not_eq_true, Bool.or_eq_false_iff, Bool.not_eq_false', Bool.not_eq_false'] at hboundary
      have hle : f.index.byteStart ≤ f.index.byteEnd := by
        simp only [Bool.or_eq_true, decide_eq_true_eq, not_or] at hguard
        omega
      split
      · rfl
      · rw [sliceChecked, if_pos ⟨hle, hboundary⟩, Option.bind_eq_bind, Option.bind_some,
          replaceRangeChecked, if_pos ⟨hle, hboundary⟩]
        rfl

theorem applyLinkFacetsChecked_eq (text : Text) (facets : List ParsedFacet) :
    applyLinkFacetsChecked text facets = some (applyLinkFacets text facets) := by
  have hfold (fs : List ParsedFacet) (state : Text × Nat) :
      fs.foldlM linkStepChecked state = some (fs.foldl linkStep state) := by
    induction fs generalizing state with
    | nil => rfl
    | cons f fs ih => rw [List.foldlM_cons, linkStepChecked_eq]; exact ih _
  rw [applyLinkFacetsChecked, applyLinkFacets]
  split
  · rfl
  · simp only [hfold]
    rfl

/-! ## Valid ranges -/

theorem linkMark_eq_some {text : Text} {f : ParsedFacet} {m : Marks.Mark Text} :
    linkMark text f = some m ↔
      (linkEdit f).In Char.utf8Size text ∧ linkOf f = some m.value ∧
        m.start = f.index.byteStart ∧ m.stop = f.index.byteEnd := by
  rw [linkMark, Option.ite_none_right_eq_some, Option.map_eq_some_iff]
  constructor
  · rintro ⟨⟨hlt, -, hboundary⟩, uri, huri, rfl⟩
    exact ⟨⟨hlt, (isSome_cut_iff (Nat.le_of_lt hlt)).mpr hboundary⟩, huri, rfl, rfl⟩
  · rintro ⟨⟨hlt, hcut⟩, huri, hstart, hstop⟩
    have hboundary := (isSome_cut_iff (Nat.le_of_lt hlt)).mp hcut
    refine ⟨⟨hlt, le_size_of_split hboundary.2, hboundary⟩, m.value, huri, ?_⟩
    rw [← hstart, ← hstop]

theorem linkEdit_of_linkMark {text : Text} {f : ParsedFacet} {m : Marks.Mark Text}
    (h : linkMark text f = some m) : linkEdit f = Marks.edit linked m := by
  obtain ⟨-, huri, hstart, hstop⟩ := linkMark_eq_some.mp h
  rw [linkEdit, huri, edit, ← hstart, ← hstop]
  rfl

/-- Of the edits, those of valid ranges. -/
theorem filter_linkEdit (text : Text) (fs : List ParsedFacet) :
    ∃ p : Edit Char → Bool, (∀ e, e.In Char.utf8Size text → e.value.isSome → p e = true) ∧
      (fs.map linkEdit).filter p = (fs.filterMap (linkMark text)).map (Marks.edit linked) := by
  classical
  refine ⟨fun e => decide (e.In Char.utf8Size text ∧ e.value.isSome),
    fun e hin hvalue => decide_eq_true ⟨hin, hvalue⟩, ?_⟩
  induction fs with
  | nil => rfl
  | cons f fs ih =>
    rw [List.map_cons, List.filter_cons, ih, List.filterMap_cons]
    cases hmark : linkMark text f with
    | none =>
      rw [if_neg]
      rw [decide_eq_true_eq]
      rintro ⟨hin, hvalue⟩
      rw [linkEdit, edit, Option.isSome_map, Option.isSome_iff_exists] at hvalue
      obtain ⟨uri, huri⟩ := hvalue
      have hsome := linkMark_eq_some.mpr
        ⟨hin, show linkOf f = some (Marks.Mark.mk _ _ uri).value from huri, rfl, rfl⟩
      rw [hmark] at hsome
      cases hsome
    | some m =>
      obtain ⟨hin, huri, -⟩ := linkMark_eq_some.mp hmark
      rw [if_pos, linkEdit_of_linkMark hmark]
      · rfl
      · rw [decide_eq_true_eq]
        refine ⟨hin, ?_⟩
        rw [linkEdit, huri]
        rfl

theorem mem_sortedMarks {text : Text} {facets : List ParsedFacet} {m : Marks.Mark Text}
    (h : m ∈ sortedMarks text facets) : (Marks.edit linked m).In Char.utf8Size text := by
  obtain ⟨f, -, hmark⟩ := List.mem_filterMap.mp h
  exact linkEdit_of_linkMark hmark ▸ (linkMark_eq_some.mp hmark).1

theorem sortedMarks_perm (text : Text) (facets : List ParsedFacet) :
    (sortedMarks text facets).Perm (facets.filterMap (linkMark text)) := by
  have hlinks : (facets.filter isLinkFacet).filterMap (linkMark text) =
      facets.filterMap (linkMark text) := by
    rw [List.filterMap_filter]
    refine List.filterMap_congr fun f _ => ?_
    split
    · rfl
    · rename_i hlink
      rw [isLinkFacet_eq, Option.not_isSome_iff_eq_none] at hlink
      rw [linkMark, hlink]
      exact (ite_self none).symm
  rw [← hlinks]
  exact (List.mergeSort_perm _ _).filterMap _

theorem sortedMarks_descending {text : Text} {facets : List ParsedFacet}
    (h : Apart (facets.filterMap (linkMark text))) :
    (sortedMarks text facets).Pairwise fun m m' => m'.stop ≤ m.start := by
  have hdesc : (sortedMarks text facets).Pairwise fun m m' => m'.start ≤ m.start := by
    have hsorted := @Sorting.pairwise_mergeSort_key _ (fun f : ParsedFacet => f.index.byteStart)
      (facets.filter isLinkFacet)
    refine List.Pairwise.filterMap (linkMark text) (fun f f' hle m hm m' hm' => ?_) hsorted
    have hstart := (linkMark_eq_some.mp hm).2.2.1
    have hstart' := (linkMark_eq_some.mp hm').2.2.1
    omega
  have hapart := (sortedMarks_perm text facets).pairwise_iff (fun {m m'} => Or.symm) |>.mpr h
  refine (hdesc.and hapart).imp_of_mem fun {m m'} hm hm' hmm => ?_
  have hlt : m.start < m.stop := (mem_sortedMarks hm).lt
  have hlt' : m'.start < m'.stop := (mem_sortedMarks hm').lt
  omega

/-! ## The links that are made -/

theorem applyLinkFacets_render (text : Text) (facets : List ParsedFacet) :
    (applyLinkFacets text facets).1 =
      render Char.utf8Size (kept Char.utf8Size text (utf8Len text)
        ((sortedMarks text facets).map (Marks.edit linked))) text := by
  have hfold (fs : List ParsedFacet) (state : Text × Nat) :
      fs.foldl linkStep state = (fs.map linkEdit).foldl (step Char.utf8Size) state := by
    rw [List.foldl_map]
    exact congrArg (fun f => List.foldl f state fs)
      (funext fun state => funext fun f => linkStep_eq state f)
  obtain ⟨p, hp, hfilter⟩ := filter_linkEdit text
    (sortByKeyReverse (fun f => f.index.byteStart) (facets.filter isLinkFacet))
  have hrender := @foldl_step_kept _ _ utf8Size_pos
    ((sortByKeyReverse (fun f => f.index.byteStart) (facets.filter isLinkFacet)).map linkEdit)
    text [] _ (Nat.le_refl (utf8Len text))
  rw [sortedMarks, ← hfilter, kept_filter _ _ _ fun e _ => hp e]
  rw [List.append_nil, List.append_nil, ← hfold] at hrender
  cases facets with
  | nil =>
    rw [← hrender, List.filter_nil, sortByKeyReverse, List.mergeSort_nil]
    rfl
  | cons f facets => exact hrender

theorem exists_made (text : Text) (facets : List ParsedFacet) :
    ∃ ms : List (Marks.Mark Text), ms.Sublist (sortedMarks text facets) ∧
      kept Char.utf8Size text (utf8Len text)
        ((sortedMarks text facets).map (Marks.edit linked)) = ms.map (Marks.edit linked) ∧
      (Apart (facets.filterMap (linkMark text)) → ms = sortedMarks text facets) := by
  by_cases hapart : Apart (facets.filterMap (linkMark text))
  · refine ⟨_, List.Sublist.refl _, kept_of_descending (fun e he => ?_) ?_, fun _ => rfl⟩
    · obtain ⟨m, hm, rfl⟩ := List.mem_map.mp he
      have hin := mem_sortedMarks hm
      exact ⟨hin, rfl, le_size_of_split ((isSome_cut_iff hin.le).mp hin.isSome_cut).2⟩
    · exact List.pairwise_map.mpr (sortedMarks_descending hapart)
  · obtain ⟨ms, hsub, hms⟩ := List.sublist_map_iff.mp (kept_sublist text (utf8Len text)
      ((sortedMarks text facets).map (Marks.edit linked)))
    exact ⟨ms, hsub, hms, fun h => absurd h hapart⟩

/-- No facets make `apply_link_facets` panic. The text is taken for pieces: some of the
valid ranges, which lie apart, are made links, and the rest is as it was. They are all of
them if those lie apart, and then the order of the facets does not matter. -/
theorem applyLinkFacets_local (text : Text) (facets : List ParsedFacet) :
    applyLinkFacetsChecked text facets = some (applyLinkFacets text facets) ∧
    (∃ ps : List (Marks.Piece Char Text), Marks.written ps = text ∧
      (applyLinkFacets text facets).1 = ps.flatMap (Marks.replaced linked) ∧
      (Marks.marks Char.utf8Size 0 ps).Pairwise (fun m m' => m.stop ≤ m'.start) ∧
      (Marks.marks Char.utf8Size 0 ps).Subperm (facets.filterMap (linkMark text)) ∧
      (Apart (facets.filterMap (linkMark text)) →
        (Marks.marks Char.utf8Size 0 ps).Perm (facets.filterMap (linkMark text)))) ∧
    ∀ facets', facets'.Perm facets → Apart (facets.filterMap (linkMark text)) →
      (applyLinkFacets text facets').1 = (applyLinkFacets text facets).1 := by
  have hperm := sortedMarks_perm text facets
  refine ⟨applyLinkFacetsChecked_eq text facets, ?_, fun facets' hfacets hapart => ?_⟩
  · obtain ⟨ms, hsub, hkept, hall⟩ := exists_made text facets
    have hdesc := descending_kept (w := Char.utf8Size) text (utf8Len text)
      ((sortedMarks text facets).map (Marks.edit linked))
    rw [hkept] at hdesc
    obtain ⟨ps, hps, hmarks, hrender⟩ := Marks.exists_pieces utf8Size_pos linked hdesc
      fun e he => (mem_kept (hkept ▸ he)).1
    refine ⟨ps, hps, ?_, Marks.marks_pairwise 0 ps, ?_, fun hapart => ?_⟩
    · rw [applyLinkFacets_render, hkept, hrender]
    · rw [hmarks]
      exact ((List.reverse_perm ms).subperm.trans hsub.subperm).trans hperm.subperm
    · rw [hmarks, hall hapart]
      exact (List.reverse_perm _).trans hperm
  · have hvalid := hfacets.filterMap (linkMark text)
    have hapart' : Apart (facets'.filterMap (linkMark text)) :=
      (hvalid.pairwise_iff fun {m m'} => Or.symm).mpr hapart
    have heq : sortedMarks text facets' = sortedMarks text facets := by
      refine ((sortedMarks_perm text facets').trans (hvalid.trans hperm.symm)).eq_of_pairwise
        (fun m m' hm hm' hle hle' => ?_) (sortedMarks_descending hapart')
        (sortedMarks_descending hapart)
      have hlt : m.start < m.stop := (mem_sortedMarks hm).lt
      have hlt' : m'.start < m'.stop := (mem_sortedMarks hm').lt
      omega
    rw [applyLinkFacets_render, applyLinkFacets_render, heq]

end Seiran.Facets
