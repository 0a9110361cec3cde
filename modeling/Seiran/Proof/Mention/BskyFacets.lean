import Seiran.Framework.Marks
import Seiran.Proof.Mention.Pieces

/-!
# The facets of a post's text

`convert_mentions_for_bsky` writes the pieces of the text one after another, and its
facets are the marks of `Marks` (`writeFrom_bsky`). A piece that is no mention is written
as it is.
-/

namespace Seiran.Mention

section

variable (R : Resolvers) (localDomain : Text)

/-- The text that is written for a piece. -/
def bskyText (p : Piece) : Text := (bskyPiece R localDomain p 0).1

/-- The feature of the facet over it, if it has one. -/
def bskyFeature (p : Piece) : Option FacetFeature :=
  (bskyPiece R localDomain p 0).2.head?.map Facet.feature

def markedPiece (s : Span) : Marks.Piece Char FacetFeature :=
  ⟨bskyText R localDomain s.piece, bskyFeature R localDomain s.piece⟩

def facetOf (m : Marks.Mark FacetFeature) : Facet := ⟨m.start, m.stop, m.value⟩

/-- What is written for a piece that has a facet, and what the facet says. -/
def Emitted (p : Piece) (emitted : Text) (feature : FacetFeature) : Prop :=
  match p with
  | .plain _ => False
  | .url text => emitted = text ∧ feature = .link text
  | .hashtag tag => emitted = '#' :: tag ∧ feature = .tag tag
  | .mention t =>
    emitted = (bskyMention R localDomain t 0).1 ∧
      (bskyMention R localDomain t 0).2.map Facet.feature = [feature]

variable {R localDomain}

theorem exists_withFacet (t : MentionToken) : ∃ text feature, ∀ n,
    bskyMention R localDomain t n = withFacet n ('@' :: text) feature := by
  obtain ⟨username, domain⟩ := t
  match domain with
  | some [] => exact ⟨username ++ ['@'], none, fun n => rfl⟩
  | some (c :: domain) =>
    simp only [bskyMention]
    split
    · exact ⟨_, _, fun n => rfl⟩
    · split
      · exact ⟨_, _, fun n => rfl⟩
      · exact ⟨_, _, fun n => rfl⟩
  | none =>
    simp only [bskyMention]
    split
    · exact ⟨_, _, fun n => rfl⟩
    · split
      · exact ⟨_, _, fun n => rfl⟩
      · exact ⟨username, none, fun n => rfl⟩

theorem bskyPiece_eq (p : Piece) (n : Nat) :
    bskyPiece R localDomain p n =
      withFacet n (bskyText R localDomain p) (bskyFeature R localDomain p) := by
  have hfeature (text : Text) (feature : Option FacetFeature) :
      (withFacet 0 text feature).2.head?.map Facet.feature = feature := by cases feature <;> rfl
  cases p with
  | plain text => rfl
  | url text => rfl
  | hashtag tag => rfl
  | mention t =>
    obtain ⟨text, feature, h⟩ := @exists_withFacet R localDomain t
    rw [bskyText, bskyFeature]
    simp only [bskyPiece]
    rw [h n, h 0, hfeature]
    rfl

theorem writeFrom_bsky (result : Text) (facets : List Facet) (spans : List Span) :
    writeFrom (bskyPiece R localDomain) (result, facets) spans =
      (result ++ Marks.written (spans.map (markedPiece R localDomain)),
        facets ++ (Marks.marks Char.utf8Size (utf8Len result)
          (spans.map (markedPiece R localDomain))).map facetOf) := by
  induction spans generalizing result facets with
  | nil => exact Prod.ext (List.append_nil _).symm (List.append_nil _).symm
  | cons s spans ih =>
    have hsize : utf8Len (result ++ bskyText R localDomain s.piece) =
        utf8Len result + Splice.size Char.utf8Size (bskyText R localDomain s.piece) :=
      Splice.size_append result _
    rw [writeFrom_cons, ih, bskyPiece_eq, withFacet]
    simp only
    rw [List.append_assoc, List.append_assoc, hsize, List.map_cons, Marks.marks, List.map_append,
      List.map_map]
    rfl

/-- A piece that is no mention is written as it is. -/
theorem bskyText_eq_source {p : Piece} (h : p.token = none) :
    bskyText R localDomain p = p.source := by
  cases p with
  | plain text => rfl
  | url text => rfl
  | hashtag tag => rfl
  | mention t => cases h

theorem bskyText_ne_nil {p : Piece} (h : p.source ≠ []) : bskyText R localDomain p ≠ [] := by
  cases p with
  | plain text => exact h
  | url text => exact h
  | hashtag tag => exact List.cons_ne_nil _ _
  | mention t =>
    obtain ⟨text, feature, ht⟩ := @exists_withFacet R localDomain t
    rw [bskyText, bskyPiece, ht 0]
    exact List.cons_ne_nil _ _

theorem emitted_of_feature {p : Piece} {feature : FacetFeature}
    (h : bskyFeature R localDomain p = some feature) :
    Emitted R localDomain p (bskyText R localDomain p) feature := by
  cases p with
  | plain text => cases h
  | url text => exact ⟨rfl, (Option.some.inj h).symm⟩
  | hashtag tag => exact ⟨rfl, (Option.some.inj h).symm⟩
  | mention t =>
    have hmention := @bskyPiece_eq R localDomain (.mention t) 0
    refine ⟨rfl, ?_⟩
    rw [h] at hmention
    exact congrArg (fun m => m.2.map Facet.feature) hmention

end

variable (U : Unicode) (R : Resolvers) (localDomain : Text)

/-- The facets lie apart, in the order of their ranges; each is over characters of the
text that is written, which are those of one mention, URL or hashtag; and what is no
mention is written as it is. -/
theorem bskyFacets_wellFormed (text : Text) :
    (text = (pieces U copied text).flatMap (fun s => s.piece.source) ∧
      (convertMentionsForBsky U R localDomain text).1 =
        (pieces U copied text).flatMap (fun s => bskyText R localDomain s.piece) ∧
      ∀ s ∈ pieces U copied text, s.piece.token = none →
        bskyText R localDomain s.piece = s.piece.source) ∧
    (convertMentionsForBsky U R localDomain text).2.Pairwise
      (fun f g => f.byteEnd ≤ g.byteStart) ∧
    ∀ f ∈ (convertMentionsForBsky U R localDomain text).2,
      f.byteStart < f.byteEnd ∧
      f.byteEnd ≤ utf8Len (convertMentionsForBsky U R localDomain text).1 ∧
      ∃ before s after, pieces U copied text = before ++ s :: after ∧
        Splice.cut Char.utf8Size (convertMentionsForBsky U R localDomain text).1 f.byteStart
            f.byteEnd =
          some (before.flatMap fun s => bskyText R localDomain s.piece,
            bskyText R localDomain s.piece,
            after.flatMap fun s => bskyText R localDomain s.piece) ∧
        Emitted R localDomain s.piece (bskyText R localDomain s.piece) f.feature := by
  have hconvert : convertMentionsForBsky U R localDomain text =
      (Marks.written ((pieces U copied text).map (markedPiece R localDomain)),
        (Marks.marks Char.utf8Size 0
          ((pieces U copied text).map (markedPiece R localDomain))).map facetOf) := by
    rw [convertMentionsForBsky, bskyLoop_eq, writeFrom_bsky]
    rfl
  have hwritten (spans : List Span) : Marks.written (spans.map (markedPiece R localDomain)) =
      spans.flatMap fun s => bskyText R localDomain s.piece := by
    rw [Marks.written, List.flatMap_map]
    rfl
  have hbare : ∀ username, (copied username).source = '@' :: username ++ ['@'] := fun _ => rfl
  rw [hconvert]
  refine ⟨⟨(piecesFrom_source hbare text 0).1.symm, hwritten _,
    fun s _ hs => bskyText_eq_source hs⟩, ?_, fun f hf => ?_⟩
  · exact List.pairwise_map.mpr (Marks.marks_pairwise 0 _)
  · obtain ⟨m, hm, rfl⟩ := List.mem_map.mp hf
    obtain ⟨before, p, after, hsplit, hmark, hstart, hstop⟩ := Marks.mem_marks hm
    obtain ⟨before, rest, hspans, rfl, hrest⟩ := List.map_eq_append_iff.mp hsplit
    obtain ⟨s, after, rfl, rfl, rfl⟩ := List.map_eq_cons_iff.mp hrest
    have hcut := Marks.cut_piece Char.utf8Size_pos (before.map (markedPiece R localDomain))
      (markedPiece R localDomain s) (after.map (markedPiece R localDomain))
    rw [Nat.zero_add] at hstart
    rw [← hstart, ← hstop, ← hsplit] at hcut
    have hlt : m.start < m.stop := by
      have hs : s ∈ pieces U copied text := hspans ▸ List.mem_append_right _ List.mem_cons_self
      have := Splice.size_pos Char.utf8Size_pos
        (@bskyText_ne_nil R localDomain s.piece (piece_ne_nil hbare hs))
      rw [hstop]
      exact Nat.lt_add_of_pos_right this
    obtain ⟨htext, -, hsize⟩ := Splice.eq_of_cut (Nat.le_of_lt hlt) hcut
    refine ⟨hlt, ?_, before, s, after, hspans, ?_, emitted_of_feature hmark⟩
    · have := Splice.size_append (w := Char.utf8Size)
        (Marks.written (before.map (markedPiece R localDomain)) ++
          (markedPiece R localDomain s).text)
        (Marks.written (after.map (markedPiece R localDomain)))
      rw [← htext, hsize] at this
      exact Nat.le.intro this.symm
    · rw [← hwritten, ← hwritten]
      exact hcut

end Seiran.Mention
