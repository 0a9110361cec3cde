import Seiran.Proof.Deliver.Audience

/-!
# The visibility a receiver reads

`visibility_to_to_cc` puts a visibility into `to` and `cc`, among the actors a
post is for, and `classify_ap_visibility` reads it out of them.

* `classifyApVisibility_eq_pub` to `classifyApVisibility_eq_direct`: what is read;
* `receivedVisibility_iff`: it is the visibility that was written unless an
  actor has the URI of a collection.
-/

namespace Seiran.Deliver

open Timeline (Visibility)
open Mention (Text)

variable {W : World} {toUris ccUris : List Text}

/-! ## Reading -/

/-- One of the names of the collection of everybody -/
def IsPublicUri (uri : Text) : Prop :=
  uri = asPublic ∨ uri = "as:Public".toList ∨ uri = "Public".toList

/-- The suffix of a collection of followers -/
def IsFollowersUri (uri : Text) : Prop := "/followers".toList <:+ uri

theorem any_contains_publicUris (uris : List Text) :
    (uris.any [asPublic, "as:Public".toList, "Public".toList].contains) = true ↔
      ∃ uri ∈ uris, IsPublicUri uri := by
  simp only [List.any_eq_true, List.contains_iff_mem, List.mem_cons, List.not_mem_nil, or_false,
    IsPublicUri]

theorem any_isSuffixOf_followers (uris : List Text) :
    (uris.any fun u => "/followers".toList.isSuffixOf u) = true ↔
      ∃ uri ∈ uris, IsFollowersUri uri := by
  simp only [List.any_eq_true, List.isSuffixOf_iff_suffix, IsFollowersUri]

theorem classifyApVisibility_eq_pub :
    classifyApVisibility toUris ccUris = .pub ↔ ∃ uri ∈ toUris, IsPublicUri uri := by
  rw [← any_contains_publicUris, classifyApVisibility]
  split
  · rename_i h
    exact iff_of_true rfl h
  · rename_i h
    refine iff_of_false ?_ h
    split
    · decide
    · split <;> decide

theorem not_isPublicUri_of_classify {visibility : Visibility}
    (h : classifyApVisibility toUris ccUris = visibility) (hne : visibility ≠ .pub) :
    ¬ ∃ uri ∈ toUris, IsPublicUri uri :=
  fun hpublic => hne (h.symm.trans (classifyApVisibility_eq_pub.mpr hpublic))

theorem classifyApVisibility_eq_unlisted (h : ¬ ∃ uri ∈ toUris, IsPublicUri uri)
    (hcc : ∃ uri ∈ ccUris, IsPublicUri uri) : classifyApVisibility toUris ccUris = .unlisted := by
  rw [← any_contains_publicUris] at h hcc
  rw [classifyApVisibility, if_neg h, if_pos hcc]

theorem classifyApVisibility_eq_followersOnly (h : ¬ ∃ uri ∈ toUris, IsPublicUri uri)
    (hfollowers : ∃ uri ∈ toUris, IsFollowersUri uri) :
    classifyApVisibility toUris [] = .followersOnly := by
  rw [← any_contains_publicUris] at h
  rw [← any_isSuffixOf_followers] at hfollowers
  rw [classifyApVisibility, if_neg h, if_neg (by simp), if_pos hfollowers]

theorem classifyApVisibility_eq_direct :
    classifyApVisibility toUris [] = .direct ↔
      ∀ uri ∈ toUris, ¬ IsPublicUri uri ∧ ¬ IsFollowersUri uri := by
  constructor
  · intro h uri huri
    have hpublic := not_isPublicUri_of_classify h (by decide)
    refine ⟨fun hp => hpublic ⟨uri, huri, hp⟩, fun hfollowers => ?_⟩
    rw [classifyApVisibility_eq_followersOnly hpublic ⟨uri, huri, hfollowers⟩] at h
    cases h
  · intro h
    have hpublic : ¬ ∃ uri ∈ toUris, IsPublicUri uri := fun ⟨uri, huri, hp⟩ => (h uri huri).1 hp
    have hfollowers : ¬ ∃ uri ∈ toUris, IsFollowersUri uri := fun ⟨uri, huri, hf⟩ =>
      (h uri huri).2 hf
    rw [← any_contains_publicUris] at hpublic
    rw [← any_isSuffixOf_followers] at hfollowers
    rw [classifyApVisibility, if_neg hpublic, if_neg (by simp), if_neg hfollowers]

/-! ## What was written -/

theorem isPublicUri_asPublic : IsPublicUri asPublic := .inl rfl

theorem isFollowersUri_followersUri (username : Text) : IsFollowersUri (W.followersUri username) :=
  List.suffix_append _ _

/-- A collection of followers is not the one of everybody: they end in another letter. -/
theorem not_isPublicUri_of_isFollowersUri {uri : Text} (h : IsFollowersUri uri) :
    ¬ IsPublicUri uri := by
  obtain ⟨head, rfl⟩ := h
  have hlast : (head ++ "/followers".toList).getLast? = some 's' := by
    rw [List.getLast?_append]
    rfl
  intro hpublic
  obtain h | h | h := hpublic <;>
  · rw [h] at hlast
    exact absurd hlast (by decide)

theorem exists_isPublicUri_followers_iff (username : Text) (mentionRecipients : List Text) :
    (∃ uri ∈ W.followersUri username :: mentionRecipients, IsPublicUri uri) ↔
      ∃ uri ∈ mentionRecipients, IsPublicUri uri := by
  simp only [List.mem_cons, exists_eq_or_imp, or_iff_right_iff_imp]
  exact fun h => absurd h (not_isPublicUri_of_isFollowersUri (isFollowersUri_followersUri username))

/-- What a receiver makes of the addresses of a post. -/
def receivedVisibility (W : World) (username : Text) (visibility : Visibility)
    (directRecipients mentionRecipients : List Text) : Visibility :=
  let (toUris, ccUris) := visibilityToToCc (W.followersUri username) visibility directRecipients
    mentionRecipients
  classifyApVisibility toUris ccUris

/-- None of the actors the addresses are mixed with has a URI that is read as a collection. -/
def Unmistakable (directRecipients mentionRecipients : List Text) : Visibility → Prop
  | .pub => True
  | .unlisted | .followersOnly => ∀ uri ∈ mentionRecipients, ¬ IsPublicUri uri
  | .direct => ∀ uri ∈ directRecipients, ¬ IsPublicUri uri ∧ ¬ IsFollowersUri uri

theorem receivedVisibility_iff (W : World) (username : Text) (visibility : Visibility)
    (directRecipients mentionRecipients : List Text) :
    receivedVisibility W username visibility directRecipients mentionRecipients = visibility ↔
      Unmistakable directRecipients mentionRecipients visibility := by
  have hfollowers : ∃ uri ∈ W.followersUri username :: mentionRecipients, IsFollowersUri uri :=
    ⟨_, List.mem_cons_self, isFollowersUri_followersUri username⟩
  have hmention : (¬ ∃ uri ∈ W.followersUri username :: mentionRecipients, IsPublicUri uri) ↔
      ∀ uri ∈ mentionRecipients, ¬ IsPublicUri uri := by
    rw [exists_isPublicUri_followers_iff]
    simp only [not_exists, not_and]
  cases visibility with
  | pub =>
    show classifyApVisibility (asPublic :: mentionRecipients) [W.followersUri username] = _ ↔ _
    refine iff_of_true ?_ trivial
    exact classifyApVisibility_eq_pub.mpr ⟨asPublic, List.mem_cons_self, isPublicUri_asPublic⟩
  | unlisted =>
    show classifyApVisibility (W.followersUri username :: mentionRecipients) [asPublic] = _ ↔ _
    refine Iff.trans ⟨fun h => not_isPublicUri_of_classify h (by decide), fun h => ?_⟩ hmention
    exact classifyApVisibility_eq_unlisted h ⟨asPublic, List.mem_cons_self, isPublicUri_asPublic⟩
  | followersOnly =>
    show classifyApVisibility (W.followersUri username :: mentionRecipients) [] = _ ↔ _
    refine Iff.trans ⟨fun h => not_isPublicUri_of_classify h (by decide), fun h => ?_⟩ hmention
    exact classifyApVisibility_eq_followersOnly h hfollowers
  | direct => exact classifyApVisibility_eq_direct

/-- A direct post to an actor who has the name `followers` is read as one for followers. -/
theorem receivedVisibility_counterexample :
    receivedVisibility alone "alice".toList .direct
        ["https://remote.example/users/followers".toList] [] = .followersOnly ∧
      receivedVisibility alone "alice".toList .direct
        ["https://remote.example/users/followers".toList] [] ≠ .direct := by
  decide

end Seiran.Deliver
