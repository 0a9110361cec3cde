import Seiran.Model.Mention.Hashtag
import Seiran.Proof.Mention.Pieces

/-!
# Stored and delivered hashtags

* `extractLoop_eq`: `extract_hashtags` finds the hashtags at all positions of the text.
* `shown_tags`: so does who goes through the pieces of the text and into the URLs.
* `delivered_eq`: the facets for Bluesky are those of the hashtags outside of URLs.
* `foldl_pushNew_iff`: when it makes no difference to leave out those in URLs.
-/

namespace Seiran.Mention

/-! ## Tags once each -/

theorem pushNew_of_mem {α : Type} [DecidableEq α] {result : List α} {x : α} (h : x ∈ result) :
    pushNew result x = result := if_pos h

theorem pushNew_of_notMem {α : Type} [DecidableEq α] {result : List α} {x : α} (h : x ∉ result) :
    pushNew result x = result ++ [x] := if_neg h

theorem prefix_foldl_pushNew {α : Type} [DecidableEq α] (xs result : List α) :
    result <+: xs.foldl pushNew result := by
  induction xs generalizing result with
  | nil => exact List.prefix_refl result
  | cons x xs ih =>
    refine List.IsPrefix.trans ?_ (ih _)
    by_cases hx : x ∈ result
    · have hsame := pushNew_of_mem hx
      exact ⟨[], by rw [hsame, List.append_nil]⟩
    · rw [pushNew_of_notMem hx]
      exact List.prefix_append result [x]

/-- Two lists that go on with different elements after the same ones are not one. -/
theorem ne_of_isPrefix {α : Type} {xs ys zs : List α} {x y : α} (hne : x ≠ y)
    (hx : xs ++ [x] <+: ys) (hy : xs ++ [y] <+: zs) : ys ≠ zs := by
  rintro rfl
  have heq := List.append_cancel_left ((List.prefix_of_prefix_length_le hx hy (by simp)).eq_of_length
    (by simp))
  exact hne (List.cons.inj heq).1

theorem settles_inUrl (written waiting : List Text) (tag : Text) (rest : List Shown) :
    settles written waiting (⟨tag, true⟩ :: rest) =
      settles written (if tag ∈ written ++ waiting then waiting else waiting ++ [tag]) rest := by
  rw [settles.eq_def]
  rfl

theorem settles_written (written waiting : List Text) (tag : Text) (rest : List Shown) :
    settles written waiting (⟨tag, false⟩ :: rest) =
      if tag ∈ written then settles written waiting rest
      else
        match waiting with
        | [] => settles (written ++ [tag]) [] rest
        | first :: waiting => first == tag && settles (written ++ [tag]) waiting rest := by
  rw [settles.eq_def]
  rfl

/-- The tags of a text are the same without those in URLs if and only if they settle. -/
theorem foldl_pushNew_iff (shown : List Shown) (written waiting : List Text) :
    (shown.map Shown.tag).foldl pushNew (written ++ waiting) =
        ((shown.filter fun s => !s.inUrl).map Shown.tag).foldl pushNew written ↔
      settles written waiting shown = true := by
  induction shown generalizing written waiting with
  | nil =>
    rw [settles, List.isEmpty_iff]
    exact List.append_right_eq_self
  | cons s shown ih =>
    obtain ⟨tag, inUrl⟩ := s
    rw [List.map_cons, List.foldl_cons]
    cases inUrl with
    | true =>
      rw [settles_inUrl, List.filter_cons_of_neg (by simp), ← ih]
      by_cases hmem : tag ∈ written ++ waiting
      · rw [if_pos hmem, pushNew_of_mem hmem]
      · rw [if_neg hmem, pushNew_of_notMem hmem, List.append_assoc]
    | false =>
      rw [settles_written, List.filter_cons_of_pos rfl, List.map_cons, List.foldl_cons]
      by_cases hmem : tag ∈ written
      · rw [if_pos hmem, pushNew_of_mem hmem, pushNew_of_mem (List.mem_append_left _ hmem), ih]
      · rw [if_neg hmem, pushNew_of_notMem hmem]
        cases waiting with
        | nil =>
          have hih := ih (written ++ [tag]) []
          rw [List.append_nil] at hih ⊢
          rw [pushNew_of_notMem hmem, hih]
        | cons first waiting =>
          simp only
          by_cases hfirst : first = tag
          · have hih := ih (written ++ [tag]) waiting
            rw [List.append_assoc] at hih
            rw [hfirst, pushNew_of_mem (List.mem_append_right _ List.mem_cons_self),
              beq_self_eq_true, Bool.true_and, ← hih]
            rfl
          · rw [beq_eq_false_iff_ne.mpr hfirst, Bool.false_and]
            refine iff_of_false (ne_of_isPrefix hfirst ?_ (prefix_foldl_pushNew _ _)) nofun
            -- What is new comes after what is waiting.
            refine List.IsPrefix.trans ?_ (prefix_foldl_pushNew _ _)
            by_cases hwait : tag ∈ written ++ first :: waiting
            · rw [pushNew_of_mem hwait]
              exact (List.prefix_append_right_inj written).mpr ⟨waiting, rfl⟩
            · rw [pushNew_of_notMem hwait, List.append_assoc]
              exact (List.prefix_append_right_inj written).mpr ⟨waiting ++ [tag], rfl⟩

/-! ## Hashes at positions -/

section

variable {U : Unicode}

theorem hashtagsBetween_append {chars : Text} {i j k : Nat} (hij : i ≤ j) (hjk : j ≤ k) :
    hashtagsBetween U chars i j ++ hashtagsBetween U chars j k = hashtagsBetween U chars i k := by
  obtain ⟨m, rfl⟩ := Nat.exists_eq_add_of_le hij
  obtain ⟨n, rfl⟩ := Nat.exists_eq_add_of_le hjk
  rw [hashtagsBetween, hashtagsBetween, hashtagsBetween, ← List.filterMap_append,
    Nat.add_sub_cancel_left, Nat.add_sub_cancel_left, Nat.add_assoc, Nat.add_sub_cancel_left,
    List.range'_append_1]

theorem hashtagAt_eq_none {chars : Text} {i : Nat} (h : chars[i]? ≠ some '#') :
    U.hashtagAt chars i = none := if_neg h

theorem hashtagsBetween_eq_nil {chars : Text} {i j : Nat}
    (h : ∀ k, i ≤ k → k < j → chars[k]? ≠ some '#') : hashtagsBetween U chars i j = [] := by
  refine List.filterMap_eq_nil_iff.mpr fun k hk => ?_
  rw [List.mem_range'_1] at hk
  rw [hashtagAt_eq_none (h k hk.1 (by omega))]
  rfl

theorem hashtagsBetween_cons {chars : Text} {i j : Nat} (hij : i < j)
    (h : ∀ k, i < k → k < j → chars[k]? ≠ some '#') :
    hashtagsBetween U chars i j =
      ((U.hashtagAt chars i).map fun h => U.toLowercase h.1).toList := by
  have hone : hashtagsBetween U chars i (i + 1) =
      ((U.hashtagAt chars i).map fun h => U.toLowercase h.1).toList := by
    rw [hashtagsBetween, Nat.add_sub_cancel_left, List.range'_one, List.filterMap_cons,
      List.filterMap_nil]
    cases U.hashtagAt chars i <;> rfl
  rw [← hashtagsBetween_append (Nat.le_succ i) hij, hone, hashtagsBetween_eq_nil fun k hk => h k hk,
    List.append_nil]

/-- Nothing is found behind the end. -/
theorem hashtagsBetween_length {chars : Text} {i j : Nat} (hij : i ≤ j) :
    hashtagsBetween U chars i j ++ hashtagsBetween U chars j chars.length =
      hashtagsBetween U chars i chars.length := by
  obtain hj | hj := Nat.le_total j chars.length
  · exact hashtagsBetween_append hij hj
  · have hbehind (k : Nat) (hk : chars.length ≤ k) : chars[k]? ≠ some '#' := by
      rw [List.getElem?_eq_none hk]
      nofun
    rw [hashtagsBetween_eq_nil fun k hk _ => hbehind k (Nat.le_trans hj hk), List.append_nil]
    obtain hi | hi := Nat.le_total i chars.length
    · rw [← hashtagsBetween_append hi hj, hashtagsBetween_eq_nil fun k hk _ => hbehind k hk,
        List.append_nil]
    · rw [hashtagsBetween_eq_nil fun k hk _ => hbehind k (Nat.le_trans hi hk),
        hashtagsBetween_eq_nil fun k hk _ => hbehind k (Nat.le_trans hi hk)]

theorem getElem?_of_lt_spanEnd {p : Char → Bool} {chars : Text} {i k : Nat} (hi : i ≤ k)
    (hk : k < spanEnd p chars i) : ∃ c, chars[k]? = some c ∧ p c = true := by
  obtain ⟨m, rfl⟩ := Nat.exists_eq_add_of_le hi
  have hm : m < ((chars.drop i).takeWhile p).length := Nat.lt_of_add_lt_add_left hk
  have hprefix := List.takeWhile_prefix (l := chars.drop i) p
  refine ⟨((chars.drop i).takeWhile p)[m], ?_, ?_⟩
  · rw [← List.getElem?_drop]
    exact List.prefix_iff_getElem?.mp hprefix m hm
  · exact List.all_eq_true.mp List.all_takeWhile _ (List.getElem_mem hm)

/-- No hash is among characters that a name or a tag is made of. -/
theorem ne_hash_of_lt_spanEnd {p : Char → Bool} (hp : p '#' = false) {chars : Text} {i k : Nat}
    (hi : i ≤ k) (hk : k < spanEnd p chars i) : chars[k]? ≠ some '#' := by
  obtain ⟨c, hc, hpc⟩ := getElem?_of_lt_spanEnd hi hk
  rw [hc]
  rintro ⟨rfl⟩
  exact absurd (hp.symm.trans hpc) nofun

theorem hashtagAt_of_hash {chars : Text} {i : Nat} (hhash : chars[i]? = some '#')
    (hword : Unicode.wordBefore ['/'] chars i = false)
    (hj : i + 1 < spanEnd (fun c => U.isAlphanumeric c || c == '_') chars (i + 1)) :
    ((U.hashtagAt chars i).map fun h => U.toLowercase h.1) =
      let raw := slice chars (i + 1)
        (spanEnd (fun c => U.isAlphanumeric c || c == '_') chars (i + 1))
      if raw.any U.isAlphabetic then some (U.toLowercase raw) else none := by
  rw [Unicode.hashtagAt, if_pos hhash, Unicode.scanHashtag, hword, if_neg Bool.false_ne_true,
    if_neg (Nat.ne_of_gt hj)]
  simp only
  split <;> rfl

theorem hashtagAt_none {chars : Text} {i : Nat}
    (h : ¬(chars[i]? = some '#' ∧ Unicode.wordBefore ['/'] chars i = false) ∨
      ¬i + 1 < spanEnd (fun c => U.isAlphanumeric c || c == '_') chars (i + 1)) :
    U.hashtagAt chars i = none := by
  rw [Option.eq_none_iff_forall_ne_some]
  rintro ⟨tag, stop⟩ hsome
  obtain ⟨hhash, hword, rfl, hne, -⟩ := hashtagAt_eq_some.mp hsome
  obtain h | h := h
  · exact h ⟨hhash, hword⟩
  · exact h (Nat.lt_of_le_of_ne (Unicode.le_spanEnd _ _ _) hne.symm)

variable (hU : U.isAlphanumeric '#' = false)

include hU

/-! ## What is stored -/

theorem extractLoop_eq (chars : Text) (i : Nat) (result : List Text) :
    extractLoop U chars i result =
      (hashtagsBetween U chars i chars.length).foldl pushNew result := by
  have htag : (U.isAlphanumeric '#' || '#' == '_') = false := by rw [hU]; rfl
  fun_induction extractLoop U chars i result with
  | case1 i result hi hhash j hj ih =>
    have hhash' : chars[i]? = some '#' := by rw [List.getElem?_eq_getElem hi, hhash.1]
    have hskip : ∀ k, i < k → k < j → chars[k]? ≠ some '#' :=
      fun k hik hkj => ne_hash_of_lt_spanEnd htag hik hkj
    simp only [dite_eq_ite] at ih
    rw [ih, ← hashtagsBetween_length (Nat.le_of_lt (Nat.lt_of_succ_lt hj)),
      hashtagsBetween_cons (Nat.lt_of_succ_lt hj) hskip,
      hashtagAt_of_hash hhash' (by simpa using hhash.2) hj, List.foldl_append]
    simp only
    split <;> rfl
  | case2 i result hi hhash j hj ih =>
    rw [ih, ← hashtagsBetween_length (Nat.le_succ i),
      hashtagsBetween_cons (Nat.lt_succ_self i) (by omega), hashtagAt_none (.inr hj)]
    rfl
  | case3 i result hi hhash ih =>
    rw [ih, ← hashtagsBetween_length (Nat.le_succ i),
      hashtagsBetween_cons (Nat.lt_succ_self i) (by omega), hashtagAt_none (.inl ?_)]
    · rfl
    · rw [List.getElem?_eq_getElem hi, Option.some.injEq]
      simpa using hhash
  | case4 i result hi =>
    rw [hashtagsBetween_eq_nil]
    · rfl
    · intro k hik hk
      omega

/-! ## What is shown -/

omit hU in
theorem shownAt_mentionPiece (chars : Text) (start stop : Nat) (t : MentionToken) :
    shownAt U chars ⟨start, stop, mentionPiece copied t⟩ = [] := by
  obtain ⟨username, domain⟩ := t
  match domain with
  | none => rfl
  | some [] => rfl
  | some (c :: domain) => rfl

theorem pieceAt_shown (chars : Text) (i : Nat) (hi : i < chars.length) :
    (shownAt U chars ⟨i, (pieceAt U copied chars i hi).2, (pieceAt U copied chars i hi).1⟩).map
        Shown.tag =
      hashtagsBetween U chars i (pieceAt U copied chars i hi).2 := by
  have htag : (U.isAlphanumeric '#' || '#' == '_') = false := by rw [hU]; rfl
  have husername : ∀ k, i < k → k < U.usernameEnd chars (i + 1) → chars[k]? ≠ some '#' :=
    fun k hik hk => ne_hash_of_lt_spanEnd (by rw [hU]; rfl) hik hk
  have hname : i + 1 ≤ U.usernameEnd chars (i + 1) := Unicode.le_spanEnd _ _ _
  rw [pieceAt]
  split
  · exact (List.map_map ..).trans (List.map_id _)
  · split
    · rename_i tag stop hsome
      obtain ⟨-, -, rfl, -⟩ := hashtagAt_eq_some.mp hsome
      rw [hashtagsBetween_cons (U.lt_of_hashtagAt hsome)
        fun k hik hk => ne_hash_of_lt_spanEnd htag hik hk, hsome]
      rfl
    · rename_i hnone
      have hnil : ((U.hashtagAt chars i).map fun h => U.toLowercase h.1).toList = [] := by
        rw [hnone]
        rfl
      have hone : hashtagsBetween U chars i (i + 1) = [] :=
        (hashtagsBetween_cons (Nat.lt_succ_self i) (by omega)).trans hnil
      split
      · exact hone.symm
      · split
        · exact hone.symm
        · split
          · exact hone.symm
          · split
            · rename_i stop hdomain
              obtain ⟨hat, hstop⟩ := domainEnd_eq_some.mp hdomain
              rw [shownAt_mentionPiece, hashtagsBetween_cons (by
                have := U.lt_of_domainEnd hdomain
                omega), hnil]
              · rfl
              · intro k hik hk
                obtain hlt | rfl | hgt := Nat.lt_trichotomy k (U.usernameEnd chars (i + 1))
                · exact husername k hik hlt
                · rw [hat]
                  decide
                · exact ne_hash_of_lt_spanEnd (by rw [hU]; rfl) hgt (hstop ▸ hk)
            · rw [shownAt_mentionPiece, hashtagsBetween_cons hname husername, hnil]
              rfl

theorem piecesFrom_shown (chars : Text) (i : Nat) :
    ((piecesFrom U copied chars i).flatMap (shownAt U chars)).map Shown.tag =
      hashtagsBetween U chars i chars.length := by
  fun_induction piecesFrom U copied chars i with
  | case1 i hi hlt ih =>
    rw [List.flatMap_cons, List.map_append, ih, pieceAt_shown hU chars i hi]
    exact hashtagsBetween_length (Nat.le_of_lt hlt)
  | case2 i hi =>
    rw [hashtagsBetween_eq_nil]
    · rfl
    · intro k hik hk
      omega

theorem extractHashtags_eq (text : Text) :
    extractHashtags U text = ((shown U text).map Shown.tag).foldl pushNew [] := by
  rw [extractHashtags, extractLoop_eq hU, ← piecesFrom_shown hU]
  rfl

/-! ## What is delivered -/

variable {R : Resolvers} {localDomain : Text}

omit hU

theorem withFacet_tags (n : Nat) (text : Text) {feature : Option FacetFeature}
    (h : ∀ tag, feature ≠ some (.tag tag)) :
    (withFacet n text feature).2.filterMap Facet.tag = [] := by
  match feature with
  | none => rfl
  | some (.mention did) => rfl
  | some (.link uri) => rfl
  | some (.tag tag) => exact absurd rfl (h tag)

theorem map_mention_ne (did : Option Text) (tag : Text) :
    did.map FacetFeature.mention ≠ some (.tag tag) := by
  cases did <;> nofun

theorem bskyMention_tags (t : MentionToken) (n : Nat) :
    (bskyMention R localDomain t n).2.filterMap Facet.tag = [] := by
  rw [bskyMention]
  split
  · rfl
  · split
    · exact withFacet_tags _ _ (map_mention_ne _)
    · split
      · exact withFacet_tags _ _ (map_mention_ne _)
      · exact withFacet_tags _ _ nofun
  · split
    · exact withFacet_tags _ _ (map_mention_ne _)
    · split
      · exact withFacet_tags _ _ (map_mention_ne _)
      · rfl

theorem delivered_eq (text : Text) :
    deliveredHashtags U R localDomain text =
      (((shown U text).filter fun s => !s.inUrl).map Shown.tag).foldl pushNew [] := by
  have hwrite (p : Piece) (n : Nat) : (bskyPiece R localDomain p n).2.filterMap Facet.tag =
      (bskyPiece R localDomain p 0).2.filterMap Facet.tag := by
    cases p with
    | mention t => exact (bskyMention_tags t n).trans (bskyMention_tags t 0).symm
    | plain text | url text | hashtag tag => rfl
  have hspan (s : Span) : ((bskyPiece R localDomain s.piece 0).2.filterMap Facet.tag).map
      U.toLowercase = ((shownAt U text s).filter fun s => !s.inUrl).map Shown.tag := by
    obtain ⟨start, stop, p⟩ := s
    cases p with
    | mention t => exact congrArg (List.map _) (bskyMention_tags t 0)
    | plain text | hashtag tag => rfl
    | url url =>
      have hnone : ((hashtagsBetween U text start stop).map fun tag => Shown.mk tag true).filter
          (fun s => !s.inUrl) = [] := by
        refine List.filter_eq_nil_iff.mpr fun s hs => ?_
        obtain ⟨tag, -, rfl⟩ := List.mem_map.mp hs
        nofun
      exact (congrArg (List.map _) hnone).symm
  rw [deliveredHashtags, convertMentionsForBsky, bskyLoop_eq, writeFrom_found hwrite, shown, pieces]
  refine congrArg (List.foldl pushNew []) ?_
  rw [List.filter_flatMap, List.map_flatMap]
  refine (List.map_flatMap ..).trans ?_
  exact List.flatMap_congr fun s _ => hspan s

/-- The tags that are delivered are those that are stored if and only if the hashtags in
URLs settle. -/
theorem hashtags_agree_iff (U : Unicode) (R : Resolvers) (localDomain text : Text)
    (hU : U.isAlphanumeric '#' = false) :
    deliveredHashtags U R localDomain text = extractHashtags U text ↔
      settles [] [] (shown U text) = true := by
  rw [extractHashtags_eq hU, delivered_eq, eq_comm]
  exact foldl_pushNew_iff (shown U text) [] []

end

theorem hashtags_agree_iff_plain :
    deliveredHashtags ascii ⟨[], fun _ _ => none, fun _ _ => none, fun _ => false, fun _ => none,
        fun _ _ => none⟩ [] "#top".toList = extractHashtags ascii "#top".toList ↔
      settles [] [] (shown ascii "#top".toList) = true :=
  hashtags_agree_iff ascii _ [] "#top".toList (by decide)

/-- The fragment of a URL behind `?`. -/
def urlWithHash : Text := "https://a.b/?#top".toList

theorem shown_urlWithHash : shown ascii urlWithHash = [⟨"top".toList, true⟩] := by
  rw [shown, pieces, piecesFrom_url (by decide) (show _ = some 17 by decide),
    piecesFrom_end (by decide)]
  decide

/-- It is stored as a hashtag, and is not delivered as one. -/
theorem hashtags_agree_counterexample :
    (∀ R localDomain, deliveredHashtags ascii R localDomain urlWithHash = []) ∧
    extractHashtags ascii urlWithHash = ["top".toList] := by
  constructor
  · intro R localDomain
    rw [delivered_eq, shown_urlWithHash]
    decide
  · rw [extractHashtags_eq (by decide), shown_urlWithHash]
    decide

end Seiran.Mention
