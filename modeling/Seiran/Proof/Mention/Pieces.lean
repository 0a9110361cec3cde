import Seiran.Model.Mention.Pieces

/-!
# The three scanners of a post's text

* `bskyLoop_eq`, `apLoop_eq`, `scanLoop_eq`: each loop goes through the pieces of the text.
* `piecesFrom_source`: the pieces are the text.
* `piecesFrom_agree`: the pieces are the same, but for `@user@`.
-/

namespace Seiran.Mention

section

variable {U : Unicode} {R : Resolvers} {localDomain : Text} {bare : Text → Piece}

/-! ## The piece at a position -/

section PieceAt

variable {chars : Text} {i : Nat} (hi : i < chars.length)

include hi

theorem piecesFrom_cons :
    piecesFrom U bare chars i =
      ⟨i, (pieceAt U bare chars i hi).2, (pieceAt U bare chars i hi).1⟩ ::
        piecesFrom U bare chars (pieceAt U bare chars i hi).2 := by rw [piecesFrom, dif_pos hi]

theorem piecesFrom_of_piece {p : Piece} {stop : Nat}
    (h : pieceAt U bare chars i hi = (p, stop)) :
    piecesFrom U bare chars i = ⟨i, stop, p⟩ :: piecesFrom U bare chars stop := by
  rw [piecesFrom_cons hi, h]

theorem piecesFrom_url {stop : Nat} (hurl : U.urlAt chars i = some stop) :
    piecesFrom U bare chars i =
      ⟨i, stop, .url (slice chars i stop)⟩ :: piecesFrom U bare chars stop :=
  piecesFrom_of_piece hi (by rw [pieceAt, hurl])

variable (hurl : U.urlAt chars i = none)

include hurl

theorem piecesFrom_hashtag {tag : Text} {stop : Nat}
    (htag : U.hashtagAt chars i = some (tag, stop)) :
    piecesFrom U bare chars i = ⟨i, stop, .hashtag tag⟩ :: piecesFrom U bare chars stop :=
  piecesFrom_of_piece hi (by rw [pieceAt, hurl, htag])

variable (htag : U.hashtagAt chars i = none)

include htag

theorem piecesFrom_char (hat : chars[i] ≠ '@') :
    piecesFrom U bare chars i =
      ⟨i, i + 1, .plain [chars[i]]⟩ :: piecesFrom U bare chars (i + 1) :=
  piecesFrom_of_piece hi (by rw [pieceAt, hurl, htag]; exact if_pos hat)

variable (hat : ¬ chars[i] ≠ '@')

include hat

theorem piecesFrom_at (h : Unicode.wordBefore [] chars i = true ∨
    U.usernameEnd chars (i + 1) = i + 1) :
    piecesFrom U bare chars i = ⟨i, i + 1, .plain ['@']⟩ :: piecesFrom U bare chars (i + 1) := by
  refine piecesFrom_of_piece hi ?_
  rw [pieceAt, hurl, htag]
  simp only
  rw [if_neg hat]
  by_cases hword : Unicode.wordBefore [] chars i = true
  · exact if_pos hword
  · rw [if_neg hword, if_pos (h.resolve_left hword)]

variable (hword : ¬ Unicode.wordBefore [] chars i = true)
  (hname : ¬ U.usernameEnd chars (i + 1) = i + 1)

include hword hname

theorem piecesFrom_domain {stop : Nat}
    (hdomain : U.domainEnd chars (U.usernameEnd chars (i + 1)) = some stop) :
    piecesFrom U bare chars i =
      ⟨i, stop, mentionPiece bare ⟨slice chars (i + 1) (U.usernameEnd chars (i + 1)),
        some (slice chars (U.usernameEnd chars (i + 1) + 1) stop)⟩⟩ ::
          piecesFrom U bare chars stop := by
  refine piecesFrom_of_piece hi ?_
  rw [pieceAt, hurl, htag]
  simp only
  rw [if_neg hat, if_neg hword, if_neg hname, hdomain]

theorem piecesFrom_username
    (hdomain : U.domainEnd chars (U.usernameEnd chars (i + 1)) = none) :
    piecesFrom U bare chars i =
      ⟨i, U.usernameEnd chars (i + 1),
        .mention ⟨slice chars (i + 1) (U.usernameEnd chars (i + 1)), none⟩⟩ ::
          piecesFrom U bare chars (U.usernameEnd chars (i + 1)) := by
  refine piecesFrom_of_piece hi ?_
  rw [pieceAt, hurl, htag]
  simp only
  rw [if_neg hat, if_neg hword, if_neg hname, hdomain]
  rfl

end PieceAt

theorem piecesFrom_end {chars : Text} {i : Nat} (hi : ¬ i < chars.length) :
    piecesFrom U bare chars i = [] := by rw [piecesFrom, dif_neg hi]

/-! ## The loops -/

theorem bskyPiece_copied (t : MentionToken) (byteStart : Nat) :
    bskyPiece R localDomain (mentionPiece copied t) byteStart =
      bskyMention R localDomain t byteStart := by
  obtain ⟨username, domain⟩ := t
  match domain with
  | none => rfl
  | some [] => rfl
  | some (c :: domain) => rfl

theorem apPiece_copied (t : MentionToken) (byteStart : Nat) :
    apPiece R localDomain U (mentionPiece copied t) byteStart =
      apMention R localDomain t byteStart := by
  obtain ⟨username, domain⟩ := t
  match domain with
  | none => rfl
  | some [] => rfl
  | some (c :: domain) => rfl

theorem mentionPiece_tokened (t : MentionToken) : mentionPiece tokened t = .mention t := by
  obtain ⟨username, domain⟩ := t
  match domain with
  | none => rfl
  | some [] => rfl
  | some (c :: domain) => rfl

theorem writeFrom_cons {α : Type} (write : Piece → Nat → Text × List α) (result : Text)
    (found : List α) (s : Span) (spans : List Span) :
    writeFrom write (result, found) (s :: spans) =
      writeFrom write (result ++ (write s.piece (utf8Len result)).1,
        found ++ (write s.piece (utf8Len result)).2) spans := rfl

/-- A piece with no mark -/
theorem writeFrom_cons_unmarked {α : Type} {write : Piece → Nat → Text × List α} {result : Text}
    {s : Span} (h : (write s.piece (utf8Len result)).2 = []) (found : List α)
    (spans : List Span) :
    writeFrom write (result, found) (s :: spans) =
      writeFrom write (result ++ (write s.piece (utf8Len result)).1, found) spans := by
  rw [writeFrom_cons, h, List.append_nil]

theorem bskyLoop_eq (chars : Text) (i : Nat) (result : Text) (facets : List Facet) :
    bskyLoop U R localDomain chars i result facets =
      writeFrom (bskyPiece R localDomain) (result, facets) (piecesFrom U copied chars i) := by
  fun_induction bskyLoop U R localDomain chars i result facets with
  | case1 i result facets hi stop hurl m ih =>
    rw [ih, piecesFrom_url hi hurl, writeFrom_cons]
    rfl
  | case2 i result facets hi hurl tag stop htag m ih =>
    rw [ih, piecesFrom_hashtag hi hurl htag, writeFrom_cons]
    rfl
  | case3 i result facets hi hurl htag hat ih =>
    rw [ih, piecesFrom_char hi hurl htag hat, writeFrom_cons_unmarked rfl]
    rfl
  | case4 i result facets hi hurl htag hat hword ih =>
    rw [ih, piecesFrom_at hi hurl htag hat (.inl hword), writeFrom_cons_unmarked rfl]
    rfl
  | case5 i result facets hi hurl htag hat hword hname ih =>
    rw [ih, piecesFrom_at hi hurl htag hat (.inr hname), writeFrom_cons_unmarked rfl]
    rfl
  | case6 i result facets hi hurl htag hat hword hname stop hdomain m ih =>
    rw [ih, piecesFrom_domain hi hurl htag hat hword hname hdomain, writeFrom_cons,
      bskyPiece_copied]
  | case7 i result facets hi hurl htag hat hword hname hdomain m ih =>
    rw [ih, piecesFrom_username hi hurl htag hat hword hname hdomain, writeFrom_cons]
    rfl
  | case8 i result facets hi =>
    rw [piecesFrom_end hi]
    rfl

theorem apLoop_eq (chars : Text) (i : Nat) (result : Text) (mentions : List ApInlineMention) :
    apLoop U R localDomain chars i result mentions =
      writeFrom (apPiece R localDomain U) (result, mentions) (piecesFrom U copied chars i) := by
  fun_induction apLoop U R localDomain chars i result mentions with
  | case1 i result mentions hi stop hurl m ih =>
    rw [ih, piecesFrom_url hi hurl, writeFrom_cons]
    rfl
  | case2 i result mentions hi hurl tag stop htag m ih =>
    rw [ih, piecesFrom_hashtag hi hurl htag, writeFrom_cons]
    rfl
  | case3 i result mentions hi hurl htag hat ih =>
    rw [ih, piecesFrom_char hi hurl htag hat, writeFrom_cons_unmarked rfl]
    rfl
  | case4 i result mentions hi hurl htag hat hword ih =>
    rw [ih, piecesFrom_at hi hurl htag hat (.inl hword), writeFrom_cons_unmarked rfl]
    rfl
  | case5 i result mentions hi hurl htag hat hword hname ih =>
    rw [ih, piecesFrom_at hi hurl htag hat (.inr hname), writeFrom_cons_unmarked rfl]
    rfl
  | case6 i result mentions hi hurl htag hat hword hname stop hdomain m ih =>
    rw [ih, piecesFrom_domain hi hurl htag hat hword hname hdomain, writeFrom_cons,
      apPiece_copied]
  | case7 i result mentions hi hurl htag hat hword hname hdomain m ih =>
    rw [ih, piecesFrom_username hi hurl htag hat hword hname hdomain, writeFrom_cons]
    rfl
  | case8 i result mentions hi =>
    rw [piecesFrom_end hi]
    rfl

theorem scanLoop_eq (chars : Text) (i : Nat) :
    scanLoop U chars i = (piecesFrom U tokened chars i).filterMap fun s => s.piece.token := by
  fun_induction scanLoop U chars i with
  | case1 i hi stop hurl ih => rw [ih, piecesFrom_url hi hurl]; rfl
  | case2 i hi hurl tag stop htag ih => rw [ih, piecesFrom_hashtag hi hurl htag]; rfl
  | case3 i hi hurl htag hat ih => rw [ih, piecesFrom_char hi hurl htag hat]; rfl
  | case4 i hi hurl htag hat hword ih =>
    rw [ih, piecesFrom_at hi hurl htag hat (.inl hword)]
    rfl
  | case5 i hi hurl htag hat hword hname ih =>
    rw [ih, piecesFrom_at hi hurl htag hat (.inr hname)]
    rfl
  | case6 i hi hurl htag hat hword hname stop hdomain ih =>
    rw [ih, piecesFrom_domain hi hurl htag hat hword hname hdomain, mentionPiece_tokened]
    rfl
  | case7 i hi hurl htag hat hword hname hdomain ih =>
    rw [ih, piecesFrom_username hi hurl htag hat hword hname hdomain]
    rfl
  | case8 i hi => rw [piecesFrom_end hi]; rfl

/-! ## The pieces are the text -/

section Slices

variable {chars : Text}

theorem slice_append {i j k : Nat} (hij : i ≤ j) (hjk : j ≤ k) :
    slice chars i j ++ slice chars j k = slice chars i k := by
  obtain ⟨m, rfl⟩ := Nat.exists_eq_add_of_le hij
  obtain ⟨n, rfl⟩ := Nat.exists_eq_add_of_le hjk
  rw [slice, slice, slice, List.drop_take, List.drop_take, List.drop_take,
    Nat.add_sub_cancel_left, Nat.add_sub_cancel_left, Nat.add_assoc, Nat.add_sub_cancel_left,
    List.take_add, List.drop_drop]

theorem slice_drop {i j : Nat} (hij : i ≤ j) : slice chars i j ++ chars.drop j = chars.drop i := by
  obtain ⟨m, rfl⟩ := Nat.exists_eq_add_of_le hij
  rw [slice, List.drop_take, Nat.add_sub_cancel_left, ← List.drop_drop, List.take_append_drop]

theorem slice_cons {i j : Nat} (hij : i < j) {c : Char} (h : chars[i]? = some c) :
    slice chars i j = c :: slice chars (i + 1) j := by
  obtain ⟨hi, rfl⟩ := List.getElem?_eq_some_iff.mp h
  rw [← slice_append (Nat.le_succ i) hij]
  have hslice : slice chars i (i + 1) = [chars[i]] := by
    rw [slice, List.drop_take, Nat.add_sub_cancel_left, List.drop_eq_getElem_cons hi]
    rfl
  rw [hslice]
  rfl

theorem slice_singleton {i : Nat} (hi : i < chars.length) : slice chars i (i + 1) = [chars[i]] := by
  rw [slice_cons (Nat.lt_succ_self i) (List.getElem?_eq_getElem hi), slice, List.drop_take,
    Nat.sub_self, List.take_zero]

end Slices

/-- What a hashtag is. -/
theorem hashtagAt_eq_some {chars tag : Text} {i stop : Nat} :
    U.hashtagAt chars i = some (tag, stop) ↔
      chars[i]? = some '#' ∧ Unicode.wordBefore ['/'] chars i = false ∧
        stop = spanEnd (fun c => U.isAlphanumeric c || c == '_') chars (i + 1) ∧ stop ≠ i + 1 ∧
          tag = slice chars (i + 1) stop ∧ tag.any U.isAlphabetic = true := by
  rw [Unicode.hashtagAt, Option.ite_none_right_eq_some, Unicode.scanHashtag,
    Option.ite_none_left_eq_some, Bool.not_eq_true, Option.ite_none_left_eq_some,
    Option.ite_none_right_eq_some, Option.some.injEq, Prod.mk.injEq]
  constructor
  · rintro ⟨hhash, hword, hne, hany, rfl, rfl⟩
    exact ⟨hhash, hword, rfl, hne, rfl, hany⟩
  · rintro ⟨hhash, hword, rfl, hne, rfl, hany⟩
    exact ⟨hhash, hword, hne, hany, rfl, rfl⟩

theorem domainEnd_eq_some {chars : Text} {i stop : Nat} :
    U.domainEnd chars i = some stop ↔ chars[i]? = some '@' ∧
      stop = spanEnd (fun c => U.isAlphanumeric c || c == '.' || c == '-') chars (i + 1) := by
  rw [Unicode.domainEnd, Option.ite_none_right_eq_some, Option.some.injEq, @eq_comm _ stop]

theorem mentionPiece_source (hbare : ∀ username, (bare username).source = '@' :: username ++ ['@'])
    (t : MentionToken) : (mentionPiece bare t).source = (Piece.mention t).source := by
  obtain ⟨username, domain⟩ := t
  match domain with
  | none => rfl
  | some [] => exact hbare username
  | some (c :: domain) => rfl

/-- A piece is what is there. -/
theorem pieceAt_source (hbare : ∀ username, (bare username).source = '@' :: username ++ ['@'])
    (chars : Text) (i : Nat) (hi : i < chars.length) :
    (pieceAt U bare chars i hi).1.source = slice chars i (pieceAt U bare chars i hi).2 := by
  have hname : i + 1 ≤ U.usernameEnd chars (i + 1) := Unicode.le_spanEnd _ _ _
  have hchar (h : ¬ chars[i] ≠ '@') : chars[i]? = some '@' := by
    rw [List.getElem?_eq_getElem hi, not_not.mp h]
  rw [pieceAt]
  split
  · rfl
  · split
    · rename_i tag stop htag
      obtain ⟨hhash, -, -, -, rfl, -⟩ := hashtagAt_eq_some.mp htag
      exact (slice_cons (U.lt_of_hashtagAt htag) hhash).symm
    · split
      · exact (slice_singleton hi).symm
      · rename_i hat
        have hat' : slice chars i (i + 1) = ['@'] := by
          rw [slice_singleton hi, not_not.mp hat]
        split
        · exact hat'.symm
        · split
          · exact hat'.symm
          · split
            · rename_i stop hdomain
              obtain ⟨hat₂, -⟩ := domainEnd_eq_some.mp hdomain
              have hlt := U.lt_of_domainEnd hdomain
              rw [mentionPiece_source hbare, slice_cons (by omega) (hchar hat),
                ← slice_append hname (Nat.le_of_lt hlt), slice_cons hlt hat₂]
              rfl
            · rw [mentionPiece_source hbare, slice_cons hname (hchar hat)]
              exact List.append_nil _

/-- The pieces are the text, and each is where its span says. -/
theorem piecesFrom_source (hbare : ∀ username, (bare username).source = '@' :: username ++ ['@'])
    (chars : Text) (i : Nat) :
    (piecesFrom U bare chars i).flatMap (fun s => s.piece.source) = chars.drop i ∧
    ∀ s ∈ piecesFrom U bare chars i, i ≤ s.start ∧ s.start < chars.length ∧ s.start < s.stop ∧
      s.piece.source = slice chars s.start s.stop := by
  fun_induction piecesFrom U bare chars i with
  | case1 i hi hlt ih =>
    obtain ⟨hdrop, hspans⟩ := ih
    have hsource := @pieceAt_source U bare hbare chars i hi
    refine ⟨?_, fun s hs => ?_⟩
    · rw [List.flatMap_cons, hdrop, hsource]
      exact slice_drop (Nat.le_of_lt hlt)
    · obtain rfl | hs := List.mem_cons.mp hs
      · exact ⟨Nat.le_refl i, hi, hlt, hsource⟩
      · obtain ⟨hle, hs⟩ := hspans s hs
        exact ⟨Nat.le_trans (Nat.le_of_lt hlt) hle, hs⟩
  | case2 i hi => exact ⟨(List.drop_of_length_le (Nat.not_lt.mp hi)).symm, nofun⟩

theorem piece_ne_nil (hbare : ∀ username, (bare username).source = '@' :: username ++ ['@'])
    {chars : Text} {s : Span} (hs : s ∈ pieces U bare chars) : s.piece.source ≠ [] := by
  obtain ⟨-, hstart, hlt, hsource⟩ := (piecesFrom_source hbare chars 0).2 s hs
  rw [hsource, slice_cons hlt (List.getElem?_eq_getElem hstart)]
  exact List.cons_ne_nil _ _

/-! ## The scanners agree -/

/-- The two spans are one and have the same piece, but for `@user@`. -/
structure SameButBare (s s' : Span) : Prop where
  start : s.start = s'.start
  stop : s.stop = s'.stop
  piece : s.piece = s'.piece ∧ (∀ t, s'.piece.token = some t → t.domain ≠ some []) ∨
    ∃ username, s.piece = copied username ∧ s'.piece = tokened username

theorem sameButBare_refl {p : Piece} (start stop : Nat) (h : p.token = none) :
    SameButBare ⟨start, stop, p⟩ ⟨start, stop, p⟩ :=
  ⟨rfl, rfl, .inl ⟨rfl, fun _ ht => absurd (h.symm.trans ht) nofun⟩⟩

theorem sameButBare_mentionPiece (t : MentionToken) (start stop : Nat) :
    SameButBare ⟨start, stop, mentionPiece copied t⟩ ⟨start, stop, mentionPiece tokened t⟩ := by
  obtain ⟨username, domain⟩ := t
  refine ⟨rfl, rfl, ?_⟩
  match domain with
  | none => exact .inl ⟨rfl, fun t ht => Option.some.inj ht ▸ nofun⟩
  | some [] => exact .inr ⟨username, rfl, rfl⟩
  | some (c :: domain) => exact .inl ⟨rfl, fun t ht => Option.some.inj ht ▸ nofun⟩

theorem pieceAt_agree (chars : Text) (i : Nat) (hi : i < chars.length) :
    SameButBare ⟨i, (pieceAt U copied chars i hi).2, (pieceAt U copied chars i hi).1⟩
      ⟨i, (pieceAt U tokened chars i hi).2, (pieceAt U tokened chars i hi).1⟩ := by
  rw [pieceAt, pieceAt]
  split
  · exact sameButBare_refl _ _ rfl
  · split
    · exact sameButBare_refl _ _ rfl
    · split
      · exact sameButBare_refl _ _ rfl
      · split
        · exact sameButBare_refl _ _ rfl
        · split
          · exact sameButBare_refl _ _ rfl
          · split
            · exact sameButBare_mentionPiece _ _ _
            · exact sameButBare_mentionPiece
                ⟨slice chars (i + 1) (U.usernameEnd chars (i + 1)), none⟩ i _

theorem piecesFrom_agree (chars : Text) (i : Nat) :
    List.Forall₂ SameButBare (piecesFrom U copied chars i) (piecesFrom U tokened chars i) := by
  fun_induction piecesFrom U copied chars i with
  | case1 i hi hlt ih =>
    have hagree := @pieceAt_agree U chars i hi
    have hstop : (pieceAt U copied chars i hi).2 = (pieceAt U tokened chars i hi).2 := hagree.stop
    rw [piecesFrom_cons hi]
    refine .cons hagree ?_
    rw [← hstop]
    exact ih
  | case2 i hi =>
    rw [piecesFrom_end hi]
    exact .nil

theorem mentionsIn_agree (text : Text) {spans spans' : List Span}
    (h : List.Forall₂ SameButBare spans spans') :
    mentionsIn text spans =
      (mentionsIn text spans').filter fun m => m.token.domain ≠ some [] := by
  induction h with
  | nil => rfl
  | @cons s s' spans spans' hs _ ih =>
    obtain ⟨start, stop, p⟩ := s
    obtain ⟨start', stop', p'⟩ := s'
    obtain ⟨rfl : start = start', rfl : stop = stop', hpiece⟩ := hs
    obtain ⟨rfl : p = p', hdomain⟩ | ⟨username, rfl : p = _, rfl : p' = _⟩ := hpiece
    · cases htoken : p.token with
      | none =>
        have hnone : mentionAt text ⟨start, stop, p⟩ = none := congrArg (Option.map _) htoken
        rw [mentionsIn, List.filterMap_cons_none hnone, mentionsIn, List.filterMap_cons_none hnone]
        exact ih
      | some t =>
        have hsome : mentionAt text ⟨start, stop, p⟩ =
          some ⟨utf8Len (text.take start), utf8Len (text.take stop), t⟩ :=
            congrArg (Option.map _) htoken
        rw [mentionsIn, List.filterMap_cons_some hsome, mentionsIn,
          List.filterMap_cons_some hsome, List.filter_cons_of_pos]
        · exact congrArg _ ih
        · exact decide_eq_true (hdomain t htoken)
    · exact ih

/-- What is found in the pieces of one is what is found in the tokens of the other. -/
theorem flatMap_agree {β : Type} {f : Piece → List β} {g : MentionToken → List β}
    (hmention : ∀ t, f (.mention t) = g t) (hrest : ∀ p, p.token = none → f p = [])
    (hbare : ∀ username, g ⟨username, some []⟩ = []) {spans spans' : List Span}
    (h : List.Forall₂ SameButBare spans spans') :
    spans.flatMap (fun s => f s.piece) =
      (spans'.filterMap fun s => s.piece.token).flatMap g := by
  induction h with
  | nil => rfl
  | @cons s s' spans spans' hs _ ih =>
    rw [List.flatMap_cons, ih, List.filterMap_cons]
    obtain ⟨hpiece, -⟩ | ⟨username, hpiece, hpiece'⟩ := hs.piece
    · rw [← hpiece]
      cases hp : s.piece with
      | mention t => rw [hmention]; rfl
      | plain text | url text | hashtag tag => rw [hrest _ rfl]; rfl
    · rw [hpiece, hpiece', hrest _ rfl]
      exact (congrArg (· ++ _) (hbare username)).symm

theorem writeFrom_found {α β : Type} {write : Piece → Nat → Text × List α} {f : α → Option β}
    (hwrite : ∀ p n, (write p n).2.filterMap f = (write p 0).2.filterMap f) (result : Text)
    (found : List α) (spans : List Span) :
    (writeFrom write (result, found) spans).2.filterMap f =
      found.filterMap f ++ spans.flatMap fun s => (write s.piece 0).2.filterMap f := by
  induction spans generalizing result found with
  | nil => exact (List.append_nil _).symm
  | cons s spans ih =>
    rw [writeFrom_cons, ih, List.filterMap_append, hwrite, List.append_assoc, List.flatMap_cons]

variable (U R localDomain)

/-- The three scanners recognise the same mentions at the same bytes, and pass over the
same URLs and hashtags, but for `@user@`, which is a token without a domain for
`scan_mention_tokens` and is copied by the others. -/
theorem scanners_agree (text : Text) :
    (convertMentionsForBsky U R localDomain text =
        writeFrom (bskyPiece R localDomain) ([], []) (pieces U copied text) ∧
      convertMentionsForAp U R localDomain text =
        writeFrom (apPiece R localDomain U) ([], []) (pieces U copied text) ∧
      scanMentionTokens U text =
        (mentionsIn text (pieces U tokened text)).map MentionAt.token) ∧
    List.Forall₂ SameButBare (pieces U copied text) (pieces U tokened text) ∧
    mentionsIn text (pieces U copied text) =
      (mentionsIn text (pieces U tokened text)).filter (fun m => m.token.domain ≠ some []) ∧
    ∀ bare ∈ [copied, tokened],
      (pieces U bare text).flatMap (fun s => s.piece.source) = text ∧
      ∀ s ∈ pieces U bare text, s.start < s.stop ∧ s.piece.source = slice text s.start s.stop := by
  have hagree := @piecesFrom_agree U text 0
  refine ⟨⟨bskyLoop_eq text 0 [] [], apLoop_eq text 0 [] [], ?_⟩, hagree,
    mentionsIn_agree text hagree, fun bare hbare => ?_⟩
  · rw [scanMentionTokens, scanLoop_eq, mentionsIn, List.map_filterMap]
    refine List.filterMap_congr fun s _ => ?_
    rw [mentionAt, Option.map_map]
    exact Option.map_id'.symm
  · have hsource : ∀ username, (bare username).source = '@' :: username ++ ['@'] := by
      intro username
      obtain rfl | hbare := List.mem_cons.mp hbare
      · rfl
      · obtain rfl := List.mem_singleton.mp hbare
        rfl
    obtain ⟨htext, hspans⟩ := @piecesFrom_source U bare hsource text 0
    exact ⟨htext, fun s hs => (hspans s hs).2.2⟩

end

def ascii : Unicode := ⟨Char.isAlphanum, Char.isAlpha, Char.isWhitespace, toAsciiLowercase⟩

theorem pieces_bare (bare : Text → Piece) :
    pieces ascii bare "@a@".toList = [⟨0, 3, mentionPiece bare ⟨['a'], some []⟩⟩] := by
  rw [pieces, piecesFrom_domain (by decide) (by decide) (by decide) (by decide) (by decide)
    (by decide) (show _ = some 3 by decide), piecesFrom_end (by decide)]
  rfl

/-- `@a@` is a token of `scan_mention_tokens` and no mention of the others. -/
theorem scanners_agree_counterexample :
    scanMentionTokens ascii "@a@".toList = [⟨['a'], some []⟩] ∧
    (∀ R localDomain,
      convertMentionsForBsky ascii R localDomain "@a@".toList = ("@a@".toList, []) ∧
      convertMentionsForAp ascii R localDomain "@a@".toList = ("@a@".toList, [])) ∧
    mentionsIn "@a@".toList (pieces ascii tokened "@a@".toList) ≠
      mentionsIn "@a@".toList (pieces ascii copied "@a@".toList) := by
  refine ⟨?_, fun R localDomain => ⟨?_, ?_⟩, ?_⟩
  · rw [scanMentionTokens, scanLoop_eq]
    exact congrArg _ (pieces_bare tokened)
  · rw [convertMentionsForBsky, bskyLoop_eq]
    exact congrArg _ (pieces_bare copied)
  · rw [convertMentionsForAp, apLoop_eq]
    exact congrArg _ (pieces_bare copied)
  · rw [pieces_bare, pieces_bare]
    decide

end Seiran.Mention
