import Seiran.Framework.Except
import Seiran.Model.Inbox.Handler

/-!
# What an accepted request is bound to

The three readers of the `Signature` header see the same list of parameters
(`paramValues`), but `inbox.rs` takes the first one of a name and
`verifySignature` the last.

* `findParam_eq`, `parseSignatureHeader_eq`: which of the parameters each reader
  takes;
* `digestLine_mem_iff`: the signing string has the digest's line exactly when
  the list it is built from names the header;
* `inboxHandler_cases`: what an accepted request has passed.
-/

namespace Seiran.Inbox

/-! ## The parameters of a header -/

/-- The values of the parameters of this name, in the order they stand in. -/
def paramValues (name signatureHeader : Str) : List Str :=
  (signatureHeader.splitOn ',').filterMap (valueOf name)

/-- The list of header names has `digest` in it. -/
def namesDigest (headerList : Str) : Bool :=
  (headerList.splitOn ' ').any (eqIgnoreAsciiCase · "digest".toList)

theorem findParam_eq (name signatureHeader : Str) :
    findParam name signatureHeader = (paramValues name signatureHeader).head? := by
  rw [paramValues, List.head?_filterMap]
  rfl

theorem insertPart_eq (map : StrMap) (part name : Str) :
    insertPart map part name = (valueOf name part).or (map name) := by
  unfold insertPart valueOf
  cases keyValue part with
  | none => rfl
  | some kv =>
    by_cases h : kv.1 = name
    · simp [StrMap.insert, h]
    · simp [StrMap.insert, h, Ne.symm h]

theorem foldl_insertPart (name : Str) (parts : List Str) (map : StrMap) :
    parts.foldl insertPart map name =
      ((parts.filterMap (valueOf name)).getLast?).or (map name) := by
  induction parts generalizing map with
  | nil => rfl
  | cons part parts ih =>
    rw [List.foldl_cons, ih, insertPart_eq, List.filterMap_cons]
    cases valueOf name part with
    | none => rfl
    | some val => cases h : (parts.filterMap (valueOf name)).getLast? <;> simp [List.getLast?_cons, h]

theorem parseSignatureHeader_eq (name signatureHeader : Str) :
    parseSignatureHeader signatureHeader name = (paramValues name signatureHeader).getLast? := by
  rw [parseSignatureHeader, foldl_insertPart, Option.or_none]
  rfl

theorem signatureCoversDigest_eq (signatureHeader : Str) :
    signatureCoversDigest signatureHeader =
      (paramValues "headers".toList signatureHeader).head?.any namesDigest := by
  rw [signatureCoversDigest, findParam_eq]
  cases (paramValues "headers".toList signatureHeader).head? <;> rfl

/-! ## The header map -/

/-- Neither can a header's name be split at a colon, nor its value at a line
break. -/
def WellFormed (headers : StrMap) : Prop :=
  ∀ k v, headers k = some v → ':' ∉ k ∧ '\n' ∉ k ∧ '\n' ∉ v

theorem eq_of_toLower_eq {c d : Char} (hd : d.toNat < 65) (h : c.toLower = d) : c = d := by
  subst h
  delta Char.toLower at *
  split
  · rename_i hc
    simp only [hc, and_self, ↓reduceDIte] at hd
    have hge : 65 ≤ c.val.toNat := hc.1
    have hle : c.val.toNat ≤ 90 := hc.2
    have hlt : (c.val.toNat + 32) % 2 ^ 32 < 65 := hd
    omega
  · rfl

theorem ofNat_ne_newline : ∀ n < 127, n = 9 ∨ 32 ≤ n → Char.ofNat n ≠ '\n' := by decide

theorem newline_notMem_of_toStr {v : Bytes} {val : Str} (h : toStr v = some val) : '\n' ∉ val := by
  unfold toStr at h
  split at h
  · rename_i hall
    cases h
    intro hmem
    obtain ⟨b, hb, heq⟩ := List.mem_map.mp hmem
    have hb := List.all_eq_true.mp hall b hb
    have h127 : b.toNat < 127 ∧ (b.toNat = 9 ∨ 32 ≤ b.toNat) := by
      simp only [decide_eq_true_eq] at hb
      rcases hb with rfl | ⟨hge, hlt⟩
      · decide
      · exact ⟨hlt, .inr hge⟩
    exact ofNat_ne_newline b.toNat h127.1 h127.2 heq
  · cases h

theorem notMem_toLowercase {s : Str} {c : Char} (hc : c.toNat < 65) (h : c ∉ s) :
    c ∉ toLowercase s := by
  intro hmem
  obtain ⟨x, hx, heq⟩ := List.mem_map.mp hmem
  exact h (eq_of_toLower_eq hc heq ▸ hx)

theorem headerMap_wellFormed (headers : List (HeaderName × Bytes)) :
    WellFormed (headerMap headers) := by
  have hpairs : ∀ h ∈ headers.filterMap fun h => (toStr h.2).map fun val => (toLowercase h.1.1, val),
      ':' ∉ h.1 ∧ '\n' ∉ h.1 ∧ '\n' ∉ h.2 := by
    intro p hp
    obtain ⟨h, -, heq⟩ := List.mem_filterMap.mp hp
    obtain ⟨val, hval, rfl⟩ := Option.map_eq_some_iff.mp heq
    refine ⟨notMem_toLowercase (by decide) fun hm => absurd (List.all_eq_true.mp h.1.2 _ hm) (by decide),
      notMem_toLowercase (by decide) fun hm => absurd (List.all_eq_true.mp h.1.2 _ hm) (by decide),
      newline_notMem_of_toStr hval⟩
  have hfold : ∀ pairs : List (Str × Str), (∀ h ∈ pairs, ':' ∉ h.1 ∧ '\n' ∉ h.1 ∧ '\n' ∉ h.2) →
      ∀ m, WellFormed m → WellFormed (pairs.foldl (fun m h => m.insert h.1 h.2) m) := by
    intro pairs
    induction pairs with
    | nil => exact fun _ m hm => hm
    | cons p pairs ih =>
      intro hp m hm
      refine ih (fun h hh => hp h (by simp [hh])) _ fun k v hkv => ?_
      simp only [StrMap.insert] at hkv
      split at hkv
      · rename_i hk
        cases hkv
        exact hk ▸ hp p (by simp)
      · exact hm k v hkv
  exact hfold _ hpairs _ fun k v h => by cases h
/-! ## The signing string -/

/-- The line of the signing string that names the digest of the body. -/
def digestLine (E : Env) (body : Bytes) : Str :=
  "digest".toList ++ ": ".toList ++ computedDigest E body

theorem signingLine_cases {method path name line : Str} {headers : StrMap}
    (h : signingLine method path headers name = .ok line) :
    (toLowercase name = "(request-target)".toList ∧
      line = "(request-target): ".toList ++ toLowercase method ++ ' ' :: path) ∨
    ∃ val, headers (toLowercase name) = some val ∧
      line = toLowercase name ++ ": ".toList ++ val := by
  simp only [signingLine] at h
  split at h
  · rename_i hname
    cases h
    exact .inl ⟨hname, rfl⟩
  · cases hval : headers (toLowercase name) with
    | none => simp [hval] at h
    | some val =>
      simp only [hval, Except.ok.injEq] at h
      exact .inr ⟨val, rfl, h.symm⟩

theorem newline_notMem_signingLine {method path name line : Str} {headers : StrMap}
    (hw : WellFormed headers) (hm : '\n' ∉ toLowercase method) (hp : '\n' ∉ path)
    (h : signingLine method path headers name = .ok line) : '\n' ∉ line := by
  rcases signingLine_cases h with ⟨-, rfl⟩ | ⟨val, hval, rfl⟩
  · simp [hm, hp]
  · obtain ⟨-, hk, hv⟩ := hw _ _ hval
    simp [hk, hv]

theorem takeWhile_colon {k rest : Str} (h : ':' ∉ k) :
    (k ++ ": ".toList ++ rest).takeWhile (· ≠ ':') = k := by
  have hk : ∀ c ∈ k, decide (c ≠ ':') = true := fun c hc =>
    decide_eq_true fun heq => h (heq ▸ hc)
  rw [List.append_assoc, List.takeWhile_append_of_pos hk]
  simp

/-- A line that reads like the digest's line is the line of that header. -/
theorem signingLine_digest {method path name d : Str} {headers : StrMap}
    (hw : WellFormed headers)
    (h : signingLine method path headers name = .ok ("digest".toList ++ ": ".toList ++ d)) :
    toLowercase name = "digest".toList := by
  rcases signingLine_cases h with ⟨-, hline⟩ | ⟨val, hval, hline⟩
  · simp at hline
  · have hname := congrArg (List.takeWhile (· ≠ ':')) hline
    rw [takeWhile_colon (by decide), takeWhile_colon (hw _ _ hval).1] at hname
    exact hname.symm

/-- The signing string has the digest's line exactly when the list it is built
from names the header. -/
theorem digestLine_mem_iff {E : Env} {method path list s : Str} {headers : StrMap} {body : Bytes}
    (hw : WellFormed headers) (hm : '\n' ∉ toLowercase method) (hp : '\n' ∉ path)
    (hd : headers "digest".toList = some (computedDigest E body))
    (hs : buildSigningString method path headers list = .ok s) :
    digestLine E body ∈ s.splitOn '\n' ↔ namesDigest list = true := by
  obtain ⟨lines, hlines, heq⟩ := bind_eq_ok.mp hs
  cases heq
  have hnl : ∀ line ∈ lines, '\n' ∉ line := fun line hline => by
    obtain ⟨name, -, hname⟩ := mapM_ok_mem_right hlines hline
    exact newline_notMem_signingLine hw hm hp hname
  have hne : lines ≠ [] := by
    rintro rfl
    obtain ⟨name, hname⟩ := List.exists_mem_of_ne_nil _ (List.splitOn_ne_nil ' ' list)
    obtain ⟨line, hline, -⟩ := mapM_ok_mem hlines hname
    cases hline
  have hdigest : toLowercase "digest".toList = "digest".toList := by decide
  rw [List.splitOn_intercalate _ hnl hne]
  simp only [namesDigest, List.any_eq_true, eqIgnoreAsciiCase, hdigest, decide_eq_true_eq]
  constructor
  · intro hmem
    obtain ⟨name, hname, hline⟩ := mapM_ok_mem_right hlines hmem
    exact ⟨name, hname, signingLine_digest hw hline⟩
  · rintro ⟨name, hname, hlower⟩
    obtain ⟨line, hline, hok⟩ := mapM_ok_mem hlines hname
    rcases signingLine_cases hok with ⟨hreq, -⟩ | ⟨val, hval, rfl⟩
    · rw [hlower] at hreq
      exact absurd hreq (by decide)
    · rw [hlower, hd] at hval
      cases hval
      rwa [hlower] at hline

/-! ## An accepted request -/

/-- `verify_signature` has verified the string `s` with the key of `keyId`. -/
structure Verified (K : Keys) (headers : StrMap) (signature keyId s : Str) : Prop where
  key : parseSignatureHeader signature "keyId".toList = some keyId
  string : buildSigningString "POST".toList "/inbox".toList headers
    ((parseSignatureHeader signature "headers".toList).getD "date".toList) = .ok s
  pem : ∃ pem bytes, (getPublicKeyPem K keyId = .ok pem ∨ fetchAndCachePublicKeyPem K keyId = .ok pem) ∧
    K.verifyWithPem pem s bytes = .ok ()

theorem required_ok {parsed : StrMap} {name val : Str} (h : required parsed name = .ok val) :
    parsed name = some val := by
  unfold required at h
  split at h
  · rename_i hval
    cases h
    exact hval
  · cases h

theorem verifyOrRefetch_ok {K : Keys} {keyId pem s : Str} {bytes : Bytes}
    (hpem : getPublicKeyPem K keyId = .ok pem)
    (h : verifyOrRefetch K keyId pem s bytes = .ok true) :
    ∃ pem, (getPublicKeyPem K keyId = .ok pem ∨ fetchAndCachePublicKeyPem K keyId = .ok pem) ∧
      K.verifyWithPem pem s bytes = .ok () := by
  unfold verifyOrRefetch at h
  split at h
  · rename_i hv
    exact ⟨pem, .inl hpem, hv⟩
  · obtain ⟨freshPem, hfresh, h⟩ := bind_eq_ok.mp h
    split at h
    · cases h
    · split at h
      · rename_i hv
        exact ⟨freshPem, .inr hfresh, hv⟩
      · cases h

theorem verifySignature_ok {K : Keys} {headers : StrMap} {signature : Str}
    (h : verifySignature K "POST".toList "/inbox".toList headers signature = .ok true) :
    ∃ keyId s, Verified K headers signature keyId s := by
  obtain ⟨keyId, hkey, h⟩ := bind_eq_ok.mp h
  obtain ⟨signatureB64, -, h⟩ := bind_eq_ok.mp h
  obtain ⟨s, hs, h⟩ := bind_eq_ok.mp h
  obtain ⟨bytes, -, h⟩ := bind_eq_ok.mp h
  obtain ⟨pem, hpem, h⟩ := bind_eq_ok.mp h
  obtain ⟨pem', hpem', hv⟩ := verifyOrRefetch_ok hpem h
  exact ⟨keyId, s, required_ok hkey, hs, pem', bytes, hpem', hv⟩

/-- What the checks of an accepted request have found. -/
theorem inboxHandler_cases {E : Env} {headers : List (HeaderName × Bytes)} {body : Bytes}
    {a : Accepted} (h : inboxHandler E headers body = .ok a) :
    ∃ signature, headerMap headers "signature".toList = some signature ∧
      headerMap headers "digest".toList = some (computedDigest E body) ∧
      signatureCoversDigest signature = true ∧ extractKeyId signature = some a.keyId ∧
      a.rawActivity = body ∧
      ∃ keyId s, Verified E.keys (headerMap headers) signature keyId s := by
  obtain ⟨_, hdigest, h⟩ := bind_eq_ok.mp h
  obtain ⟨signature, hsig, h⟩ := bind_eq_ok.mp h
  obtain ⟨_, hcovers, h⟩ := bind_eq_ok.mp h
  obtain ⟨keyId, hkey, h⟩ := bind_eq_ok.mp h
  obtain ⟨_, hverify, h⟩ := bind_eq_ok.mp h
  obtain ⟨activity, -, h⟩ := bind_eq_ok.mp h
  obtain ⟨-, -, h⟩ := bind_eq_ok.mp h
  obtain ⟨-, -, h⟩ := bind_eq_ok.mp h
  cases h
  refine ⟨signature, ?_, ?_, ?_, ?_, rfl, ?_⟩
  · unfold getSignature at hsig
    split at hsig <;> cases hsig
    assumption
  · unfold checkDigest at hdigest
    split at hdigest
    · rename_i hmap
      split at hdigest
      · rename_i heq
        rw [hmap, heq]
      · cases hdigest
    · cases hdigest
  · unfold checkCoversDigest at hcovers
    split at hcovers
    · assumption
    · cases hcovers
  · unfold getKeyId at hkey
    split at hkey <;> cases hkey
    assumption
  · unfold checkSignature at hverify
    split at hverify
    · rename_i hv
      exact verifySignature_ok hv
    · cases hverify
    · cases hverify

/-- The key that verified the signature is the one the signer is taken from,
and the digest of the body is among what was signed. -/
def Bound (E : Env) (headers : List (HeaderName × Bytes)) (a : Accepted) : Prop :=
  ∃ signature s, headerMap headers "signature".toList = some signature ∧
    Verified E.keys (headerMap headers) signature a.keyId s ∧
    digestLine E a.rawActivity ∈ s.splitOn '\n'

/-- The last `keyId` of the `Signature` header is also its first, and its last
`headers` names the digest. -/
def ParamsAgree (headers : List (HeaderName × Bytes)) : Prop :=
  ∃ signature, headerMap headers "signature".toList = some signature ∧
    (paramValues "keyId".toList signature).head? = (paramValues "keyId".toList signature).getLast? ∧
    (paramValues "headers".toList signature).getLast?.any namesDigest = true

/-- An accepted request is bound to its key and its body exactly when the two
ways of reading the `Signature` header agree on it. -/
theorem inboxHandler_bound_iff {E : Env} {headers : List (HeaderName × Bytes)} {body : Bytes}
    {a : Accepted} (h : inboxHandler E headers body = .ok a) :
    Bound E headers a ↔ ParamsAgree headers := by
  obtain ⟨signature, hsig, hdigest, hcovers, hkey, rfl, keyId, s, hv⟩ := inboxHandler_cases h
  rw [extractKeyId, findParam_eq] at hkey
  have hline := digestLine_mem_iff (headerMap_wellFormed headers) (by decide) (by decide) hdigest
    hv.string
  have hlist : namesDigest ((parseSignatureHeader signature "headers".toList).getD "date".toList) =
      (paramValues "headers".toList signature).getLast?.any namesDigest := by
    rw [parseSignatureHeader_eq]
    cases (paramValues "headers".toList signature).getLast? with
    | none => decide
    | some list => rfl
  constructor
  · rintro ⟨signature', s', hsig', hv', hmem⟩
    rw [hsig] at hsig'
    cases hsig'
    have hs' : s' = s := by
      have := hv'.string
      rw [hv.string] at this
      exact (Except.ok.inj this).symm
    refine ⟨signature, hsig, ?_, ?_⟩
    · rw [hkey, ← parseSignatureHeader_eq, hv'.key]
    · rw [← hlist]
      exact hline.mp (hs' ▸ hmem)
  · rintro ⟨signature', hsig', hkeys, hheaders⟩
    rw [hsig] at hsig'
    cases hsig'
    have hk : keyId = a.keyId := by
      have hlast := hv.key
      rw [parseSignatureHeader_eq, ← hkeys, hkey] at hlast
      exact (Option.some.inj hlast).symm
    exact ⟨signature, s, hsig, hk ▸ hv, hline.mpr (hlist ▸ hheaders)⟩

section Repeated

/-- A `Create` whose actor is `https://victim.example/users/alice`. -/
def createBody : Bytes :=
  [123, 34, 116, 121, 112, 101, 34, 58, 34, 67, 114, 101, 97, 116, 101, 34, 44, 34, 97, 99,
   116, 111, 114, 34, 58, 34, 104, 116, 116, 112, 115, 58, 47, 47, 118, 105, 99, 116, 105,
   109, 46, 101, 120, 97, 109, 112, 108, 101, 47, 117, 115, 101, 114, 115, 47, 97, 108, 105,
   99, 101, 34, 125]

def createDigest : Bytes :=
  [61, 191, 6, 45, 83, 247, 162, 20, 18, 229, 93, 9, 175, 209, 17, 1, 86, 236, 33, 100, 94,
   141, 155, 7, 153, 125, 142, 30, 81, 99, 85, 86]

def createDigestHeader : Str := "SHA-256=Pb8GLVP3ohQS5V0Jr9ERAVbsIWRejZsHmX2OHlFjVVY=".toList

/-- One server with two actors' keys, and a signature that either key made. -/
def repeatedEnv : Env where
  keys := {
    base64Decode := fun s => if s = "c2ln".toList then .ok [115, 105, 103] else .error "".toList
    verifyWithPem := fun _ _ bytes =>
      if bytes = [115, 105, 103] then .ok () else .error (.signature "署名検証失敗".toList)
    cached := fun _ => none
    fetchActor := fun uri => .ok (some { id := uri ++ "#main-key".toList, owner := uri, publicKeyPem := uri }) }
  sha256 := fun bytes => if bytes = createBody then createDigest else []
  base64Encode := fun bytes => if bytes = createDigest then createDigestHeader.drop 8 else []
  fromStr := fun bytes =>
    if bytes = createBody then .ok { actor := "https://victim.example/users/alice".toList }
    else .error "".toList
  origin := fun _ => none
  listRelays := .ok []
  updateStatus := .ok ()
  findByApUri := fun _ => .ok none

def headersWith (signature : Str) : List (HeaderName × Bytes) :=
  [(⟨"digest".toList, by decide⟩, createDigestHeader.map fun c => UInt8.ofNat c.toNat),
    (⟨"date".toList, by decide⟩, "Mon, 01 Jan 2024 00:00:00 GMT".toList.map fun c => UInt8.ofNat c.toNat),
    (⟨"signature".toList, by decide⟩, signature.map fun c => UInt8.ofNat c.toNat)]

def aliceKey : Str := "https://victim.example/users/alice#main-key".toList

def eveKey : Str := "https://evil.example/users/eve#main-key".toList

def plainSignature : Str :=
  "keyId=\"".toList ++ aliceKey ++ "\",headers=\"date digest\",signature=\"c2ln\"".toList

/-- The first `keyId` is the one of the activity's actor, the last the signer's. -/
def twoKeyIds : Str :=
  "keyId=\"".toList ++ aliceKey ++ "\",headers=\"date digest\",signature=\"c2ln\",keyId=\"".toList ++
    eveKey ++ "\"".toList

/-- The first `headers` names the digest, the last does not. -/
def twoHeaderLists : Str := plainSignature ++ ",headers=\"date\"".toList

/-- All three are accepted. The second has another key, and the third does not sign the digest. -/
theorem accepted_signatures :
    (∀ signature ∈ [plainSignature, twoKeyIds, twoHeaderLists],
      headerMap (headersWith signature) "signature".toList = some signature ∧
      inboxHandler repeatedEnv (headersWith signature) createBody = .ok ⟨aliceKey, createBody⟩) ∧
    parseSignatureHeader twoKeyIds "keyId".toList = some eveKey ∧ eveKey ≠ aliceKey ∧
    buildSigningString "POST".toList "/inbox".toList (headerMap (headersWith twoHeaderLists))
        ((parseSignatureHeader twoHeaderLists "headers".toList).getD "date".toList) =
      .ok "date: Mon, 01 Jan 2024 00:00:00 GMT".toList := by
  decide +kernel

theorem inboxHandler_bound_iff_plain :
    Bound repeatedEnv (headersWith plainSignature) ⟨aliceKey, createBody⟩ ↔
      ParamsAgree (headersWith plainSignature) :=
  inboxHandler_bound_iff (accepted_signatures.1 plainSignature List.mem_cons_self).2

/-- Of a request with two `keyId`s the handler takes the wrong one for the
signer's, and with two `headers` the digest may not be signed at all. -/
theorem inboxHandler_bound_counterexample :
    (inboxHandler repeatedEnv (headersWith twoKeyIds) createBody = .ok ⟨aliceKey, createBody⟩ ∧
      ¬ Bound repeatedEnv (headersWith twoKeyIds) ⟨aliceKey, createBody⟩) ∧
    inboxHandler repeatedEnv (headersWith twoHeaderLists) createBody = .ok ⟨aliceKey, createBody⟩ ∧
      ¬ Bound repeatedEnv (headersWith twoHeaderLists) ⟨aliceKey, createBody⟩ := by
  obtain ⟨haccepted, heve, hne, hdate⟩ := accepted_signatures
  obtain ⟨htwo, hhandler⟩ := haccepted twoKeyIds (by simp)
  obtain ⟨htwo', hhandler'⟩ := haccepted twoHeaderLists (by simp)
  refine ⟨⟨hhandler, ?_⟩, hhandler', ?_⟩
  · rintro ⟨signature, s, hsig, hv, -⟩
    rw [htwo] at hsig
    cases hsig
    exact hne (Option.some.inj (heve.symm.trans hv.key))
  · rintro ⟨signature, s, hsig, hv, hmem⟩
    rw [htwo'] at hsig
    cases hsig
    have hs := hv.string
    rw [hdate] at hs
    cases hs
    exact absurd hmem (by decide)

end Repeated

end Seiran.Inbox
