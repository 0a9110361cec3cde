import Mathlib.Data.List.TakeDrop
import Seiran.Framework.Sha256
import Seiran.Model.Inbox.Signing
import Seiran.Proof.Inbox.Signature

/-!
# What a receiver verifies is what was signed

* `receive_header`: the headers that arrive;
* `headerList_signatureHeader`: the list of what is signed, which the key cannot
  displace;
* `rebuilt_get`, `rebuilt_post`: the signing string of the receiver;
* `signing_agrees_iff`: it is the sender's if the URL has no query and, where the
  client makes the `Host` header of the URL, no port.
-/

namespace Seiran.Inbox

/-! ## The headers that arrive -/

theorem toStr_fromStr {s : Str} {v : Bytes} (h : fromStr s = some v) : toStr v = some s := by
  unfold fromStr at h
  split at h
  · rename_i hall
    have hchar : ∀ c ∈ s, c.toNat = 9 ∨ (32 ≤ c.toNat ∧ c.toNat < 127) := fun c hc => by
      obtain rfl | hrange := of_decide_eq_true (List.all_eq_true.mp hall c hc)
      · exact .inl rfl
      · exact .inr hrange
    have hbyte : ∀ c ∈ s, (UInt8.ofNat c.toNat).toNat = c.toNat := fun c hc => by
      have := hchar c hc
      rw [UInt8.toNat_ofNat']
      omega
    obtain rfl := Option.some.inj h
    have hbytes : (s.map fun c => UInt8.ofNat c.toNat).all
        (fun b => b = 9 ∨ (32 ≤ b ∧ b < 127)) = true := by
      rw [List.all_map, List.all_eq_true]
      intro c hc
      refine decide_eq_true ?_
      obtain h9 | ⟨hge, hlt⟩ := hchar c hc
      · left
        show UInt8.ofNat c.toNat = 9
        rw [h9]
        rfl
      · right
        exact ⟨UInt8.le_iff_toNat_le.mpr (by rw [hbyte c hc]; exact hge),
          UInt8.lt_iff_toNat_lt.mpr (by rw [hbyte c hc]; exact hlt)⟩
    rw [toStr, if_pos hbytes, List.map_map]
    refine congrArg some ((List.map_congr_left fun c hc => ?_).trans (List.map_id s))
    show Char.ofNat (UInt8.ofNat c.toNat).toNat = c
    rw [hbyte c hc, Char.ofNat_toNat]
  · cases h

theorem foldl_insert_of_notMem {pairs : List (Str × Str)} {k : Str} (m : StrMap)
    (h : ∀ p ∈ pairs, p.1 ≠ k) : pairs.foldl (fun m p => m.insert p.1 p.2) m k = m k := by
  induction pairs generalizing m with
  | nil => rfl
  | cons p pairs ih =>
    rw [List.foldl_cons, ih _ fun q hq => h q (List.mem_cons_of_mem p hq), StrMap.insert,
      if_neg (Ne.symm (h p List.mem_cons_self))]

theorem foldl_insert_of_mem {pairs : List (Str × Str)} {k v : Str} (m : StrMap)
    (hnodup : (pairs.map Prod.fst).Nodup) (h : (k, v) ∈ pairs) :
    pairs.foldl (fun m p => m.insert p.1 p.2) m k = some v := by
  induction pairs generalizing m with
  | nil => exact absurd h List.not_mem_nil
  | cons p pairs ih =>
    rw [List.map_cons, List.nodup_cons] at hnodup
    rw [List.foldl_cons]
    obtain rfl | h := List.mem_cons.mp h
    · have hlater : ∀ q ∈ pairs, q.1 ≠ k := fun q hq heq =>
        hnodup.1 (List.mem_map.mpr ⟨q, hq, heq⟩)
      rw [foldl_insert_of_notMem _ hlater, StrMap.insert, if_pos rfl]
    · exact ih _ hnodup.2 h

/-- The names and values of a header list as a server reads them -/
def readHeaders (headers : List (HeaderName × Bytes)) : List (Str × Str) :=
  headers.filterMap fun h => (toStr h.2).map fun val => (toLowercase h.1.1, val)

theorem headerMap_eq (headers : List (HeaderName × Bytes)) (k : Str) :
    headerMap headers k =
      (readHeaders headers).foldl (fun (m : StrMap) p => m.insert p.1 p.2) (fun _ => none) k :=
  rfl

theorem readHeaders_of_mapM {value : HeaderName × Str → Str} {given : List (HeaderName × Str)}
    {headers : List (HeaderName × Bytes)}
    (h : (given.mapM fun g => (fromStr (value g)).map (g.1, ·)) = some headers) :
    readHeaders headers = given.map fun g => (toLowercase g.1.1, value g) := by
  induction given generalizing headers with
  | nil =>
    obtain rfl := Option.some.inj h
    rfl
  | cons g given ih =>
    rw [List.mapM_cons] at h
    obtain ⟨first, hfirst, h⟩ := Option.bind_eq_some_iff.mp h
    obtain ⟨rest, hrest, h⟩ := Option.bind_eq_some_iff.mp h
    obtain ⟨v, hv, rfl⟩ := Option.map_eq_some_iff.mp hfirst
    obtain rfl := Option.some.inj h
    rw [List.map_cons, ← ih hrest, readHeaders, List.filterMap_cons, toStr_fromStr hv]
    rfl

variable {own : List (HeaderName × Bytes)} {keepsHost : Bool} {u : Url} {r : Request}
  {received : Received}

/-- A header that is set once arrives, whatever the client adds. -/
theorem receive_header (h : r.receive own keepsHost u = some received)
    (hnodup : (r.headers.map fun g => toLowercase g.1.1).Nodup) {g : HeaderName × Str}
    (hg : g ∈ r.headers) :
    headerMap received.headers (toLowercase g.1.1) = some (arriving keepsHost u g) := by
  obtain ⟨headers, hheaders, h⟩ := Option.bind_eq_some_iff.mp h
  obtain rfl := Option.some.inj h
  have hread := readHeaders_of_mapM hheaders
  have hmem : (toLowercase g.1.1, arriving keepsHost u g) ∈ readHeaders headers := by
    rw [hread]
    exact List.mem_map.mpr ⟨g, hg, rfl⟩
  obtain ⟨g', hg', hpair⟩ := List.mem_filterMap.mp hmem
  obtain ⟨val, -, hpair⟩ := Option.map_eq_some_iff.mp hpair
  have hname := (Prod.mk.inj hpair).1
  have hown : ∀ p ∈ readHeaders (own.filter fun h =>
      headers.all fun g => toLowercase g.1.1 ≠ toLowercase h.1.1), p.1 ≠ toLowercase g.1.1 := by
    intro p hp heq
    obtain ⟨added, hadded, hpair⟩ := List.mem_filterMap.mp hp
    obtain ⟨v, -, rfl⟩ := Option.map_eq_some_iff.mp hpair
    have hvacant := List.all_eq_true.mp (List.mem_filter.mp hadded).2 g' hg'
    exact of_decide_eq_true hvacant (hname.trans heq.symm)
  rw [headerMap_eq, readHeaders, List.filterMap_append, List.foldl_append]
  refine (foldl_insert_of_notMem _ hown).trans (foldl_insert_of_mem _ ?_ hmem)
  show ((readHeaders headers).map Prod.fst).Nodup
  rw [hread, List.map_map]
  exact hnodup

theorem receive_line (h : r.receive own keepsHost u = some received) :
    received.method = r.method ∧ received.requestTarget = u.requestTarget := by
  obtain ⟨headers, -, h⟩ := Option.bind_eq_some_iff.mp h
  obtain rfl := Option.some.inj h
  exact ⟨rfl, rfl⟩

/-! ## The list of what is signed -/

theorem notMem_base64Encode (bytes : Bytes) : ',' ∉ base64Encode bytes := by
  have hletter : ∀ d, letter base64Alphabet d ≠ ',' := by
    intro d heq
    rw [letter, List.getD_eq_getElem?_getD] at heq
    cases hd : base64Alphabet[d]? with
    | none =>
      rw [hd] at heq
      exact absurd heq (by decide)
    | some c =>
      rw [hd, Option.getD_some] at heq
      have hmem : ',' ∈ base64Alphabet := heq ▸ List.mem_of_getElem? hd
      exact absurd hmem (by decide)
  intro hmem
  obtain hmem | hmem := List.mem_append.mp hmem
  · obtain ⟨d, -, hd⟩ := List.mem_map.mp hmem
    exact hletter d hd
  · exact absurd (List.eq_of_mem_replicate hmem) (by decide)

theorem valueOf_append {name key : Str} (rest : Str) (hkey : '=' ∉ key) :
    valueOf name (key ++ '=' :: rest) =
      if trim key = name then some (trimQuotes (trim rest)) else none := by
  have hall : ∀ c ∈ key, decide (c ≠ '=') = true := fun c hc =>
    decide_eq_true fun heq => hkey (heq ▸ hc)
  have hspan : (key ++ '=' :: rest).span (fun c => decide (c ≠ '=')) = (key, '=' :: rest) := by
    rw [List.span_eq_takeWhile_dropWhile, List.takeWhile_append_of_pos hall,
      List.dropWhile_append_of_pos hall]
    simp
  have hpair : splitPair (key ++ '=' :: rest) = some (key, rest) := by
    rw [splitPair, hspan]
  rw [valueOf, keyValue, hpair]
  rfl

theorem append_params {first second third headersOpen signatureOpen headersKey signatureKey : Str}
    (headerList sigB64 : Str) (hheaders : headersOpen = ',' :: (headersKey ++ ['=', '"']))
    (hsignature : signatureOpen = '"' :: ',' :: (signatureKey ++ ['=', '"'])) :
    first ++ second ++ third ++ headersOpen ++ headerList ++ signatureOpen ++ sigB64 ++ ['"'] =
      (first ++ second ++ third) ++ ',' :: ((headersKey ++ '=' :: ('"' :: headerList ++ ['"'])) ++
        ',' :: (signatureKey ++ '=' :: ('"' :: sigB64 ++ ['"']))) := by
  subst hheaders hsignature
  simp only [List.append_assoc, List.cons_append, List.nil_append]

theorem signatureHeader_eq (actorKeyId headerList sigB64 : Str) :
    signatureHeader actorKeyId headerList sigB64 =
      ("keyId=\"".toList ++ actorKeyId ++ "\",algorithm=\"rsa-sha256\"".toList) ++
        ',' :: (("headers".toList ++ '=' :: ('"' :: headerList ++ ['"'])) ++
          ',' :: ("signature".toList ++ '=' :: ('"' :: sigB64 ++ ['"']))) :=
  append_params headerList sigB64 (by decide) (by decide)

/-- Whatever is in the key: of several lists the last one counts. -/
theorem headerList_signatureHeader {headerList sigB64 : Str} (actorKeyId : Str)
    (hlist : ',' ∉ headerList) (hsig : ',' ∉ sigB64)
    (hquotes : trimQuotes (trim ('"' :: headerList ++ ['"'])) = headerList) :
    parseSignatureHeader (signatureHeader actorKeyId headerList sigB64) "headers".toList =
      some headerList := by
  have hheaders : ',' ∉ "headers".toList ++ '=' :: ('"' :: headerList ++ ['"']) := by
    simp [hlist]
  have hsignature : ',' ∉ "signature".toList ++ '=' :: ('"' :: sigB64 ++ ['"']) := by
    simp [hsig]
  rw [parseSignatureHeader_eq, paramValues, signatureHeader_eq, List.splitOn_append_cons_self,
    List.splitOn_append_cons_self, List.splitOn_eq_singleton hheaders,
    List.splitOn_eq_singleton hsignature, List.filterMap_append, List.filterMap_append,
    List.filterMap_cons, valueOf_append _ (by decide), if_pos (by decide), hquotes,
    List.filterMap_nil, List.filterMap_cons, valueOf_append _ (by decide), if_neg (by decide),
    List.filterMap_nil, List.append_nil, List.getLast?_append]
  rfl

/-! ## The signing string of the receiver -/

variable {method target host date contentType digest : Str} {headers : StrMap}

theorem signingLine_target :
    signingLine method target headers "(request-target)".toList =
      .ok ("(request-target): ".toList ++ toLowercase method ++ ' ' :: target) := by
  have hname : toLowercase "(request-target)".toList = "(request-target)".toList := by decide
  simp only [signingLine]
  rw [if_pos hname]

theorem signingLine_header {name val : Str} (hlower : toLowercase name = name)
    (hne : name ≠ "(request-target)".toList) (h : headers name = some val) :
    signingLine method target headers name = .ok (name ++ ": ".toList ++ val) := by
  simp only [signingLine]
  rw [hlower, if_neg hne, h]

theorem buildSigningString_get (hhost : headers "host".toList = some host)
    (hdate : headers "date".toList = some date) :
    buildSigningString "GET".toList target headers getHeaderList =
      .ok ("(request-target): get ".toList ++ target ++ "\nhost: ".toList ++ host ++
        "\ndate: ".toList ++ date) := by
  have hsplit : getHeaderList.splitOn ' ' =
      ["(request-target)".toList, "host".toList, "date".toList] := by decide
  rw [buildSigningString, hsplit, List.mapM_cons, signingLine_target, ok_bind, List.mapM_cons,
    signingLine_header (by decide) (by decide) hhost, ok_bind, List.mapM_cons,
    signingLine_header (by decide) (by decide) hdate]
  simp [toLowercase, List.intercalate, pure, Except.pure, bind, Except.bind]

theorem buildSigningString_post (hhost : headers "host".toList = some host)
    (hdate : headers "date".toList = some date)
    (htype : headers "content-type".toList = some contentType)
    (hdigest : headers "digest".toList = some digest) :
    buildSigningString "POST".toList target headers postHeaderList =
      .ok ("(request-target): post ".toList ++ target ++ "\nhost: ".toList ++ host ++
        "\ndate: ".toList ++ date ++ "\ncontent-type: ".toList ++ contentType ++
        "\ndigest: ".toList ++ digest) := by
  have hsplit : postHeaderList.splitOn ' ' = ["(request-target)".toList, "host".toList,
      "date".toList, "content-type".toList, "digest".toList] := by decide
  rw [buildSigningString, hsplit, List.mapM_cons, signingLine_target, ok_bind, List.mapM_cons,
    signingLine_header (by decide) (by decide) hhost, ok_bind, List.mapM_cons,
    signingLine_header (by decide) (by decide) hdate, ok_bind, List.mapM_cons,
    signingLine_header (by decide) (by decide) htype, ok_bind, List.mapM_cons,
    signingLine_header (by decide) (by decide) hdigest]
  simp [toLowercase, List.intercalate, pure, Except.pure, bind, Except.bind]

theorem verifySignature_eq (K : Keys) (method path : Str) (headers : StrMap) (sig : Str) :
    verifySignature K method path headers sig = (do
      let keyId ← required (parseSignatureHeader sig) "keyId".toList
      let signatureB64 ← required (parseSignatureHeader sig) "signature".toList
      let signingString ← rebuiltSigningString method path headers sig
      let signatureBytes ← decodeSignature K signatureB64
      let pem ← getPublicKeyPem K keyId
      verifyOrRefetch K keyId pem signingString signatureBytes) :=
  rfl

/-- The verifier of the received request makes the string that was signed. -/
def Agrees (received : Received) (signingString : Str) : Prop :=
  ∃ sig, headerMap received.headers "signature".toList = some sig ∧
    rebuiltSigningString received.method received.requestTarget (headerMap received.headers) sig =
      .ok signingString

theorem agrees_iff {actorKeyId headerList sigB64 signingString expected : Str}
    (hsignature : headerMap received.headers "signature".toList =
      some (signatureHeader actorKeyId headerList sigB64))
    (hlist : ',' ∉ headerList) (hsig : ',' ∉ sigB64)
    (hquotes : trimQuotes (trim ('"' :: headerList ++ ['"'])) = headerList)
    (hbuilt : buildSigningString received.method received.requestTarget
      (headerMap received.headers) headerList = .ok expected) :
    Agrees received signingString ↔ signingString = expected := by
  have hrebuilt : rebuiltSigningString received.method received.requestTarget
      (headerMap received.headers) (signatureHeader actorKeyId headerList sigB64) =
        .ok expected := by
    rw [rebuiltSigningString, headerList_signatureHeader actorKeyId hlist hsig hquotes]
    exact hbuilt
  constructor
  · rintro ⟨sig, hmap, h⟩
    rw [hsignature] at hmap
    rw [← Option.some.inj hmap, hrebuilt] at h
    exact (Except.ok.inj h).symm
  · rintro rfl
    exact ⟨_, hsignature, hrebuilt⟩

theorem requestTarget_eq (u : Url) :
    ∃ q, u.requestTarget = u.path ++ q ∧ (q = [] ↔ u.query = none) := by
  rw [Url.requestTarget]
  cases u.query with
  | none => exact ⟨[], rfl, by simp⟩
  | some query => exact ⟨'?' :: query, rfl, by simp⟩

theorem arriving_host (keepsHost : Bool) (u : Url) :
    ∃ o, arriving keepsHost u (hostName, u.host) = u.host ++ o ∧
      (o = [] ↔ keepsHost = true ∨ u.port = none) := by
  cases keepsHost with
  | true => exact ⟨[], by simp [arriving], by simp⟩
  | false =>
    have hname : hostName.1 = "host".toList ∧ false = false := ⟨rfl, rfl⟩
    rw [arriving, if_pos hname, Url.authority]
    cases u.port with
    | none => exact ⟨[], rfl, by simp⟩
    | some port => exact ⟨':' :: (toString port).toList, rfl, by simp⟩

/-- What the target and the host have more makes the string longer. -/
theorem append_more_iff {a path q b host o : Str} :
    a ++ (path ++ q) ++ b ++ (host ++ o) = a ++ path ++ b ++ host ↔ q = [] ∧ o = [] := by
  constructor
  · intro h
    have hlen := congrArg List.length h
    simp only [List.length_append] at hlen
    exact ⟨List.length_eq_zero_iff.mp (by omega), List.length_eq_zero_iff.mp (by omega)⟩
  · rintro ⟨rfl, rfl⟩
    rw [List.append_nil, List.append_nil]

section Sending

variable {Key : Type} {S : Signer Key} {url actorKeyId privateKeyPem signingString sigB64 : Str}
  {body : Bytes}

theorem notMem_signatureOf (h : S.signatureOf privateKeyPem signingString = .ok sigB64) :
    ',' ∉ sigB64 := by
  unfold Signer.signatureOf at h
  split at h
  · cases h
  · split at h
    · cases h
    · rw [← Except.ok.inj h]
      exact notMem_base64Encode _

/-- What has been posted is the request that is signed. -/
theorem signAndPost_ok {send : Request → Except ApError Answer}
    (h : signAndPost S send url body actorKeyId privateKeyPem = .ok ()) :
    ∃ request res, signedPost S url body actorKeyId privateKeyPem = .ok request ∧
      send request = .ok res ∧ 200 ≤ res.status ∧ res.status < 300 := by
  obtain ⟨request, hsigned, h⟩ := bind_eq_ok.mp h
  obtain ⟨res, hres, h⟩ := bind_eq_ok.mp h
  split at h
  · rename_i hstatus
    exact ⟨request, res, hsigned, hres, hstatus⟩
  · cases h

theorem parseUrl_ok (h : S.parseUrl url = .ok u) : S.parse url = .ok u := by
  unfold Signer.parseUrl at h
  split at h
  · rename_i u' hu
    rw [hu, Except.ok.inj h]
  · cases h

theorem rebuilt_get (hurl : S.parse url = .ok u)
    (hsent : signedGet S url actorKeyId privateKeyPem = .ok r)
    (harrived : r.receive own keepsHost u = some received) :
    Agrees received signingString ↔
      signingString = "(request-target): get ".toList ++ u.requestTarget ++ "\nhost: ".toList ++
        arriving keepsHost u (hostName, u.host) ++ "\ndate: ".toList ++ S.dateStr := by
  obtain ⟨_, -, hsent⟩ := bind_eq_ok.mp hsent
  obtain ⟨u', hu', hsent⟩ := bind_eq_ok.mp hsent
  obtain ⟨sigB64, hsig, hsent⟩ := bind_eq_ok.mp hsent
  have huu := parseUrl_ok hu'
  rw [hurl] at huu
  obtain rfl := Except.ok.inj huu
  obtain rfl := Except.ok.inj hsent
  have hnodup : ([acceptName, dateName, hostName, signatureName].map fun g =>
      toLowercase g.1).Nodup := by decide
  have hheader {g} := receive_header (g := g) harrived hnodup
  have hhost := hheader (g := (hostName, u.host)) (by simp)
  have hdate := hheader (g := (dateName, S.dateStr)) (by simp)
  have hsignature := hheader
    (g := (signatureName, signatureHeader actorKeyId getHeaderList sigB64)) (by simp)
  obtain ⟨hmethod, htarget⟩ := receive_line harrived
  refine agrees_iff hsignature (by decide) (notMem_signatureOf hsig) (by decide) ?_
  rw [hmethod, htarget]
  exact buildSigningString_get hhost hdate

theorem rebuilt_post (hurl : S.parse url = .ok u)
    (hsent : signedPost S url body actorKeyId privateKeyPem = .ok r)
    (harrived : r.receive own keepsHost u = some received) :
    Agrees received signingString ↔
      signingString = "(request-target): post ".toList ++ u.requestTarget ++ "\nhost: ".toList ++
        arriving keepsHost u (hostName, u.host) ++ "\ndate: ".toList ++ S.dateStr ++
        "\ncontent-type: ".toList ++ activityJson ++ "\ndigest: ".toList ++
        digestHeader S body := by
  obtain ⟨_, -, hsent⟩ := bind_eq_ok.mp hsent
  obtain ⟨u', hu', hsent⟩ := bind_eq_ok.mp hsent
  obtain ⟨sigB64, hsig, hsent⟩ := bind_eq_ok.mp hsent
  have huu := parseUrl_ok hu'
  rw [hurl] at huu
  obtain rfl := Except.ok.inj huu
  obtain rfl := Except.ok.inj hsent
  have hnodup : ([dateName, hostName, contentTypeName, digestName, signatureName].map fun g =>
      toLowercase g.1).Nodup := by decide
  have hheader {g} := receive_header (g := g) harrived hnodup
  have hhost := hheader (g := (hostName, u.host)) (by simp)
  have hdate := hheader (g := (dateName, S.dateStr)) (by simp)
  have htype := hheader (g := (contentTypeName, activityJson)) (by simp)
  have hdigest := hheader (g := (digestName, digestHeader S body)) (by simp)
  have hsignature := hheader
    (g := (signatureName, signatureHeader actorKeyId postHeaderList sigB64)) (by simp)
  obtain ⟨hmethod, htarget⟩ := receive_line harrived
  refine agrees_iff hsignature (by decide) (notMem_signatureOf hsig) (by decide) ?_
  rw [hmethod, htarget]
  exact buildSigningString_post hhost hdate htype hdigest

theorem signing_agrees_iff (S : Signer Key) (own : List (HeaderName × Bytes)) (keepsHost : Bool)
    (url actorKeyId privateKeyPem : Str) (body : Bytes) (u : Url) (hurl : S.parse url = .ok u) :
    (∀ request received, signedGet S url actorKeyId privateKeyPem = .ok request →
      request.receive own keepsHost u = some received →
      (Agrees received (getSigningString S u) ↔
        u.query = none ∧ (keepsHost = true ∨ u.port = none))) ∧
    ∀ request received, signedPost S url body actorKeyId privateKeyPem = .ok request →
      request.receive own keepsHost u = some received →
      (Agrees received (postSigningString S u body) ↔
        u.query = none ∧ (keepsHost = true ∨ u.port = none)) := by
  obtain ⟨q, hq, hquery⟩ := requestTarget_eq u
  obtain ⟨o, ho, hport⟩ := arriving_host keepsHost u
  refine ⟨fun request received hsent harrived => ?_, fun request received hsent harrived => ?_⟩
  · refine (rebuilt_get hurl hsent harrived).trans ?_
    rw [hq, ho, ← hquery, ← hport]
    exact eq_comm.trans ((List.append_left_inj _).trans
      ((List.append_left_inj _).trans append_more_iff))
  · refine (rebuilt_post hurl hsent harrived).trans ?_
    rw [hq, ho, ← hquery, ← hport]
    exact eq_comm.trans ((List.append_left_inj _).trans ((List.append_left_inj _).trans
      ((List.append_left_inj _).trans ((List.append_left_inj _).trans ((List.append_left_inj _).trans
        ((List.append_left_inj _).trans append_more_iff))))))

end Sending

/-! ## Three URLs -/

def followersUrl : Str := "https://remote.example/users/bob/followers".toList

def followersPage : Str := "https://remote.example/users/bob/followers?page=1".toList

def inboxUrl : Str := "https://remote.example:8443/inbox".toList

/-- A server that knows the three URLs, with one key -/
def plainSigner : Signer Unit where
  guardRemoteUrl _ := .ok ()
  parse url :=
    if url = followersUrl then
      .ok { hostStr := some "remote.example".toList, port := none,
            path := "/users/bob/followers".toList, query := none }
    else if url = followersPage then
      .ok { hostStr := some "remote.example".toList, port := none,
            path := "/users/bob/followers".toList, query := some "page=1".toList }
    else if url = inboxUrl then
      .ok { hostStr := some "remote.example".toList, port := some 8443, path := "/inbox".toList,
            query := none }
    else .error "relative URL without a base".toList
  dateStr := "Mon, 01 Jan 2024 00:00:00 GMT".toList
  sha256 bytes := (Sha256.sha256 bytes).toList
  fromPkcs8Pem _ := .ok ()
  sign _ _ := .ok [115, 105, 103]

def systemKeyId : Str := "https://seiran.example/users/system#main-key".toList

def remoteUrl (port : Option Nat) (path : Str) (query : Option Str) : Url where
  hostStr := some "remote.example".toList
  port := port
  path := path
  query := query

theorem exists_received {sent : Except ApError Request} {receive : Request → Option Received}
    (h : (sent.toOption.bind receive).isSome = true) :
    ∃ request received, sent = .ok request ∧ receive request = some received := by
  obtain ⟨received, h⟩ := Option.isSome_iff_exists.mp h
  obtain ⟨request, hsent, hreceive⟩ := Option.bind_eq_some_iff.mp h
  cases sent with
  | error e => cases hsent
  | ok r => exact ⟨request, received, congrArg Except.ok (Option.some.inj hsent), hreceive⟩

set_option maxRecDepth 1000 in
theorem signing_agrees_followers :
    (∃ request received, signedGet plainSigner followersUrl systemKeyId [] = .ok request ∧
      request.receive [] false (remoteUrl none "/users/bob/followers".toList none) =
        some received ∧
      Agrees received
        (getSigningString plainSigner (remoteUrl none "/users/bob/followers".toList none))) ∧
    ∃ request received, signedPost plainSigner inboxUrl [] systemKeyId [] = .ok request ∧
      request.receive [] true (remoteUrl (some 8443) "/inbox".toList none) = some received ∧
      Agrees received
        (postSigningString plainSigner (remoteUrl (some 8443) "/inbox".toList none) []) := by
  constructor
  · have hiff := signing_agrees_iff plainSigner [] false followersUrl systemKeyId [] []
      (remoteUrl none "/users/bob/followers".toList none) rfl
    obtain ⟨request, received, hsent, harrived⟩ :
        ∃ request received, signedGet plainSigner followersUrl systemKeyId [] = .ok request ∧
          request.receive [] false (remoteUrl none "/users/bob/followers".toList none) =
            some received := exists_received (by decide)
    exact ⟨request, received, hsent, harrived,
      (hiff.1 request received hsent harrived).mpr ⟨rfl, .inr rfl⟩⟩
  · have hiff := signing_agrees_iff plainSigner [] true inboxUrl systemKeyId [] []
      (remoteUrl (some 8443) "/inbox".toList none) rfl
    obtain ⟨request, received, hsent, harrived⟩ :
        ∃ request received, signedPost plainSigner inboxUrl [] systemKeyId [] = .ok request ∧
          request.receive [] true (remoteUrl (some 8443) "/inbox".toList none) = some received :=
      exists_received (by decide)
    exact ⟨request, received, hsent, harrived,
      (hiff.2 request received hsent harrived).mpr ⟨rfl, .inl rfl⟩⟩

set_option maxRecDepth 1000 in
/-- The query of a page is not signed, and neither is a port. -/
theorem signing_agrees_counterexample :
    (∃ request received, signedGet plainSigner followersPage systemKeyId [] = .ok request ∧
      request.receive [] true
        (remoteUrl none "/users/bob/followers".toList (some "page=1".toList)) = some received ∧
      ¬ Agrees received (getSigningString plainSigner
        (remoteUrl none "/users/bob/followers".toList (some "page=1".toList)))) ∧
    ∃ request received, signedPost plainSigner inboxUrl [] systemKeyId [] = .ok request ∧
      request.receive [] false (remoteUrl (some 8443) "/inbox".toList none) = some received ∧
      ¬ Agrees received
        (postSigningString plainSigner (remoteUrl (some 8443) "/inbox".toList none) []) := by
  constructor
  · obtain ⟨request, received, hsent, harrived⟩ :
        ∃ request received, signedGet plainSigner followersPage systemKeyId [] = .ok request ∧
          request.receive [] true
            (remoteUrl none "/users/bob/followers".toList (some "page=1".toList)) =
              some received := exists_received (by decide)
    refine ⟨request, received, hsent, harrived, fun h => ?_⟩
    exact absurd ((rebuilt_get rfl hsent harrived).mp h) (by decide)
  · obtain ⟨request, received, hsent, harrived⟩ :
        ∃ request received, signedPost plainSigner inboxUrl [] systemKeyId [] = .ok request ∧
          request.receive [] false (remoteUrl (some 8443) "/inbox".toList none) = some received :=
      exists_received (by decide)
    refine ⟨request, received, hsent, harrived, fun h => ?_⟩
    exact absurd ((rebuilt_post rfl hsent harrived).mp h) (by decide)

end Seiran.Inbox
