import Mathlib.Order.Basic
import Seiran.Model.Net.Fetch

/-!
# Outbound fetches

* `isPublicIp_of_internal`: no internal address passes for a public one; the octets and
  segments of a block by arithmetic, and `embeddedIpv4_of_embeds` for the four forms;
* `loopOk`: what the loop that validates keeps, and `fetchGuarded` of its whole run;
* `send_bounded`: the federation client, by the redirects it was led through;
* `outbound`: both; `outbound_counterexample`: the federation client returns a body of
  any size.
-/

namespace Seiran.Net

/-! ## Addresses -/

theorem isPublicIpv4_of_internal {ip : BitVec 32} (h : InternalV4 ip) :
    isPublicIpv4 ip = false := by
  have hlt := ip.isLt
  cases h with
  | loopback h =>
    have ha : octet ip 0 = 127 := by
      simp only [InBlock, octet] at h ⊢
      omega
    simp [isPublicIpv4, Ipv4.isLoopback, ha]
  | private10 h =>
    have ha : octet ip 0 = 10 := by
      simp only [InBlock, octet] at h ⊢
      omega
    simp [isPublicIpv4, Ipv4.isPrivate, ha]
  | private172 h =>
    have ha : octet ip 0 = 172 ∧ 16 ≤ octet ip 1 ∧ octet ip 1 ≤ 31 := by
      simp only [InBlock, octet] at h ⊢
      omega
    simp [isPublicIpv4, Ipv4.isPrivate, ha]
  | private192 h =>
    have ha : octet ip 0 = 192 ∧ octet ip 1 = 168 := by
      simp only [InBlock, octet] at h ⊢
      omega
    simp [isPublicIpv4, Ipv4.isPrivate, ha]
  | linkLocal h =>
    have ha : octet ip 0 = 169 ∧ octet ip 1 = 254 := by
      simp only [InBlock, octet] at h ⊢
      omega
    simp [isPublicIpv4, Ipv4.isLinkLocal, ha]
  | multicast h =>
    have ha : 224 ≤ octet ip 0 ∧ octet ip 0 ≤ 239 := by
      simp only [InBlock, octet] at h ⊢
      omega
    simp [isPublicIpv4, Ipv4.isMulticast, ha]
  | unspecified h => simp [isPublicIpv4, Ipv4.isUnspecified, h]
  | shared h =>
    have ha : octet ip 0 = 100 ∧ 64 ≤ octet ip 1 ∧ octet ip 1 ≤ 127 := by
      simp only [InBlock, octet] at h ⊢
      omega
    simp [isPublicIpv4, ha]
  | reserved h =>
    have ha : 240 ≤ octet ip 0 := by
      simp only [InBlock, octet] at h ⊢
      omega
    simp [isPublicIpv4, ha]

theorem ofSegments_eq {high low : Nat} {v4 : BitVec 32} (hhigh : high = v4.toNat / 2 ^ 16)
    (hlow : low = v4.toNat % 2 ^ 16) : ofSegments high low = v4 := by
  have hlt := v4.isLt
  apply BitVec.eq_of_toNat_eq
  simp only [ofSegments, ofDigits, List.foldl_cons, List.foldl_nil, BitVec.toNat_ofNat]
  omega

theorem segments_of_tail {ip : BitVec 128} {base : Nat} {v4 : BitVec 32}
    (h : ip.toNat = base * 2 ^ 32 + v4.toNat) :
    ofSegments (segment ip 6) (segment ip 7) = v4 := by
  have hlt := v4.isLt
  refine ofSegments_eq ?_ ?_
  · simp only [segment]
    omega
  · simp only [segment]
    omega

/-- The address in one of the forms is taken out of it, but for `::` and `::1`. -/
theorem embeddedIpv4_of_embeds {ip : BitVec 128} {v4 : BitVec 32} (h : Embeds ip v4)
    (h0 : ip.toNat ≠ 0) (h1 : ip.toNat ≠ 1) : embeddedIpv4 ip = some v4 := by
  have hlt := v4.isLt
  rw [embeddedIpv4]
  cases h with
  | mapped h =>
    have htail := segments_of_tail h
    have hfirst : segment ip 0 = 0 ∧ segment ip 1 = 0 ∧ segment ip 2 = 0 ∧ segment ip 3 = 0 ∧
        segment ip 4 = 0 ∧ segment ip 5 = 0xffff := by
      simp only [segment]
      omega
    simp [hfirst, htail]
  | compatible h =>
    have htail := segments_of_tail (by omega : ip.toNat = 0 * 2 ^ 32 + v4.toNat)
    have hfirst : segment ip 0 = 0 ∧ segment ip 1 = 0 ∧ segment ip 2 = 0 ∧ segment ip 3 = 0 ∧
        segment ip 4 = 0 ∧ segment ip 5 = 0 := by
      simp only [segment]
      omega
    simp [hfirst, htail, Ipv6.isLoopback, Ipv6.isUnspecified, h0, h1]
  | nat64 h =>
    have htail := segments_of_tail (by omega : ip.toNat = 0x64ff9b * 2 ^ 64 * 2 ^ 32 + v4.toNat)
    have hfirst : segment ip 0 = 0x64 ∧ segment ip 1 = 0xff9b ∧ segment ip 2 = 0 ∧
        segment ip 3 = 0 ∧ segment ip 4 = 0 ∧ segment ip 5 = 0 := by
      simp only [segment]
      omega
    simp [hfirst, htail]
  | sixToFour rest hrest h =>
    have hfirst : segment ip 0 = 0x2002 := by
      simp only [segment]
      omega
    have hv4 : ofSegments (segment ip 1) (segment ip 2) = v4 := by
      refine ofSegments_eq ?_ ?_
      · simp only [segment]
        omega
      · simp only [segment]
        omega
    simp [hfirst, hv4]

/-- A mask of the first `len` bits keeps these. -/
theorem and_mask (n len k : Nat) (h : n < 2 ^ (len + k)) :
    n &&& (2 ^ len - 1) * 2 ^ k = n / 2 ^ k * 2 ^ k := by
  have hlt : n / 2 ^ k < 2 ^ len := by
    rw [Nat.pow_add] at h
    exact Nat.div_lt_of_lt_mul (by rwa [Nat.mul_comm] at h)
  have hmask : n &&& (2 ^ len - 1) * 2 ^ k = (n / 2 ^ k &&& (2 ^ len - 1)) * 2 ^ k := by
    apply Nat.eq_of_testBit_eq
    intro i
    rw [Nat.testBit_and, Nat.testBit_mul_two_pow, Nat.testBit_mul_two_pow, Nat.testBit_and,
      Nat.testBit_div_two_pow]
    by_cases hi : i ≥ k
    · simp [hi]
    · simp [hi]
  rw [hmask, Nat.and_two_pow_sub_one_of_lt_two_pow hlt]

theorem segment_lt (ip : BitVec 128) (i : Nat) : segment ip i < 2 ^ 16 := Nat.mod_lt _ (by decide)

/-- In none of the forms -/
theorem embeddedIpv4_eq_none (ip : BitVec 128) (h0 : segment ip 0 ≠ 0) (h1 : segment ip 0 ≠ 0x64)
    (h2 : segment ip 0 ≠ 0x2002) : embeddedIpv4 ip = none := by
  simp [embeddedIpv4, h0, h1, h2]

theorem embeddedIpv4_tiny {ip : BitVec 128} (h : ip.toNat ≤ 1) : embeddedIpv4 ip = none := by
  have hfirst : segment ip 0 = 0 ∧ segment ip 5 = 0 := by
    simp only [segment]
    omega
  have hself : Ipv6.isLoopback ip = true ∨ Ipv6.isUnspecified ip = true := by
    simp only [Ipv6.isLoopback, Ipv6.isUnspecified, beq_iff_eq]
    omega
  rcases hself with hself | hself <;> simp [embeddedIpv4, hfirst, hself]

theorem isPublicIp_of_internalV6 {ip : BitVec 128} (h : InternalV6 ip) :
    isPublicIp (.v6 ip) = false := by
  have hlt := ip.isLt
  have hone : ip.toNat = 1 → isPublicIp (.v6 ip) = false := fun h => by
    simp [isPublicIp, embeddedIpv4_tiny (Nat.le_of_eq h), Ipv6.isLoopback, h]
  have hzero : ip.toNat = 0 → isPublicIp (.v6 ip) = false := fun h => by
    simp [isPublicIp, embeddedIpv4_tiny (h ▸ Nat.zero_le 1), Ipv6.isUnspecified, h]
  cases h with
  | loopback h => exact hone h
  | unspecified h => exact hzero h
  | linkLocal h =>
    have hseg : segment ip 0 / 2 ^ 6 = 0xfe80 / 2 ^ 6 := by
      simp only [InBlock, segment] at h ⊢
      omega
    have hmask : segment ip 0 &&& 0xffc0 = 0xfe80 :=
      (and_mask _ 10 6 (segment_lt ip 0)).trans (congrArg (· * 2 ^ 6) hseg)
    have hnone := embeddedIpv4_eq_none ip (by omega) (by omega) (by omega)
    simp [isPublicIp, hnone, hmask]
  | multicast h =>
    have hseg : segment ip 0 / 2 ^ 8 = 0xff00 / 2 ^ 8 := by
      simp only [InBlock, segment] at h ⊢
      omega
    have hmask : segment ip 0 &&& 0xff00 = 0xff00 :=
      (and_mask _ 8 8 (segment_lt ip 0)).trans (congrArg (· * 2 ^ 8) hseg)
    have hnone := embeddedIpv4_eq_none ip (by omega) (by omega) (by omega)
    simp [isPublicIp, hnone, Ipv6.isMulticast, hmask]
  | uniqueLocal h =>
    have hseg : segment ip 0 / 2 ^ 9 = 0xfc00 / 2 ^ 9 := by
      simp only [InBlock, segment] at h ⊢
      omega
    have hmask : segment ip 0 &&& 0xfe00 = 0xfc00 :=
      (and_mask _ 7 9 (segment_lt ip 0)).trans (congrArg (· * 2 ^ 9) hseg)
    have hnone := embeddedIpv4_eq_none ip (by omega) (by omega) (by omega)
    simp [isPublicIp, hnone, hmask]
  | embedding v4 h hv4 =>
    by_cases h0 : ip.toNat = 0
    · exact hzero h0
    · by_cases h1 : ip.toNat = 1
      · exact hone h1
      · rw [isPublicIp, embeddedIpv4_of_embeds h h0 h1]
        exact isPublicIpv4_of_internal hv4

theorem isPublicIp_of_internal {ip : IpAddr} (h : Internal ip) : isPublicIp ip = false := by
  cases ip with
  | v4 ip => exact isPublicIpv4_of_internal h
  | v6 ip => exact isPublicIp_of_internalV6 h

theorem not_internal_of_public {ip : IpAddr} (h : isPublicIp ip = true) : ¬ Internal ip := by
  intro hinternal
  rw [isPublicIp_of_internal hinternal] at h
  cases h

/-! ## Requests -/

variable {w : World}

def Outside (t : Trace) : Prop := ∀ a ∈ t.connections, ¬ Internal a

theorem Outside.request (hw : Connects w) {t : Trace} (h : Outside t) {given : List IpAddr}
    (hgiven : ∀ a ∈ given, isPublicIp a = true) : Outside (t.request w given) := by
  intro a ha
  rcases List.mem_append.mp ha with ha | ha
  · exact h a ha
  · exact not_internal_of_public (hgiven a (hw _ _ ha))

/-! ## The fetch that validates -/

theorem public_of_validateUrl {t : Trace} {raw : String} {url : Url} {addresses : List IpAddr}
    (h : validateUrl w t raw = .ok (url, addresses)) : ∀ a ∈ addresses, isPublicIp a = true := by
  rw [validateUrl] at h
  split at h
  case h_1 => cases h
  case h_2 =>
    split at h
    case isTrue => cases h
    case isFalse =>
      split at h
      case h_2 => cases h
      case h_1 =>
        split at h
        case h_1 => cases h
        case h_2 answer hanswer =>
          split at h
          case isTrue => cases h
          case isFalse hany =>
            split at h
            case isTrue => cases h
            case isFalse =>
              cases h
              simpa using hany

theorem length_of_readChunks {buf bytes : List UInt8} {chunks : List (Option (List UInt8))}
    (hbuf : buf.length ≤ maxFetchBytes) (h : readChunks buf chunks = .ok bytes) :
    bytes.length ≤ maxFetchBytes := by
  induction chunks generalizing buf with
  | nil =>
    cases h
    exact hbuf
  | cons chunk chunks ih =>
    cases chunk with
    | none => cases h
    | some chunk =>
      rw [readChunks] at h
      split at h
      case isTrue => cases h
      case isFalse hlt =>
        refine ih ?_ h
        rw [List.length_append]
        exact Nat.not_lt.mp hlt

theorem length_of_readBodyLimited {upstream : Response} {bytes : List UInt8}
    (h : readBodyLimited upstream = .ok bytes) : bytes.length ≤ maxFetchBytes := by
  rw [readBodyLimited] at h
  split at h
  case isTrue => cases h
  case isFalse => exact length_of_readChunks (Nat.zero_le _) h

/-- What the loop ends with, for the trace it starts with -/
structure LoopOk (left : Nat) (t : Trace)
    (result : Trace × Except FetchError (List UInt8 × String)) : Prop where
  outside : Outside result.1
  redirects : result.1.redirects ≤ t.redirects + left
  size : ∀ bytes contentType, result.2 = .ok (bytes, contentType) → bytes.length ≤ maxFetchBytes

theorem loopOk (hw : Connects w) (left : Nat) (url : Url) (addresses : List IpAddr) (t : Trace)
    (haddresses : ∀ a ∈ addresses, isPublicIp a = true) (h : Outside t) :
    LoopOk left t (fetchLoop w left url addresses t) := by
  have hsent := h.request hw haddresses
  fun_induction fetchLoop w left url addresses t with
  | case1 => exact ⟨h, Nat.le_add_right _ _, nofun⟩
  | case6 url addresses t hhost sent upstream hrespond hredirection left next hnext url' addresses'
      hvalid ih =>
    have hpublic := public_of_validateUrl hvalid
    obtain ⟨houtside, hredirects, hsize⟩ := ih hpublic hsent (Outside.request hw hsent hpublic)
    refine ⟨houtside, ?_, hsize⟩
    have hcount : sent.redirects + 1 + left = t.redirects + (left + 1) := by
      rw [Nat.add_assoc, Nat.add_comm 1 left]
      rfl
    exact hredirects.trans_eq hcount
  | case9 left url addresses t hhost sent upstream hrespond hredirection hsuccess bytes hbody =>
    refine ⟨hsent, Nat.le_add_right _ _, ?_⟩
    rintro _ _ ⟨⟩
    exact length_of_readBodyLimited hbody
  | _ => exact ⟨hsent, Nat.le_add_right _ _, nofun⟩

theorem fetchGuarded (hw : Connects w) (raw : String) : FetchGuarded w raw := by
  have hstart : Outside { lookups := 1 } := fun a ha => absurd ha List.not_mem_nil
  have hok : LoopOk maxRedirects { lookups := 1 } (fetchFollowingValidatedRedirects w raw) := by
    rw [fetchFollowingValidatedRedirects]
    split
    case h_1 => exact ⟨hstart, Nat.zero_le _, nofun⟩
    case h_2 url addresses hvalid =>
      exact loopOk hw maxRedirects url addresses _ (public_of_validateUrl hvalid) hstart
  exact ⟨⟨hok.outside, hok.redirects.trans_eq (Nat.zero_add _)⟩, hok.size⟩

/-! ## The federation client -/

/-- A URL that the client may send a request to -/
def Allowed (url : Url) : Prop := isHttp url = true ∧ urlHostIsAllowed url = true

theorem public_of_addressesOf {url : Url} (h : Allowed url) {t : Trace} {addresses : List IpAddr}
    (ha : addressesOf w t url = .ok addresses) : ∀ a ∈ addresses, isPublicIp a = true := by
  have hhost := h.2
  rw [urlHostIsAllowed] at hhost
  rw [addressesOf] at ha
  split at ha
  case h_1 ip hip =>
    cases ha
    rw [hip] at hhost
    exact List.forall_mem_singleton.mpr hhost
  case h_2 ip hip =>
    cases ha
    rw [hip] at hhost
    exact List.forall_mem_singleton.mpr hhost
  case h_3 name _ =>
    rw [resolve] at ha
    split at ha
    case h_1 => cases ha
    case h_2 answer _ =>
      split at ha
      case isTrue => cases ha
      case isFalse hno =>
        cases ha
        simpa using (not_or.mp hno).2
  case h_4 => cases ha

theorem allowed_of_redirectPolicy {previous : List Url} {next : Url}
    (h : redirectPolicy previous next = none) :
    previous.length < maxFederationRedirects ∧ Allowed next := by
  rw [redirectPolicy] at h
  split at h
  case isTrue => cases h
  case isFalse hlt =>
    split at h
    case isTrue => cases h
    case isFalse hno =>
      refine ⟨Nat.not_le.mp hlt, ?_⟩
      simpa [Allowed] using hno

/-- The redirects that were followed are one fewer than the URLs. -/
theorem send_bounded (hw : Connects w) (previous : List Url) (url : Url) (t : Trace)
    (hallowed : Allowed url) (h : Outside t) (hcount : t.redirects = previous.length)
    (hle : previous.length ≤ maxFederationRedirects) :
    Bounded (send w previous url t).1 maxFederationRedirects := by
  fun_induction send w previous url t with
  | case1 => exact ⟨h, hcount.trans_le hle⟩
  | case5 previous url t addresses haddresses sent response hrespond next hnext hpolicy ih =>
    obtain ⟨hlt, hnext⟩ := allowed_of_redirectPolicy hpolicy
    refine ih hnext (h.request hw (public_of_addressesOf hallowed haddresses)) ?_
      (Nat.le_of_lt hlt)
    rw [List.length_append, List.length_singleton, ← hcount]
    rfl
  | case2 previous url t addresses haddresses | case3 previous url t addresses haddresses
  | case4 previous url t addresses haddresses =>
    exact ⟨h.request hw (public_of_addressesOf hallowed haddresses), hcount.trans_le hle⟩

theorem federationGet_bounded (hw : Connects w) (raw : String) :
    Bounded (federationGet w raw).1 maxFederationRedirects := by
  have hstart : Outside {} := fun a ha => absurd ha List.not_mem_nil
  rw [federationGet]
  split
  case h_1 => exact ⟨hstart, Nat.zero_le _⟩
  case h_2 hensure =>
    rw [ensurePublicUrl] at hensure
    split
    case h_1 => exact ⟨hstart, Nat.zero_le _⟩
    case h_2 url hparse =>
      have hallowed : Allowed url := by
        rw [hparse] at hensure
        simp only at hensure
        split at hensure
        case isTrue => cases hensure
        case isFalse hhttp =>
          split at hensure
          case isTrue hhost => exact ⟨by simpa using hhttp, hhost⟩
          case isFalse => cases hensure
      have hsend := send_bounded hw [] url {} hallowed hstart rfl (Nat.zero_le _)
      split
      case h_1 t e heq =>
        rw [heq] at hsend
        exact hsend
      case h_2 t response heq =>
        rw [heq] at hsend
        exact hsend

theorem outbound (w : World) (hw : Connects w) (raw : String) :
    FetchGuarded w raw ∧ Bounded (federationGet w raw).1 maxFederationRedirects :=
  ⟨fetchGuarded hw raw, federationGet_bounded hw raw⟩

def page (raw : String) : Url where
  text := raw
  scheme := "https"
  host := some (.domain "example.com")
  portOrKnownDefault := some 443

/-- A site that answers every request with one body -/
def site (body : List UInt8) : World where
  parse raw := some (page raw)
  join _ _ := none
  lookup _ _ := some [.v4 0x08080808]
  connect _ given := given
  respond _ _ := some { status := 200, chunks := [some body] }

theorem outbound_site : (fetchFollowingValidatedRedirects (site [104, 105])
      "https://example.com/").1.connections = [.v4 0x08080808] ∧
    FetchGuarded (site [104, 105]) "https://example.com/" ∧
    Bounded (federationGet (site [104, 105]) "https://example.com/").1 maxFederationRedirects :=
  ⟨by decide, outbound (site [104, 105]) (fun _ _ => List.Subset.refl _) "https://example.com/"⟩

/-- A body that is one byte longer than the fetch that validates lets through -/
def longBody : List UInt8 := List.replicate (maxFetchBytes + 1) 0

theorem outbound_counterexample : ¬ ∀ w raw, Connects w →
    FetchGuarded w raw ∧ FederationGuarded w raw := by
  intro hall
  have hsize := (hall (site longBody) "https://example.com/users/a"
    fun _ _ => List.Subset.refl _).2.size
  have hensure : ensurePublicUrl (site longBody) "https://example.com/users/a" = .ok () := by
    simp [ensurePublicUrl, site, page, isHttp, urlHostIsAllowed]
  have hgiven : addressesOf (site longBody) {} (page "https://example.com/users/a") =
      .ok [.v4 0x08080808] := by
    have hpublic : isPublicIpv4 134744072#32 = true := by decide
    simp [addressesOf, page, resolve, site, isPublicIp, hpublic]
  have hget : (federationGet (site longBody) "https://example.com/users/a").2 = .ok longBody := by
    have hbody : readBody [some longBody] = .ok longBody := by
      simp [readBody, Except.map]
    have hparse : (site longBody).parse "https://example.com/users/a" =
        some (page "https://example.com/users/a") := rfl
    rw [federationGet, hensure]
    simp only [hparse]
    rw [send, hgiven]
    exact hbody
  have hlt := hsize _ hget
  rw [longBody, List.length_replicate] at hlt
  exact Nat.not_succ_le_self _ hlt

end Seiran.Net
