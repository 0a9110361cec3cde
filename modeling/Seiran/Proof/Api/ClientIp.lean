import Seiran.Model.Api.ClientIp

/-!
# Whose address a request has

The trusted proxies write the right end of `X-Forwarded-For`: the outermost of
them the address of the client, and the others the address of the proxy before
them (`Recorded`). What stands to the left is the client's. `resolve` finds the
recorded address (`walk_recorded`) as long as the line that has it is read, so
the client must have written only text on that line.
-/

namespace Seiran.ClientIp

section

variable (trusted : TrustedProxies)

def TrustedHop (hop : List Char) : Prop :=
  ∃ proxy, parseHop hop = some proxy ∧ trusted.contains proxy = true

/-- The lines end with `first`, after the client's part of the line if there is one, and
the lines `rest`. -/
structure Recorded (client : IpAddr) (first : HeaderValue) (rest : List HeaderValue) : Prop where
  untrusted : trusted.contains client = false
  firstVisible : first.all isVisibleAscii = true
  first : ∃ hop hops, chain [first] = hop :: hops ∧ parseHop hop = some client ∧
    ∀ hop ∈ hops, TrustedHop trusted hop
  rest : ∀ hop ∈ chain rest, TrustedHop trusted hop

end

def comma : UInt8 := 44

/-- The line on which the proxies begin, with the client's part of it. -/
def joined (own : Option HeaderValue) (first : HeaderValue) : HeaderValue :=
  match own with
  | some part => part ++ comma :: first
  | none => first

def Readable (own : Option HeaderValue) : Prop := ∀ part ∈ own, part.all isVisibleAscii = true

section

variable {trusted : TrustedProxies} {client : IpAddr} {first : HeaderValue}
  {rest : List HeaderValue}

theorem chain_append (xs ys : List HeaderValue) : chain (xs ++ ys) = chain xs ++ chain ys := by
  rw [chain, List.filterMap_append, List.flatMap_append]
  rfl

theorem splitOn_append (text text' : List Char) :
    (text ++ ',' :: text').splitOn ',' = text.splitOn ',' ++ text'.splitOn ',' := by
  show (text ++ ',' :: text').splitOnP (· == ',') =
    text.splitOnP (· == ',') ++ text'.splitOnP (· == ',')
  induction text with
  | nil => rw [List.nil_append, List.splitOnP_cons_eq_if_modifyHead]; rfl
  | cons c text ih =>
    rw [List.cons_append, List.splitOnP_cons_eq_if_modifyHead, List.splitOnP_cons_eq_if_modifyHead,
      ih]
    split
    · rfl
    · obtain ⟨part, parts, hparts⟩ :=
        List.exists_cons_of_ne_nil (List.splitOnP_ne_nil (· == ',') text)
      rw [hparts]
      rfl

theorem toStr_eq_none {value : HeaderValue} (h : ¬ value.all isVisibleAscii = true) :
    toStr value = none := if_neg h

/-- The entries of the client's part come first. -/
theorem chain_joined {own : Option HeaderValue} (hown : Readable own)
    (hfirst : first.all isVisibleAscii = true) :
    ∃ before, chain [joined own first] = before ++ chain [first] := by
  have hchain (value : HeaderValue) (h : value.all isVisibleAscii = true) :
      chain [value] = (value.map fun b => Char.ofNat b.toNat).splitOn ',' := by
    rw [chain, List.filterMap_cons, toStr, if_pos h]
    exact List.append_nil _
  cases own with
  | none => exact ⟨[], rfl⟩
  | some part =>
    have hpart := hown part rfl
    have hall : (part ++ comma :: first).all isVisibleAscii = true := by
      rw [List.all_append, List.all_cons, hpart, hfirst]
      rfl
    refine ⟨(part.map fun b => Char.ofNat b.toNat).splitOn ',', ?_⟩
    rw [joined, hchain _ hall, hchain _ hfirst, List.map_append, List.map_cons]
    exact splitOn_append _ _

theorem walk_trusted {hops : List (List Char)} (h : ∀ hop ∈ hops, TrustedHop trusted hop)
    (more : List (List Char)) : walk trusted (hops ++ more) = walk trusted more := by
  induction hops with
  | nil => rfl
  | cons hop hops ih =>
    obtain ⟨proxy, hparse, hproxy⟩ := h hop List.mem_cons_self
    rw [List.cons_append, walk, hparse]
    show (if !trusted.contains proxy then _ else _) = _
    rw [hproxy]
    exact ih fun hop' hhop' => h hop' (List.mem_cons_of_mem hop hhop')

/-- The trusted proxies are passed, and the client is found. -/
theorem walk_recorded (h : Recorded trusted client first rest) (before : List (List Char)) :
    walk trusted (before ++ chain [first] ++ chain rest).reverse = some client.display := by
  obtain ⟨hop, hops, hchain, hparse, hhops⟩ := h.first
  rw [List.reverse_append, walk_trusted fun hop hhop => h.rest hop (List.mem_reverse.mp hhop),
    hchain, List.reverse_append, List.reverse_cons, List.append_assoc,
    walk_trusted fun hop hhop => hhops hop (List.mem_reverse.mp hhop), List.singleton_append, walk,
    hparse]
  show (if !trusted.contains client then _ else _) = _
  rw [h.untrusted]
  rfl

theorem resolve_of_trusted {peer : IpAddr} (hpeer : trusted.contains peer.toCanonical = true)
    (forwardedFor : List HeaderValue) :
    resolve (some peer) forwardedFor trusted = walk trusted (chain forwardedFor).reverse := by
  rw [resolve, Option.map_some]
  show (if !trusted.contains peer.toCanonical then _ else _) = _
  rw [hpeer]
  rfl

/-- The address that the outermost trusted proxy has recorded, whatever lines the client sends,
exactly where the client's part of the proxies' line is text. -/
theorem resolve_recorded (trusted : TrustedProxies) (peer : IpAddr) :
    (trusted.contains peer.toCanonical = false → ∀ forwardedFor,
      resolve (some peer) forwardedFor trusted = some peer.toCanonical.display) ∧
    (trusted.contains peer.toCanonical = true → ∀ client first rest,
      Recorded trusted client first rest → ∀ own,
        ((∀ lines, resolve (some peer) (lines ++ joined own first :: rest) trusted =
            some client.display) ↔ Readable own)) := by
  constructor
  · intro hpeer forwardedFor
    rw [resolve, Option.map_some]
    show (if !trusted.contains peer.toCanonical then _ else _) = _
    rw [hpeer]
    rfl
  · intro hpeer client first rest h own
    constructor
    · intro hall part hpart
      obtain rfl : own = some part := hpart
      by_contra hnot
      -- the line is dropped, and nothing but proxies is left
      have hnone : toStr (joined (some part) first) = none := by
        apply toStr_eq_none
        rw [joined, List.all_append, Bool.and_eq_true]
        exact fun hall => hnot hall.1
      have hchain : chain (joined (some part) first :: rest) = chain rest := by
        rw [chain, List.filterMap_cons, hnone]
        rfl
      have := hall []
      rw [List.nil_append, resolve_of_trusted hpeer, hchain, ← List.append_nil (chain rest).reverse,
        walk_trusted fun hop hhop => h.rest hop (List.mem_reverse.mp hhop)] at this
      cases this
    · intro hown lines
      obtain ⟨before, hbefore⟩ := chain_joined hown h.firstVisible
      have hchain : chain (lines ++ joined own first :: rest) =
          chain lines ++ before ++ chain [first] ++ chain rest := by
        rw [chain_append, ← List.singleton_append, chain_append, hbefore]
        simp only [List.append_assoc]
      rw [resolve_of_trusted hpeer, hchain]
      exact walk_recorded h _

end

/-! ## One byte -/

def bytes (text : String) : HeaderValue := text.toList.map fun c => UInt8.ofNat c.toNat

/-- A proxy at `10.0.0.3`, and what it writes for a client at `203.0.113.7`. -/
def proxies : TrustedProxies := ⟨[fun ip => ip == .v4 (BitVec.ofNat 32 0x0a000003)]⟩

theorem recorded_proxies :
    Recorded proxies (.v4 (BitVec.ofNat 32 0xcb007107)) (bytes " 203.0.113.7") [] where
  untrusted := by decide
  firstVisible := by decide
  first := ⟨" 203.0.113.7".toList, [], by decide, by decide,
    fun _ h => absurd h List.not_mem_nil⟩
  rest := fun _ h => absurd h List.not_mem_nil

/-- With a line of the proxy's own, no line of the client matters. -/
theorem resolve_recorded_line (lines : List HeaderValue) :
    resolve (some (.v4 (BitVec.ofNat 32 0x0a000003)))
      (lines ++ [joined none (bytes " 203.0.113.7")]) proxies =
        some (IpAddr.v4 (BitVec.ofNat 32 0xcb007107)).display :=
  ((resolve_recorded proxies (.v4 (BitVec.ofNat 32 0x0a000003))).2 (by decide) _ _ _
    recorded_proxies none).mpr (fun _ h => by cases h) lines

/-- One byte that is not text hides the client, or puts another address in its place. -/
theorem resolve_recorded_counterexample :
    resolve (some (.v4 (BitVec.ofNat 32 0x0a000003)))
      [joined (some (bytes "x")) (bytes " 203.0.113.7")] proxies = some "203.0.113.7".toList ∧
    resolve (some (.v4 (BitVec.ofNat 32 0x0a000003)))
      [joined (some [255]) (bytes " 203.0.113.7")] proxies = none ∧
    resolve (some (.v4 (BitVec.ofNat 32 0x0a000003)))
      [bytes "198.51.100.66", joined (some [255]) (bytes " 203.0.113.7")] proxies =
        some "198.51.100.66".toList := by
  refine ⟨?_, ?_, ?_⟩ <;> decide

end Seiran.ClientIp
