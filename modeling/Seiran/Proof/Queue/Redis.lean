import Seiran.Model.Queue.Redis

/-!
# The envelopes in Redis

* `waiting`: the envelopes in the ready and in the delayed set;
* `waiting_addReady`, `waiting_addDelayed`, `waiting_promoteDue`,
  `popReady_spec`: what each command or script does to them;
* `lawful_plain`: the members of jobs without contents are read as they were
  written.
-/

namespace Seiran.Queue

variable {J : Type} {C : Codec J}

theorem Codec.Lawful.member_injective (hC : C.Lawful) {a b : Envelope J}
    (h : C.member a = C.member b) : a = b := by
  have ha := hC.fromStr_member a
  rw [h, hC.fromStr_member b] at ha
  exact (Option.some.inj ha).symm

/-- Every member is that of an envelope. -/
def Readable (C : Codec J) (s : ZSet) : Prop := ∀ x ∈ s.entries, ∃ e, x.member = C.member e

def stored (C : Codec J) (s : ZSet) : List (Envelope J) :=
  s.entries.filterMap fun x => C.fromStr x.member

theorem mem_stored (hC : C.Lawful) {s : ZSet} {x : ZEntry} {e : Envelope J} (hx : x ∈ s.entries)
    (h : x.member = C.member e) : e ∈ stored C s :=
  List.mem_filterMap.mpr ⟨x, hx, by rw [h, hC.fromStr_member]⟩

theorem stored_of_perm (hC : C.Lawful) {s s' : ZSet} {x : ZEntry} {e : Envelope J}
    (h : x.member = C.member e) (hperm : s'.entries.Perm (x :: s.entries)) :
    (stored C s').Perm (e :: stored C s) := by
  refine (hperm.filterMap _).trans ?_
  rw [List.filterMap_cons, h, hC.fromStr_member]
  exact .refl _

theorem readable_zadd {s : ZSet} (hs : Readable C s) (score : Int)
    (e : Envelope J) : Readable C (s.zadd score (C.member e)) := by
  intro x hx
  rcases ZSet.mem_zadd.mp hx with rfl | ⟨hx, _⟩
  · exact ⟨e, rfl⟩
  · exact hs x hx

theorem stored_zadd (hC : C.Lawful) {s : ZSet} (hs : Readable C s) (score : Int) {e : Envelope J}
    (hnew : ∀ e' ∈ stored C s, e'.seq ≠ e.seq) :
    (stored C (s.zadd score (C.member e))).Perm (e :: stored C s) := by
  refine stored_of_perm hC rfl (ZSet.perm_zadd fun x hx heq => ?_)
  obtain ⟨e', he'⟩ := hs x hx
  refine hnew e' (mem_stored hC hx he') ?_
  rw [hC.member_injective (he'.symm.trans heq)]

theorem readable_zrem {s : ZSet} (hs : Readable C s) (member : String) :
    Readable C (s.zrem member).2 := fun x hx => hs x (ZSet.mem_zrem.mp hx).1

theorem readable_popMin {s s' : ZSet} {x : ZEntry} (hs : Readable C s)
    (h : s.popMin = some (x, s')) : Readable C s' := by
  intro y hy
  refine hs y ?_
  rw [ZSet.popMin_eq_some.mp h]
  exact List.mem_cons_of_mem x hy

/-- The envelopes in the two sets. -/
def waiting (C : Codec J) (s : State) : List (Envelope J) := stored C s.ready ++ stored C s.delayed

structure Wf (C : Codec J) (s : State) : Prop where
  ready : Readable C s.ready
  delayed : Readable C s.delayed
  distinct : ((waiting C s).map Envelope.seq).Nodup

theorem seq_ne_of_notMem {es : List (Envelope J)} {q : Nat} (h : q ∉ es.map Envelope.seq) :
    ∀ e ∈ es, e.seq ≠ q := fun _ he heq => h (heq ▸ List.mem_map_of_mem he)

theorem waiting_addReady (hC : C.Lawful) {s : State} (hs : Readable C s.ready) {e : Envelope J}
    (hnew : e.seq ∉ (waiting C s).map Envelope.seq) :
    (waiting C (addReady C e s)).Perm (e :: waiting C s) := by
  have hready : ∀ e' ∈ stored C s.ready, e'.seq ≠ e.seq := fun e' he' =>
    seq_ne_of_notMem hnew e' (List.mem_append_left _ he')
  exact (stored_zadd hC hs _ hready).append_right _

theorem waiting_addDelayed (hC : C.Lawful) {s : State} (hs : Readable C s.delayed)
    {e : Envelope J} (readyAtMs : Int) (hnew : e.seq ∉ (waiting C s).map Envelope.seq) :
    (waiting C (addDelayed C e readyAtMs s)).Perm (e :: waiting C s) := by
  have hdelayed : ∀ e' ∈ stored C s.delayed, e'.seq ≠ e.seq := fun e' he' =>
    seq_ne_of_notMem hnew e' (List.mem_append_right _ he')
  exact ((stored_zadd hC hs _ hdelayed).append_left _).trans List.perm_middle

/-- One round of the script moves at most one envelope. -/
theorem promoteMember_spec (hC : C.Lawful) {s : State} (hs : Wf C s) (member : String) :
    ∃ s', promoteMember C member s = (some (), s') ∧ Wf C s' ∧
      (waiting C s').Perm (waiting C s) ∧ s'.seq = s.seq := by
  unfold promoteMember
  cases hrem : s.delayed.zrem member with
  | mk there delayed =>
    have hthere : s.delayed.entries.any (·.member = member) = there := congrArg Prod.fst hrem
    have hdelayed : (s.delayed.zrem member).2 = delayed := congrArg Prod.snd hrem
    cases there with
    | false =>
      have hsame : delayed.entries = s.delayed.entries := by
        rw [← hdelayed]
        refine ZSet.without_of_notMem fun x hx heq => ?_
        have := List.any_eq_false.mp hthere x hx
        exact this (decide_eq_true heq)
      have hstored : stored C delayed = stored C s.delayed := by rw [stored, stored, hsame]
      refine ⟨{ s with delayed }, rfl, ⟨hs.ready, ?_, ?_⟩, ?_, rfl⟩
      · rw [← hdelayed]
        exact readable_zrem hs.delayed member
      · show ((stored C s.ready ++ stored C delayed).map Envelope.seq).Nodup
        rw [hstored]
        exact hs.distinct
      · show (stored C s.ready ++ stored C delayed).Perm _
        rw [hstored]
        exact .refl _
    | true =>
      obtain ⟨x, hx, hmem⟩ := List.any_eq_true.mp hthere
      have hmem : x.member = member := of_decide_eq_true hmem
      obtain ⟨e, he⟩ := hs.delayed x hx
      have hperm : (stored C s.delayed).Perm (e :: stored C delayed) := by
        refine stored_of_perm hC he ?_
        rw [← hdelayed, ← hmem]
        exact ZSet.perm_zrem hx
      subst hmem
      -- the envelope is not in the ready set, where it goes
      have hall : (waiting C s).Perm (e :: (stored C s.ready ++ stored C delayed)) :=
        (hperm.append_left _).trans List.perm_middle
      have hdistinct := (hall.map Envelope.seq).nodup_iff.mp hs.distinct
      have hnew : ∀ e' ∈ stored C s.ready, e'.seq ≠ e.seq := fun e' he' =>
        seq_ne_of_notMem (List.nodup_cons.mp hdistinct).1 e' (List.mem_append_left _ he')
      simp only [he, hC.cjsonDecode_member]
      have hready := stored_zadd hC hs.ready (readyScore e.priority e.seq) hnew
      have hwaiting : (stored C (s.ready.zadd (readyScore e.priority e.seq) (C.member e)) ++
          stored C delayed).Perm (waiting C s) := (hready.append_right _).trans hall.symm
      refine ⟨_, rfl, ⟨readable_zadd hs.ready _ e, ?_, ?_⟩, hwaiting, rfl⟩
      · rw [← hdelayed]
        exact readable_zrem hs.delayed x.member
      · exact (hwaiting.map Envelope.seq).nodup_iff.mpr hs.distinct

theorem promoteMembers_spec (hC : C.Lawful) (due : List ZEntry) {s : State} (hs : Wf C s) :
    Wf C (promoteMembers C due s) ∧ (waiting C (promoteMembers C due s)).Perm (waiting C s) ∧
      (promoteMembers C due s).seq = s.seq := by
  induction due generalizing s with
  | nil => exact ⟨hs, .refl _, rfl⟩
  | cons x due ih =>
    obtain ⟨s', heq, hs', hperm, hseq⟩ := promoteMember_spec hC hs x.member
    obtain ⟨hs'', hperm', hseq'⟩ := ih hs'
    unfold promoteMembers
    rw [heq]
    exact ⟨hs'', hperm'.trans hperm, hseq'.trans hseq⟩

/-- Promotion neither duplicates nor drops a job. -/
theorem waiting_promoteDue (hC : C.Lawful) (nowMs : Int) {s : State} (hs : Wf C s) :
    Wf C (promoteDue C nowMs s) ∧ (waiting C (promoteDue C nowMs s)).Perm (waiting C s) ∧
      (promoteDue C nowMs s).seq = s.seq := promoteMembers_spec hC _ hs

theorem popReady_spec (hC : C.Lawful) {s s' : State} {x : ZEntry} (hs : Wf C s)
    (h : popReady s = some (x, s')) :
    ∃ e, C.fromStr x.member = some e ∧ (waiting C s).Perm (e :: waiting C s') ∧
      Readable C s'.ready ∧ s'.delayed = s.delayed ∧ s'.seq = s.seq := by
  obtain ⟨⟨y, ready⟩, hpop, heq⟩ := Option.map_eq_some_iff.mp h
  cases heq
  have hentries := ZSet.popMin_eq_some.mp hpop
  obtain ⟨e, he⟩ := hs.ready x (by rw [hentries]; exact List.mem_cons_self)
  refine ⟨e, by rw [he, hC.fromStr_member], ?_, readable_popMin hs.ready hpop, rfl, rfl⟩
  have hperm : (stored C s.ready).Perm (e :: stored C ready) :=
    stored_of_perm hC he (by rw [hentries])
  exact hperm.append_right _

/-! ## Jobs without contents -/

theorem toList_toString (n : Nat) : (toString n).toList = Nat.toDigits 10 n := by
  rw [Nat.toString_eq_ofList_toDigits, String.toList_ofList]

theorem toDigits_injective {m n : Nat} (h : Nat.toDigits 10 m = Nat.toDigits 10 n) : m = n := by
  rw [← Nat.ofDigitChars_ten_toDigits (n := m), h, Nat.ofDigitChars_ten_toDigits]

theorem comma_notMem_toDigits (n : Nat) : ',' ∉ Nat.toDigits 10 n := fun h =>
  absurd (Nat.isDigit_of_mem_toDigits (by decide) (by decide) h) (by decide)

def readNat (cs : List Char) : Nat × List Char :=
  (Nat.ofDigitChars 10 (cs.takeWhile Char.isDigit) 0, cs.dropWhile Char.isDigit)

def readInt : List Char → Int × List Char
  | '-' :: cs => (-(readNat cs).1, (readNat cs).2)
  | cs => ((readNat cs).1, (readNat cs).2)

/-- The envelope of a job whose JSON is `null`. -/
def readEnvelope (s : String) : Envelope Unit :=
  let (seq, rest) := readNat (s.toList.drop "\x7b\"seq\":".length)
  let (priority, rest) := readInt (rest.drop ",\"priority\":".length)
  let (attempt, _) := readNat (rest.drop ",\"attempt\":".length)
  { seq, priority, attempt, job := () }

def plain : Codec Unit where
  encodeJob _ := "null"
  fromStr s := some (readEnvelope s)
  cjsonDecode s := some ((readEnvelope s).priority, (readEnvelope s).seq)

theorem readNat_toDigits (n : Nat) {t u : List Char} (ht : t = ',' :: u) :
    readNat (Nat.toDigits 10 n ++ t) = (n, t) := by
  have hdigits : ∀ c ∈ Nat.toDigits 10 n, c.isDigit = true := fun c hc =>
    Nat.isDigit_of_mem_toDigits (by decide) (by decide) hc
  have htake : (Nat.toDigits 10 n ++ t).takeWhile Char.isDigit = Nat.toDigits 10 n := by
    rw [List.takeWhile_append_of_pos hdigits, ht]
    simp
  have hdrop : (Nat.toDigits 10 n ++ t).dropWhile Char.isDigit = t := by
    rw [List.dropWhile_append_of_pos hdigits, ht]
    simp
  rw [readNat, htake, hdrop, Nat.ofDigitChars_ten_toDigits]

theorem readInt_toString (i : Int) {t u : List Char} (ht : t = ',' :: u) :
    readInt ((toString i).toList ++ t) = (i, t) := by
  cases i with
  | ofNat n =>
    show readInt ((toString n).toList ++ t) = _
    rw [toList_toString]
    have hminus : '-' ∉ Nat.toDigits 10 n := fun h =>
      absurd (Nat.isDigit_of_mem_toDigits (by decide) (by decide) h) (by decide)
    have hread : readInt (Nat.toDigits 10 n ++ t) =
        (((readNat (Nat.toDigits 10 n ++ t)).1 : Int), (readNat (Nat.toDigits 10 n ++ t)).2) := by
      unfold readInt
      split
      · rename_i cs heq
        exfalso
        cases hn : Nat.toDigits 10 n with
        | nil =>
          rw [hn, ht] at heq
          cases heq
        | cons c rest =>
          rw [hn, List.cons_append] at heq
          cases heq
          rw [hn] at hminus
          exact hminus List.mem_cons_self
      · rfl
    rw [hread, readNat_toDigits n ht]
    rfl
  | negSucc n =>
    show readInt (("-" ++ toString (n + 1)).toList ++ t) = _
    have hsign : "-".toList = ['-'] := by decide
    rw [String.toList_append, toList_toString, hsign]
    have hread : readInt (['-'] ++ Nat.toDigits 10 (n + 1) ++ t) =
        (-((readNat (Nat.toDigits 10 (n + 1) ++ t)).1 : Int),
          (readNat (Nat.toDigits 10 (n + 1) ++ t)).2) := rfl
    rw [hread, readNat_toDigits (n + 1) ht]
    rfl

theorem readEnvelope_member (e : Envelope Unit) : readEnvelope (plain.member e) = e := by
  have hmember : (plain.member e).toList = "\x7b\"seq\":".toList ++ (Nat.toDigits 10 e.seq ++
      (",\"priority\":".toList ++ ((toString e.priority).toList ++ (",\"attempt\":".toList ++
        (Nat.toDigits 10 e.attempt ++ (",\"job\":".toList ++ ("null".toList ++ "\x7d".toList)))))))
      := by
    simp only [Codec.member, plain, String.toList_append, toList_toString, List.append_assoc]
  have hcomma : ∀ s : List Char, ",\"priority\":".toList ++ s = ',' :: ("\"priority\":".toList ++ s) ∧
      ",\"attempt\":".toList ++ s = ',' :: ("\"attempt\":".toList ++ s) ∧
      ",\"job\":".toList ++ s = ',' :: ("\"job\":".toList ++ s) := fun s => by
    refine ⟨?_, ?_, ?_⟩ <;> rw [← List.cons_append] <;> rfl
  simp only [readEnvelope, hmember, ← String.length_toList, List.drop_left,
    readNat_toDigits e.seq (hcomma _).1, readInt_toString e.priority (hcomma _).2.1,
    readNat_toDigits e.attempt (hcomma _).2.2]

theorem lawful_plain : plain.Lawful :=
  ⟨fun e => congrArg some (readEnvelope_member e),
    fun e => by
      show some ((readEnvelope (plain.member e)).priority, (readEnvelope (plain.member e)).seq) = _
      rw [readEnvelope_member]⟩

end Seiran.Queue
