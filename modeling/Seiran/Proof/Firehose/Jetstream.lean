import Seiran.Model.Firehose.Jetstream

/-!
# No event of a wanted author is lost

* `Inv`: what the cursor passes is processed, and so is what a connection has received,
  but for what its message or a task has in hand;
* `Careful`: the cursor is saved when nothing is in hand and everybody wanted is asked for,
  nothing fails, and the marker stays between the two reads of a connection set-up;
* `nothing_lost`: careful runs lose nothing, and an unchanged marker means that everybody
  wanted at that marker is asked for.
-/

namespace Seiran.Jetstream

variable {Did : Type} [DecidableEq Did] {inclusive : Bool} {s t : State Did}

section Invariant

/-- Everybody in the one list is asked for by the other. -/
def Covers (wanted wantedDids : List Did) : Prop := ∀ did ∈ wanted, asksFor wantedDids did = true

/-- The event is processed, or is sent again after the next reconnect. -/
def Kept (inclusive : Bool) (s : State Did) (event : Nat) : Prop :=
  event ∈ s.processed ∨ ∃ c, s.cursor = some c ∧ resendFrom inclusive c ≤ event

/-- A marker that is the present one covers whoever was wanted at it. -/
structure MarkerOk (s : State Did) (wantedDids : List Did) (touch : Option Nat) : Prop where
  before : ∀ m, touch = some m → ∃ n, s.touch = some n ∧ m ≤ n
  covers : touch = s.touch → Covers s.wantedAtTouch wantedDids

/-- What a connection has received is processed or in hand. -/
structure ConnectionOk (s : State Did) (conn : Connection Did) : Prop where
  marker : MarkerOk s conn.wantedDids conn.touchAtConnect
  position : conn.position ≤ s.events.length
  received : ∀ i ∈ s.owed, i < conn.position → ∀ did, s.events[i]? = some did →
    asksFor conn.wantedDids did = true → i ∈ s.processed ∨ i ∈ s.tasks ∨ conn.current = some i
  current : ∀ i, conn.current = some i → i < conn.position
  lastTime : ∀ i, conn.lastTime = some i → i < conn.position

def PhaseOk (s : State Did) : Phase Did → Prop
  | .down => True
  | .loadedCursor cursor => cursor = s.cursor
  | .loadedWanted cursor wantedDids => cursor = s.cursor ∧ Covers s.wantedAtTouch wantedDids
  | .loadedTouch cursor wantedDids touch => cursor = s.cursor ∧ MarkerOk s wantedDids touch
  | .connected conn => ConnectionOk s conn

structure Inv (inclusive : Bool) (s : State Did) : Prop where
  wanted : ∀ i ∈ s.owed, ∃ did ∈ s.wanted, s.events[i]? = some did
  kept : ∀ i ∈ s.owed, Kept inclusive s i
  cursor : ∀ c, s.cursor = some c → c < s.events.length
  phase : PhaseOk s s.phase

/-- Nothing is in hand, and everybody wanted is asked for. -/
def SafeToSave (s : State Did) (conn : Connection Did) : Prop :=
  s.tasks = [] ∧ Covers s.wanted conn.wantedDids

/-- Between the read of the wanted authors and the one of the marker -/
def Phase.betweenReads : Phase Did → Bool
  | .loadedWanted _ _ => true
  | _ => false

def Careful (inclusive : Bool) (s : State Did) : Action Did → Prop
  | .emit did => did ∈ s.wanted → s.cursor ≠ none
  | .touch => s.phase.betweenReads = false
  | .loadCursor ok => ok = true ∨ s.cursor = none
  | .loadWanted ok => ok = true → ∀ did ∈ s.wantedAtTouch, did ∈ s.wanted
  | .receive save => save = true → ∀ conn ∈ s.idle,
      SafeToSave s conn ∧ (inclusive = true ∨ conn.position ∉ s.owed)
  | .failed => ∀ b ∈ s.busy, b.2 ∉ s.owed
  | .failTask event => event ∉ s.owed
  | .stop => ∀ conn ∈ s.idle, SafeToSave s conn
  | _ => True

theorem MarkerOk.congr {wantedDids : List Did} {touch : Option Nat} (h : MarkerOk s wantedDids touch)
    (htouch : t.touch = s.touch) (hat : t.wantedAtTouch = s.wantedAtTouch) :
    MarkerOk t wantedDids touch := by
  refine ⟨?_, ?_⟩
  · rw [htouch]
    exact h.before
  · rw [htouch, hat]
    exact h.covers

/-- A new marker is not the one of a connection. -/
theorem MarkerOk.touch {wantedDids : List Did} {touch : Option Nat} (h : MarkerOk s wantedDids touch)
    (htouch : t.touch = some (s.touch.elim 0 (· + 1))) : MarkerOk t wantedDids touch := by
  refine ⟨fun m hm => ?_, fun heq => ?_⟩
  · obtain ⟨n, hn, hle⟩ := h.before m hm
    exact ⟨n + 1, by rw [htouch, hn]; rfl, by omega⟩
  · exfalso
    rw [htouch] at heq
    obtain ⟨n, hn, hle⟩ := h.before _ heq
    rw [hn] at hle
    have : n + 1 ≤ n := hle
    omega

/-- What leaves a connection in order: more events, fewer that are owed, more processed -/
structure Later (s t : State Did) : Prop where
  marker : ∀ {wantedDids touch}, MarkerOk s wantedDids touch → MarkerOk t wantedDids touch
  events : ∃ later, t.events = s.events ++ later
  owed : ∀ i ∈ t.owed, i < s.events.length → i ∈ s.owed
  inHand : ∀ i ∈ t.owed, i ∈ s.processed ∨ i ∈ s.tasks → i ∈ t.processed ∨ i ∈ t.tasks

theorem ConnectionOk.later {conn : Connection Did} (h : ConnectionOk s conn) (hl : Later s t) :
    ConnectionOk t conn := by
  obtain ⟨later, hevents⟩ := hl.events
  refine ⟨hl.marker h.marker, ?_, ?_, h.current, h.lastTime⟩
  · rw [hevents, List.length_append]
    exact Nat.le_add_right_of_le h.position
  · intro i hi hlt did hdid hasks
    have hlength : i < s.events.length := Nat.lt_of_lt_of_le hlt h.position
    rw [hevents, List.getElem?_append_left hlength] at hdid
    rcases h.received i (hl.owed i hi hlength) hlt did hdid hasks with hp | ht | hc
    · exact (hl.inHand i hi (.inl hp)).imp_right .inl
    · exact (hl.inHand i hi (.inr ht)).imp_right .inl
    · exact .inr (.inr hc)

theorem PhaseOk.later {phase : Phase Did} (h : PhaseOk s phase) (hl : Later s t)
    (hcursor : t.cursor = s.cursor)
    (hwanted : ∀ cursor wantedDids, phase = .loadedWanted cursor wantedDids →
      t.wantedAtTouch = s.wantedAtTouch) : PhaseOk t phase := by
  cases phase with
  | down => trivial
  | loadedCursor cursor => exact h.trans hcursor.symm
  | loadedWanted cursor wantedDids =>
    refine ⟨h.1.trans hcursor.symm, ?_⟩
    rw [hwanted cursor wantedDids rfl]
    exact h.2
  | loadedTouch cursor wantedDids touch => exact ⟨h.1.trans hcursor.symm, hl.marker h.2⟩
  | connected conn => exact ConnectionOk.later h hl

end Invariant

section Steps

theorem resendFrom_le {c n : Nat} (h : c < n) : resendFrom inclusive c ≤ n := by
  rw [resendFrom]
  split <;> omega

theorem inv_emit {did : Did} (h : Inv inclusive s) (hc : Careful inclusive s (.emit did))
    (hs : step inclusive s (.emit did) = some t) : Inv inclusive t := by
  cases hs
  have hmem : ∀ i ∈ (if s.wanted.contains did then s.owed ++ [s.events.length] else s.owed),
      i ∈ s.owed ∨ (i = s.events.length ∧ did ∈ s.wanted) := by
    intro i hi
    split at hi
    · rename_i hwanted
      rcases List.mem_append.mp hi with hi | hi
      · exact .inl hi
      · exact .inr ⟨List.mem_singleton.mp hi, by simpa using hwanted⟩
    · exact .inl hi
  have hlater : Later s { s with
      events := s.events ++ [did]
      owed := if s.wanted.contains did then s.owed ++ [s.events.length] else s.owed } := by
    refine ⟨fun hm => hm.congr rfl rfl, ⟨_, rfl⟩, ?_, fun _ _ hi => hi⟩
    intro i hi hlt
    rcases hmem i hi with hi | ⟨rfl, -⟩
    · exact hi
    · omega
  refine ⟨?_, ?_, ?_, h.phase.later hlater rfl fun _ _ _ => rfl⟩
  · intro i hi
    rcases hmem i hi with hi | ⟨rfl, hdid⟩
    · obtain ⟨d, hd, hevent⟩ := h.wanted i hi
      refine ⟨d, hd, ?_⟩
      rw [List.getElem?_append_left (List.getElem?_eq_some_iff.mp hevent).1]
      exact hevent
    · exact ⟨did, hdid, List.getElem?_concat_length⟩
  · intro i hi
    rcases hmem i hi with hi | ⟨rfl, hdid⟩
    · exact h.kept i hi
    · obtain ⟨c, hcursor⟩ := Option.ne_none_iff_exists'.mp (hc hdid)
      exact .inr ⟨c, hcursor, resendFrom_le (h.cursor c hcursor)⟩
  · intro c hcursor
    rw [List.length_append]
    exact Nat.lt_add_right _ (h.cursor c hcursor)

theorem inv_want {did : Did} (h : Inv inclusive s)
    (hs : step inclusive s (.want did) = some t) : Inv inclusive t := by
  cases hs
  have hlater : Later s { s with wanted := s.wanted ++ [did] } :=
    ⟨fun hm => hm.congr rfl rfl, ⟨[], by simp⟩, fun _ hi _ => hi, fun _ _ hi => hi⟩
  refine ⟨?_, h.kept, h.cursor, h.phase.later hlater rfl fun _ _ _ => rfl⟩
  intro i hi
  obtain ⟨d, hd, hevent⟩ := h.wanted i hi
  exact ⟨d, List.mem_append_left _ hd, hevent⟩

theorem inv_unwant {did : Did} (h : Inv inclusive s)
    (hs : step inclusive s (.unwant did) = some t) : Inv inclusive t := by
  cases hs
  have hlater : Later s { s with
      wanted := s.wanted.filter (· ≠ did)
      owed := s.owed.filter fun i => s.events[i]? ≠ some did } :=
    ⟨fun hm => hm.congr rfl rfl, ⟨[], by simp⟩, fun _ hi _ => (List.mem_filter.mp hi).1,
      fun _ _ hi => hi⟩
  refine ⟨?_, ?_, h.cursor, h.phase.later hlater rfl fun _ _ _ => rfl⟩
  · intro i hi
    obtain ⟨hi, hother⟩ := List.mem_filter.mp hi
    obtain ⟨d, hd, hevent⟩ := h.wanted i hi
    refine ⟨d, List.mem_filter.mpr ⟨hd, ?_⟩, hevent⟩
    rw [hevent] at hother
    simpa using hother
  · intro i hi
    exact h.kept i ((List.mem_filter.mp hi).1)

theorem inv_touch (h : Inv inclusive s) (hc : Careful inclusive s .touch)
    (hs : step inclusive s .touch = some t) : Inv inclusive t := by
  cases hs
  have hlater : Later s { s with
      touch := some (s.touch.elim 0 (· + 1))
      wantedAtTouch := s.wanted } :=
    ⟨fun hm => hm.touch rfl, ⟨[], by simp⟩, fun _ hi _ => hi, fun _ _ hi => hi⟩
  refine ⟨h.wanted, h.kept, h.cursor, h.phase.later hlater rfl ?_⟩
  intro cursor wantedDids hphase
  have hbetween : s.phase.betweenReads = false := hc
  rw [hphase] at hbetween
  cases hbetween

/-- A step that moves on to another phase changes nothing else. -/
theorem Inv.move (h : Inv inclusive s) {phase : Phase Did} (hphase : PhaseOk s phase) :
    Inv inclusive { s with phase } := by
  have hlater : Later s { s with phase } :=
    ⟨fun hm => hm.congr rfl rfl, ⟨[], by simp⟩, fun _ hi _ => hi, fun _ _ hi => hi⟩
  exact ⟨h.wanted, h.kept, h.cursor, hphase.later hlater rfl fun _ _ _ => rfl⟩

theorem inv_loadCursor {ok : Bool} (h : Inv inclusive s)
    (hc : Careful inclusive s (.loadCursor ok))
    (hs : step inclusive s (.loadCursor ok) = some t) : Inv inclusive t := by
  simp only [step] at hs
  split at hs
  · cases hs
    refine h.move ?_
    rcases hc with rfl | hnone
    · rfl
    · show (if ok then s.cursor else none) = s.cursor
      rw [hnone, ite_self]
  · cases hs

theorem inv_loadWanted {ok : Bool} (h : Inv inclusive s)
    (hc : Careful inclusive s (.loadWanted ok))
    (hs : step inclusive s (.loadWanted ok) = some t) : Inv inclusive t := by
  simp only [step] at hs
  split at hs
  · rename_i cursor hphase
    cases hs
    have hok := h.phase
    rw [hphase] at hok
    refine h.move ⟨hok, fun did hdid => ?_⟩
    cases ok with
    | false => rfl
    | true =>
      have hmem := hc rfl did hdid
      simp [asksFor, hmem]
  · cases hs

theorem inv_loadTouch {ok : Bool} (h : Inv inclusive s)
    (hs : step inclusive s (.loadTouch ok) = some t) : Inv inclusive t := by
  simp only [step] at hs
  split at hs
  · rename_i cursor wantedDids hphase
    cases hs
    have hok := h.phase
    rw [hphase] at hok
    refine h.move ⟨hok.1, fun m hm => ?_, fun _ => hok.2⟩
    cases ok with
    | false => cases hm
    | true => exact ⟨m, hm, Nat.le_refl m⟩
  · cases hs

/-- What was before the start of a connection is processed. -/
theorem inv_connect (h : Inv inclusive s) (hs : step inclusive s .connect = some t) :
    Inv inclusive t := by
  simp only [step] at hs
  split at hs
  · rename_i cursor wantedDids touch hphase
    cases hs
    have hok := h.phase
    rw [hphase] at hok
    obtain ⟨rfl, hmarker⟩ := hok
    refine h.move ⟨hmarker, ?_, ?_, nofun, nofun⟩
    · cases hcursor : s.cursor with
      | none => exact Nat.le_refl _
      | some c => exact resendFrom_le (h.cursor c hcursor)
    · intro i hi hlt _ _ _
      rcases h.kept i hi with hp | ⟨c, hcursor, hle⟩
      · exact .inl hp
      · rw [hcursor] at hlt
        exact absurd hle (Nat.not_le_of_lt hlt)
  · cases hs

omit [DecidableEq Did] in
theorem idle_eq_some {conn : Connection Did} (h : s.idle = some conn) :
    s.phase = .connected conn ∧ conn.current = none := by
  rw [State.idle] at h
  split at h
  · rename_i conn' hphase
    split at h
    · rename_i hcurrent
      cases h
      exact ⟨hphase, hcurrent⟩
    · cases h
  · cases h

omit [DecidableEq Did] in
theorem busy_eq_some {conn : Connection Did} {event : Nat} (h : s.busy = some (conn, event)) :
    s.phase = .connected conn ∧ conn.current = some event := by
  rw [State.busy] at h
  split at h
  · rename_i conn' hphase
    obtain ⟨e, hcurrent, heq⟩ := Option.map_eq_some_iff.mp h
    cases heq
    exact ⟨hphase, hcurrent⟩
  · cases h

theorem Inv.connection {conn : Connection Did} (h : Inv inclusive s) (hphase : s.phase = .connected conn) :
    ConnectionOk s conn := by
  have hok := h.phase
  rw [hphase] at hok
  exact hok

/-- The next event is passed over, or received. -/
theorem ConnectionOk.advance {conn : Connection Did} {did : Did} {current : Option Nat}
    (h : ConnectionOk s conn) (hidle : conn.current = none) (hevent : s.events[conn.position]? = some did)
    (hcurrent : current = none ∧ asksFor conn.wantedDids did = false ∨ current = some conn.position) :
    ConnectionOk s { conn with position := conn.position + 1, current } := by
  have hlength := (List.getElem?_eq_some_iff.mp hevent).1
  refine ⟨h.marker, hlength, ?_, ?_, ?_⟩
  · intro i hi hlt d hd hasks
    rcases Nat.lt_succ_iff_lt_or_eq.mp hlt with hlt | rfl
    · rcases h.received i hi hlt d hd hasks with hp | ht | hc
      · exact .inl hp
      · exact .inr (.inl ht)
      · rw [hidle] at hc
        cases hc
    · rcases hcurrent with ⟨-, hnot⟩ | hcurrent
      · rw [hevent] at hd
        cases hd
        exact absurd hasks (by simp [hnot])
      · exact .inr (.inr hcurrent)
  · intro i hi
    rcases hcurrent with ⟨rfl, -⟩ | rfl
    · cases hi
    · cases hi
      exact Nat.lt_succ_self _
  · intro i hi
    exact Nat.lt_succ_of_lt (h.lastTime i hi)

theorem inv_passOver (h : Inv inclusive s) (hs : step inclusive s .passOver = some t) :
    Inv inclusive t := by
  simp only [step, Option.bind_eq_bind, Option.bind_eq_some_iff] at hs
  obtain ⟨conn, hidle, did, hevent, hs⟩ := hs
  obtain ⟨hphase, hcurrent⟩ := idle_eq_some hidle
  split at hs
  · cases hs
  · rename_i hasks
    cases hs
    have hok := (h.connection hphase).advance hcurrent hevent (.inl ⟨rfl, by simpa using hasks⟩)
    rw [← hcurrent] at hok
    exact h.move hok

/-- A cursor that is saved with nothing in hand passes only what is processed. -/
theorem kept_of_safe {conn : Connection Did} {c : Nat} (h : Inv inclusive s)
    (hphase : s.phase = .connected conn) (hcurrent : conn.current = none) (hsafe : SafeToSave s conn)
    (hc : ∀ i ∈ s.owed, i < resendFrom inclusive c → i < conn.position) {i : Nat} (hi : i ∈ s.owed) :
    i ∈ s.processed ∨ resendFrom inclusive c ≤ i := by
  by_cases hle : resendFrom inclusive c ≤ i
  · exact .inr hle
  · obtain ⟨did, hdid, hevent⟩ := h.wanted i hi
    have hlt := hc i hi (Nat.lt_of_not_le hle)
    rcases (h.connection hphase).received i hi hlt did hevent (hsafe.2 did hdid) with hp | ht | hcur
    · exact .inl hp
    · rw [hsafe.1] at ht
      cases ht
    · rw [hcurrent] at hcur
      cases hcur

theorem inv_receive {save : Bool} (h : Inv inclusive s) (hc : Careful inclusive s (.receive save))
    (hs : step inclusive s (.receive save) = some t) : Inv inclusive t := by
  simp only [step, Option.bind_eq_bind, Option.bind_eq_some_iff] at hs
  obtain ⟨conn, hidle, did, hevent, hs⟩ := hs
  obtain ⟨hphase, hcurrent⟩ := idle_eq_some hidle
  split at hs
  case isFalse => cases hs
  cases hs
  have hok := (h.connection hphase).advance hcurrent hevent (.inr rfl)
  cases save with
  | false => exact h.move hok
  | true =>
    obtain ⟨hsafe, hagain⟩ := hc rfl conn hidle
    have hpassed : ∀ i ∈ s.owed, i < resendFrom inclusive conn.position → i < conn.position := by
      intro i hi hlt
      rw [resendFrom] at hlt
      rcases hagain with rfl | hnot
      · exact hlt
      · have hne : i ≠ conn.position := fun heq => hnot (heq ▸ hi)
        split at hlt <;> omega
    have hlater : Later s { s with
        cursor := some conn.position
        phase := .connected
          { conn with position := conn.position + 1, current := some conn.position } } :=
      ⟨fun hm => hm.congr rfl rfl, ⟨[], by simp⟩, fun _ hi _ => hi, fun _ _ hi => hi⟩
    refine ⟨h.wanted, fun i hi => ?_, ?_, hok.later hlater⟩
    · exact (kept_of_safe h hphase hcurrent hsafe hpassed hi).imp_right fun hle =>
        ⟨conn.position, rfl, hle⟩
    · intro c hcursor
      cases hcursor
      exact (List.getElem?_eq_some_iff.mp hevent).1

/-- A message has come to its end, with its event processed, in a task, or owed to nobody. -/
theorem inv_endMessage {conn : Connection Did} {event : Nat} {tasks processed : List Nat}
    (h : Inv inclusive s) (hbusy : s.busy = some (conn, event))
    (htasks : ∀ i ∈ s.tasks, i ∈ tasks) (hprocessed : ∀ i ∈ s.processed, i ∈ processed)
    (hevent : event ∈ s.owed → event ∈ processed ∨ event ∈ tasks) :
    Inv inclusive { s.endMessage conn event with tasks, processed } := by
  obtain ⟨hphase, hcurrent⟩ := busy_eq_some hbusy
  have hok := h.connection hphase
  refine ⟨h.wanted, fun i hi => (h.kept i hi).imp_left (hprocessed _), h.cursor, ?_⟩
  refine ⟨hok.marker.congr rfl rfl, hok.position, ?_, nofun, ?_⟩
  · intro i hi hlt did hdid hasks
    rcases hok.received i hi hlt did hdid hasks with hp | ht | hc
    · exact .inl (hprocessed i hp)
    · exact .inr (.inl (htasks i ht))
    · rw [hcurrent] at hc
      cases hc
      exact (hevent hi).imp_right .inl
  · intro i hi
    cases hi
    exact hok.current _ hcurrent

theorem inv_endTask {event : Nat} (h : Inv inclusive s)
    (hs : step inclusive s (.endTask event) = some t) : Inv inclusive t := by
  simp only [step] at hs
  split at hs
  case isFalse => cases hs
  cases hs
  have hlater : Later s { s with
      tasks := s.tasks.erase event
      processed := s.processed ++ [event] } := by
    refine ⟨fun hm => hm.congr rfl rfl, ⟨[], by simp⟩, fun _ hi _ => hi, ?_⟩
    rintro i - (hp | ht)
    · exact .inl (List.mem_append_left _ hp)
    · by_cases heq : i = event
      · subst heq
        exact .inl (by simp)
      · exact .inr ((List.mem_erase_of_ne heq).mpr ht)
  exact ⟨h.wanted, fun i hi => (h.kept i hi).imp_left (List.mem_append_left _), h.cursor,
    h.phase.later hlater rfl fun _ _ _ => rfl⟩

theorem inv_failTask {event : Nat} (h : Inv inclusive s)
    (hc : Careful inclusive s (.failTask event))
    (hs : step inclusive s (.failTask event) = some t) : Inv inclusive t := by
  simp only [step] at hs
  split at hs
  case isFalse => cases hs
  cases hs
  have hlater : Later s { s with tasks := s.tasks.erase event } := by
    refine ⟨fun hm => hm.congr rfl rfl, ⟨[], by simp⟩, fun _ hi _ => hi, ?_⟩
    rintro i hi (hp | ht)
    · exact .inl hp
    · have hne : i ≠ event := fun heq => hc (heq ▸ hi)
      exact .inr ((List.mem_erase_of_ne hne).mpr ht)
  exact ⟨h.wanted, h.kept, h.cursor, h.phase.later hlater rfl fun _ _ _ => rfl⟩

theorem inv_stop (h : Inv inclusive s) (hc : Careful inclusive s .stop)
    (hs : step inclusive s .stop = some t) : Inv inclusive t := by
  obtain ⟨conn, hidle, rfl⟩ := Option.map_eq_some_iff.mp hs
  obtain ⟨hphase, hcurrent⟩ := idle_eq_some hidle
  cases hlast : conn.lastTime with
  | none => exact h.move trivial
  | some last =>
    have hlt := (h.connection hphase).lastTime last hlast
    have hpassed : ∀ i ∈ s.owed, i < resendFrom inclusive last → i < conn.position := by
      intro i _ hi
      rw [resendFrom] at hi
      split at hi <;> omega
    refine ⟨h.wanted, fun i hi => ?_, ?_, trivial⟩
    · exact (kept_of_safe h hphase hcurrent (hc conn hidle) hpassed hi).imp_right fun hle =>
        ⟨last, rfl, hle⟩
    · intro c hcursor
      cases hcursor
      exact Nat.lt_of_lt_of_le hlt (h.connection hphase).position

theorem inv_step {act : Action Did} (h : Inv inclusive s) (hc : Careful inclusive s act)
    (hs : (machine inclusive).step s act = some t) : Inv inclusive t := by
  cases act with
  | emit did => exact inv_emit h hc hs
  | want did => exact inv_want h hs
  | unwant did => exact inv_unwant h hs
  | touch => exact inv_touch h hc hs
  | loadCursor ok => exact inv_loadCursor h hc hs
  | loadWanted ok => exact inv_loadWanted h hc hs
  | loadTouch ok => exact inv_loadTouch h hs
  | connect => exact inv_connect h hs
  | passOver => exact inv_passOver h hs
  | receive save => exact inv_receive h hc hs
  | processed =>
    obtain ⟨⟨conn, event⟩, hbusy, rfl⟩ := Option.map_eq_some_iff.mp hs
    exact inv_endMessage h hbusy (fun _ hi => hi) (fun _ hi => List.mem_append_left _ hi)
      fun _ => .inl (by simp)
  | spawned =>
    obtain ⟨⟨conn, event⟩, hbusy, rfl⟩ := Option.map_eq_some_iff.mp hs
    exact inv_endMessage h hbusy (fun _ hi => List.mem_append_left _ hi) (fun _ hi => hi)
      fun _ => .inr (by simp)
  | failed =>
    obtain ⟨⟨conn, event⟩, hbusy, rfl⟩ := Option.map_eq_some_iff.mp hs
    exact inv_endMessage h hbusy (fun _ hi => hi) (fun _ hi => hi)
      fun howed => absurd howed (hc (conn, event) hbusy)
  | endTask event => exact inv_endTask h hs
  | failTask event => exact inv_failTask h hc hs
  | poll =>
    obtain ⟨conn, -, rfl⟩ := Option.map_eq_some_iff.mp hs
    split
    · exact h
    · exact h.move trivial
  | disconnect =>
    obtain ⟨conn, -, rfl⟩ := Option.map_eq_some_iff.mp hs
    exact h.move trivial
  | stop => exact inv_stop h hc hs
  | crash =>
    cases hs
    exact ⟨h.wanted, h.kept, h.cursor, trivial⟩

end Steps

section Runs

variable {acts : List (Action Did)}

/-- Each event of somebody wanted since is processed or will be sent again, and a connection
whose marker is the present one asks for everybody who was wanted at the marker. -/
structure NothingLost (inclusive : Bool) (s : State Did) : Prop where
  kept : ∀ i ∈ s.owed, i ∈ s.processed ∨
    ∃ c, s.cursor = some c ∧ resendFrom inclusive c ≤ i ∧ ∃ did ∈ s.wanted, s.events[i]? = some did
  marker : ∀ conn, s.phase = .connected conn → conn.touchAtConnect = s.touch →
    Covers s.wantedAtTouch conn.wantedDids

theorem nothingLost_of_inv (h : Inv inclusive s) : NothingLost inclusive s := by
  constructor
  case kept =>
    intro i hi
    rcases h.kept i hi with hp | ⟨c, hcursor, hle⟩
    · exact .inl hp
    · exact .inr ⟨c, hcursor, hle, h.wanted i hi⟩
  case marker =>
    intro conn hphase
    exact (h.connection hphase).marker.covers

theorem inv_start : Inv inclusive ({} : State Did) := ⟨nofun, nofun, nofun, trivial⟩

/-- A careful run loses no event. -/
theorem nothing_lost (hr : (machine inclusive).run {} acts = some t)
    (hc : (machine inclusive).Along (Careful inclusive) {} acts) : NothingLost inclusive t :=
  nothingLost_of_inv ((machine inclusive).run_inv_along inv_step inv_start hc hr)

instance (wanted wantedDids : List Did) : Decidable (Covers wanted wantedDids) :=
  inferInstanceAs (Decidable (∀ did ∈ wanted, _))

instance (s : State Did) (conn : Connection Did) : Decidable (SafeToSave s conn) :=
  inferInstanceAs (Decidable (_ ∧ _))

instance (inclusive : Bool) (s : State Did) (act : Action Did) : Decidable (Careful inclusive s act) := by
  cases act <;> dsimp only [Careful] <;> infer_instance

/-- An event of somebody who is followed, on a connection that saves the cursor first and one
that starts at it -/
def resumed : List (Action String) :=
  [.loadCursor true, .loadWanted true, .loadTouch true, .connect, .emit "x", .receive true, .processed,
    .want "a", .touch, .poll, .loadCursor true, .loadWanted true, .loadTouch true, .connect,
    .emit "a", .passOver, .receive true, .spawned, .crash, .loadCursor true, .loadWanted true,
    .loadTouch true, .connect, .receive false, .spawned, .endTask 1]

theorem nothing_lost_resumed : ∃ t, (machine true).run {} resumed = some t ∧ t.processed = [0, 1] ∧
    NothingLost true t := by
  have hr : (machine true).run {} resumed = some _ := rfl
  exact ⟨_, hr, rfl, nothing_lost hr (by decide)⟩

/-- An event that cannot be processed is skipped, and the next one takes the cursor past it. -/
def skipped : List (Action String) :=
  [.loadCursor true, .loadWanted true, .loadTouch true, .connect, .emit "x", .receive true, .processed,
    .want "a", .emit "a", .receive false, .failed, .emit "a", .receive true, .processed]

/-- In the state that this leads to, the event is lost. -/
def IsLost (inclusive : Bool) : Prop :=
  ∃ t, (machine inclusive).run {} skipped = some t ∧
    t.owed = [1, 2] ∧ t.processed = [0, 2] ∧ t.cursor = some 2 ∧ ¬ NothingLost inclusive t

theorem isLost (inclusive : Bool) : IsLost inclusive := by
  refine ⟨_, rfl, rfl, rfl, rfl, fun h => ?_⟩
  have howed : 1 ∈ [1, 2] := by decide
  rcases h.kept 1 howed with hp | ⟨c, hcursor, hle, -⟩
  · have hnot : 1 ∉ [0, 2] := by decide
    exact hnot hp
  · have hcursor : some 2 = some c := hcursor
    cases hcursor
    exact absurd hle (by cases inclusive <;> decide)

theorem nothing_lost_counterexample : IsLost true ∧ IsLost false := ⟨isLost true, isLost false⟩

end Runs

end Seiran.Jetstream
