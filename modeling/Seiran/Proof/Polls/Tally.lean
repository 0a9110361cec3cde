import Seiran.Framework.Except
import Seiran.Model.Polls.Vote

/-!
# The tallies of a poll

* `Fair`: a vote from outside comes before the poll has closed, and is the first of
  its voter if only one may be given;
* `exact_step`: a fair vote keeps the tallies, the votes of each voter and the
  times in order;
* `tallies_exact`: so they are in every state that fair votes reach.
-/

namespace Seiran.Polls

variable {used : List String} {s s' t : State} {act : Action} {as : List Action} {poll poll' : Poll}
  {votes votes' : List PollVote} {now : Nat} {actorId : Int64} {indexes : List Nat}

section Tallies

/-- The votes are those of the rows. -/
def Tallied (poll : Poll) (votes : List PollVote) : Prop :=
  ∀ i o, poll.options[i]? = some o → o.votes = votes.countP (·.optionIndex == i)

/-- The poll and its rows -/
structure Exact (poll : Poll) (votes : List PollVote) : Prop where
  tallied : Tallied poll votes
  /-- One vote for each voter, where only one may be given -/
  single : poll.multiple = false → (votes.map PollVote.actorId).Nodup
  /-- No vote is counted after the poll has closed. -/
  inTime : ∀ v ∈ votes, ∀ at_ ∈ poll.closedAt, v.createdAt < at_

theorem incrementPollVotes_eq_some (h : incrementPollVotes poll indexes = some poll') :
    poll'.multiple = poll.multiple ∧ poll'.closedAt = poll.closedAt ∧
      ∀ i o, poll'.options[i]? = some o → ∃ o', poll.options[i]? = some o' ∧
        o.votes = o'.votes + if i ∈ indexes then 1 else 0 := by
  rw [incrementPollVotes] at h
  split at h
  · cases h
  · cases h
    refine ⟨rfl, rfl, fun i o hi => ?_⟩
    rw [List.getElem?_mapIdx, Option.map_eq_some_iff] at hi
    obtain ⟨o', ho', rfl⟩ := hi
    refine ⟨o', ho', ?_⟩
    by_cases hmem : i ∈ indexes <;> simp [hmem]

theorem countP_indexes (hnodup : indexes.Nodup) (i : Nat) (row : Nat → PollVote)
    (hrow : ∀ j, (row j).optionIndex = j) :
    (indexes.map row).countP (·.optionIndex == i) = if i ∈ indexes then 1 else 0 := by
  have hsame : ((·.optionIndex == i) ∘ row : Nat → Bool) = (· == i) := by
    funext j
    simp [hrow]
  rw [List.countP_map, hsame]
  exact hnodup.count

theorem tallied_increment (h : Tallied poll votes) (hnodup : indexes.Nodup)
    (hinc : incrementPollVotes poll indexes = some poll') (row : Nat → PollVote)
    (hrow : ∀ j, (row j).optionIndex = j) : Tallied poll' (votes ++ indexes.map row) := by
  intro i o hi
  obtain ⟨o', ho', heq⟩ := (incrementPollVotes_eq_some hinc).2.2 i o hi
  rw [heq, h i o' ho', List.countP_append, countP_indexes hnodup i row hrow]

end Tallies

section Votes

theorem validateVote_eq_ok {optionIndexes : List Nat}
    (h : validateVote poll now optionIndexes = .ok indexes) :
    indexes.Nodup ∧ (poll.multiple = false → indexes.length = 1) ∧
      ∀ at_ ∈ poll.closedAt, now < at_ := by
  simp only [validateVote] at h
  split at h
  · cases h
  · rename_i hvalid
    split at h
    · cases h
    · rename_i hopen
      cases h
      refine ⟨List.nodup_dedup _, fun hmultiple => ?_, fun at_ hat => ?_⟩
      · by_contra hne
        refine hvalid ?_
        simp [hmultiple, hne]
      · by_contra hle
        refine hopen ?_
        have hat : poll.closedAt = some at_ := hat
        rw [hat]
        simpa using hle

/-- A local vote is checked, and recorded with its tally. -/
theorem exact_local (h : Exact poll votes) {optionIndexes : List Nat}
    (hrec : recordLocalVote poll votes now actorId optionIndexes = .ok (poll', votes')) :
    Exact poll' votes' := by
  obtain ⟨indexes, hvalid, hrec⟩ := bind_eq_ok.mp hrec
  obtain ⟨hnodup, hone, hopen⟩ := validateVote_eq_ok hvalid
  by_cases hvoted : votes.any (·.actorId == actorId) = true
  · rw [if_pos hvoted] at hrec
    cases hrec
  rw [if_neg hvoted] at hrec
  have hnew : ∀ v ∈ votes, v.actorId ≠ actorId := by simpa using hvoted
  cases hinc : incrementPollVotes poll indexes with
  | none =>
    rw [hinc] at hrec
    cases hrec
  | some poll₁ =>
    rw [hinc] at hrec
    cases hrec
    obtain ⟨hmultiple, hclosed, -⟩ := incrementPollVotes_eq_some hinc
    refine ⟨tallied_increment h.tallied hnodup hinc _ fun _ => rfl, fun hm => ?_, fun v hv => ?_⟩
    · rw [hmultiple] at hm
      obtain ⟨i, rfl⟩ := List.length_eq_one_iff.mp (hone hm)
      rw [List.map_append, List.nodup_append]
      refine ⟨h.single hm, by simp, fun a ha b hb => ?_⟩
      obtain ⟨v, hv, rfl⟩ := List.mem_map.mp ha
      have hb : b = actorId := by simpa using hb
      rw [hb]
      exact hnew v hv
    · rw [hclosed]
      rcases List.mem_append.mp hv with hv | hv
      · exact h.inTime v hv
      · obtain ⟨i, -, rfl⟩ := List.mem_map.mp hv
        exact hopen

/-- The vote comes before the poll has closed, and is the first of its voter if only
one may be given. -/
def InOrder (poll : Poll) (votes : List PollVote) (now : Nat) (actorId : Int64) : Prop :=
  (∀ at_ ∈ poll.closedAt, now < at_) ∧
    (poll.multiple = false → ∀ v ∈ votes, v.actorId ≠ actorId)

theorem exact_remote (h : Exact poll votes) {index : Nat} {apActivityId : Option String}
    (hindex : index < poll.options.length)
    (horder : conflicts votes used actorId index apActivityId = false →
      InOrder poll votes now actorId)
    (hrec : recordRemoteVote poll votes used now actorId index apActivityId = (poll', votes')) :
    Exact poll' votes' := by
  rw [recordRemoteVote] at hrec
  split at hrec
  · cases hrec
    exact h
  · rename_i hnew
    obtain ⟨hopen, hfirst⟩ := horder (by simpa using hnew)
    cases hinc : incrementPollVotes poll [index] with
    | none =>
      -- a poll with an option has options
      rw [incrementPollVotes, if_neg (List.ne_nil_of_length_pos (by omega))] at hinc
      cases hinc
    | some poll₁ =>
      rw [hinc] at hrec
      cases hrec
      obtain ⟨hmultiple, hclosed, -⟩ := incrementPollVotes_eq_some hinc
      refine ⟨tallied_increment h.tallied (List.nodup_singleton index) hinc
        (fun i => ⟨actorId, i, apActivityId, now⟩) fun _ => rfl, fun hm => ?_, fun v hv => ?_⟩
      · rw [Option.getD_some, hmultiple] at hm
        rw [List.map_append, List.nodup_append]
        refine ⟨h.single hm, by simp, fun a ha b hb => ?_⟩
        obtain ⟨v, hv, rfl⟩ := List.mem_map.mp ha
        have hb : b = actorId := by simpa using hb
        rw [hb]
        exact hfirst hm v hv
      · rw [Option.getD_some, hclosed]
        rcases List.mem_append.mp hv with hv | hv
        · exact h.inTime v hv
        · have hv := List.mem_singleton.mp hv
          subst hv
          exact hopen

end Votes

section Runs

/-- A vote from outside that is recorded is in order. -/
def Fair (used : List String) (s : State) : Action → Prop
  | .tick _ => True
  | .votePoll _ _ => True
  | .handlePollVote actorId optionName apActivityId =>
    ∀ index ∈ s.poll.position optionName,
      conflicts s.votes used actorId index apActivityId = false →
        InOrder s.poll s.votes s.now actorId

theorem position_lt {optionName : String} {index : Nat}
    (h : poll.position optionName = some index) : index < poll.options.length :=
  (List.findIdx?_eq_some_iff_getElem.mp h).1

theorem exact_step (h : Exact s.poll s.votes) (hfair : Fair used s act)
    (hs : step used s act = some s') : Exact s'.poll s'.votes := by
  cases act with
  | tick seconds =>
    cases hs
    exact h
  | votePoll actorId optionIndexes =>
    simp only [step] at hs
    split at hs
    · cases hs
      exact h
    split at hs
    · cases hs
      exact h
    · rename_i hrec
      cases hs
      exact exact_local h hrec
  | handlePollVote actorId optionName apActivityId =>
    simp only [step] at hs
    split at hs
    · cases hs
      exact h
    · rename_i index hindex
      cases hs
      exact exact_remote h (position_lt hindex) (hfair index hindex) rfl

theorem exact_start (multiple : Bool) (choices : List String) (endTime : Option Nat) (now : Nat) :
    Exact (start multiple choices endTime now).poll (start multiple choices endTime now).votes := by
  refine ⟨fun i o hi => ?_, fun _ => List.nodup_nil, fun v hv => ?_⟩
  · simp only [start, buildPoll, List.getElem?_map, Option.map_eq_some_iff] at hi
    obtain ⟨name, -, rfl⟩ := hi
    rfl
  · cases hv

/-- Fair votes keep the tallies, the votes of each voter and the times in order. -/
theorem tallies_exact {multiple : Bool} {choices : List String} {endTime : Option Nat}
    (hr : (machine used).run (start multiple choices endTime now) as = some t)
    (hfair : (machine used).Along (Fair used) (start multiple choices endTime now) as) :
    Exact t.poll t.votes :=
  (machine used).run_inv_along (I := fun s => Exact s.poll s.votes) exact_step
    (exact_start multiple choices endTime now) hfair hr

instance (poll : Poll) (votes : List PollVote) (now : Nat) (actorId : Int64) :
    Decidable (InOrder poll votes now actorId) :=
  inferInstanceAs (Decidable (_ ∧ _))

instance (used : List String) (s : State) (act : Action) : Decidable (Fair used s act) := by
  cases act <;> dsimp only [Fair] <;> infer_instance

/-- Votes from both sides, of which one is delivered again -/
def voted : List Action :=
  [.votePoll 1 [1], .handlePollVote 2 "tea" (some "https://remote.example/votes/1"), .tick 5,
    .handlePollVote 2 "tea" (some "https://remote.example/votes/1")]

theorem tallies_exact_voted : ∃ t,
    (machine []).run (start false ["tea", "coffee"] (some 10) 0) voted = some t ∧
      t.poll.options.map PollOption.votes = [1, 1] ∧ Exact t.poll t.votes := by
  have hr : (machine []).run (start false ["tea", "coffee"] (some 10) 0) voted = some _ := rfl
  exact ⟨_, hr, by decide, tallies_exact hr (by decide)⟩

/-- A voter from outside chooses both, the second one after the poll has closed. -/
theorem tallies_exact_counterexample : ∃ t,
    (machine []).run (start false ["tea", "coffee"] (some 10) 0)
      [.handlePollVote 2 "tea" (some "https://remote.example/votes/1"), .tick 60,
        .handlePollVote 2 "coffee" (some "https://remote.example/votes/2")] = some t ∧
      t.poll.options.map PollOption.votes = [1, 1] ∧ t.votes.map PollVote.actorId = [2, 2] ∧
      t.votes.map PollVote.createdAt = [0, 60] ∧ t.poll.closedAt = some 10 ∧
      ¬ Exact t.poll t.votes := by
  refine ⟨_, rfl, by decide, by decide, by decide, by decide, fun h => ?_⟩
  exact absurd (h.single rfl) (by decide)

end Runs

end Seiran.Polls
