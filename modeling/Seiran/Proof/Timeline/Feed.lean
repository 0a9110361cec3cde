import Mathlib.Data.List.Dedup
import Seiran.Proof.Timeline.Snowflake

/-!
# The two ways to a feed

`qualifying` are the posts of the targets that the source admits between two
ids, and both ways take the first of them:

* `lateralIds_eq`: the way by targets, for every page;
* `widen_eq`: the windows, from a bound that is not below the floors of the
  windows that are left;
* `windowedIds_eq`: so the windows stop at `until`, except where `until` is
  negative and `since` below -1: the first window ends at -1, above `until`, and
  the search goes on from 0.
-/

namespace Seiran.Timeline

open TopN

section Floor

theorem toInt_snowflakeIdFloor {ms : Int} (h : ms < 2 ^ 47) :
    (snowflakeIdFloor ms).toInt = max ms 0 * 2 ^ 16 := by
  rw [toInt_floor, idTime_of_range (by omega) (by omega)]

/-- The lower end of a window. -/
theorem toInt_floor_sub_one {ms : Int} (h : ms < 2 ^ 47) :
    (snowflakeIdFloor ms - 1).toInt = max ms 0 * 2 ^ 16 - 1 := by
  rw [I64.toInt_sub_one (by rw [toInt_snowflakeIdFloor h]; omega), toInt_snowflakeIdFloor h]

/-- The ids of posts from 1970 on are those that are not negative. -/
theorem generateSnowflakeId_nonneg_iff {now createdAt : Int} (sequence : Nat)
    (hlow : -2 ^ 47 ≤ min createdAt now) (hhigh : min createdAt now < 2 ^ 47) :
    0 ≤ generateSnowflakeId now createdAt sequence ↔ 0 ≤ min createdAt now := by
  have hzero : (0 : Int64).toInt = 0 := rfl
  rw [I64.le_iff, hzero, toInt_generate, idTime_of_range hlow hhigh]
  omega

theorem snowflakeIdTime_lt (id : Int64) : snowflakeIdTime id < 2 ^ 47 := by
  have := I64.toInt_range id
  rw [snowflakeIdTime]
  omega

end Floor

/-- Among rows that are not beyond the next id, none is ahead of a row. -/
theorem ahead_eq_zero {β : Type} {key : β → Int64} {rows : List β} {x : β}
    (hmax : key x < Int64.maxValue) (h : ∀ y ∈ rows, key y < key x + 1) : ahead key rows x = 0 := by
  have hnext := I64.toInt_add_one (I64.lt_iff.mp hmax : (key x).toInt < 2 ^ 63 - 1)
  refine List.countP_eq_zero.mpr fun y hy hlt => ?_
  have hle := I64.lt_iff.mp (h y hy)
  have hlt' := I64.lt_iff.mp (of_decide_eq_true hlt)
  omega

/-- An id is between its neighbours. -/
theorem between_neighbours {id : Int64} (hmin : Int64.minValue < id) (hmax : id < Int64.maxValue) :
    id - 1 < id ∧ id < id + 1 := by
  have hlower := I64.toInt_sub_one (I64.lt_iff.mp hmin : -2 ^ 63 < id.toInt)
  have hupper := I64.toInt_add_one (I64.lt_iff.mp hmax : id.toInt < 2 ^ 63 - 1)
  rw [I64.lt_iff, I64.lt_iff]
  omega

variable (db : Database)

/-- A post of a target that the source admits. -/
def Tables.qualifies (db : Tables) (source : FeedSource) (p : Post) : Bool :=
  !p.deleted && db.isTarget source p && db.postFilter source p

def Tables.qualifying (db : Tables) (source : FeedSource) (upper lower : Int64) : List Post :=
  db.posts.filter fun p => between upper lower p && db.isTarget source p && db.postFilter source p

section Qualifying

variable {db}

theorem mem_qualifying {source : FeedSource} {upper lower : Int64} {p : Post} :
    p ∈ db.qualifying source upper lower ↔
      p ∈ db.posts ∧ db.qualifies source p ∧ lower < p.id ∧ p.id < upper := by
  simp only [Tables.qualifying, Tables.qualifies, Tables.between, List.mem_filter,
    Bool.and_eq_true, decide_eq_true_eq]
  tauto

theorem nodup_posts (q : Post → Bool) : ((db.posts.filter q).map Post.id).Nodup :=
  db.posts_pkey.sublist (List.filter_sublist.map Post.id)

theorem nodup_qualifying (db : Database) (source : FeedSource) (upper lower : Int64) :
    ((db.qualifying source upper lower).map Post.id).Nodup := nodup_posts _

theorem qualifying_eq {source : FeedSource} {upper lower upper' lower' : Int64}
    (h : ∀ p ∈ db.posts, db.qualifies source p →
      (lower < p.id ∧ p.id < upper ↔ lower' < p.id ∧ p.id < upper')) :
    db.qualifying source upper lower = db.qualifying source upper' lower' := by
  refine List.filter_congr fun p hp => ?_
  have := h p hp
  simp only [Tables.qualifies, Bool.and_eq_true] at this
  rw [Bool.eq_iff_iff]
  simp only [Tables.between, Bool.and_eq_true, decide_eq_true_eq]
  tauto

end Qualifying

/-- The first of the qualifying posts between two ids. -/
def Tables.firstIds (db : Tables) (source : FeedSource) (n : Nat) (upper lower : Int64) :
    List Int64 :=
  (top Post.id n (db.qualifying source upper lower)).map Post.id

section Lateral

theorem mem_targets (source : FeedSource) (p : Post) :
    p.actorId ∈ db.targets source ↔ db.isTarget source p = true := by
  cases source with
  | following viewer excludeDirect =>
    simp only [Tables.targets, Tables.isTarget, List.mem_dedup, List.mem_cons, List.mem_map,
      List.mem_filter, Bool.and_eq_true, Bool.or_eq_true, beq_iff_eq, List.any_eq_true]
    refine or_congr_right (exists_congr fun f => ?_)
    tauto
  | listMembers listId =>
    simp only [Tables.targets, Tables.isTarget, List.mem_map, List.mem_filter, Bool.and_eq_true,
      beq_iff_eq, List.any_eq_true]
    exact exists_congr fun m => and_assoc

theorem nodup_targets (source : FeedSource) : (db.targets source).Nodup := by
  cases source with
  | following viewer excludeDirect => exact List.nodup_dedup _
  | listMembers listId =>
    have hkey : (db.listMembers.filter fun lm => lm.listId == listId).Pairwise fun a b =>
        (a.listId, a.actorId) ≠ (b.listId, b.actorId) :=
      (List.pairwise_map.mp db.list_members_key).sublist List.filter_sublist
    refine List.pairwise_map.mpr (hkey.imp_of_mem ?_)
    intro a b ha hb hne heq
    have ha' := (List.mem_filter.mp ha).2
    have hb' := (List.mem_filter.mp hb).2
    rw [beq_iff_eq] at ha' hb'
    exact hne (by rw [ha', hb', heq])

theorem lateralIds_eq (source : FeedSource) (page : FeedPage) :
    db.lateralIds source page = db.firstIds source page.limit.toNat (untilOrMax page.untilId)
      (sinceOrZero page.sinceId) := by
  have hnodup : (((db.targets source).flatMap fun t => db.posts.filter fun p =>
      p.actorId == t && Tables.between (untilOrMax page.untilId) (sinceOrZero page.sinceId) p &&
        db.postFilter source p).map Post.id).Nodup := by
    refine List.Nodup.map_on (fun p hp q hq heq => ?_) ?_
    · obtain ⟨t, -, hp⟩ := List.mem_flatMap.mp hp
      obtain ⟨u, -, hq⟩ := List.mem_flatMap.mp hq
      exact List.inj_on_of_nodup_map db.posts_pkey (List.mem_filter.mp hp).1
        (List.mem_filter.mp hq).1 heq
    · refine List.nodup_flatMap.mpr ⟨fun t _ => (nodup_posts _).of_map, ?_⟩
      refine (nodup_targets db source).imp fun {t u} htu => ?_
      intro p hpt hpu
      have ht := (List.mem_filter.mp hpt).2
      have hu := (List.mem_filter.mp hpu).2
      simp only [Bool.and_eq_true, beq_iff_eq] at ht hu
      exact htu (ht.1.1.symm.trans hu.1.1)
  rw [Tables.lateralIds, top_flatMap_top hnodup, Tables.firstIds]
  refine congrArg (List.map Post.id) (top_congr hnodup (nodup_posts _) fun p => ?_)
  have hp := mem_targets db source p
  simp only [List.mem_flatMap, List.mem_filter, Tables.qualifying, Bool.and_eq_true, beq_iff_eq]
  constructor
  · rintro ⟨t, ht, hmem, ⟨heq, hbetween⟩, hfilter⟩
    exact ⟨hmem, ⟨hbetween, hp.mp (heq ▸ ht)⟩, hfilter⟩
  · rintro ⟨hmem, ⟨hbetween, htarget⟩, hfilter⟩
    exact ⟨p.actorId, hp.mpr htarget, hmem, ⟨rfl, hbetween⟩, hfilter⟩

end Lateral

section Windows

variable {db} {source : FeedSource}

theorem length_firstIds_le (db : Tables) (source : FeedSource) (n : Nat) (upper lower : Int64) :
    (db.firstIds source n upper lower).length ≤ n := by
  rw [Tables.firstIds, List.length_map, length_top]
  exact Nat.min_le_left _ _

theorem firstIds_zero (upper lower : Int64) : db.firstIds source 0 upper lower = [] := by
  rw [Tables.firstIds, top, List.take_zero, List.map_nil]

/-- A window and what is below it. -/
theorem firstIds_eq_append (db : Database) (source : FeedSource) {upper lower next since : Int64}
    (n : Nat) (hsince : since ≤ lower)
    (hnext : next.toInt = lower.toInt + 1) (hupper : next ≤ upper) :
    db.firstIds source n upper since = db.firstIds source n upper lower ++
      db.firstIds source (n - (db.firstIds source n upper lower).length) next since := by
  rw [I64.le_iff] at hsince hupper
  have hhigh : (db.qualifying source upper since).filter (fun p => decide (lower < p.id)) =
      db.qualifying source upper lower := by
    rw [Tables.qualifying, List.filter_filter]
    refine List.filter_congr fun p _ => ?_
    have : lower < p.id → since < p.id := fun h => by rw [I64.lt_iff] at h ⊢; omega
    rw [Bool.eq_iff_iff]
    simp only [Tables.between, Bool.and_eq_true, decide_eq_true_eq]
    tauto
  have hlow : (db.qualifying source upper since).filter (fun p => !decide (lower < p.id)) =
      db.qualifying source next since := by
    rw [Tables.qualifying, List.filter_filter]
    refine List.filter_congr fun p _ => ?_
    have : ¬ lower < p.id ∧ p.id < upper ↔ p.id < next := by
      rw [I64.lt_iff, I64.lt_iff, I64.lt_iff]
      omega
    rw [Bool.eq_iff_iff]
    simp only [Tables.between, Bool.and_eq_true, Bool.not_eq_true', decide_eq_true_eq,
      decide_eq_false_iff_not]
    tauto
  have hsplit := @top_eq_append _ _ _ _ _ n (nodup_qualifying db source upper since)
    (fun p => decide (lower < p.id)) fun x _ y _ hx hy => by
      rw [decide_eq_true_eq] at hx hy
      exact lt_of_le_of_lt (not_lt.mp hy) hx
  rw [hhigh, hlow] at hsplit
  rw [Tables.firstIds, hsplit, List.map_append, Tables.firstIds, Tables.firstIds, List.length_map]

variable {page : FeedPage} {anchor : Int}

/-- The windows that are left find the first posts below `upper`, where `upper`
is not below the floor of any of them. -/
theorem widen_eq (page : FeedPage) (hanchor : anchor < 2 ^ 47) {hours : List Int} (hpos : ∀ h ∈ hours, 0 ≤ h)
    (hsorted : hours.Pairwise (· ≤ ·)) {upper : Int64} {ids : List Int64}
    (hupper : ∀ h ∈ hours, snowflakeIdFloor (anchor - h * 3600000) ≤ upper)
    (hids : (ids.length : Int) < page.limit) :
    db.widen source page anchor hours upper ids =
      ids ++ db.firstIds source (page.limit.toNat - ids.length) upper (sinceOrZero page.sinceId) := by
  induction hours generalizing upper ids with
  | nil =>
    rw [Tables.widen, lateralIds_eq]
    have : (page.limit - ids.length).toNat = page.limit.toNat - ids.length := by omega
    rw [this]
    rfl
  | cons h hours ih =>
    obtain ⟨hle, hsorted'⟩ := List.pairwise_cons.mp hsorted
    have hh := hpos h List.mem_cons_self
    have hms : anchor - h * 3600000 < 2 ^ 47 := by omega
    have hfloor := toInt_snowflakeIdFloor hms
    have hlower := toInt_floor_sub_one hms
    have hremaining : (page.limit - ids.length).toNat = page.limit.toNat - ids.length := by omega
    rw [Tables.widen]
    generalize hw : max (snowflakeIdFloor (anchor - h * 3600000) - 1)
      (sinceOrZero page.sinceId) = lower
    have hwindow : db.windowIds source upper lower (page.limit - ids.length) =
        db.firstIds source (page.limit.toNat - ids.length) upper lower := by
      rw [Tables.windowIds, hremaining]
      rfl
    rw [hwindow]
    by_cases hsince : lower = sinceOrZero page.sinceId
    · rw [if_pos (.inr hsince), hsince]
    · -- a window that does not reach `since` ends right below its floor
      have hlt : sinceOrZero page.sinceId < snowflakeIdFloor (anchor - h * 3600000) - 1 := by
        by_contra hge
        exact hsince (hw ▸ max_eq_right (not_lt.mp hge))
      have heq : lower = snowflakeIdFloor (anchor - h * 3600000) - 1 := by
        rw [← hw]
        exact max_eq_left hlt.le
      have hnext : (lower + 1).toInt = lower.toInt + 1 := by
        refine I64.toInt_add_one ?_
        rw [heq, hlower]
        omega
      have hnextfloor : lower + 1 = snowflakeIdFloor (anchor - h * 3600000) := by
        refine Int64.toInt_inj.mp ?_
        rw [hnext, heq, hlower, hfloor]
        omega
      have hle' : sinceOrZero page.sinceId ≤ lower := by
        rw [heq]
        exact hlt.le
      have hsplit := firstIds_eq_append db source (page.limit.toNat - ids.length) hle' hnext
        (hnextfloor ▸ hupper h List.mem_cons_self)
      rw [hsplit, ← List.append_assoc]
      have hlen := length_firstIds_le db.toTables source (page.limit.toNat - ids.length) upper lower
      by_cases hfull : page.limit ≤
          (ids ++ db.firstIds source (page.limit.toNat - ids.length) upper lower).length
      · rw [if_pos (.inl hfull)]
        rw [List.length_append] at hfull
        have : page.limit.toNat - ids.length - (db.firstIds source
            (page.limit.toNat - ids.length) upper lower).length = 0 := by omega
        rw [this, firstIds_zero, List.append_nil]
      · rw [if_neg (not_or.mpr ⟨hfull, hsince⟩)]
        rw [ih (fun h' hh' => hpos h' (List.mem_cons_of_mem h hh')) hsorted' ?_ (by omega)]
        · rw [List.length_append, ← Nat.sub_sub]
        · intro h' hh'
          have hle' := hle h' hh'
          rw [I64.le_iff, hnextfloor, hfloor, toInt_snowflakeIdFloor (by omega)]
          omega

/-- Where the windows begin to look below `until`. -/
def stop (untilId : Option Int64) (since : Int64) : Int64 :=
  if untilOrMax untilId < 0 ∧ since < -1 then 0 else untilOrMax untilId

theorem untilOrMax_nonneg_or {untilId : Option Int64} (h : ¬ untilOrMax untilId < 0) :
    ∀ hours : Int, 0 ≤ hours → ∀ now : Clock,
      snowflakeIdFloor ((untilId.map snowflakeIdTime).getD now.ms - hours * 3600000) ≤
        untilOrMax untilId := by
  intro hours hhours now
  rw [I64.lt_iff] at h
  have hzero : (0 : Int64).toInt = 0 := rfl
  have hnow := now.inRange
  cases untilId with
  | none =>
    have hmax : (untilOrMax none).toInt = 2 ^ 63 - 1 := rfl
    rw [Option.map_none, Option.getD_none, I64.le_iff, toInt_snowflakeIdFloor (by omega), hmax]
    omega
  | some u =>
    have hu := snowflakeIdTime_lt u
    have huntil : untilOrMax (some u) = u := rfl
    rw [Option.map_some, Option.getD_some, I64.le_iff, toInt_snowflakeIdFloor (by omega), huntil]
    rw [huntil] at h
    rw [snowflakeIdTime] at hu ⊢
    omega

theorem snowflakeIdFloor_of_nonpos {ms : Int} (h : ms ≤ 0) : snowflakeIdFloor ms = 0 := by
  refine Int64.toInt_inj.mp ?_
  rw [toInt_snowflakeIdFloor (by omega)]
  show max ms 0 * 2 ^ 16 = 0
  omega

theorem firstIds_eq_nil {n : Nat} {upper lower : Int64} (h : upper ≤ lower) :
    db.firstIds source n upper lower = [] := by
  have hnil : db.qualifying source upper lower = [] := by
    refine List.filter_eq_nil_iff.mpr fun p _ hp => ?_
    simp only [Tables.between, Bool.and_eq_true, decide_eq_true_eq] at hp
    exact absurd (hp.1.1.2.trans hp.1.1.1.2) (not_lt.mpr h)
  rw [Tables.firstIds, hnil]
  simp [top, descending]

/-- A negative `until`: every window ends at -1, or at `since` above it. -/
theorem widen_of_neg {upper : Int64} (hneg : upper < 0) (hanchor : anchor ≤ 0)
    (hlimit : 0 < page.limit) :
    db.widen source page anchor WINDOW_HOURS upper [] = db.firstIds source page.limit.toNat
      (if sinceOrZero page.sinceId < -1 then 0 else upper) (sinceOrZero page.sinceId) := by
  have hfirst : snowflakeIdFloor (anchor - 1 * 3600000) - 1 = -1 := by
    rw [snowflakeIdFloor_of_nonpos (by omega)]
    rfl
  have hlen : page.limit - (([] : List Int64).length : Int) = page.limit := by simp
  rw [WINDOW_HOURS, Tables.widen, hfirst, hlen, List.nil_append]
  by_cases hsince : sinceOrZero page.sinceId < -1
  · have hmax : max (-1) (sinceOrZero page.sinceId) = -1 := max_eq_left hsince.le
    have hempty : db.windowIds source upper (-1) page.limit = [] := by
      refine firstIds_eq_nil (n := page.limit.toNat) ?_
      rw [I64.lt_iff] at hneg
      rw [I64.le_iff]
      show upper.toInt ≤ -1
      have : upper.toInt < 0 := hneg
      omega
    have hfloors : ∀ h ∈ [(24 : Int), 168], snowflakeIdFloor (anchor - h * 3600000) ≤ 0 := by
      intro h hh
      have : 0 ≤ h := by
        rcases List.mem_cons.mp hh with rfl | hh
        · decide
        · rw [List.mem_singleton.mp hh]
          decide
      exact le_of_eq (snowflakeIdFloor_of_nonpos (by omega))
    rw [hmax, hempty, if_neg ?_, if_pos hsince]
    · show db.widen source page anchor [24, 168] 0 [] = _
      rw [widen_eq page (by omega) (by decide) (by decide) hfloors (by simpa using hlimit)]
      rfl
    · rintro (hfull | heq)
      · rw [List.length_nil] at hfull
        omega
      · rw [← heq] at hsince
        exact lt_irrefl _ hsince
  · have hmax : max (-1) (sinceOrZero page.sinceId) = sinceOrZero page.sinceId :=
      max_eq_right (not_lt.mp hsince)
    rw [hmax, if_pos (.inr rfl), if_neg hsince]
    rfl

theorem windowedIds_eq (now : Clock) (hlimit : 0 < page.limit) :
    db.windowedIds now source page = db.firstIds source page.limit.toNat
      (stop page.untilId (sinceOrZero page.sinceId)) (sinceOrZero page.sinceId) := by
  have hhours : ∀ h ∈ WINDOW_HOURS, (0 : Int) ≤ h := by decide
  have hsorted : WINDOW_HOURS.Pairwise (· ≤ ·) := by decide
  rw [Tables.windowedIds, stop]
  by_cases hneg : untilOrMax page.untilId < 0
  · cases huntil : page.untilId with
    | none =>
      rw [huntil] at hneg
      exact absurd hneg (by decide)
    | some u =>
      rw [huntil] at hneg
      have hanchor : snowflakeIdTime u ≤ 0 := by
        have : u.toInt < 0 := I64.lt_iff.mp hneg
        rw [snowflakeIdTime]
        omega
      rw [Option.map_some, Option.getD_some, widen_of_neg hneg hanchor hlimit]
      simp only [hneg, true_and]
  · rw [if_neg (fun h => hneg h.1), widen_eq page ?_ hhours hsorted
      (fun h hh => untilOrMax_nonneg_or hneg h (hhours h hh) now) (by simpa using hlimit)]
    · rfl
    · cases page.untilId with
      | none => exact now.inRange
      | some u => exact snowflakeIdTime_lt u

end Windows

section Pages

open Paging

variable {db} {source : FeedSource}

theorem mem_firstIds {n : Nat} {upper lower id : Int64}
    (h : id ∈ db.firstIds source n upper lower) : lower < id ∧ id < upper := by
  obtain ⟨p, hp, rfl⟩ := List.mem_map.mp h
  exact (mem_qualifying.mp (mem_of_mem_top hp)).2.2

/-- Two bounds give the same ids where no qualifying post is between them. -/
theorem firstIds_eq_iff {n : Nat} (hn : 0 < n) {upper upper' lower : Int64} (hle : upper ≤ upper') :
    db.firstIds source n upper' lower = db.firstIds source n upper lower ↔
      ∀ p ∈ db.posts, db.qualifies source p → lower < p.id → p.id < upper' → p.id < upper := by
  constructor
  · intro heq p hp hq hlower hupper
    by_contra hge
    have hmem : p ∈ db.qualifying source upper' lower := mem_qualifying.mpr ⟨hp, hq, hlower, hupper⟩
    -- a post at or above `upper` among the first below `upper'`
    have hhigh : ∃ q ∈ top Post.id n (db.qualifying source upper' lower), upper ≤ q.id := by
      by_cases htop : p ∈ top Post.id n (db.qualifying source upper' lower)
      · exact ⟨p, htop, not_lt.mp hge⟩
      · have hne : top Post.id n (db.qualifying source upper' lower) ≠ [] :=
          fun hnil => List.ne_nil_of_mem hmem ((top_eq_nil hn).mp hnil)
        obtain ⟨q, hq⟩ := List.exists_mem_of_ne_nil _ hne
        exact ⟨q, hq, (not_lt.mp hge).trans
          (lt_of_mem_top_of_not_mem (nodup_posts _) hmem htop hq).le⟩
    obtain ⟨q, hq, hle'⟩ := hhigh
    have hqid : q.id ∈ db.firstIds source n upper' lower := List.mem_map.mpr ⟨q, hq, rfl⟩
    rw [heq] at hqid
    exact absurd (mem_firstIds hqid).2 (not_lt.mpr hle')
  · intro h
    rw [Tables.firstIds, Tables.firstIds, qualifying_eq fun p hp hq =>
      ⟨fun ⟨hlower, hupper⟩ => ⟨hlower, h p hp hq hlower hupper⟩,
        fun ⟨hlower, hupper⟩ => ⟨hlower, lt_of_lt_of_le hupper hle⟩⟩]

/-- The windows agree with the targets where no post is between a negative
`until` and 0. -/
theorem windowedIds_eq_lateralIds_iff (now : Clock) {page : FeedPage} (hlimit : 0 < page.limit) :
    db.windowedIds now source page = db.lateralIds source page ↔
      ∀ p ∈ db.posts, db.qualifies source p → sinceOrZero page.sinceId < p.id →
        untilOrMax page.untilId ≤ p.id → 0 ≤ p.id := by
  have hn : 0 < page.limit.toNat := by omega
  rw [windowedIds_eq now hlimit, lateralIds_eq, stop]
  by_cases hstop : untilOrMax page.untilId < 0 ∧ sinceOrZero page.sinceId < -1
  · rw [if_pos hstop, firstIds_eq_iff hn hstop.1.le]
    refine forall₂_congr fun p _ => imp_congr_right fun _ => imp_congr_right fun _ => ?_
    exact ⟨fun h hle => not_lt.mp fun hneg => absurd (h hneg) (not_lt.mpr hle),
      fun h hneg => not_le.mp fun hle => absurd (h hle) (not_le.mpr hneg)⟩
  · rw [if_neg hstop]
    refine iff_of_true rfl fun p _ _ hsince huntil => ?_
    by_contra hneg
    have hneg' := not_le.mp hneg
    refine hstop ⟨lt_of_le_of_lt huntil hneg', ?_⟩
    rw [I64.lt_iff] at hsince hneg' ⊢
    have hzero : (0 : Int64).toInt = 0 := rfl
    have hone : (-1 : Int64).toInt = -1 := rfl
    omega

/-- The ids of all that qualifies after `since`. -/
def Tables.allIds (db : Tables) (source : FeedSource) (since : Int64) : List Int64 :=
  (db.qualifying source Int64.maxValue since).map Post.id

theorem firstIds_eq_top (n : Nat) (untilId : Option Int64) (since : Int64) :
    db.firstIds source n (untilOrMax untilId) since =
      top (fun id => id) n ((db.allIds source since).filter (before (fun id => id) untilId)) := by
  rw [Tables.firstIds, TopN.map_top]
  refine congrArg (top _ n) ?_
  rw [Tables.allIds, List.filter_map, Tables.qualifying, Tables.qualifying, List.filter_filter]
  refine congrArg (List.map Post.id) (List.filter_congr fun p _ => ?_)
  cases untilId with
  | none => simp [before, untilOrMax]
  | some u =>
    have : p.id < u → p.id < Int64.maxValue := fun h => lt_of_lt_of_le h (Int64.le_maxValue u)
    have huntil : untilOrMax (some u) = u := rfl
    rw [huntil, Bool.eq_iff_iff]
    simp only [Tables.between, before, Function.comp_apply, Bool.and_eq_true, decide_eq_true_eq]
    tauto

theorem nodup_allIds (db : Database) (source : FeedSource) (since : Int64) : ((db.allIds source since).map fun id => id).Nodup := by
  rw [List.map_id']
  exact nodup_posts _

/-- The page of `limit` ids after `since` that a cursor asks for. -/
def Tables.request (db : Tables) (source : FeedSource) (now : Clock) (limit : Int)
    (since untilId : Option Int64) : List Int64 :=
  db.feedCandidateIds now source ⟨limit, untilId, since⟩

theorem request_eq (db : Database) (source : FeedSource) (now : Clock) {limit : Int}
    (hlimit : 0 < limit) (since untilId : Option Int64) :
    db.request source now limit since untilId = db.firstIds source limit.toNat
      (if db.targetCount source ≤ LATERAL_MAX_TARGETS then untilOrMax untilId
        else stop untilId (sinceOrZero since)) (sinceOrZero since) := by
  rw [Tables.request, Tables.feedCandidateIds, if_neg (not_le.mpr hlimit)]
  by_cases hcount : db.targetCount source ≤ LATERAL_MAX_TARGETS
  · rw [if_pos hcount, if_pos hcount, lateralIds_eq]
  · rw [if_neg hcount, if_neg hcount, windowedIds_eq now hlimit]

/-- A negative post keeps every page of the windows from being empty. -/
theorem not_enumerates {now : Clock} {limit : Int} (hlimit : 0 < limit) {since : Option Int64}
    {p : Post} (hcount : ¬ db.targetCount source ≤ LATERAL_MAX_TARGETS) (hp : p ∈ db.posts)
    (hq : db.qualifies source p) (hsince : sinceOrZero since < p.id) (hneg : p.id < 0)
    (ids : List Int64) :
    ¬ Enumerates (db.request source now limit since) List.getLast? none ids := by
  intro ⟨pages, hpages, _⟩
  have hpage (untilId : Option Int64) : db.request source now limit since untilId ≠ [] := by
    have hstop : p.id < stop untilId (sinceOrZero since) := by
      rw [stop]
      by_cases huntil : untilOrMax untilId < 0
      · have hbelow : sinceOrZero since < -1 := by
          rw [I64.lt_iff] at hsince hneg ⊢
          have hzero : (0 : Int64).toInt = 0 := rfl
          have hone : (-1 : Int64).toInt = -1 := rfl
          omega
        rw [if_pos ⟨huntil, hbelow⟩]
        exact hneg
      · rw [if_neg fun h => huntil h.1]
        exact lt_of_lt_of_le hneg (not_lt.mp huntil)
    rw [request_eq db source now hlimit, if_neg hcount]
    intro hnil
    rw [Tables.firstIds, List.map_eq_nil_iff, top_eq_nil (by omega)] at hnil
    exact List.ne_nil_of_mem (mem_qualifying.mpr ⟨hp, hq, hsince, hstop⟩) hnil
  exact not_pages (fun untilId (_ : True) => ⟨hpage untilId, trivial⟩) trivial hpages

theorem enumerates {now : Clock} {limit : Int} (hlimit : 0 < limit) {since : Option Int64}
    (hrequest : ∀ untilId, db.request source now limit since untilId =
      db.firstIds source limit.toNat (untilOrMax untilId) (sinceOrZero since)) :
    Enumerates (db.request source now limit since) List.getLast? none
      (db.allIds source (sinceOrZero since)) := by
  have hfetch (untilId : Option Int64) : db.request source now limit since untilId =
      top (fun id => id) limit.toNat ((db.allIds source (sinceOrZero since)).filter
        (before (fun id => id) untilId)) := by
    rw [hrequest, firstIds_eq_top]
  have hnext (page : List Int64) : page.getLast? = lastKey (fun id => id) page := by
    rw [lastKey]
    exact Option.map_id'.symm
  have h := enumerates_top (nodup_allIds db source (sinceOrZero since))
    (by omega : 0 < limit.toNat) hfetch hnext none
  have hall : (db.allIds source (sinceOrZero since)).filter (before (fun id => id) none) =
      db.allIds source (sinceOrZero since) := List.filter_eq_self.mpr fun _ _ => rfl
  rw [hall] at h
  exact h

theorem enumerates_iff {now : Clock} {limit : Int} (hlimit : 0 < limit) (since : Option Int64) :
    Enumerates (db.request source now limit since) List.getLast? none
        (db.allIds source (sinceOrZero since)) ↔
      db.targetCount source ≤ LATERAL_MAX_TARGETS ∨
        ∀ p ∈ db.posts, db.qualifies source p → sinceOrZero since < p.id → 0 ≤ p.id := by
  constructor
  · intro h
    by_contra hbad
    obtain ⟨hcount, hpost⟩ := not_or.mp hbad
    push Not at hpost
    obtain ⟨p, hp, hq, hsince, hneg⟩ := hpost
    exact not_enumerates hlimit hcount hp hq hsince hneg _ h
  · intro hgood
    refine enumerates hlimit fun untilId => ?_
    have hlateral := lateralIds_eq db source ⟨limit, untilId, since⟩
    rw [← hlateral, Tables.request, Tables.feedCandidateIds, if_neg (not_le.mpr hlimit)]
    by_cases hcount : db.targetCount source ≤ LATERAL_MAX_TARGETS
    · rw [if_pos hcount]
    · have hposts := hgood.resolve_left hcount
      rw [if_neg hcount]
      exact (windowedIds_eq_lateralIds_iff now hlimit).mpr
        fun p hp hq hsince _ => hposts p hp hq hsince

/-- Both ways, of any database, source and page: the targets always give the
first `limit` of what qualifies, newest first; the windows give the same exactly
where no such post is between a negative `until` and 0; and a client that goes
from page to page sees each post once exactly where the targets are few or no
post has a negative id. -/
theorem feed_pages (db : Database) (now : Clock) (source : FeedSource) (page : FeedPage)
    (hlimit : 0 < page.limit) :
    (db.lateralIds source page = db.firstIds source page.limit.toNat (untilOrMax page.untilId)
        (sinceOrZero page.sinceId) ∧
      (db.lateralIds source page).Pairwise (· > ·)) ∧
    (db.windowedIds now source page = db.lateralIds source page ↔
      ∀ p ∈ db.posts, db.qualifies source p → sinceOrZero page.sinceId < p.id →
        untilOrMax page.untilId ≤ p.id → 0 ≤ p.id) ∧
    (Enumerates (db.request source now page.limit page.sinceId) List.getLast? none
        (db.allIds source (sinceOrZero page.sinceId)) ↔
      db.targetCount source ≤ LATERAL_MAX_TARGETS ∨
        ∀ p ∈ db.posts, db.qualifies source p → sinceOrZero page.sinceId < p.id → 0 ≤ p.id) := by
  refine ⟨⟨lateralIds_eq db source page, ?_⟩, windowedIds_eq_lateralIds_iff now hlimit,
    enumerates_iff hlimit page.sinceId⟩
  rw [lateralIds_eq]
  exact List.pairwise_map.mpr (descends_top (nodup_posts _))

end Pages

section Before1970

/-- Actor 1 follows 101 others and has one post, of the millisecond before 1970. -/
def before1970 : Database where
  actors := [{ id := 1 }]
  posts := [{ id := -65536, actorId := 1 }]
  follows := (List.range 101).map fun i =>
    { followerActorId := 1, targetActorId := Int64.ofNat (i + 2) }
  posts_pkey := by decide
  posts_actor_id_fkey := by decide
  lists_pkey := by exact List.nodup_nil
  list_members_key := by exact nodup_no_keys
  dm_read_states_pkey := by exact nodup_no_keys

theorem feed_pages_before1970 :
    (before1970.lateralIds (.following 1 false) ⟨1, none, none⟩ = [] ∧
      (before1970.lateralIds (.following 1 false) ⟨1, none, none⟩).Pairwise (· > ·)) ∧
    (before1970.windowedIds ⟨0, by decide⟩ (.following 1 false) ⟨1, none, none⟩ =
        before1970.lateralIds (.following 1 false) ⟨1, none, none⟩ ↔
      ∀ p ∈ before1970.posts, before1970.qualifies (.following 1 false) p →
        0 < p.id → Int64.maxValue ≤ p.id → 0 ≤ p.id) ∧
    (Paging.Enumerates (before1970.request (.following 1 false) ⟨0, by decide⟩ 1 none) List.getLast?
        none (before1970.allIds (.following 1 false) 0) ↔
      before1970.targetCount (.following 1 false) ≤ LATERAL_MAX_TARGETS ∨
        ∀ p ∈ before1970.posts, before1970.qualifies (.following 1 false) p → 0 < p.id →
          0 ≤ p.id) :=
  feed_pages before1970 ⟨0, by decide⟩ (.following 1 false) ⟨1, none, none⟩ (by decide)

set_option maxRecDepth 1000 in
theorem feed_pages_counterexample :
    LATERAL_MAX_TARGETS < before1970.targetCount (.following 1 false) ∧
    before1970.feedCandidateIds ⟨0, by decide⟩ (.following 1 false)
      ⟨1, some (-65536), some (-131072)⟩ = [-65536] ∧
    before1970.lateralIds (.following 1 false) ⟨1, some (-65536), some (-131072)⟩ = [] := by
  refine ⟨by decide, by decide, by decide⟩

end Before1970

end Seiran.Timeline
