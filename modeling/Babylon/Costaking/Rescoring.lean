/-
  Changing the parameters of `costaking`.

  A new ratio between satoshis and BABY changes the scores of all costakers.  The loop
  settles each costaker whose score changes and writes its tracker, while the total
  score of the pool is written at the end: in between, trackers that were visited have
  scores for the new ratio and the others for the old one, and the total is that of the
  old scores.
-/
import Babylon.Incentive.Accounts

set_option autoImplicit false

namespace Babylon

open Lib Incentive Costaking KVStore CostakerRewardsTracker

variable {params : Costaking.Params}

namespace RewardStores

variable {s t : RewardStores} {closed : Costaking.State} {cur : CurrentRewards} {ratio : Int}

/-- The loop after it has visited some entries. -/
structure Rescored (closed : Costaking.State) (cur : CurrentRewards) (ratio : Int)
    (visited : List (AccAddress × CostakerRewardsTracker)) (s : RewardStores) (totalScore : Int) :
    Prop where
  backed : Backed s
  funded : s.CostakersFunded
  ordered : s.costaking.Ordered
  current : s.costaking.currentRewards = some cur
  unvisited : ∀ costaker, costaker ∉ visited.map Prod.fst →
    s.costaking.costakerRewardsTracker.get costaker = closed.costakerRewardsTracker.get costaker
  rescored : ∀ entry ∈ visited, ∃ tracker,
    s.costaking.costakerRewardsTracker.get entry.1 = some tracker ∧ tracker.Scored ratio
  scores : s.costaking.scores + (visited.map fun entry => entry.2.totalScore).sum
    = closed.scores + totalScore

section Step

variable {visited : List (AccAddress × CostakerRewardsTracker)}
  {entry : AccAddress × CostakerRewardsTracker} {totalScore totalScore' : Int}

/-- One more entry is visited, and its tracker is written. -/
theorem Rescored.write (h : Rescored closed cur ratio visited s totalScore)
    (hnew : entry.1 ∉ visited.map Prod.fst)
    (hget : s.costaking.costakerRewardsTracker.get entry.1 = some entry.2)
    {tracker : CostakerRewardsTracker} (hsc : tracker.Scored ratio)
    (hbacked : Backed t) (hfund : t.CostakersFunded) (hord : t.costaking.Ordered)
    (hcur : t.costaking.currentRewards = some cur)
    (htrks : t.costaking.costakerRewardsTracker
      = s.costaking.costakerRewardsTracker.set entry.1 tracker) :
    Rescored closed cur ratio (visited ++ [entry]) t (totalScore + tracker.totalScore) where
  backed := hbacked
  funded := hfund
  ordered := hord
  current := hcur
  unvisited := fun costaker hnot => by
    rw [List.map_append, List.mem_append, not_or, List.map_singleton, List.mem_singleton] at hnot
    rw [htrks, get_set_of_ne _ _ hnot.2]
    exact h.unvisited costaker hnot.1
  rescored := fun other hmem => by
    rw [htrks]
    rcases List.mem_append.mp hmem with hvisited | hlast
    · have hne : other.1 ≠ entry.1 := fun heq => hnew (heq ▸ List.mem_map_of_mem hvisited)
      rw [get_set_of_ne _ _ hne]
      exact h.rescored other hvisited
    · obtain rfl := List.mem_singleton.mp hlast
      exact ⟨tracker, get_set_self _ _ _, hsc⟩
  scores := by
    have hset := Costaking.State.scores_set s.costaking entry.1 tracker
    have hbef := h.scores
    have hscore : s.costaking.scoreOf entry.1 = entry.2.totalScore := by
      unfold Costaking.State.scoreOf
      rw [hget, Option.elim_some]
    have haft : t.costaking.scores
        = (s.costaking.setCostakerRewardsTracker entry.1 tracker).scores := by
      unfold Costaking.State.scores
      rw [htrks]
      rfl
    rw [List.map_append, List.sum_append, List.map_singleton, List.sum_singleton]
    omega

/-- One iteration of `UpdateAllCostakersScore`. -/
theorem Rescored.step (h : Rescored closed cur ratio visited s totalScore) (hratio : 1 ≤ ratio)
    (hsound : closed.Sound) (hent : closed.costakerRewardsTracker.get entry.1 = some entry.2)
    (hnew : entry.1 ∉ visited.map Prod.fst)
    (hok : updateCostakerScore ratio (cur.period - 1) (s, totalScore) entry
      = .ok (t, totalScore')) :
    Rescored closed cur ratio (visited ++ [entry]) t totalScore' := by
  have hget : s.costaking.costakerRewardsTracker.get entry.1 = some entry.2 := by
    rw [h.unvisited _ hnew, hent]
  have hamounts := hsound.scored entry.1 entry.2 hent
  obtain ⟨updated, delta, hup⟩ : ∃ updated delta,
      entry.2.updateScore ratio = (updated, delta) := ⟨_, _, rfl⟩
  obtain ⟨hsc, -⟩ := scored_updateScore hup hamounts.activeBaby hamounts.activeSatoshis
  unfold updateCostakerScore at hok
  dsimp only at hok
  rw [hup] at hok
  split at hok
  case isTrue hzero =>
    -- the tracker is written as it was
    obtain ⟨rfl, rfl⟩ := Prod.mk.inj (Except.ok.inj hok)
    obtain rfl : delta = 0 := hzero
    obtain rfl := updateScore_zero hup
    have hwrite : s.costaking.setCostakerRewardsTracker entry.1 entry.2 = s.costaking := by
      unfold Costaking.State.setCostakerRewardsTracker
      rw [set_eq_self_of_get hget]
    rw [hwrite]
    exact h.write hnew hget hsc h.backed h.funded h.ordered h.current
      (set_eq_self_of_get hget).symm
  case isFalse =>
    simp only [ok_iff, Attempt.reverted_ok_iff] at hok
    obtain ⟨paid, hpaid, costaking, hinit, hres⟩ := hok
    obtain ⟨rfl, rfl⟩ := Prod.mk.inj hres
    rcases sendToGauge_cases h.ordered h.current h.funded entry.1 with
      ⟨-, paid', hpaid', hcost, htrf⟩ | ⟨-, hfails⟩
    case inr =>
      rw [hfails] at hpaid
      cases hpaid
    rw [hpaid] at hpaid'
    obtain rfl := Except.ok.inj hpaid'
    rw [hcost] at hinit
    have hinitialized : (s.costaking.setCostakerRewardsTracker entry.1
        updated).initializeCoStakerRwdTracker entry.1
          = .ok ((s.costaking.setCostakerRewardsTracker entry.1 updated).restaked entry.1 cur
              updated cur.totalScore) :=
      Costaking.State.initialize_unchanged h.current (get_set_self _ _ _)
    have hrestaked : (s.costaking.setCostakerRewardsTracker entry.1 updated).restaked entry.1 cur
        updated cur.totalScore = s.costaking.restaked entry.1 cur updated cur.totalScore := by
      unfold Costaking.State.restaked Costaking.State.setCostakerRewardsTracker
      rw [set_set]
    rw [hinitialized, hrestaked] at hinit
    obtain rfl := Except.ok.inj hinit
    have hpaidScored : Scored ratio
        { updated with startPeriodCumulativeReward := cur.period - 1 } :=
      ⟨hsc.activeBaby, hsc.activeSatoshis, hsc.totalScore⟩
    have hpaidBacked : Backed { paid with
        costaking := s.costaking.restaked entry.1 cur updated cur.totalScore } :=
      ⟨(htrf.backed h.backed).tracked, (htrf.backed h.backed).covered⟩
    have hpaidFunded : CostakersFunded { paid with
        costaking := s.costaking.restaked entry.1 cur updated cur.totalScore } := by
      refine Transferred.funded (htrf.of_eq s.costaking _) (fun denom => ?_) h.funded
      rw [Costaking.State.pool_restaked h.current, Pool.value_restake]
    have hord : (s.costaking.restaked entry.1 cur updated cur.totalScore).Ordered := by
      refine ⟨forall_set h.ordered.nonneg (hsc.nonneg hratio), fun denom => ?_⟩
      rw [Costaking.State.periods_restaked]
      exact (h.ordered.periods denom).restaked (Costaking.State.openPeriod_eq h.current denom)
    have hwritten := h.write hnew hget hpaidScored hpaidBacked hpaidFunded hord rfl rfl
    exact hwritten

end Step

/-- The stores with all scores for the new ratio and their sum as the total. -/
theorem Rescored.sound {totalScore : Int}
    (h : Rescored closed cur params.scoreRatioBtcByBaby closed.costakerRewardsTracker.entries s
      totalScore) (hratio : 1 ≤ params.scoreRatioBtcByBaby) :
    Costaking.State.Sound { s.costaking with
      params, currentRewards := some { cur with totalScore } } := by
  have hsc : ∀ costaker tracker,
      s.costaking.costakerRewardsTracker.get costaker = some tracker →
        tracker.Scored params.scoreRatioBtcByBaby := by
    intro costaker tracker hget
    by_cases hmem : costaker ∈ closed.costakerRewardsTracker.entries.map Prod.fst
    · obtain ⟨entry, hent, rfl⟩ := List.mem_map.mp hmem
      obtain ⟨found, hfnd, hsc⟩ := h.rescored entry hent
      rw [hget] at hfnd
      obtain rfl := Option.some.inj hfnd
      exact hsc
    · obtain ⟨entry, hent⟩ : ∃ old, closed.costakerRewardsTracker.get costaker = some old :=
        ⟨tracker, by rw [← h.unvisited costaker hmem, hget]⟩
      exact absurd (List.mem_map_of_mem (mem_entries.mpr hent)) hmem
  have htot : totalScore = s.costaking.scores := by
    have hscores := h.scores
    have hall : closed.scores
        = (closed.costakerRewardsTracker.entries.map fun entry => entry.2.totalScore).sum := rfl
    omega
  refine ⟨hratio, hsc, ?_, by rintro ⟨⟩, fun denom => ?_⟩
  · rintro _ ⟨⟩
    exact htot
  · have hstakes : totalScore.toNat = (s.costaking.periods denom).participants.sumBy
        fun _ participant => participant.stake := by
      have hsum : ((s.costaking.costakerRewardsTracker.sumBy fun _ tracker =>
          tracker.totalScore.toNat : Nat) : Int)
            = s.costaking.costakerRewardsTracker.sumBy fun _ tracker => tracker.totalScore :=
        sumBy_toNat h.ordered.nonneg
      unfold Costaking.State.periods
      rw [sumBy_map, htot]
      unfold Costaking.State.scores
      dsimp only
      omega
    exact (h.ordered.periods denom).consistent (Costaking.State.openPeriod_eq h.current denom)
      hstakes

/-- The stores after some iterations of the loop. -/
theorem exists_rescored (inv : Solvent s) (hratio : 1 ≤ ratio) {ended : Nat}
    (hincr : s.costaking.incrementRewardsPeriod = .ok (ended, closed))
    {visited rest : List (AccAddress × CostakerRewardsTracker)} {totalScore : Int}
    (hents : closed.costakerRewardsTracker.entries = visited ++ rest)
    (hloop : foldOutcome (updateCostakerScore ratio ended) ({ s with costaking := closed }, 0)
      visited = .ok (t, totalScore)) :
    ∃ cur, cur.rewards = empty ∧ ended = cur.period - 1 ∧
      Rescored closed cur ratio visited t totalScore := by
  obtain ⟨ended', closed', hincrement', hcl⟩ := Costaking.State.exists_increment inv.sound
  rw [hincr] at hincrement'
  obtain ⟨rfl, rfl⟩ := Prod.mk.inj (Except.ok.inj hincrement')
  obtain ⟨cur, hcur, hemp, rfl⟩ := hcl.current
  have hstart : Rescored closed cur ratio [] { s with costaking := closed } 0 := by
    exact ⟨⟨inv.tracked, inv.covered⟩, inv.funded.close hcl, hcl.sound.ordered, hcur,
      fun _ _ => rfl, fun _ hmem => absurd hmem List.not_mem_nil, rfl⟩
  refine ⟨cur, hemp, rfl, foldOutcome_visited (fun visited acc =>
    Rescored closed cur ratio visited acc.1 acc.2) ?_ hstart hloop⟩
  intro before entry after acc next hvisited hrescored hstep
  rw [hvisited, List.append_assoc, List.cons_append] at hents
  have hmem : entry ∈ closed.costakerRewardsTracker.entries := by
    rw [hents]
    exact List.mem_append_right _ List.mem_cons_self
  have hnd := closed.costakerRewardsTracker.nodup_keys
  unfold keys at hnd
  rw [hents, List.map_append, List.map_cons] at hnd
  have hnew : entry.1 ∉ before.map Prod.fst := fun hbefore =>
    (List.nodup_append.mp hnd).2.2 _ hbefore _ List.mem_cons_self rfl
  exact hrescored.step hratio hcl.sound (mem_entries.mp hmem) hnew hstep

/-- What a change of the ratio leaves behind. -/
theorem solvent_updateAllCostakersScore (inv : Solvent s) (hratio : 1 ≤ params.scoreRatioBtcByBaby)
    (h : s.updateAllCostakersScore params.scoreRatioBtcByBaby = .ok t) :
    Solvent { t with costaking := { t.costaking with params } } := by
  simp only [updateAllCostakersScore, ok_iff] at h
  obtain ⟨⟨ended, closed⟩, hincr, cur', hcur', ⟨looped, totalScore⟩, hloop, _, -, costaking,
    hup, rfl⟩ := h
  obtain ⟨cur, hemp, rfl, hend⟩ := exists_rescored inv hratio hincr (List.append_nil _).symm hloop
  have hsound := hend.sound hratio
  have hfnl := Costaking.State.closed_updateTotal hend.current hemp hsound hup
  refine ⟨⟨hend.backed.tracked, hend.backed.covered⟩, hfnl.sound, fun denom => ?_⟩
  have hvalue := (Costaking.State.pool { looped.costaking with
    params, currentRewards := some { cur with totalScore } } denom).value_close_le
  rw [← hfnl.pool] at hvalue
  have hsame : Costaking.State.pool { looped.costaking with
      params, currentRewards := some { cur with totalScore } } denom
      = looped.costaking.pool denom := by
    refine Pool.ext ?_ ?_ rfl
    · exact (Periods.pool_current (Costaking.State.openPeriod_eq hend.current denom)).symm
    · exact (Periods.pool_cumulative (Costaking.State.openPeriod_eq hend.current denom)).symm
  rw [hsame] at hvalue
  exact hvalue.trans (hend.funded denom)

/-- `MsgUpdateParams` keeps the stores solvent. -/
theorem solvent_updateCostakingParams (inv : Solvent s)
    (h : s.updateCostakingParams params = .ok t) : Solvent t := by
  simp only [updateCostakingParams, ok_iff, Outcome.orWrapf_ok_iff] at h
  obtain ⟨_, hval, next, hnext, rfl⟩ := h
  have hratio := Costaking.Params.one_le_scoreRatio hval
  split at hnext
  case isTrue hsame =>
    obtain rfl := Except.ok.inj hnext
    exact ⟨⟨inv.tracked, inv.covered⟩, ⟨hratio, hsame ▸ inv.sound.scored, inv.sound.total,
      inv.sound.fresh, inv.sound.tracked⟩, inv.funded⟩
  case isFalse => exact solvent_updateAllCostakersScore inv hratio hnext

end RewardStores

end Babylon
