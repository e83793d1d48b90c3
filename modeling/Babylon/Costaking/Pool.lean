/-
  The records of `costaking` as a pool of rewards.

  For every denomination, the current and historical rewards and the trackers of the
  costakers are a reward pool stored by periods, in which the stake of a costaker is its
  score.  `Sound` holds the invariants of the store: scores follow from the active
  amounts, and their sum is the total score.  What one call of `costakerModified` does is
  said once, for success and for failure; everything else is derived from that.
-/
import Babylon.Costaking.Keeper
import Babylon.Lib.RewardPeriods

set_option autoImplicit false

namespace Babylon.Costaking

open Lib Incentive KVStore Coins Option

/-- The score of a tracker is that of its amounts, which are not negative. -/
structure CostakerRewardsTracker.Scored (ratio : Int) (tracker : CostakerRewardsTracker) :
    Prop where
  activeBaby : 0 ≤ tracker.activeBaby
  activeSatoshis : 0 ≤ tracker.activeSatoshis
  totalScore : tracker.totalScore = calculateScore ratio tracker.activeBaby tracker.activeSatoshis

variable {tracker : CostakerRewardsTracker}

theorem CostakerRewardsTracker.Scored.nonneg {ratio : Int}
    (h : tracker.Scored ratio) (hratio : 1 ≤ ratio) : 0 ≤ tracker.totalScore := by
  rw [h.totalScore]
  exact le_min h.activeSatoshis (Int.tdiv_nonneg h.activeBaby (by omega))

section

variable {ratio delta : Int} {tracker updated : CostakerRewardsTracker}
  (h : tracker.updateScore ratio = (updated, delta))

include h

theorem CostakerRewardsTracker.scored_updateScore
    (hbaby : 0 ≤ tracker.activeBaby) (hsats : 0 ≤ tracker.activeSatoshis) :
    updated.Scored ratio ∧ delta = updated.totalScore - tracker.totalScore := by
  obtain ⟨rfl, rfl⟩ := Prod.mk.inj h
  exact ⟨⟨hbaby, hsats, rfl⟩, rfl⟩

/-- Updating the score changes nothing else. -/
theorem CostakerRewardsTracker.updateScore_same :
    updated.activeSatoshis = tracker.activeSatoshis ∧ updated.activeBaby = tracker.activeBaby ∧
      updated.startPeriodCumulativeReward = tracker.startPeriodCumulativeReward := by
  obtain ⟨rfl, -⟩ := Prod.mk.inj h
  exact ⟨rfl, rfl, rfl⟩

end

theorem CostakerRewardsTracker.updateScore_zero {ratio : Int}
    {updated : CostakerRewardsTracker} (h : tracker.updateScore ratio = (updated, 0)) :
    updated = tracker := by
  obtain ⟨rfl, hzero⟩ := Prod.mk.inj h
  dsimp only at hzero ⊢
  rw [Int.sub_eq_zero.mp hzero]

namespace State

variable {s t : State} {costaker : AccAddress} {cur : CurrentRewards}

/-! ## The abstraction -/

/-- The open period in one denomination. -/
def openPeriodOf (cur : CurrentRewards) (denom : Denom) : OpenPeriod :=
  ⟨cur.rewards.amountOf denom, cur.period, cur.totalScore.toNat⟩

/-- The records in one denomination. -/
def periods (s : State) (denom : Denom) : Periods AccAddress where
  openPeriod := s.currentRewards.map fun cur => openPeriodOf cur denom
  history := s.historicalRewards.map fun rwd => rwd.cumulativeRewardsPerScore.amountOf denom
  participants := s.costakerRewardsTracker.map fun tracker =>
    ⟨tracker.startPeriodCumulativeReward, tracker.totalScore.toNat⟩

/-- The rewards of the costakers in one denomination. -/
def pool (s : State) (denom : Denom) : Pool AccAddress := (s.periods denom).pool

/-- The sum of all scores. -/
def scores (s : State) : Int := s.costakerRewardsTracker.sumBy fun _ tracker => tracker.totalScore

/-- The periods are in order and no score is negative. -/
structure Ordered (s : State) : Prop where
  nonneg : ∀ costaker tracker, s.costakerRewardsTracker.get costaker = some tracker →
    0 ≤ tracker.totalScore
  periods : ∀ denom, (s.periods denom).Ordered

/-- The invariants of the store. -/
structure Sound (s : State) : Prop where
  ratio : 1 ≤ s.params.scoreRatioBtcByBaby
  scored : ∀ costaker tracker, s.costakerRewardsTracker.get costaker = some tracker →
    tracker.Scored s.params.scoreRatioBtcByBaby
  total : ∀ cur, s.currentRewards = some cur → cur.totalScore = s.scores
  fresh : s.currentRewards = none → ∀ costaker, s.costakerRewardsTracker.get costaker = none
  tracked : ∀ denom, (s.periods denom).Consistent

theorem Sound.score_nonneg (h : s.Sound)
    (hget : s.costakerRewardsTracker.get costaker = some tracker) : 0 ≤ tracker.totalScore :=
  (h.scored costaker tracker hget).nonneg h.ratio

theorem Sound.ordered (h : s.Sound) : s.Ordered :=
  ⟨fun _ _ => h.score_nonneg, fun denom => (h.tracked denom).toOrdered⟩

/-- The store at genesis. -/
theorem sound_blank {params : Params} (h : params.validate = .ok ()) : (blank params).Sound where
  ratio := Params.one_le_scoreRatio h
  scored := by rintro _ _ ⟨⟩
  total := by rintro _ ⟨⟩
  fresh := fun _ _ => rfl
  tracked := fun _ =>
    ⟨⟨by rintro _ ⟨⟩, by rintro _ ⟨⟩, by rintro _ ⟨⟩, by rintro _ _ ⟨⟩⟩, by rintro _ ⟨⟩⟩

/-! ## Reading the pool -/

theorem openPeriod_eq (hcur : s.currentRewards = some cur) (denom : Denom) :
    (s.periods denom).openPeriod = some (openPeriodOf cur denom) := by
  unfold periods
  rw [hcur, map_some]

theorem history_get (s : State) (denom : Denom) (period : Nat) :
    (s.periods denom).history.get period = (s.historicalRewards.get period).map fun rwd =>
      rwd.cumulativeRewardsPerScore.amountOf denom :=
  get_map _ _ _

theorem participants_get (s : State) (costaker : AccAddress) (denom : Denom) :
    (s.periods denom).participants.get costaker
      = (s.costakerRewardsTracker.get costaker).map fun tracker =>
          ⟨tracker.startPeriodCumulativeReward, tracker.totalScore.toNat⟩ :=
  get_map _ _ _

theorem cumulativeAt_eq {rwd : HistoricalRewards} {period : Nat}
    (h : s.historicalRewards.get period = some rwd) (denom : Denom) :
    (s.periods denom).cumulativeAt period = rwd.cumulativeRewardsPerScore.amountOf denom := by
  unfold Periods.cumulativeAt
  rw [history_get, h, map_some, getD_some]

theorem pool_stake (s : State) (costaker : AccAddress) (denom : Denom) :
    (s.pool denom).stake costaker
      = (s.costakerRewardsTracker.get costaker).elim 0 fun tracker => tracker.totalScore.toNat := by
  unfold pool
  rw [Periods.pool_stake, participants_get]
  cases s.costakerRewardsTracker.get costaker <;> rfl

theorem pool_claim (s : State) (costaker : AccAddress) (denom : Denom) :
    (s.pool denom).claim costaker = (s.costakerRewardsTracker.get costaker).elim 0 fun tracker =>
      tracker.totalScore.toNat * ((s.pool denom).cumulative
        - (s.periods denom).cumulativeAt tracker.startPeriodCumulativeReward) := by
  unfold pool
  rw [Periods.pool_claim, participants_get]
  cases s.costakerRewardsTracker.get costaker <;> rfl

section

variable (h : s.Ordered) (hcur : s.currentRewards = some cur)

include h hcur

theorem exists_historical (period : Nat)
    (hlt : period < cur.period) : ∃ rwd, s.historicalRewards.get period = some rwd := by
  obtain ⟨amount, hamount⟩ := (h.periods 0).history _ (openPeriod_eq hcur 0) period hlt
  rw [history_get] at hamount
  obtain ⟨rwd, hrwd, -⟩ := map_eq_some_iff.mp hamount
  exact ⟨rwd, hrwd⟩

theorem period_pos : 1 ≤ cur.period :=
  (h.periods 0).number_pos _ (openPeriod_eq hcur 0)

/-- A costaker with a score has not been paid after some closed period. -/
theorem start_lt (hget : s.costakerRewardsTracker.get costaker = some tracker)
    (hscore : tracker.totalScore ≠ 0) : tracker.startPeriodCumulativeReward < cur.period := by
  have hpart := participants_get s costaker 0
  rw [hget, map_some] at hpart
  have hnn := h.nonneg costaker tracker hget
  exact (h.periods 0).start_lt (openPeriod_eq hcur 0) hpart (by dsimp only; omega)

end

/-! ## Opening and closing periods -/

/-- Nothing changes but the current and historical rewards. -/
structure SameTrackers (s t : State) : Prop where
  params : t.params = s.params
  trackers : t.costakerRewardsTracker = s.costakerRewardsTracker
  validatorSet : t.validatorSet = s.validatorSet

theorem SameTrackers.scores (h : SameTrackers s t) : t.scores = s.scores := by
  unfold State.scores
  rw [h.trackers]

/-- The invariants survive a change of the rewards that keeps the total score. -/
theorem SameTrackers.sound (h : SameTrackers s t) (hs : s.Sound)
    (hcur : t.currentRewards = some cur) (htot : cur.totalScore = s.scores)
    (htrk : ∀ denom, (t.periods denom).Consistent) : t.Sound where
  ratio := by rw [h.params]; exact hs.ratio
  scored := by rw [h.params, h.trackers]; exact hs.scored
  total := fun cur' hcur' => by
    rw [hcur] at hcur'
    rw [← some.inj hcur', htot, h.scores]
  fresh := fun hnone => by rw [hcur] at hnone; cases hnone
  tracked := htrk

/-- The records with a new open period and one more closed period. -/
theorem periods_setRecords (s : State) (period : Nat) (rwd : HistoricalRewards)
    (cur : CurrentRewards) (denom : Denom) :
    ((s.setHistoricalRewards period rwd).setCurrentRewards cur).periods denom
      = { s.periods denom with
          openPeriod := some (openPeriodOf cur denom)
          history := (s.periods denom).history.set period
            (rwd.cumulativeRewardsPerScore.amountOf denom) } := by
  refine Periods.ext rfl ?_ rfl
  unfold periods setCurrentRewards setHistoricalRewards
  rw [map_set]

/-- What `GetCurrentRewardsInitialized` leaves behind. -/
structure Opened (s t : State) (cur : CurrentRewards) : Prop extends SameTrackers s t where
  current : t.currentRewards = some cur
  sound : t.Sound
  pool : ∀ denom, t.pool denom = s.pool denom

theorem exists_opened (h : s.Sound) :
    ∃ cur t, s.getCurrentRewardsInitialized = (cur, t) ∧ Opened s t cur := by
  unfold getCurrentRewardsInitialized
  cases hcur : s.currentRewards with
  | some cur => exact ⟨cur, s, rfl, ⟨rfl, rfl, rfl⟩, hcur, h, fun _ => rfl⟩
  | none =>
    have hopen : ∀ denom, (s.periods denom).openPeriod = none := by
      intro denom
      unfold periods
      rw [hcur, map_none]
    have hper : ∀ denom, ((s.setHistoricalRewards 0 ⟨empty⟩).setCurrentRewards
        ⟨empty, 1, 0⟩).periods denom = (s.periods denom).initialized :=
      periods_setRecords s 0 ⟨empty⟩ ⟨empty, 1, 0⟩
    have hscores : s.scores = 0 := sumBy_eq_zero fun costaker tracker hget => by
      rw [h.fresh hcur] at hget
      cases hget
    have hsame : SameTrackers s ((s.setHistoricalRewards 0 ⟨empty⟩).setCurrentRewards
        ⟨empty, 1, 0⟩) := ⟨rfl, rfl, rfl⟩
    refine ⟨_, _, rfl, hsame, rfl, hsame.sound h rfl hscores.symm fun denom => ?_, fun denom => ?_⟩
    · rw [hper]
      exact (h.tracked denom).initialized (hopen denom)
    · unfold pool
      rw [hper, (Periods.pool_initialized (h.tracked denom) (hopen denom)).1]

theorem amountOf_rewardsPerScore (cur : CurrentRewards) (denom : Denom) :
    (rewardsPerScore cur).amountOf denom = cur.rewards.amountOf denom / cur.totalScore.toNat := by
  unfold rewardsPerScore
  split
  case isTrue hzero => rw [hzero, Int.toNat_zero, Nat.div_zero, amountOf_empty]
  case isFalse => rw [amountOf_quoInt]

/-- What the end of a period leaves behind. -/
structure Closed (s t : State) (ended : Nat) : Prop extends SameTrackers s t where
  current : ∃ cur, t.currentRewards = some cur ∧ cur.rewards = empty ∧
    ended = cur.period - 1
  sound : t.Sound
  pool : ∀ denom, t.pool denom = (s.pool denom).close

/-- The state in which `IncrementRewardsPeriod` leaves the store. -/
theorem closed_increment (h : s.Sound) (hcur : s.currentRewards = some cur)
    {rwd : HistoricalRewards} (hrwd : s.historicalRewards.get (cur.period - 1) = some rwd) :
    Closed s ((s.setHistoricalRewards cur.period
      ⟨rwd.cumulativeRewardsPerScore.add (rewardsPerScore cur)⟩).setCurrentRewards
        ⟨empty, cur.period + 1, cur.totalScore⟩) cur.period := by
  have hper : ∀ denom, ((s.setHistoricalRewards cur.period
        ⟨rwd.cumulativeRewardsPerScore.add (rewardsPerScore cur)⟩).setCurrentRewards
          ⟨empty, cur.period + 1, cur.totalScore⟩).periods denom
      = (s.periods denom).closed (openPeriodOf cur denom) := by
    intro denom
    rw [periods_setRecords, amountOf_add, amountOf_rewardsPerScore, ← cumulativeAt_eq hrwd]
    rfl
  refine ⟨⟨rfl, rfl, rfl⟩, ⟨_, rfl, rfl, (Nat.add_sub_cancel _ _).symm⟩, ?_, fun denom => ?_⟩
  · refine SameTrackers.sound (s := s) ⟨rfl, rfl, rfl⟩ h rfl (h.total cur hcur) fun denom => ?_
    rw [hper]
    exact (h.tracked denom).closed (openPeriod_eq hcur denom)
  · unfold pool
    rw [hper, Periods.pool_closed (h.tracked denom) (openPeriod_eq hcur denom)]

/-- `IncrementRewardsPeriod` closes the period of the pool. -/
theorem exists_increment (h : s.Sound) :
    ∃ ended t, s.incrementRewardsPeriod = .ok (ended, t) ∧ Closed s t ended := by
  obtain ⟨cur, opened, hopened, hopen⟩ := exists_opened h
  have hpos := period_pos hopen.sound.ordered hopen.current
  obtain ⟨rwd, hrwd⟩ := exists_historical hopen.sound.ordered hopen.current (cur.period - 1)
    (by omega)
  have hcl := closed_increment hopen.sound hopen.current hrwd
  refine ⟨cur.period, _, ?_, ⟨hcl.params.trans hopen.params, hcl.trackers.trans hopen.trackers,
    hcl.validatorSet.trans hopen.validatorSet⟩, hcl.current, hcl.sound, fun denom => ?_⟩
  · simp only [incrementRewardsPeriod, hopened, getHistoricalRewards, hrwd, orThrow_some, ok_bind]
    rfl
  · rw [hcl.pool, hopen.pool]

/-- Without rewards in the open period, its total does not matter when it is closed. -/
theorem rewardsPerScore_of_empty (h : cur.rewards = empty) : rewardsPerScore cur = empty := by
  unfold rewardsPerScore
  split
  case isTrue => rfl
  case isFalse =>
    rw [h]
    rfl

/-- `UpdateCurrentRewardsTotalScore` closes a period without rewards under the new total. -/
theorem closed_updateTotal {totalScore : Int} {params : Params} (hcur : s.currentRewards = some cur)
    (hemp : cur.rewards = empty)
    (hsound : Sound { s with params, currentRewards := some { cur with totalScore } })
    (h : s.updateCurrentRewardsTotalScore totalScore = .ok t) :
    Closed { s with params, currentRewards := some { cur with totalScore } } { t with params }
      cur.period := by
  simp only [updateCurrentRewardsTotalScore, incrementRewardsPeriod, getCurrentRewardsInitialized,
    hcur, getHistoricalRewards, ok_iff, getCurrentRewards] at h
  obtain ⟨_, ⟨rwd, hrwd, rfl⟩, cur', hcur', rfl⟩ := h
  obtain rfl := some.inj hcur'
  have hcl := closed_increment hsound rfl hrwd
  have hnoth : rewardsPerScore { cur with totalScore } = empty := rewardsPerScore_of_empty hemp
  rw [hnoth] at hcl
  rw [rewardsPerScore_of_empty hemp]
  exact hcl

/-- `AddRewardsForCostakers` adds to the open period. -/
theorem sound_addRewards (h : s.Sound) (rwd : Coins) :
    (s.addRewardsForCostakers rwd).Sound ∧ ∀ denom, (s.addRewardsForCostakers rwd).pool denom
        = (s.pool denom).add (rwd.amountOf denom * decimalRewards) := by
  obtain ⟨cur, opened, hopened, hopen⟩ := exists_opened h
  have hadd : s.addRewardsForCostakers rwd = opened.setCurrentRewards
      { cur with rewards := cur.rewards.add (rwd.mulInt decimalRewards) } := by
    unfold addRewardsForCostakers
    rw [hopened]
  have hper : ∀ denom, (s.addRewardsForCostakers rwd).periods denom
      = (opened.periods denom).earned (openPeriodOf cur denom)
          (rwd.amountOf denom * decimalRewards) := by
    intro denom
    rw [hadd]
    refine Periods.ext ?_ rfl rfl
    have hopen := openPeriod_eq (s := opened.setCurrentRewards
      { cur with rewards := cur.rewards.add (rwd.mulInt decimalRewards) }) rfl denom
    rw [openPeriodOf, amountOf_add, amountOf_mulInt] at hopen
    exact hopen
  have hsame : SameTrackers s (s.addRewardsForCostakers rwd) := by
    rw [hadd]
    exact ⟨hopen.params, hopen.trackers, hopen.validatorSet⟩
  have hcur : (s.addRewardsForCostakers rwd).currentRewards
      = some { cur with rewards := cur.rewards.add (rwd.mulInt decimalRewards) } := by
    rw [hadd]
    rfl
  have hopenPeriod := fun denom => openPeriod_eq hopen.current denom
  refine ⟨hsame.sound h hcur ?_ fun denom => ?_, fun denom => ?_⟩
  · rw [← hopen.toSameTrackers.scores]
    exact hopen.sound.total cur hopen.current
  · rw [hper]
    exact (hopen.sound.tracked denom).earned (hopenPeriod denom) _
  · rw [← hopen.pool]
    unfold pool
    rw [hper, Periods.pool_earned (hopenPeriod denom)]

/-! ## Rewards of a costaker -/

/-- `CalculateCostakerRewards` computes the claim of the costaker. -/
theorem exists_rewards (h : s.Ordered) (hcur : s.currentRewards = some cur)
    (costaker : AccAddress) :
    ∃ rewards, s.calculateCostakerRewards costaker (cur.period - 1) = .ok rewards ∧
      Truncates rewards fun denom => (s.pool denom).claim costaker := by
  unfold calculateCostakerRewards
  cases hget : s.costakerRewardsTracker.get costaker with
  | none =>
    refine ⟨empty, rfl, .of_claim_eq_zero fun denom => ?_⟩
    rw [pool_claim, hget, elim_none]
  | some tracker =>
    dsimp only
    split
    case isTrue hzero =>
      refine ⟨empty, rfl, .of_claim_eq_zero fun denom => ?_⟩
      rw [pool_claim, hget, elim_some, hzero, Int.toNat_zero, Nat.zero_mul]
    case isFalse hscore =>
      have hpos := period_pos h hcur
      have hnn := h.nonneg costaker tracker hget
      have hstart := start_lt h hcur hget hscore
      obtain ⟨starting, hstarting⟩ := exists_historical h hcur _ hstart
      obtain ⟨ending, hending⟩ := exists_historical h hcur (cur.period - 1) (by omega)
      have hfirst := cumulativeAt_eq hstarting
      have hlast := cumulativeAt_eq hending
      have hle : ∀ denom, starting.cumulativeRewardsPerScore.amountOf denom
          ≤ ending.cumulativeRewardsPerScore.amountOf denom := by
        intro denom
        rw [← hfirst, ← hlast]
        exact (h.periods denom).rising _ (openPeriod_eq hcur denom) _ _ (by omega)
          (Nat.sub_one_lt (Nat.one_le_iff_ne_zero.mp hpos))
      obtain ⟨difference, hsub, htr⟩ :=
        Truncates.exists_difference tracker.totalScore.toNat hle (by omega)
      refine ⟨_, ?_, htr.congr fun denom => ?_⟩
      · simp only [calculateCoStakerRewardsBetween, getHistoricalRewards, hstarting, hending,
          orThrow_some, ok_bind, hsub, Outcome.orFail]
        rw [ensure_of _ (by omega), ok_bind]
        rfl
      · rw [pool_claim, hget, elim_some, pool, Periods.pool_cumulative (openPeriod_eq hcur denom)]
        unfold openPeriodOf
        rw [hfirst, hlast]

/-! ## Changing a tracker -/

/-- The tracker of one costaker is written, and the total score of the pool. -/
def restaked (s : State) (costaker : AccAddress) (cur : CurrentRewards)
    (tracker : CostakerRewardsTracker) (total : Int) : State :=
  { s with
    currentRewards := some { cur with totalScore := total }
    costakerRewardsTracker := s.costakerRewardsTracker.set costaker
      { tracker with startPeriodCumulativeReward := cur.period - 1 } }

/-- The score of a costaker, zero if it has no tracker. -/
def scoreOf (s : State) (costaker : AccAddress) : Int :=
  (s.costakerRewardsTracker.get costaker).elim 0 fun tracker => tracker.totalScore

theorem scores_set (s : State) (costaker : AccAddress) (tracker : CostakerRewardsTracker) :
    (s.setCostakerRewardsTracker costaker tracker).scores + s.scoreOf costaker
      = s.scores + tracker.totalScore :=
  sumBy_set _ _ _ _

theorem Sound.scoreOf_nonneg (h : s.Sound) (costaker : AccAddress) : 0 ≤ s.scoreOf costaker := by
  unfold scoreOf
  cases hget : s.costakerRewardsTracker.get costaker with
  | none => exact le_refl 0
  | some tracker => exact h.score_nonneg hget

theorem Sound.scoreOf_le (h : s.Sound) (costaker : AccAddress) : s.scoreOf costaker ≤ s.scores := by
  have hsplit := sumBy_delete s.costakerRewardsTracker costaker fun _ tracker => tracker.totalScore
  have hoth : 0 ≤ (s.costakerRewardsTracker.delete costaker).sumBy
      fun _ tracker => tracker.totalScore := by
    rw [← sumBy_toNat fun other tracker hget => ?_]
    · exact Int.natCast_nonneg _
    · rw [get_delete] at hget
      split at hget
      case isTrue => cases hget
      case isFalse => exact h.score_nonneg hget
  unfold scoreOf scores
  omega

theorem pool_stake_eq (s : State) (costaker : AccAddress) (denom : Denom) :
    (s.pool denom).stake costaker = (s.scoreOf costaker).toNat := by
  rw [pool_stake]
  unfold scoreOf
  cases s.costakerRewardsTracker.get costaker <;> rfl

/-- The tracker that `costakerModified` starts from. -/
def trackerOf (s : State) (costaker : AccAddress) : CostakerRewardsTracker :=
  (s.getCostakerRewardsOrInitialize costaker).1

theorem trackerOf_of_get (hget : s.costakerRewardsTracker.get costaker = some tracker) :
    s.trackerOf costaker = tracker := by
  unfold trackerOf getCostakerRewardsOrInitialize
  rw [hget]

theorem trackerOf_totalScore (s : State) (costaker : AccAddress) :
    (s.trackerOf costaker).totalScore = s.scoreOf costaker := by
  unfold scoreOf
  cases hget : s.costakerRewardsTracker.get costaker with
  | none =>
    unfold trackerOf getCostakerRewardsOrInitialize
    rw [hget]
    rfl
  | some tracker => rw [trackerOf_of_get hget, elim_some]

/-- `GetCostakerRewardsOrInitialize`. -/
theorem exists_trackerOf (h : s.Sound) (costaker : AccAddress) :
    ∃ cur opened, s.getCostakerRewardsOrInitialize costaker = (s.trackerOf costaker, opened) ∧
      Opened s opened cur := by
  cases hget : s.costakerRewardsTracker.get costaker with
  | some tracker =>
    obtain ⟨cur, hcur⟩ : ∃ cur, s.currentRewards = some cur := by
      cases hcur : s.currentRewards with
      | some cur => exact ⟨cur, rfl⟩
      | none =>
        rw [h.fresh hcur] at hget
        cases hget
    refine ⟨cur, s, ?_, ⟨rfl, rfl, rfl⟩, hcur, h, fun _ => rfl⟩
    rw [trackerOf_of_get hget]
    unfold getCostakerRewardsOrInitialize
    rw [hget]
  | none =>
    obtain ⟨cur, opened, hopened, hopen⟩ := exists_opened h
    refine ⟨cur, opened, ?_, hopen⟩
    unfold trackerOf getCostakerRewardsOrInitialize
    rw [hget]
    rw [hopened]

section Restaked

variable {tracker : CostakerRewardsTracker} {total : Int}

/-- `initializeCoStakerRwdTracker` after the tracker and the total score were written. -/
theorem initialize_restaked (s : State) (costaker : AccAddress) (cur : CurrentRewards)
    (tracker : CostakerRewardsTracker) (total : Int) :
    ((s.setCostakerRewardsTracker costaker tracker).setCurrentRewards
        { cur with totalScore := total }).initializeCoStakerRwdTracker costaker
      = .ok (s.restaked costaker cur tracker total) := by
  have hget : ((s.setCostakerRewardsTracker costaker tracker).setCurrentRewards
      { cur with totalScore := total }).costakerRewardsTracker.get costaker = some tracker :=
    get_set_self _ _ _
  simp only [initializeCoStakerRwdTracker, getCostakerRewards, hget, orThrow_some]
  refine congrArg Except.ok ?_
  unfold restaked setCostakerRewardsTracker setCurrentRewards
  rw [set_set]

theorem initialize_unchanged (hcur : s.currentRewards = some cur)
    (hget : s.costakerRewardsTracker.get costaker = some tracker) :
    s.initializeCoStakerRwdTracker costaker
      = .ok (s.restaked costaker cur tracker cur.totalScore) := by
  simp only [initializeCoStakerRwdTracker, getCurrentRewards, getCostakerRewards, hcur, hget,
    orThrow_some, ok_bind]
  refine congrArg Except.ok ?_
  unfold restaked setCostakerRewardsTracker
  rw [← hcur]

theorem periods_restaked (s : State) (costaker : AccAddress) (cur : CurrentRewards)
    (tracker : CostakerRewardsTracker) (total : Int) (denom : Denom) :
    (s.restaked costaker cur tracker total).periods denom
      = (s.periods denom).restaked (openPeriodOf cur denom) costaker tracker.totalScore.toNat
          total.toNat := by
  refine Periods.ext rfl rfl ?_
  unfold periods restaked Periods.restaked
  rw [map_set]
  rfl

theorem pool_restaked (hcur : s.currentRewards = some cur) (denom : Denom) :
    (s.restaked costaker cur tracker total).pool denom
      = (s.pool denom).restake costaker tracker.totalScore.toNat := by
  unfold pool
  rw [periods_restaked, Periods.pool_restaked (openPeriod_eq hcur denom)]

theorem sound_restaked (h : s.Sound) (hcur : s.currentRewards = some cur)
    (hsc : tracker.Scored s.params.scoreRatioBtcByBaby)
    (htot : total = cur.totalScore + (tracker.totalScore - s.scoreOf costaker)) :
    (s.restaked costaker cur tracker total).Sound := by
  have hscore := hsc.nonneg h.ratio
  have hold := h.scoreOf_nonneg costaker
  have hle := h.scoreOf_le costaker
  have hsum := h.total cur hcur
  refine ⟨h.ratio, ?_, ?_, by rintro ⟨⟩, fun denom => ?_⟩
  · exact forall_set h.scored ⟨hsc.activeBaby, hsc.activeSatoshis, hsc.totalScore⟩
  · rintro _ ⟨⟩
    have hset := scores_set s costaker
      { tracker with startPeriodCumulativeReward := cur.period - 1 }
    have hscores : (s.restaked costaker cur tracker total).scores
        = (s.setCostakerRewardsTracker costaker
            { tracker with startPeriodCumulativeReward := cur.period - 1 }).scores := rfl
    dsimp only at hset ⊢
    omega
  · rw [periods_restaked]
    refine (h.tracked denom).restaked (openPeriod_eq hcur denom) ?_
    have hstake := pool_stake_eq s costaker denom
    unfold pool at hstake
    rw [hstake]
    unfold openPeriodOf
    dsimp only
    omega

end Restaked

/-- A tracker is written with the score and the period it had, or without a score. -/
theorem sound_setTracker (h : s.Sound) (hcur : s.currentRewards = some cur)
    (hsc : tracker.Scored s.params.scoreRatioBtcByBaby)
    (hscore : tracker.totalScore = s.scoreOf costaker)
    (hstart : ∀ old, s.costakerRewardsTracker.get costaker = some old →
      tracker.startPeriodCumulativeReward = old.startPeriodCumulativeReward) :
    (s.setCostakerRewardsTracker costaker tracker).Sound ∧
      ∀ denom, ((s.setCostakerRewardsTracker costaker tracker).pool denom).value
        = (s.pool denom).value := by
  have hparts : ∀ denom,
      ((s.setCostakerRewardsTracker costaker tracker).periods denom).participants
        = (s.periods denom).participants.set costaker
            ⟨tracker.startPeriodCumulativeReward, tracker.totalScore.toNat⟩ := by
    intro denom
    unfold periods setCostakerRewardsTracker
    rw [map_set]
  -- the stored pool is the same, or has one more participant without a stake
  have hper : (∀ denom, (s.setCostakerRewardsTracker costaker tracker).periods denom
        = s.periods denom) ∨
      s.costakerRewardsTracker.get costaker = none ∧
        ∀ denom, (s.setCostakerRewardsTracker costaker tracker).periods denom
          = (s.periods denom).joined costaker tracker.startPeriodCumulativeReward := by
    unfold scoreOf at hscore
    cases hget : s.costakerRewardsTracker.get costaker with
    | none =>
      rw [hget, elim_none] at hscore
      refine .inr ⟨rfl, fun denom => Periods.ext rfl rfl ?_⟩
      rw [hparts, hscore]
      rfl
    | some old =>
      rw [hget, elim_some] at hscore
      refine .inl fun denom => Periods.ext rfl rfl ?_
      rw [hparts]
      refine set_eq_self_of_get ?_
      rw [participants_get, hget, map_some, hscore, hstart old hget]
  have hset := scores_set s costaker tracker
  have htot := h.total cur hcur
  have hsound : (∀ denom, ((s.setCostakerRewardsTracker costaker tracker).periods
      denom).Consistent) → (s.setCostakerRewardsTracker costaker tracker).Sound := by
    refine fun htrk => ⟨h.ratio, forall_set h.scored hsc, fun cur' hcur' => ?_,
      fun hnone => (by cases hcur.symm.trans hnone), htrk⟩
    cases hcur.symm.trans hcur'
    omega
  rcases hper with hsame | ⟨hnone, hjoined⟩
  · refine ⟨hsound fun denom => by rw [hsame]; exact h.tracked denom, fun denom => ?_⟩
    unfold pool
    rw [hsame]
  · have hget : ∀ denom, (s.periods denom).participants.get costaker = none := fun denom => by
      rw [participants_get, hnone, map_none]
    refine ⟨hsound fun denom => by rw [hjoined]; exact (h.tracked denom).joined (hget denom),
      fun denom => ?_⟩
    have hvalue := (s.pool denom).value_restake costaker 0
    rw [pool_claim, hnone, elim_none, Nat.add_zero] at hvalue
    rw [pool, hjoined, Periods.pool_joined]
    exact hvalue

end State

end Babylon.Costaking
