/-
  The records of a finality provider as a pool of rewards.

  For every denomination, the current and historical rewards of a provider and the
  trackers of its delegators are a reward pool stored by periods, in the sense of
  `Lib.RewardPeriods`.  Every change of a delegation closes the period of the pool,
  pays the delegator and sets its stake.
-/
import Babylon.Incentive.Keeper
import Babylon.Lib.RewardPeriods

set_option autoImplicit false

namespace Babylon.Incentive

open Lib KVStore Coins Option

variable {tracker : BTCDelegationRewardsTracker} {amt : Nat}

namespace State

variable {s t u : State} {fp del : AccAddress}

/-! ## The abstraction -/

/-- The open period of a provider in one denomination. -/
def openPeriodOf (cur : FinalityProviderCurrentRewards) (denom : Denom) : OpenPeriod :=
  ⟨cur.currentRewards.amountOf denom * decimalRewards, cur.period, cur.totalActiveSat⟩

/-- The records of a provider in one denomination. -/
def periods (s : State) (fp : AccAddress) (denom : Denom) : Periods AccAddress where
  openPeriod := (s.finalityProviderCurrentRewards.get fp).map fun cur => openPeriodOf cur denom
  history := (s.finalityProviderHistoricalRewards.under fp).map fun rwd =>
    rwd.cumulativeRewardsPerSat.amountOf denom
  participants := (s.btcDelegationRewardsTracker.under fp).map fun tracker =>
    ⟨tracker.startPeriodCumulativeReward, tracker.totalActiveSat⟩

/-- The rewards of a provider in one denomination. -/
def pool (s : State) (fp : AccAddress) (denom : Denom) : Pool AccAddress :=
  (s.periods fp denom).pool

/-- The satoshis of a delegator with a provider. -/
def satsOf (s : State) (fp del : AccAddress) : Nat :=
  ((s.btcDelegationRewardsTracker.under fp).get del).elim 0
    BTCDelegationRewardsTracker.totalActiveSat

/-- The records of a provider fit together. -/
def Tracked (s : State) (fp : AccAddress) : Prop := ∀ denom, (s.periods fp denom).Consistent

/-- The gauges of the blocks and the records of all providers but one stay as they are. -/
structure Frame (fp : AccAddress) (s t : State) : Prop where
  btcStakingGauges : t.btcStakingGauges = s.btcStakingGauges
  fpDirectGauges : t.fpDirectGauges = s.fpDirectGauges
  current : ∀ other, other ≠ fp → t.finalityProviderCurrentRewards.get other
    = s.finalityProviderCurrentRewards.get other
  historical : ∀ other, other ≠ fp → t.finalityProviderHistoricalRewards.under other
    = s.finalityProviderHistoricalRewards.under other
  trackers : ∀ other, other ≠ fp → t.btcDelegationRewardsTracker.under other
    = s.btcDelegationRewardsTracker.under other

namespace Frame

theorem gauges (fp : AccAddress) (s : State)
    (rewardGauges : StakeholderType → KVStore AccAddress RewardGauge) :
    Frame fp s { s with rewardGauges } :=
  ⟨rfl, rfl, fun _ _ => rfl, fun _ _ => rfl, fun _ _ => rfl⟩

theorem trans (h : Frame fp s t) (h' : Frame fp t u) : Frame fp s u where
  btcStakingGauges := h'.btcStakingGauges.trans h.btcStakingGauges
  fpDirectGauges := h'.fpDirectGauges.trans h.fpDirectGauges
  current := fun other hne => (h'.current other hne).trans (h.current other hne)
  historical := fun other hne => (h'.historical other hne).trans (h.historical other hne)
  trackers := fun other hne => (h'.trackers other hne).trans (h.trackers other hne)

theorem periods (h : Frame fp s t) {other : AccAddress} (hne : other ≠ fp) :
    t.periods other = s.periods other := by
  funext denom
  unfold State.periods
  rw [h.current other hne, h.historical other hne, h.trackers other hne]

theorem tracked (h : Frame fp s t) (hfp : t.Tracked fp) (inv : ∀ other, s.Tracked other)
    (other : AccAddress) : t.Tracked other := by
  by_cases heq : other = fp
  · exact heq ▸ hfp
  · unfold Tracked
    rw [h.periods heq]
    exact inv other

end Frame

/-! ## Reading the pool -/

variable {rwd : FinalityProviderHistoricalRewards}

section Reading

theorem history_get (s : State) (fp : AccAddress) (denom : Denom) (period : Nat) :
    (s.periods fp denom).history.get period
      = ((s.finalityProviderHistoricalRewards.under fp).get period).map fun rwd =>
          rwd.cumulativeRewardsPerSat.amountOf denom :=
  get_map _ _ _

theorem cumulativeAt_eq {period : Nat}
    (h : (s.finalityProviderHistoricalRewards.under fp).get period = some rwd) (denom : Denom) :
    (s.periods fp denom).cumulativeAt period = rwd.cumulativeRewardsPerSat.amountOf denom := by
  unfold Periods.cumulativeAt
  rw [history_get, h, map_some, getD_some]

theorem participants_get (s : State) (fp del : AccAddress) (denom : Denom) :
    (s.periods fp denom).participants.get del
      = ((s.btcDelegationRewardsTracker.under fp).get del).map fun tracker =>
          ⟨tracker.startPeriodCumulativeReward, tracker.totalActiveSat⟩ :=
  get_map _ _ _

theorem pool_stake (s : State) (fp del : AccAddress) (denom : Denom) :
    (s.pool fp denom).stake del = s.satsOf fp del := by
  unfold pool satsOf
  rw [Periods.pool_stake, participants_get]
  cases (s.btcDelegationRewardsTracker.under fp).get del <;> rfl

theorem satsOf_of_get (hget : (s.btcDelegationRewardsTracker.under fp).get del = some tracker) :
    s.satsOf fp del = tracker.totalActiveSat := by
  unfold satsOf
  rw [hget, elim_some]

variable {cur : FinalityProviderCurrentRewards} (h : s.Tracked fp)
  (hcur : s.finalityProviderCurrentRewards.get fp = some cur)

include hcur

theorem openPeriod_eq (denom : Denom) :
    (s.periods fp denom).openPeriod = some (openPeriodOf cur denom) := by
  unfold periods
  rw [hcur, map_some]

theorem pool_current (denom : Denom) :
    (s.pool fp denom).current = cur.currentRewards.amountOf denom * decimalRewards :=
  Periods.pool_current (openPeriod_eq hcur denom)

theorem pool_cumulative (denom : Denom) :
    (s.pool fp denom).cumulative = (s.periods fp denom).cumulativeAt (cur.period - 1) :=
  Periods.pool_cumulative (openPeriod_eq hcur denom)

include h

theorem pool_total (denom : Denom) : (s.pool fp denom).total = cur.totalActiveSat :=
  Periods.pool_total (h denom) (openPeriod_eq hcur denom)

/-- A delegator with a stake has not been paid after some closed period. -/
theorem start_lt (hget : (s.btcDelegationRewardsTracker.under fp).get del = some tracker)
    (hsat : tracker.totalActiveSat ≠ 0) : tracker.startPeriodCumulativeReward < cur.period := by
  have hpart := participants_get s fp del 0
  rw [hget, map_some] at hpart
  exact (h 0).start_lt (openPeriod_eq hcur 0) hpart hsat

theorem exists_historical (period : Nat) (hlt : period < cur.period) :
    ∃ rwd, (s.finalityProviderHistoricalRewards.under fp).get period = some rwd := by
  obtain ⟨amount, hamount⟩ := (h 0).history _ (openPeriod_eq hcur 0) period hlt
  rw [history_get] at hamount
  obtain ⟨rwd, hrwd, -⟩ := map_eq_some_iff.mp hamount
  exact ⟨rwd, hrwd⟩

theorem period_pos : 1 ≤ cur.period :=
  (h 0).number_pos _ (openPeriod_eq hcur 0)

end Reading

/-! ## Closing a period -/

theorem amountOf_rewardsPerSat (cur : FinalityProviderCurrentRewards) (denom : Denom) :
    cur.rewardsPerSat.amountOf denom
      = cur.currentRewards.amountOf denom * decimalRewards / cur.totalActiveSat := by
  unfold FinalityProviderCurrentRewards.rewardsPerSat
  split
  case isTrue hzero => rw [hzero, Nat.div_zero, amountOf_empty]
  case isFalse => rw [amountOf_quoInt, amountOf_mulInt]

/-- What the end of a period leaves behind. -/
structure Closed (fp : AccAddress) (s t : State) (ended : Nat) : Prop where
  frame : Frame fp s t
  rewardGauges : t.rewardGauges = s.rewardGauges
  trackers : t.btcDelegationRewardsTracker = s.btcDelegationRewardsTracker
  tracked : t.Tracked fp
  pool : ∀ denom, t.pool fp denom = (s.pool fp denom).close
  current : ∃ cur, t.finalityProviderCurrentRewards.get fp = some cur ∧
    ∀ del tracker, (s.btcDelegationRewardsTracker.under fp).get del = some tracker →
      tracker.totalActiveSat ≠ 0 → ended = cur.period - 1

/-- The records of a provider with a new open period and one more closed period. -/
theorem periods_setRecords (s : State) (fp : AccAddress) (period : Nat)
    (rwd : FinalityProviderHistoricalRewards) (cur : FinalityProviderCurrentRewards)
    (denom : Denom) :
    ((s.setFinalityProviderHistoricalRewards fp period rwd).setFinalityProviderCurrentRewards fp
        cur).periods fp denom
      = { s.periods fp denom with
          openPeriod := some (openPeriodOf cur denom)
          history := (s.periods fp denom).history.set period
            (rwd.cumulativeRewardsPerSat.amountOf denom) } := by
  refine Periods.ext ?_ ?_ rfl
  · exact openPeriod_eq (get_set_self _ _ _) denom
  · have hunder : ((s.setFinalityProviderHistoricalRewards fp period
        rwd).setFinalityProviderCurrentRewards fp cur).finalityProviderHistoricalRewards.under fp
          = (s.finalityProviderHistoricalRewards.under fp).set period rwd :=
      (under_setUnder _ _ _ _ _).trans (if_pos rfl)
    unfold periods
    rw [hunder, map_set]

theorem frame_setRecords (s : State) (fp : AccAddress) (period : Nat)
    (rwd : FinalityProviderHistoricalRewards) (cur : FinalityProviderCurrentRewards) :
    Frame fp s
      ((s.setFinalityProviderHistoricalRewards fp period rwd).setFinalityProviderCurrentRewards fp
        cur) := by
  refine ⟨rfl, rfl, ?_, ?_, fun _ _ => rfl⟩
  · exact fun other hne => get_set_of_ne _ _ hne
  · exact fun other hne => (under_setUnder _ _ _ _ _).trans (if_neg hne)

theorem closed_initialize (h : s.Tracked fp)
    (hnone : s.finalityProviderCurrentRewards.get fp = none) :
    Closed fp s (s.initializeFinalityProvider fp) 1 := by
  have hopen : ∀ denom, (s.periods fp denom).openPeriod = none := by
    intro denom
    unfold periods
    rw [hnone, map_none]
  have hper : ∀ denom, (s.initializeFinalityProvider fp).periods fp denom
      = (s.periods fp denom).initialized := by
    intro denom
    have hset := periods_setRecords s fp 0 ⟨empty⟩ ⟨empty, 1, 0⟩ denom
    rw [openPeriodOf, amountOf_empty, Nat.zero_mul] at hset
    exact hset
  refine ⟨frame_setRecords _ _ _ _ _, rfl, rfl, ?_, ?_, ?_⟩
  · intro denom
    rw [hper]
    exact (h denom).initialized (hopen denom)
  · intro denom
    obtain ⟨hsame, hclose⟩ := Periods.pool_initialized (h denom) (hopen denom)
    unfold pool
    rw [hper, hsame, hclose]
  · refine ⟨_, get_set_self _ _ _, fun del tracker hget hsat => ?_⟩
    have hpart := participants_get s fp del 0
    rw [hget, map_some] at hpart
    exact absurd (Periods.stake_eq_zero (h 0) (hopen 0) hpart) hsat

variable {cur : FinalityProviderCurrentRewards}

/-- The state in which `IncrementFinalityProviderPeriod` leaves a known provider. -/
theorem closed_increment (h : s.Tracked fp)
    (hcur : s.finalityProviderCurrentRewards.get fp = some cur)
    (hrwd : (s.finalityProviderHistoricalRewards.under fp).get (cur.period - 1) = some rwd) :
    Closed fp s
      ((s.setFinalityProviderHistoricalRewards fp cur.period
        ⟨rwd.cumulativeRewardsPerSat.add cur.rewardsPerSat⟩).setFinalityProviderCurrentRewards fp
          ⟨empty, cur.period + 1, cur.totalActiveSat⟩) cur.period := by
  have hper : ∀ denom, ((s.setFinalityProviderHistoricalRewards fp cur.period
        ⟨rwd.cumulativeRewardsPerSat.add cur.rewardsPerSat⟩).setFinalityProviderCurrentRewards fp
          ⟨empty, cur.period + 1, cur.totalActiveSat⟩).periods fp denom
      = (s.periods fp denom).closed (openPeriodOf cur denom) := by
    intro denom
    have hset := periods_setRecords s fp cur.period
      ⟨rwd.cumulativeRewardsPerSat.add cur.rewardsPerSat⟩
      ⟨empty, cur.period + 1, cur.totalActiveSat⟩ denom
    rw [openPeriodOf, amountOf_empty, Nat.zero_mul, amountOf_add, amountOf_rewardsPerSat,
      ← cumulativeAt_eq hrwd] at hset
    exact hset
  refine ⟨frame_setRecords _ _ _ _ _, rfl, rfl, ?_, ?_, ?_⟩
  · intro denom
    rw [hper]
    exact (h denom).closed (openPeriod_eq hcur denom)
  · intro denom
    unfold pool
    rw [hper]
    exact Periods.pool_closed (h denom) (openPeriod_eq hcur denom)
  · exact ⟨_, get_set_self _ _ _, fun _ _ _ _ => (Nat.add_sub_cancel _ _).symm⟩

/-- `IncrementFinalityProviderPeriod` closes the period of the pool. -/
theorem exists_increment (h : s.Tracked fp) :
    ∃ ended t, s.incrementFinalityProviderPeriod fp = .ok (ended, t) ∧ Closed fp s t ended := by
  unfold incrementFinalityProviderPeriod
  cases hcur : s.finalityProviderCurrentRewards.get fp with
  | none => exact ⟨1, _, rfl, closed_initialize h hcur⟩
  | some cur =>
    have hpos := period_pos h hcur
    obtain ⟨rwd, hrwd⟩ := exists_historical h hcur (cur.period - 1) (by omega)
    refine ⟨cur.period, _, ?_, closed_increment h hcur hrwd⟩
    simp only [getFinalityProviderHistoricalRewards, hrwd, orThrow_some, ok_bind]
    rfl

/-! ## Paying a delegator -/

theorem accumulateRewardGauge_of_isZero {reward : Coins} (hzero : reward.isZero = true)
    (sType : StakeholderType) (addr : AccAddress) :
    s.accumulateRewardGauge sType addr reward = s := by
  unfold accumulateRewardGauge
  split
  case isTrue hpos =>
    obtain ⟨denom, hamount⟩ := exists_pos_of_isAllPositive hpos
    rw [amountOf_eq_zero_of_isZero hzero] at hamount
    exact absurd hamount (Nat.lt_irrefl 0)
  case isFalse => rfl

theorem pool_claim (s : State) (fp del : AccAddress) (denom : Denom) :
    (s.pool fp denom).claim del = ((s.btcDelegationRewardsTracker.under fp).get del).elim 0
      fun tracker => tracker.totalActiveSat * ((s.pool fp denom).cumulative
        - (s.periods fp denom).cumulativeAt tracker.startPeriodCumulativeReward) := by
  unfold pool
  rw [Periods.pool_claim, participants_get]
  cases (s.btcDelegationRewardsTracker.under fp).get del <;> rfl

section

variable (h : s.Tracked fp) {cur : FinalityProviderCurrentRewards}
  (hcur : s.finalityProviderCurrentRewards.get fp = some cur)

include h hcur

/-- The rewards between two closed periods, with a coin for every denomination that grew. -/
theorem exists_rewardsBetween
    (hstart : tracker.startPeriodCumulativeReward < cur.period)
    (hsat : tracker.totalActiveSat ≠ 0) :
    ∃ rewards, s.calculateDelegationRewardsBetween fp tracker (cur.period - 1) = .ok rewards ∧
      Truncates rewards fun denom => tracker.totalActiveSat *
        ((s.periods fp denom).cumulativeAt (cur.period - 1)
          - (s.periods fp denom).cumulativeAt tracker.startPeriodCumulativeReward) := by
  have hpos := period_pos h hcur
  obtain ⟨starting, hstarting⟩ := exists_historical h hcur _ hstart
  obtain ⟨ending, hending⟩ := exists_historical h hcur (cur.period - 1) (by omega)
  have hfirst := cumulativeAt_eq hstarting
  have hlast := cumulativeAt_eq hending
  have hle : ∀ denom, starting.cumulativeRewardsPerSat.amountOf denom
      ≤ ending.cumulativeRewardsPerSat.amountOf denom := by
    intro denom
    rw [← hfirst, ← hlast]
    exact (h denom).rising _ (openPeriod_eq hcur denom) _ _ (by omega)
      (Nat.sub_one_lt (Nat.one_le_iff_ne_zero.mp hpos))
  obtain ⟨difference, hsub, htr⟩ := Truncates.exists_difference _ hle hsat
  refine ⟨_, ?_, htr.congr fun denom => by rw [hfirst, hlast]⟩
  · simp only [calculateDelegationRewardsBetween, getFinalityProviderHistoricalRewards, hstarting,
      hending, orThrow_some, ok_bind, hsub]
    rw [ensure_of _ (by omega), ok_bind]
    rfl

/-- `CalculateBTCDelegationRewardsAndSendToGauge` computes the claim of the delegator. -/
theorem exists_settle {ended : Nat}
    (hended : ∀ tracker, (s.btcDelegationRewardsTracker.under fp).get del = some tracker →
      tracker.totalActiveSat ≠ 0 → ended = cur.period - 1) :
    ∃ rewards, s.calculateBTCDelegationRewardsAndSendToGauge fp del ended
        = .ok (s.accumulateRewardGauge .btcStaker del rewards) ∧
      Truncates rewards fun denom => (s.pool fp denom).claim del := by
  have hnoth : s.accumulateRewardGauge .btcStaker del empty = s := rfl
  unfold calculateBTCDelegationRewardsAndSendToGauge
  cases hget : (s.btcDelegationRewardsTracker.under fp).get del with
  | none =>
    refine ⟨empty, by rw [hnoth], .of_claim_eq_zero fun denom => ?_⟩
    rw [pool_claim, hget, elim_none]
  | some tracker =>
    dsimp only
    unfold calculateBTCDelegationRewards
    split
    case isTrue hzero =>
      refine ⟨empty, rfl, .of_claim_eq_zero fun denom => ?_⟩
      rw [pool_claim, hget, elim_some, hzero, Nat.zero_mul]
    case isFalse hsat =>
      obtain rfl := hended tracker hget hsat
      obtain ⟨rewards, hrwds, htr⟩ := exists_rewardsBetween h hcur (start_lt h hcur hget hsat) hsat
      refine ⟨rewards, ?_, htr.congr fun denom => ?_⟩
      · rw [hrwds, ok_bind]
        split
        case isTrue hzero => rw [accumulateRewardGauge_of_isZero hzero]; rfl
        case isFalse => rfl
      · rw [pool_claim, hget, elim_some, pool_cumulative hcur]

end

/-- The open period ends and the delegator is paid its claim, rounded down. -/
theorem exists_settled (h : s.Tracked fp) (del : AccAddress) :
    ∃ ended closed rewards, s.incrementFinalityProviderPeriod fp = .ok (ended, closed) ∧
      Closed fp s closed ended ∧ closed.calculateBTCDelegationRewardsAndSendToGauge fp del ended
        = .ok (closed.accumulateRewardGauge .btcStaker del rewards) ∧
      Truncates rewards fun denom => (s.pool fp denom).close.claim del := by
  obtain ⟨ended, closed, hclose, hcl⟩ := exists_increment h
  obtain ⟨cur, hcur, hended⟩ := hcl.current
  obtain ⟨rewards, hsettle, htr⟩ := exists_settle hcl.tracked hcur
    fun tracker hget => hended del tracker (by rwa [hcl.trackers] at hget)
  exact ⟨ended, closed, rewards, hclose, hcl, hsettle, htr.congr fun denom => by rw [hcl.pool]⟩

/-! ## Changing the stake of a delegator -/

/-- A delegator that was paid up to the last closed period, with a new stake. -/
def restaked (s : State) (fp del : AccAddress) (cur : FinalityProviderCurrentRewards)
    (sat total : Nat) : State :=
  (s.setBTCDelegationRewardsTracker fp del
    ⟨cur.period - 1, sat⟩).setFinalityProviderCurrentRewards fp { cur with totalActiveSat := total }

section Restaked

variable (s fp del) (cur : FinalityProviderCurrentRewards) (sat total : Nat)

theorem frame_restaked : Frame fp s (s.restaked fp del cur sat total) where
  btcStakingGauges := rfl
  fpDirectGauges := rfl
  current := fun _ hne => get_set_of_ne _ _ hne
  historical := fun _ _ => rfl
  trackers := fun _ hne => (under_setUnder _ _ _ _ _).trans (if_neg hne)

/-- `initializeBTCDelegation` after a change of the stake of the delegator and of the total. -/
theorem initialize_restaked (tracker : BTCDelegationRewardsTracker) (total : Nat) :
    ((s.setBTCDelegationRewardsTracker fp del tracker).setFinalityProviderCurrentRewards fp
        { cur with totalActiveSat := total }).initializeBTCDelegation fp del
      = .ok (s.restaked fp del cur tracker.totalActiveSat total) := by
  set changed := (s.setBTCDelegationRewardsTracker fp del
    tracker).setFinalityProviderCurrentRewards fp { cur with totalActiveSat := total } with hchgd
  have hcur : changed.finalityProviderCurrentRewards.get fp
      = some { cur with totalActiveSat := total } := get_set_self _ _ _
  have htracker : (changed.btcDelegationRewardsTracker.under fp).get del = some tracker :=
    (get_under_setUnder _ _ _ _ _ _).trans (if_pos ⟨rfl, rfl⟩)
  simp only [initializeBTCDelegation, getFinalityProviderCurrentRewards,
    getBTCDelegationRewardsTracker, hcur, htracker, orThrow_some, ok_bind]
  refine congrArg Except.ok ?_
  rw [hchgd]
  unfold restaked setBTCDelegationRewardsTracker setFinalityProviderCurrentRewards
  rw [setUnder_setUnder, setUnder_setUnder]

variable {s fp del cur sat total}

/-- The new stake in the records of the provider. -/
theorem periods_restaked (denom : Denom) :
    (s.restaked fp del cur sat total).periods fp denom
      = (s.periods fp denom).restaked (openPeriodOf cur denom) del sat total := by
  refine Periods.ext ?_ rfl ?_
  · exact openPeriod_eq (s := s.restaked fp del cur sat total) (get_set_self _ _ _) denom
  · unfold periods Periods.restaked
    dsimp only [restaked, setBTCDelegationRewardsTracker, setFinalityProviderCurrentRewards]
    rw [under_setUnder, if_pos rfl, map_set]
    rfl

variable (h : s.Tracked fp) (hcur : s.finalityProviderCurrentRewards.get fp = some cur)

include hcur

theorem pool_restaked (denom : Denom) :
    (s.restaked fp del cur sat total).pool fp denom = (s.pool fp denom).restake del sat := by
  unfold pool
  rw [periods_restaked, Periods.pool_restaked (openPeriod_eq hcur denom)]

theorem initialize_addDelegationSat (amt : Nat) :
    (s.addDelegationSat fp del amt).initializeBTCDelegation fp del
      = .ok (s.restaked fp del cur (s.satsOf fp del + amt) (cur.totalActiveSat + amt)) := by
  have hsats : (((s.btcDelegationRewardsTracker.under fp).get del).getD ⟨0, 0⟩).totalActiveSat
      = s.satsOf fp del := by
    unfold satsOf
    cases (s.btcDelegationRewardsTracker.under fp).get del <;> rfl
  rw [← hsats, ← initialize_restaked s fp del cur { ((s.btcDelegationRewardsTracker.under fp).get
    del).getD ⟨0, 0⟩ with totalActiveSat := _ + amt }]
  congr 1
  simp only [addDelegationSat, addFinalityProviderStaked, setBTCDelegationRewardsTracker, hcur]

theorem initialize_unchanged
    (hget : (s.btcDelegationRewardsTracker.under fp).get del = some tracker) :
    s.initializeBTCDelegation fp del
      = .ok (s.restaked fp del cur (s.satsOf fp del) cur.totalActiveSat) := by
  have hsats : s.satsOf fp del = tracker.totalActiveSat := satsOf_of_get hget
  simp only [initializeBTCDelegation, getFinalityProviderCurrentRewards,
    getBTCDelegationRewardsTracker, hcur, hget, orThrow_some, ok_bind]
  refine congrArg Except.ok ?_
  rw [hsats]
  unfold restaked setBTCDelegationRewardsTracker setFinalityProviderCurrentRewards
  rw [set_eq_self_of_get hcur]

theorem initialize_subDelegationSat
    (hget : (s.btcDelegationRewardsTracker.under fp).get del = some tracker)
    (hamt : amt ≤ tracker.totalActiveSat) (hle : amt ≤ cur.totalActiveSat) :
    (s.subDelegationSat fp del amt >>= fun t => t.initializeBTCDelegation fp del)
      = .ok (s.restaked fp del cur (s.satsOf fp del - amt) (cur.totalActiveSat - amt)) := by
  have hsats : s.satsOf fp del = tracker.totalActiveSat := satsOf_of_get hget
  rw [hsats, ← initialize_restaked s fp del cur
    { tracker with totalActiveSat := tracker.totalActiveSat - amt }]
  simp only [subDelegationSat, getBTCDelegationRewardsTracker, subFinalityProviderStaked,
    getFinalityProviderCurrentRewards, setBTCDelegationRewardsTracker, hget, hcur, orThrow_some,
    ensure_of _ hamt, ensure_of _ hle, ok_bind]
  rfl

end Restaked

/-! ## Rewards of a provider -/

/-- `AddFinalityProviderRewardsForBtcDelegations` adds to the open period of a known provider. -/
structure Rewarded (fp : AccAddress) (rwd : Coins) (s t : State) : Prop where
  frame : Frame fp s t
  rewardGauges : t.rewardGauges = s.rewardGauges
  tracked : t.Tracked fp
  pool : ∀ denom, t.pool fp denom = (s.pool fp denom).add (rwd.amountOf denom * decimalRewards)

theorem rewarded_of_add (h : s.Tracked fp) {rwd : Coins}
    (hok : s.addFinalityProviderRewardsForBtcDelegations fp rwd = .ok t) : Rewarded fp rwd s t := by
  simp only [addFinalityProviderRewardsForBtcDelegations, getFinalityProviderCurrentRewards,
    ok_iff] at hok
  obtain ⟨cur, hcur, rfl⟩ := hok
  have hper : ∀ denom, (s.setFinalityProviderCurrentRewards fp
        { cur with currentRewards := cur.currentRewards.add rwd }).periods fp denom
      = (s.periods fp denom).earned (openPeriodOf cur denom)
          (rwd.amountOf denom * decimalRewards) := by
    intro denom
    refine Periods.ext ?_ rfl rfl
    have hopen := openPeriod_eq (s := s.setFinalityProviderCurrentRewards fp
      { cur with currentRewards := cur.currentRewards.add rwd }) (get_set_self _ _ _) denom
    rw [openPeriodOf, amountOf_add, Nat.add_mul] at hopen
    exact hopen
  refine ⟨⟨rfl, rfl, fun other hne => get_set_of_ne _ _ hne, fun _ _ => rfl, fun _ _ => rfl⟩, rfl,
    fun denom => ?_, fun denom => ?_⟩
  · rw [hper]
    exact (h denom).earned (openPeriod_eq hcur denom) _
  · unfold pool
    rw [hper, Periods.pool_earned (openPeriod_eq hcur denom)]

/-! ## Changes of a delegation -/

/-- The delegator is paid its claim after the period is closed, rounded down. -/
structure Credited (fp del : AccAddress) (s t : State) : Prop where
  frame : Frame fp s t
  tracked : t.Tracked fp
  credited : ∃ rewards : Coins,
    Truncates rewards (fun denom => (s.pool fp denom).close.claim del) ∧
      t.rewardGauges = (s.accumulateRewardGauge .btcStaker del rewards).rewardGauges

/-- The period is closed and the delegator is paid. -/
structure Paid (fp del : AccAddress) (s t : State) : Prop extends Credited fp del s t where
  trackers : t.btcDelegationRewardsTracker = s.btcDelegationRewardsTracker
  pool : ∀ denom, t.pool fp denom = (s.pool fp denom).close

/-- The effect of a change of a delegation: the delegator is paid and has a new stake. -/
structure Settles (fp del : AccAddress) (sat : Nat) (s t : State) : Prop
    extends Credited fp del s t where
  pool : ∀ denom, t.pool fp denom = (s.pool fp denom).close.restake del sat

/-- Only the reward gauges change. -/
theorem exists_accumulate (s : State) (sType : StakeholderType) (addr : AccAddress)
    (reward : Coins) :
    ∃ gauges, s.accumulateRewardGauge sType addr reward = { s with rewardGauges := gauges } := by
  unfold accumulateRewardGauge
  split
  case isTrue => exact ⟨_, rfl⟩
  case isFalse => exact ⟨s.rewardGauges, rfl⟩

/-- The first two parts of `btcDelegationModifiedWithPreInitDel` always succeed. -/
theorem exists_paid (h : s.Tracked fp) (del : AccAddress) :
    ∃ paid cur, Paid fp del s paid ∧ paid.finalityProviderCurrentRewards.get fp = some cur ∧
      ∀ preInit, s.btcDelegationModifiedWithPreInitDel fp del preInit
        = (preInit paid >>= fun t => t.initializeBTCDelegation fp del) := by
  obtain ⟨ended, closed, rewards, hclose, hcl, hsettle, htr⟩ := exists_settled h del
  obtain ⟨cur, hcur, -⟩ := hcl.current
  -- the gauges are not part of the records of the provider
  obtain ⟨gauges, hgs⟩ := exists_accumulate closed .btcStaker del rewards
  have hcred : (s.accumulateRewardGauge .btcStaker del rewards).rewardGauges = gauges := by
    have hclosedGauges : (closed.accumulateRewardGauge .btcStaker del rewards).rewardGauges
        = gauges := by rw [hgs]
    rw [← hclosedGauges]
    unfold accumulateRewardGauge
    rw [hcl.rewardGauges]
    split
    case isTrue => rfl
    case isFalse => exact hcl.rewardGauges.symm
  refine ⟨{ closed with rewardGauges := gauges }, cur,
    ⟨⟨hcl.frame.trans (.gauges fp closed gauges), hcl.tracked, rewards, htr, hcred.symm⟩,
      hcl.trackers, hcl.pool⟩, hcur, ?_⟩
  intro preInit
  simp only [btcDelegationModifiedWithPreInitDel, hclose, ok_bind, hsettle, hgs]

theorem Paid.satsOf (h : Paid fp del s t)
    (other : AccAddress) : t.satsOf fp other = s.satsOf fp other := by
  unfold State.satsOf
  rw [h.trackers]

theorem Paid.restaked (h : Paid fp del s t)
    (hcur : t.finalityProviderCurrentRewards.get fp = some cur) (sat total : Nat)
    (htot : total + s.satsOf fp del = cur.totalActiveSat + sat) :
    Settles fp del sat s (t.restaked fp del cur sat total) where
  frame := h.frame.trans (frame_restaked _ _ _ _ _ _)
  tracked := by
    intro denom
    rw [← h.satsOf, ← pool_stake t fp del denom] at htot
    rw [periods_restaked]
    exact (h.tracked denom).restaked (openPeriod_eq hcur denom) htot
  pool := fun denom => by rw [pool_restaked hcur, h.pool]
  credited := h.credited

section

variable (h : s.Tracked fp)

include h

/-- An activation adds to the stake. -/
theorem settles_of_activated (hok : s.btcDelegationActivated fp del amt = .ok t) :
    Settles fp del (s.satsOf fp del + amt) s t := by
  obtain ⟨paid, cur, hpaid, hcur, hmod⟩ := exists_paid h del
  unfold btcDelegationActivated at hok
  rw [hmod, ok_bind, initialize_addDelegationSat hcur, hpaid.satsOf] at hok
  obtain rfl := Except.ok.inj hok
  exact hpaid.restaked hcur _ (cur.totalActiveSat + amt) (by omega)

/-- An unbonding subtracts from the stake. -/
theorem settles_of_unbonded (hok : s.btcDelegationUnbonded fp del amt = .ok t) :
    Settles fp del (s.satsOf fp del - amt) s t := by
  obtain ⟨paid, cur, hpaid, hcur, hmod⟩ := exists_paid h del
  unfold btcDelegationUnbonded at hok
  rw [hmod] at hok
  have hsub := hok
  simp only [subDelegationSat, getBTCDelegationRewardsTracker, ok_iff] at hsub
  obtain ⟨_, ⟨tracker, hget, _, hamt, -⟩, -⟩ := hsub
  have hsats : s.satsOf fp del = tracker.totalActiveSat := by
    rw [← hpaid.satsOf, satsOf_of_get hget]
  have hle : s.satsOf fp del ≤ cur.totalActiveSat := by
    have hstake := (paid.pool fp 0).stake_le_total del
    rwa [pool_stake, pool_total hpaid.tracked hcur, hpaid.satsOf] at hstake
  rw [initialize_subDelegationSat hcur hget hamt (by omega), hpaid.satsOf] at hok
  obtain rfl := Except.ok.inj hok
  exact hpaid.restaked hcur _ (cur.totalActiveSat - amt) (by omega)

/-- A withdrawal leaves the stake as it is. -/
theorem settles_of_modified (hok : s.btcDelegationModified fp del = .ok t) :
    Settles fp del (s.satsOf fp del) s t := by
  obtain ⟨paid, cur, hpaid, hcur, hmod⟩ := exists_paid h del
  unfold btcDelegationModified at hok
  rw [hmod, ok_bind] at hok
  have hinit := hok
  simp only [initializeBTCDelegation, getBTCDelegationRewardsTracker, ok_iff] at hinit
  obtain ⟨_, -, tracker, hget, -⟩ := hinit
  rw [initialize_unchanged hcur hget, hpaid.satsOf] at hok
  obtain rfl := Except.ok.inj hok
  exact hpaid.restaked hcur _ cur.totalActiveSat (by omega)

end

end State

end Babylon.Incentive
