/-
  The accounts of the modules that pay rewards, over whole runs.

  In every reachable state the account of `incentive` covers the reward gauges, the
  undistributed gauges and the open periods of the finality providers, the account of
  `costaking` covers its pool, and the scores of the costakers add up to the total.
  A withdrawal whose hook fails still closes the open period of `costaking`.
-/
import Babylon.App.Rewards
import Babylon.Costaking.HookInvariants
import Babylon.Costaking.Rescoring

set_option autoImplicit false

namespace Babylon

open Lib Incentive Costaking RewardStores StakingStores

namespace StakingStores

variable {c c' : StakingStores}

theorem onRewards_eq_some {call : RewardStores → Outcome RewardStores}
    (h : c.onRewards call = some c') :
    ∃ rewards, call c.rewards = .ok rewards ∧ c' = { c with rewards } := by
  obtain ⟨rewards, hrwds, rfl⟩ := Option.map_eq_some_iff.mp h
  exact ⟨rewards, toOption_eq_some_iff.mp hrwds, rfl⟩

/-- The hooks of `staking` and `epoching` keep the stores solvent. -/
theorem stakingInvariant_solvent : StakingInvariant Solvent where
  addBaby := by
    intro s costaker amount hsol
    refine solvent_costakerModified hsol ?_ costaker
    exact ⟨fun _ => rfl, fun _ => rfl⟩
  validatorSet := fun _ _ hsol => ⟨⟨hsol.tracked, hsol.covered⟩,
    ⟨hsol.sound.ratio, hsol.sound.scored, hsol.sound.total, hsol.sound.fresh,
      hsol.sound.tracked⟩, hsol.funded⟩

theorem solvent_runOp (hsol : c.rewards.Solvent) {op : RewardOp}
    (h : c.runOp op = some c') : c'.rewards.Solvent := by
  have inv := stakingInvariant_solvent
  cases op with
  | updateBank bank =>
    dsimp only [runOp] at h
    split at h
    case isFalse => cases h
    case isTrue hheld =>
      cases h
      exact hsol.of_bank (Bank.holds_iff.mp hheld.1) (Bank.holds_iff.mp hheld.2.1)
  | collectFees height =>
    dsimp only [runOp] at h
    obtain ⟨rewards, hok, rfl⟩ := onRewards_eq_some h
    exact solvent_handleCoinsInFeeCollector hsol hok
  | collectCostakingFees totalPwr allocated =>
    dsimp only [runOp] at h
    obtain ⟨rewards, hok, rfl⟩ := onRewards_eq_some h
    exact solvent_handleCoinsForCostakers hsol hok
  | withdrawReward sType addr =>
    dsimp only [runOp] at h
    obtain ⟨rewards, hok, rfl⟩ := onRewards_eq_some h
    cases hmsg : c.rewards.msgWithdrawReward sType addr with
    | error fault =>
      rw [hmsg] at hok
      cases hok
    | ok result =>
      rw [hmsg] at hok
      obtain rfl := Except.ok.inj hok
      exact solvent_msgWithdrawReward hsol hmsg
  | setWithdrawAddress delegatorAddress withdrawAddress =>
    dsimp only [runOp] at h
    obtain ⟨rewards, hok, rfl⟩ := onRewards_eq_some h
    exact solvent_setWithdrawAddress hsol hok
  | updateIncentiveParams params =>
    dsimp only [runOp] at h
    obtain ⟨rewards, hok, rfl⟩ := onRewards_eq_some h
    exact solvent_updateIncentiveParams hsol hok
  | updateCostakingParams params =>
    dsimp only [runOp] at h
    obtain ⟨rewards, hok, rfl⟩ := onRewards_eq_some h
    exact solvent_updateCostakingParams hsol hok
  | staking calls =>
    cases h
    exact keeps_deliver hsol (.foldOutcome (fun _ call _ hsol => keeps_call inv hsol call) hsol)
  | beforeEpochEnds =>
    cases h
    exact keeps_beforeEpochEnds hsol
  | endEpoch staking =>
    cases h
    exact keeps_afterEpochEnds (c := { c with staking }) inv hsol
  | endBlock =>
    cases h
    exact hsol

theorem solvent_step (hsol : c.rewards.Solvent) {l : RewardLabel} (h : c.step l = some c') :
    c'.rewards.Solvent := by
  cases l with
  | op op => exact solvent_runOp hsol h
  | btcDelegationActivated | btcDelegationUnbonded =>
    dsimp only [step, rewardModules, btcDelegationActivated, afterBtcDelegationActivated,
      btcDelegationUnbonded, afterBtcDelegationUnbonded] at h
    obtain ⟨rewards, hok, rfl⟩ := onRewards_eq_some h
    split at hok
    · exact solvent_addActiveSatoshis (solvent_addRewardTrackerEvent hsol _ _) hok
    · cases hok
      exact solvent_addRewardTrackerEvent hsol _ _
  | fpEntersActiveSet | fpRemovedFromActiveSet =>
    dsimp only [step, rewardModules] at h
    obtain ⟨rewards, hok, rfl⟩ := onRewards_eq_some h
    exact foldOutcome_preserves Solvent (fun _ _ _ _ hs => solvent_addActiveSatoshis hs) hsol hok
  | rewardBTCStaking header height dc voters =>
    dsimp only [step, rewardModules] at h
    obtain ⟨rewards, hok, rfl⟩ := onRewards_eq_some h
    simp only [rewardBTCStaking, ok_iff] at hok
    obtain ⟨incentive, hrwd, rfl⟩ := hok
    obtain ⟨htrk, hle⟩ := Incentive.State.liabilities_rewardBTCStaking hsol.tracked hrwd
    exact ⟨hsol.toBacked.of_incentive htrk hle, hsol.sound, hsol.funded⟩

theorem solvent_genesis (h : RewardGenesis c) : c.rewards.Solvent := by
  obtain ⟨incentiveParams, costakingParams, bank, staking, -, hval, rfl⟩ := h
  refine keeps_afterEpochBegins stakingInvariant_solvent ⟨⟨fun fp denom => ?_, fun denom => ?_⟩,
    Costaking.State.sound_blank hval, fun denom => ?_⟩
  · exact ⟨⟨by rintro _ ⟨⟩, by rintro _ ⟨⟩, by rintro _ ⟨⟩, by rintro _ _ ⟨⟩⟩, by rintro _ ⟨⟩⟩
  · rw [blank, Incentive.State.liabilities_blank]
    exact Nat.zero_le _
  · exact Nat.zero_le _

end StakingStores

variable {history : List (StakingStores × RewardLabel)}

/-- Every state that the modules reach is solvent. -/
theorem solvent_of_run {c : StakingStores}
    (run : Run rewardSystem history c) : c.rewards.Solvent := by
  exact run.invariant (fun c => c.rewards.Solvent)
    (fun _ hinit => solvent_genesis hinit)
    (fun _ _ _ hsol _ hstep => solvent_step hsol hstep) .trivial

/-! ## Solvency of `incentive` -/

/-- The account of `incentive` holds at least what the gauges, the undistributed gauges and the
open periods of the providers promise, and no withdrawal fails for lack of funds. -/
theorem incentive_account_covers {c : StakingStores} (run : Run rewardSystem history c) :
    (∀ denom, c.rewards.incentive.outstanding denom + c.rewards.incentive.undistributed denom
        + c.rewards.incentive.currentRewards denom
      ≤ (c.rewards.bank.modules .incentive).amountOf denom) ∧
    ∀ sType addr, ∀ call ∈ c.rewards.withdrawals sType addr,
      FailsOnly (fun fault => ¬ LacksFunds fault)
        (call.2.withdrawReward call.1 addr) := by
  have hsolvent := solvent_of_run run
  refine ⟨fun denom => ?_, fun sType addr call hcall => ?_⟩
  · have hcovered := hsolvent.covered denom
    have hcurrent := c.rewards.incentive.currentRewards_le denom
    unfold Incentive.State.liabilities at hcovered
    refine Nat.le_of_mul_le_mul_right (c := decimalRewards) ?_ (by decide)
    simp only [Nat.add_mul] at hcovered ⊢
    omega
  · exact (solvent_of_mem_withdrawals hsolvent hcall).withdrawReward_failsOnly _ _

namespace Devnet

/-- A fee collector with 1000 coins. -/
def rewardBank : Bank where
  modules := fun account =>
    if account = .feeCollector then KVStore.empty.set 0 1000 else KVStore.empty
  accounts := KVStore.empty
  blockedAddrs := []

def incentiveParams : Incentive.Params := ⟨5 * 10 ^ 17, some (10 ^ 17)⟩

def costakingParams : Costaking.Params := ⟨2 * 10 ^ 17, 2, 10 ^ 17⟩

/-- `staking` with validator 3, of which every share is worth a token, and its delegations. -/
def validatorThree (delegations : List (AccAddress × Dec)) : StakingKeeper where
  getDelegation := fun delAddr _ =>
    orThrow (delegations.lookup delAddr) (.errorf "no delegation for (address, validator) tuple")
  getValidator := fun _ => .ok id
  getValidatorDelegations := fun _ => .ok delegations
  lastValidatorPowers := [3]

/-- Empty reward stores. -/
def rewardStart : StakingStores :=
  (blank incentiveParams costakingParams rewardBank (validatorThree [])).afterEpochBegins

theorem rewardStart_genesis : RewardGenesis rewardStart :=
  ⟨incentiveParams, costakingParams, rewardBank, validatorThree [], rfl, rfl, rfl⟩

/-- A delegation to the validator grows: `staking` writes it and calls the hook. -/
def delegateBaby (delAddr : AccAddress) (delegations : List (AccAddress × Dec)) : RewardLabel :=
  .op (.staking [.beforeDelegationSharesModified delAddr 3, .update (validatorThree delegations),
    .afterDelegationModified delAddr 3])

/-- A cache with one active provider. -/
def rewardCache : Finality.VotingPowerDistCache :=
  ⟨100, [⟨9, 5, 10 ^ 17, 100, true, false, false⟩], 1, le_refl 1⟩

/-- A staker with 100 satoshis and 200 BABY, fees, and the rewards of a block. -/
def rewardLabels : List RewardLabel :=
  [delegateBaby 6 [(6, 200 * 10 ^ 18)], .btcDelegationActivated ⟨1, 0, []⟩ 5 6 true true 100,
    .op (.collectFees 1), .op (.collectCostakingFees 0 (.ok ())),
    .rewardBTCStaking ⟨1, 0, []⟩ 1 rewardCache [9], .op .endBlock]

end Devnet

/-- In the sample network a provider has rewards to withdraw, and its withdrawal succeeds. -/
theorem incentive_account_covers_devnet : ∃ history c,
    Run rewardSystem history c ∧ 0 < c.rewards.incentive.outstanding 0 ∧
    succeeds (c.rewards.msgWithdrawReward .btcStaker 6) = true ∧
    ((∀ denom, c.rewards.incentive.outstanding denom + c.rewards.incentive.undistributed denom
        + c.rewards.incentive.currentRewards denom
      ≤ (c.rewards.bank.modules .incentive).amountOf denom) ∧
    ∀ sType addr, ∀ call ∈ c.rewards.withdrawals sType addr,
      FailsOnly (fun fault => ¬ LacksFunds fault)
        (call.2.withdrawReward call.1 addr)) := by
  obtain ⟨history, c, run, houtstanding, hsucceeds⟩ := Run.reaching rewardSystem
    (P := fun c => 0 < c.rewards.incentive.outstanding 0 ∧
      succeeds (c.rewards.msgWithdrawReward .btcStaker 6) = true)
    Devnet.rewardStart_genesis Devnet.rewardLabels (by decide +kernel)
  exact ⟨history, c, run, houtstanding, hsucceeds, incentive_account_covers run⟩

/-! ## Scores of `costaking` -/

/-- The total score is the sum of all scores, and each score follows from the active amounts by
the current ratio. -/
theorem costaking_scores_add_up {c : StakingStores} (run : Run rewardSystem history c) :
    c.rewards.costaking.currentRewards.elim 0 CurrentRewards.totalScore
        = c.rewards.costaking.costakerRewardsTracker.sumBy (fun _ tracker => tracker.totalScore) ∧
      ∀ costaker tracker,
        c.rewards.costaking.costakerRewardsTracker.get costaker = some tracker →
          tracker.totalScore = min tracker.activeSatoshis
            (tracker.activeBaby.tdiv c.rewards.costaking.params.scoreRatioBtcByBaby) := by
  have hsound := (solvent_of_run run).sound
  refine ⟨?_, fun costaker tracker hget => (hsound.scored costaker tracker hget).totalScore⟩
  cases hcur : c.rewards.costaking.currentRewards with
  | some cur => exact hsound.total cur hcur
  | none =>
    refine (KVStore.sumBy_eq_zero fun costaker tracker hget => ?_).symm
    rw [hsound.fresh hcur] at hget
    cases hget

/-- In the sample network the staker has the score of its satoshis. -/
theorem costaking_scores_add_up_devnet : ∃ history c,
    Run rewardSystem history c ∧
    (c.rewards.costaking.costakerRewardsTracker.get 6).map CostakerRewardsTracker.totalScore
      = some 100 ∧
    (c.rewards.costaking.currentRewards.elim 0 CurrentRewards.totalScore
        = c.rewards.costaking.costakerRewardsTracker.sumBy (fun _ tracker => tracker.totalScore) ∧
      ∀ costaker tracker,
        c.rewards.costaking.costakerRewardsTracker.get costaker = some tracker →
          tracker.totalScore = min tracker.activeSatoshis
            (tracker.activeBaby.tdiv c.rewards.costaking.params.scoreRatioBtcByBaby)) := by
  obtain ⟨history, c, run, hscore⟩ := Run.reaching rewardSystem
    (P := fun c => (c.rewards.costaking.costakerRewardsTracker.get 6).map
      CostakerRewardsTracker.totalScore = some 100)
    Devnet.rewardStart_genesis Devnet.rewardLabels (by decide +kernel)
  exact ⟨history, c, run, hscore, costaking_scores_add_up run⟩

/-! ## Solvency of `costaking` -/

namespace RewardStores

/-- A call of `costakerModified`, whether it succeeds or fails. -/
def ScoreChange (s t : RewardStores) : Prop :=
  ∃ costaker modify, Adjusts modify ∧ (s.costakerModified costaker modify = .ok t ∨
    ∃ fault, s.costakerModified costaker modify = .error (fault, t))

/-- The stores in which a settlement pays: the open period is closed, and a rescoring has visited
some of the costakers. -/
def Settling (s : RewardStores) (params : Costaking.Params) (ended : Nat) (t : RewardStores) :
    Prop :=
  ∃ closed visited rest totalScore, s.costaking.incrementRewardsPeriod = .ok (ended, closed) ∧
    closed.costakerRewardsTracker.entries = visited ++ rest ∧
      foldOutcome (updateCostakerScore params.scoreRatioBtcByBaby ended)
        ({ s with costaking := closed }, 0) visited = .ok (t, totalScore)

/-- The account of `costaking` holds what is promised, pays it, and takes its part of the fees. -/
structure CostakingAccount (s : RewardStores) : Prop where
  covers : ∀ cur, s.costaking.currentRewards = some cur → ∃ entitlement : AccAddress → Coins,
    (∀ costaker, s.costaking.calculateCostakerRewards costaker (cur.period - 1)
      = .ok (entitlement costaker)) ∧
    ∀ denom, cur.rewards.amountOf denom + (s.costaking.costakerRewardsTracker.sumBy
        fun costaker _ => (entitlement costaker).amountOf denom) * decimalRewards
      ≤ (s.bank.modules .costaking).amountOf denom * decimalRewards
  pays : ∀ params : Costaking.Params, params.validate = .ok () → ∀ t u ended,
    Relation.ReflTransGen ScoreChange s t → t.Settling params ended u → ∀ costaker,
      FailsOnly (fun failed => ¬ LacksFunds failed.1)
        (u.calculateCostakerRewardsAndSendToGauge costaker ended)
  takes : ∀ totalPwr allocated t, s.handleCoinsForCostakers totalPwr allocated = .ok t →
    if (s.bank.modules .feeCollector).isAllPositive = true then
      FeesTaken (if totalPwr = 0 then fun _ => 0 else ((s.bank.modules .feeCollector).portion
          s.costaking.params.validatorsPortion).amountOf)
        ((s.bank.modules .feeCollector).portion s.costaking.params.costakingPortion).amountOf s t
    else t = s

theorem Solvent.scoreChanges {s t : RewardStores} (inv : Solvent s)
    (h : Relation.ReflTransGen ScoreChange s t) : Solvent t := by
  induction h with
  | refl => exact inv
  | tail _ hchange ih =>
    obtain ⟨costaker, modify, hmodify, hcall⟩ := hchange
    have hkeeps := solvent_costakerModified ih hmodify costaker
    rcases hcall with hok | ⟨fault, herr⟩
    · rwa [hok] at hkeeps
    · rwa [herr] at hkeeps

/-- The truncated entitlements are part of what the pool owes. -/
theorem entitlements_le {s : Costaking.State} {entitlement : AccAddress → Coins} {denom : Denom}
    (h : ∀ costaker, (entitlement costaker).amountOf denom
      = (s.pool denom).claim costaker / decimalRewards) :
    (s.costakerRewardsTracker.sumBy fun costaker _ => (entitlement costaker).amountOf denom)
      * decimalRewards ≤ (s.pool denom).owed := by
  have howed : (s.pool denom).owed
      = s.costakerRewardsTracker.sumBy fun costaker _ => (s.pool denom).claim costaker := by
    simp only [Pool.owed_eq, Costaking.State.pool, Periods.pool, Costaking.State.periods,
      KVStore.sumBy_map]
  rw [howed]
  unfold KVStore.sumBy
  rw [← List.sum_map_mul_right]
  refine List.sum_le_sum fun entry _ => ?_
  dsimp only
  rw [h]
  exact Nat.div_mul_le_self _ _

end RewardStores

/-- In every reachable state the account of `costaking` holds the current rewards and every
unsettled entitlement, no settlement fails for lack of funds, and the fee collector pays exactly
the parts of the validators and the costakers. -/
theorem costaking_account_covers {c : StakingStores} (run : Run rewardSystem history c) :
    c.rewards.CostakingAccount where
  covers := by
    intro cur hcur
    have hsol := solvent_of_run run
    choose entitlement hcalc htr using Costaking.State.exists_rewards hsol.sound.ordered hcur
    refine ⟨entitlement, hcalc, fun denom => ?_⟩
    have howed := entitlements_le fun costaker => (htr costaker).amountOf denom
    have hfund := hsol.funded denom
    have hcurrent : (c.rewards.costaking.pool denom).current = cur.rewards.amountOf denom :=
      Periods.pool_current (Costaking.State.openPeriod_eq hcur denom)
    unfold Pool.value at hfund
    omega
  pays := by
    rintro params hval t u ended hchanges ⟨closed, visited, rest, totalScore, hincr, hents, hloop⟩
      costaker ⟨fault, left⟩ hfails
    obtain ⟨cur, -, rfl, hresc⟩ := exists_rescored ((solvent_of_run run).scoreChanges hchanges)
      (Costaking.Params.one_le_scoreRatio hval) hincr hents hloop
    rcases sendToGauge_cases hresc.ordered hresc.current hresc.funded costaker with
      ⟨-, paid, hpaid, -⟩ | ⟨-, hinvalid⟩
    · rw [hpaid] at hfails
      cases hfails
    · rw [hinvalid] at hfails
      cases hfails
      rintro ⟨text, ⟨⟩⟩
  takes := by
    intro totalPwr allocated t h
    unfold handleCoinsForCostakers at h
    dsimp only at h
    split at h
    case isTrue hnone =>
      cases h
      rw [if_neg (by simpa using hnone)]
    case isFalse hposi =>
      rw [if_pos (by simpa using hposi)]
      simp only [bind_ok_iff] at h
      obtain ⟨allocatedStores, hallocated, haccumulated⟩ := h
      exact (allocateValidatorsRewards_taken hallocated).trans
        (accumulateCostakingRewards_taken haccumulated)

/-- In the sample network the fees of a block are not paid out yet. -/
theorem costaking_account_covers_devnet : ∃ history c, Run rewardSystem history c ∧
    (c.rewards.costaking.currentRewards.elim 0 fun cur => cur.rewards.amountOf 0) ≠ 0 ∧
      c.rewards.CostakingAccount := by
  obtain ⟨history, c, run, hcur⟩ := Run.reaching rewardSystem
    (P := fun c =>
      (c.rewards.costaking.currentRewards.elim 0 fun cur => cur.rewards.amountOf 0) ≠ 0)
    Devnet.rewardStart_genesis Devnet.rewardLabels (by decide +kernel)
  exact ⟨history, c, run, hcur, costaking_account_covers run⟩

/-! ## Withdrawals whose hook fails

`WithdrawReward` only logs the error of the hook of `costaking`, and the hook closes the
open period before it reads the tracker of the costaker. -/

namespace Costaking.State

/-- The open period cannot be closed: nothing is stored about the period before it. -/
def Stuck (s : State) : Prop :=
  ∃ cur, s.currentRewards = some cur ∧ s.historicalRewards.get (cur.period - 1) = none

variable {s closed : State} {ended : Nat}

theorem stuck_of_error {fault : Fault} (h : s.incrementRewardsPeriod = .error fault) : s.Stuck := by
  unfold incrementRewardsPeriod getCurrentRewardsInitialized at h
  cases hcur : s.currentRewards with
  | none =>
    simp [hcur, initializeCurrentRewards, getHistoricalRewards, setHistoricalRewards,
      setCurrentRewards] at h
  | some cur =>
    cases hrwd : s.historicalRewards.get (cur.period - 1) with
    | none => exact ⟨cur, hcur, hrwd⟩
    | some rwd => simp [hcur, getHistoricalRewards, hrwd] at h

/-- Closing the open period at least changes its number. -/
theorem ne_of_increment (h : s.incrementRewardsPeriod = .ok (ended, closed)) :
    closed ≠ s ∧ ¬ s.Stuck ∧ closed.costakerRewardsTracker = s.costakerRewardsTracker := by
  simp only [incrementRewardsPeriod, ok_iff, getHistoricalRewards] at h
  obtain ⟨rwd, hrwd, heq⟩ := h
  cases heq
  cases hcur : s.currentRewards with
  | none =>
    rw [getCurrentRewardsInitialized, hcur]
    refine ⟨fun heq => ?_, ?_, rfl⟩
    · cases hcur.symm.trans (congrArg currentRewards heq.symm)
    · rintro ⟨cur, hsome, -⟩
      cases hcur.symm.trans hsome
  | some cur =>
    rw [getCurrentRewardsInitialized, hcur] at hrwd ⊢
    refine ⟨fun heq => ?_, ?_, rfl⟩
    · have hperiod := Option.some.inj ((congrArg currentRewards heq).trans hcur)
      exact absurd (congrArg CurrentRewards.period hperiod) (Nat.succ_ne_self _)
    · rintro ⟨cur', hsome, hno⟩
      cases hcur.symm.trans hsome
      cases hrwd.symm.trans hno

end Costaking.State

namespace RewardStores

variable {s t left : RewardStores} {addr : AccAddress} {coins : Coins} {fault : Fault}

theorem keeps_sendToGauge {closed : Costaking.State} (h : s.costaking = closed) (ended : Nat) :
    Attempt.Keeps (·.costaking = closed) (·.costaking = closed)
      (s.calculateCostakerRewardsAndSendToGauge addr ended) := by
  unfold calculateCostakerRewardsAndSendToGauge
  refine .reading h fun rewards => ?_
  split
  · exact .ok h
  · exact .reading h fun _ => .ok h

/-- Once the period is closed it stays closed, and only a tracked address gets past the hook. -/
theorem keeps_hook (addr : AccAddress) {ended : Nat} {closed : Costaking.State}
    (hincr : s.costaking.incrementRewardsPeriod = .ok (ended, closed)) :
    Attempt.Keeps (·.costaking = closed)
      (fun _ => ∃ tracker, s.costaking.costakerRewardsTracker.get addr = some tracker)
      (s.beforeRewardWithdraw .costaker addr) := by
  obtain ⟨-, -, htrk⟩ := Costaking.State.ne_of_increment hincr
  rw [beforeRewardWithdraw, if_pos rfl, costakerWithdrawRewards,
    costakerModifiedScoreWithPreInitalization, hincr, Outcome.leaving_ok, ok_bind]
  refine .bind (keeps_sendToGauge rfl ended) fun s hs => ?_
  refine .bind (Q := (· = s.costaking)) rfl ?_
  rintro _ rfl
  refine .bind (.leaving hs fun initialized hinit => ?_) fun _ htracked => .ok htracked
  simp only [Costaking.State.initializeCoStakerRwdTracker, ok_iff,
    Costaking.State.getCostakerRewards] at hinit
  obtain ⟨-, -, tracker, hget, -⟩ := hinit
  rw [hs, htrk] at hget
  exact ⟨tracker, hget⟩

/-- A hook that fails has changed the state of `costaking`, unless the period is stuck. -/
theorem costaking_of_hook_error (h : s.beforeRewardWithdraw .costaker addr = .error (fault, left)) :
    left.costaking = s.costaking ↔ s.costaking.Stuck := by
  cases hincr : s.costaking.incrementRewardsPeriod with
  | error fault' =>
    rw [beforeRewardWithdraw, if_pos rfl, costakerWithdrawRewards,
      costakerModifiedScoreWithPreInitalization, hincr] at h
    cases h
    exact ⟨fun _ => Costaking.State.stuck_of_error hincr, fun _ => rfl⟩
  | ok result =>
    obtain ⟨hne, hstuck, -⟩ := Costaking.State.ne_of_increment hincr
    have hkeeps := keeps_hook addr hincr
    rw [h] at hkeeps
    have hclosed : left.costaking = result.2 := hkeeps
    simp [hclosed, hne, hstuck]

theorem hook_fails_of_untracked (hnone : s.costaking.costakerRewardsTracker.get addr = none) :
    ∃ fault left, s.beforeRewardWithdraw .costaker addr = .error (fault, left) := by
  cases hhook : s.beforeRewardWithdraw .costaker addr with
  | error failure => exact ⟨failure.1, failure.2, rfl⟩
  | ok t =>
    cases hincr : s.costaking.incrementRewardsPeriod with
    | error fault =>
      rw [beforeRewardWithdraw, if_pos rfl, costakerWithdrawRewards,
        costakerModifiedScoreWithPreInitalization, hincr] at hhook
      cases hhook
    | ok result =>
      have hkeeps := keeps_hook addr hincr
      rw [hhook] at hkeeps
      obtain ⟨tracker, hget⟩ := hkeeps
      cases hnone.symm.trans hget

theorem withdrawReward_costaking {sType : StakeholderType}
    (h : s.withdrawReward sType addr = .ok (coins, t)) : t.costaking = s.costaking := by
  simp only [withdrawReward, ok_iff] at h
  obtain ⟨_, -, _, -, _, -, _, -, hres⟩ := h
  cases hres
  rfl

theorem withdrawOrNothing_costaking (sType : StakeholderType) (addr : AccAddress) :
    (s.withdrawOrNothing sType addr).2.costaking = s.costaking := by
  unfold withdrawOrNothing
  split
  case h_1 withdrawn h => exact withdrawReward_costaking h
  case h_2 => rfl

theorem withdrawAsCostaker_costaking :
    (s.withdrawAsCostaker addr coins).2.costaking
      = (s.beforeRewardWithdraw .costaker addr).logged.costaking := by
  unfold withdrawAsCostaker
  dsimp only
  split
  case h_1 h => exact withdrawReward_costaking h
  case h_2 => rfl

/-- Whenever the hook of `costaking` fails, in particular for a BTC staker without a tracker, the
withdrawal leaves the state of `costaking` as it was exactly if its period is stuck. -/
theorem withdrawal_keeps_costaking_iff (s : RewardStores) (addr : AccAddress) :
    (∀ fault left, s.beforeRewardWithdraw .costaker addr = .error (fault, left) →
      (left.costaking = s.costaking ↔ s.costaking.Stuck)) ∧
    ∀ coins t, s.msgWithdrawReward .btcStaker addr = .ok (coins, t) →
      s.costaking.costakerRewardsTracker.get addr = none →
        (t.costaking = s.costaking ↔ s.costaking.Stuck) := by
  refine ⟨fun fault left => costaking_of_hook_error, fun coins t h hnone => ?_⟩
  simp only [msgWithdrawReward, ok_iff, if_true] at h
  obtain ⟨incentive, -, _, hhook, _, -, hres⟩ := h
  rw [beforeRewardWithdraw, if_neg (by decide)] at hhook
  cases hhook
  cases hres
  have hkept := withdrawOrNothing_costaking (s := { s with incentive }) .btcStaker addr
  rw [withdrawAsCostaker_costaking]
  generalize withdrawOrNothing _ _ _ = withdrawn at hkept ⊢
  obtain ⟨fault, left, hhook⟩ := hook_fails_of_untracked (s := withdrawn.2) (by rw [hkept, hnone])
  rw [hhook, ← show withdrawn.2.costaking = s.costaking from hkept]
  exact costaking_of_hook_error hhook

end RewardStores

namespace Devnet

/-- A staker without a costaker tracker, fees, and the rewards of a block. -/
def untrackedLabels : List RewardLabel :=
  [.btcDelegationActivated ⟨1, 0, []⟩ 5 6 false true 100, .op (.collectFees 1),
    .op (.collectCostakingFees 0 (.ok ())), .rewardBTCStaking ⟨1, 0, []⟩ 1 rewardCache [9]]

end Devnet

/-- A withdrawal by a BTC staker without a tracker closes the period of `costaking`, and the
rewards that the period had collected are lost. -/
theorem untracked_withdrawal_loses_rewards : ∃ history c, Run rewardSystem history c ∧
    c.rewards.costaking.costakerRewardsTracker.get 6 = none ∧
    c.rewards.costaking.currentRewards.map (fun cur => (cur.period, cur.rewards.amountOf 0))
      = some (1, 80 * decimalRewards) ∧
    ∃ paid, c.rewards.msgWithdrawReward .btcStaker 6 = .ok paid ∧
      paid.2.costaking.currentRewards.map (fun cur => (cur.period, cur.rewards.amountOf 0))
        = some (2, 0) ∧
      (paid.2.costaking.historicalRewards.get 1).map
        (fun ended => ended.cumulativeRewardsPerScore.amountOf 0) = some 0 :=
  Run.reaching rewardSystem Devnet.rewardStart_genesis Devnet.untrackedLabels (by decide +kernel)

/-- Without the record of the period before, the withdrawal changes nothing in `costaking`. -/
theorem withdrawal_keeps_costaking_devnet : ∃ (s : RewardStores) (paid : Coins × RewardStores),
    s.msgWithdrawReward .btcStaker 6 = .ok paid ∧
    s.costaking.costakerRewardsTracker.get 6 = none ∧ paid.2.costaking = s.costaking := by
  obtain ⟨_, c, _, hnone, hcur, paid, hpaid⟩ := Run.reaching rewardSystem
    (P := fun c => c.rewards.costaking.costakerRewardsTracker.get 6 = none ∧
      c.rewards.costaking.currentRewards ≠ none ∧
      ∃ paid, { c.rewards with costaking := { c.rewards.costaking with
        historicalRewards := KVStore.empty } }.msgWithdrawReward .btcStaker 6 = .ok paid)
    Devnet.rewardStart_genesis Devnet.untrackedLabels (by decide +kernel)
  obtain ⟨cur, hcur⟩ := Option.ne_none_iff_exists'.mp hcur
  exact ⟨_, paid, hpaid, hnone,
    ((RewardStores.withdrawal_keeps_costaking_iff _ _).2 _ _ hpaid hnone).mpr ⟨cur, hcur, rfl⟩⟩

end Babylon
