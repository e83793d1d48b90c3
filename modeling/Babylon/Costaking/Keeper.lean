/-
  `x/costaking/keeper`: the pool of rewards, the scores of the costakers and the hooks
  by which `finality` and `incentive` call the module.

  The rewards of a costaker move from the account of `costaking` to the one of
  `incentive`, where they are booked in its reward gauge; the functions below therefore
  run on the stores of both modules and the bank.  Errors of the hooks of `finality`
  halt the block, and a failed message is reverted.  Some callers only log the error of
  `costakerModified` and `costakerWithdrawRewards`, which are `Attempt`s.
-/
import Babylon.Costaking.Types
import Babylon.Incentive.Keeper

set_option autoImplicit false

namespace Babylon.Costaking

open Lib Incentive

/-- The store of `costaking`.  Of the stored validator set only the addresses are read. -/
structure State where
  params : Params
  currentRewards : Option CurrentRewards
  historicalRewards : KVStore Nat HistoricalRewards
  costakerRewardsTracker : KVStore AccAddress CostakerRewardsTracker
  validatorSet : Option (List ValAddress)

namespace State

/-- The store at genesis. -/
def blank (params : Params) : State where
  params := params
  currentRewards := none
  historicalRewards := KVStore.empty
  costakerRewardsTracker := KVStore.empty
  validatorSet := none

/-! ## Stores -/

variable (s : State)

def getHistoricalRewards (period : Nat) : Outcome HistoricalRewards :=
  orThrow (s.historicalRewards.get period) (.errorf "collections: not found")

def setHistoricalRewards (period : Nat) (histRwd : HistoricalRewards) : State :=
  { s with historicalRewards := s.historicalRewards.set period histRwd }

def getCurrentRewards : Outcome CurrentRewards :=
  orThrow s.currentRewards (.errorf "collections: not found")

def setCurrentRewards (currentRwd : CurrentRewards) : State :=
  { s with currentRewards := some currentRwd }

def getCostakerRewards (costaker : AccAddress) : Outcome CostakerRewardsTracker :=
  orThrow (s.costakerRewardsTracker.get costaker) (.errorf "collections: not found")

def setCostakerRewardsTracker (costaker : AccAddress)
    (rwdTracker : CostakerRewardsTracker) : State :=
  { s with costakerRewardsTracker := s.costakerRewardsTracker.set costaker rwdTracker }

/-! ## Periods -/

/-- `initializeCurrentRewards`: period 1 is open, period 0 gave nothing. -/
def initializeCurrentRewards : CurrentRewards × State :=
  let curRwd : CurrentRewards := ⟨KVStore.empty, 1, 0⟩
  (curRwd, (s.setHistoricalRewards 0 ⟨KVStore.empty⟩).setCurrentRewards curRwd)

/-- `GetCurrentRewardsInitialized`. -/
def getCurrentRewardsInitialized : CurrentRewards × State :=
  match s.currentRewards with
  | some currentRwd => (currentRwd, s)
  | none => s.initializeCurrentRewards

/-- `AddRewardsForCostakers`.  The emitted event is left out. -/
def addRewardsForCostakers (rwdToAdd : Coins) : State :=
  let (currentRwd, s) := s.getCurrentRewardsInitialized
  s.setCurrentRewards
    { currentRwd with rewards := currentRwd.rewards.add (rwdToAdd.mulInt decimalRewards) }

/-- The rewards per score of the open period, which are already scaled. -/
def rewardsPerScore (currentRwd : CurrentRewards) : Coins :=
  if currentRwd.totalScore = 0 then KVStore.empty
  else currentRwd.rewards.quoInt currentRwd.totalScore.toNat

/-- `IncrementRewardsPeriod`; returns the period that ended. -/
def incrementRewardsPeriod : Outcome (Nat × State) := do
  let (currentRwd, s) := s.getCurrentRewardsInitialized
  let historicalRwd ← s.getHistoricalRewards (currentRwd.period - 1)
  let newHistoricalRwd : HistoricalRewards :=
    ⟨historicalRwd.cumulativeRewardsPerScore.add (rewardsPerScore currentRwd)⟩
  let s := s.setHistoricalRewards currentRwd.period newHistoricalRwd
  let s := s.setCurrentRewards ⟨KVStore.empty, currentRwd.period + 1, currentRwd.totalScore⟩
  return (currentRwd.period, s)

/-- `UpdateCurrentRewardsTotalScore`. -/
def updateCurrentRewardsTotalScore (totalScore : Int) : Outcome State := do
  let (_, s) ← s.incrementRewardsPeriod
  let currentRwd ← s.getCurrentRewards
  return s.setCurrentRewards { currentRwd with totalScore }

/-- `calculateCoStakerRewardsBetween`.  The score of the tracker is positive. -/
def calculateCoStakerRewardsBetween (costakerRwdTracker : CostakerRewardsTracker)
    (endingPeriod : Nat) : Outcome Coins := do
  ensure (costakerRwdTracker.startPeriodCumulativeReward ≤ endingPeriod)
    (.wrapf errInvalidPeriod "startingPeriod %d cannot be greater than endingPeriod %d")
  let starting ← s.getHistoricalRewards costakerRwdTracker.startPeriodCumulativeReward
  let ending ← s.getHistoricalRewards endingPeriod
  let differenceWithDecimals ← (ending.cumulativeRewardsPerScore.sub
    starting.cumulativeRewardsPerScore).orFail
      (.wrapf errNegativeRewards "cumulative rewards is negative %s")
  return (differenceWithDecimals.mulInt costakerRwdTracker.totalScore.toNat).quoInt decimalRewards

/-- `CalculateCostakerRewards`; without a tracker or a score there are no rewards. -/
def calculateCostakerRewards (costaker : AccAddress) (endPeriod : Nat) : Outcome Coins :=
  match s.costakerRewardsTracker.get costaker with
  | none => .ok KVStore.empty
  | some costakerRwdTracker =>
    if costakerRwdTracker.totalScore = 0 then .ok KVStore.empty
    else s.calculateCoStakerRewardsBetween costakerRwdTracker endPeriod

/-- `initializeCoStakerRwdTracker`. -/
def initializeCoStakerRwdTracker (costaker : AccAddress) : Outcome State := do
  let currentRwd ← s.getCurrentRewards
  let costakerRwdTracker ← s.getCostakerRewards costaker
  return s.setCostakerRewardsTracker costaker
    { costakerRwdTracker with startPeriodCumulativeReward := currentRwd.period - 1 }

/-- `GetCostakerRewardsOrInitialize`. -/
def getCostakerRewardsOrInitialize (costaker : AccAddress) : CostakerRewardsTracker × State :=
  match s.costakerRewardsTracker.get costaker with
  | some costakerRwdTracker => (costakerRwdTracker, s)
  | none =>
    let (currentRwd, s) := s.getCurrentRewardsInitialized
    (⟨currentRwd.period, 0, 0, 0⟩, s)

/-- Store the updated tracker and add the change of its score to the pool: what
`costakerModified` runs before the tracker is initialized. -/
def updateTracker (costaker : AccAddress) (rwdTracker : CostakerRewardsTracker)
    (deltaScoreChange : Int) : Attempt State State := do
  let s := s.setCostakerRewardsTracker costaker rwdTracker
  let curRwd ← s.getCurrentRewards.leaving s
  let curRwd := { curRwd with totalScore := curRwd.totalScore + deltaScoreChange }
  curRwd.validate.leaving s
  return s.setCurrentRewards curRwd

end State

end Babylon.Costaking

namespace Babylon

open Lib Incentive Costaking

/-- The stores between which rewards move. -/
structure RewardStores where
  incentive : Incentive.State
  costaking : Costaking.State
  bank : Bank

namespace RewardStores

/-! ## Settling a costaker -/

variable (s : RewardStores)

/-- `CalculateCostakerRewardsAndSendToGauge`. -/
def calculateCostakerRewardsAndSendToGauge (costaker : AccAddress)
    (endPeriod : Nat) : Attempt RewardStores RewardStores := do
  let rewards ← (s.costaking.calculateCostakerRewards costaker endPeriod).leaving s
  if rewards.isZero then return s
  else
    let s := { s with incentive := s.incentive.accumulateRewardGauge .costaker costaker rewards }
    let bank ← (s.bank.sendCoinsFromModuleToModule .costaking .incentive rewards).leaving s
    return { s with bank }

/-- `costakerModifiedScoreWithPreInitalization`. -/
def costakerModifiedScoreWithPreInitalization (costaker : AccAddress)
    (preInitializeCostaker : Costaking.State → Attempt Costaking.State Costaking.State) :
    Attempt RewardStores RewardStores := do
  let (endedPeriod, costaking) ← s.costaking.incrementRewardsPeriod.leaving s
  let s := { s with costaking }
  let s ← s.calculateCostakerRewardsAndSendToGauge costaker endedPeriod
  let costaking ← (preInitializeCostaker s.costaking).within fun costaking => { s with costaking }
  let s := { s with costaking }
  let costaking ← (s.costaking.initializeCoStakerRwdTracker costaker).leaving s
  return { s with costaking }

/-- `costakerModified`. -/
def costakerModified (costaker : AccAddress)
    (modifyCostaker : CostakerRewardsTracker → CostakerRewardsTracker) :
    Attempt RewardStores RewardStores := do
  let (rwdTracker, costaking) := s.costaking.getCostakerRewardsOrInitialize costaker
  let s := { s with costaking }
  let rwdTracker := (modifyCostaker rwdTracker).sanitize
  (rwdTracker.validate.orWrap "failed to validate costaker: %s - %w").leaving s
  let (rwdTracker, deltaScoreChange) :=
    rwdTracker.updateScore s.costaking.params.scoreRatioBtcByBaby
  if deltaScoreChange = 0 then
    return { s with costaking := s.costaking.setCostakerRewardsTracker costaker rwdTracker }
  else
    s.costakerModifiedScoreWithPreInitalization costaker fun costaking =>
      costaking.updateTracker costaker rwdTracker deltaScoreChange

/-- `costakerWithdrawRewards`. -/
def costakerWithdrawRewards (costaker : AccAddress) : Attempt RewardStores RewardStores :=
  s.costakerModifiedScoreWithPreInitalization costaker .ok

/-! ## Hooks of `finality` and `incentive` -/

/-- Add to the active satoshis of a costaker. -/
def addActiveSatoshis (del : AccAddress) (sats : Int) : Attempt RewardStores RewardStores :=
  s.costakerModified del fun rwdTracker =>
    { rwdTracker with activeSatoshis := rwdTracker.activeSatoshis + sats }

/-- `AfterBtcDelegationUnbonded`. -/
def afterBtcDelegationUnbonded (btcDelAddr : AccAddress) (isFpActiveInPrevSet : Bool)
    (sats : Nat) : Outcome RewardStores :=
  if isFpActiveInPrevSet then (s.addActiveSatoshis btcDelAddr (-sats)).reverted else .ok s

/-- `AfterBtcDelegationActivated`. -/
def afterBtcDelegationActivated (btcDelAddr : AccAddress) (isFpActiveInPrevSet : Bool)
    (sats : Nat) : Outcome RewardStores :=
  if isFpActiveInPrevSet then (s.addActiveSatoshis btcDelAddr sats).reverted else .ok s

/-- `AfterBbnFpEntersActiveSet`. -/
def afterBbnFpEntersActiveSet (height : Nat) (fpAddr : AccAddress) : Outcome RewardStores :=
  foldOutcome (fun s entry => (s.addActiveSatoshis entry.1 entry.2).reverted) s
    (s.incentive.btcDelegationSatsUpdated height fpAddr)

/-- `AfterBbnFpRemovedFromActiveSet`. -/
def afterBbnFpRemovedFromActiveSet (height : Nat) (fpAddr : AccAddress) : Outcome RewardStores :=
  foldOutcome (fun s entry => (s.addActiveSatoshis entry.1 (-entry.2)).reverted) s
    (s.incentive.btcDelegationSatsUpdated height fpAddr)

/-- `BeforeRewardWithdraw`. -/
def beforeRewardWithdraw (sType : StakeholderType) (addr : AccAddress) :
    Attempt RewardStores RewardStores :=
  if sType = .costaker then s.costakerWithdrawRewards addr else .ok s

/-! ## Fees -/

/-- `allocateValidatorsRewards`.  The records by which `distribution` and `staking` book the
rewards of the validators are not modelled: `allocated` is the result of those calls. -/
def allocateValidatorsRewards (totalPwr : Nat) (allocated : Outcome Unit)
    (rwds : Coins) : Outcome RewardStores :=
  if !rwds.isAllPositive then .ok s
  else if totalPwr = 0 then .ok s
  else do
    let bank ← s.bank.sendCoinsFromModuleToModule .feeCollector .distribution rwds
    allocated
    return { s with bank }

/-- `accumulateCostakingRewards`. -/
def accumulateCostakingRewards (costakingRewards : Coins) : Outcome RewardStores :=
  if !costakingRewards.isAllPositive then .ok s
  else do
    let bank ← s.bank.sendCoinsFromModuleToModule .feeCollector .costaking costakingRewards
    return { s with bank, costaking := s.costaking.addRewardsForCostakers costakingRewards }

/-- `HandleCoinsInFeeCollector` of `costaking`. -/
def handleCoinsForCostakers (totalPwr : Nat) (allocated : Outcome Unit) : Outcome RewardStores :=
  let feesCollectedInt := s.bank.modules .feeCollector
  if !feesCollectedInt.isAllPositive then .ok s
  else do
    let params := s.costaking.params
    let s ← s.allocateValidatorsRewards totalPwr allocated
      (feesCollectedInt.portion params.validatorsPortion)
    s.accumulateCostakingRewards (feesCollectedInt.portion params.costakingPortion)

/-! ## Parameters -/

/-- One iteration of `UpdateAllCostakersScore`. -/
def updateCostakerScore (scoreRatioBtcByBaby : Int) (endedPeriod : Nat) (acc : RewardStores × Int)
    (entry : AccAddress × CostakerRewardsTracker) :
    Outcome (RewardStores × Int) := do
  let (s, totalScore) := acc
  let (costaker, rwdTracker) := entry
  let (rwdTracker, deltaScoreChange) := rwdTracker.updateScore scoreRatioBtcByBaby
  let totalScore := totalScore + rwdTracker.totalScore
  if deltaScoreChange = 0 then
    return ({ s with costaking := s.costaking.setCostakerRewardsTracker costaker rwdTracker },
      totalScore)
  else
    let s ← (s.calculateCostakerRewardsAndSendToGauge costaker endedPeriod).reverted
    let costaking := s.costaking.setCostakerRewardsTracker costaker rwdTracker
    let costaking ← costaking.initializeCoStakerRwdTracker costaker
    return ({ s with costaking }, totalScore)

/-- `UpdateAllCostakersScore`.  The loop only writes the entry it visits. -/
def updateAllCostakersScore (scoreRatioBtcByBaby : Int) : Outcome RewardStores := do
  let (endedPeriod, costaking) ← s.costaking.incrementRewardsPeriod
  let s := { s with costaking }
  let currentRwd ← s.costaking.getCurrentRewards
  let (s, totalScore) ← foldOutcome (updateCostakerScore scoreRatioBtcByBaby endedPeriod) (s, 0)
    s.costaking.costakerRewardsTracker.entries
  { currentRwd with totalScore }.validate
  let costaking ← s.costaking.updateCurrentRewardsTotalScore totalScore
  return { s with costaking }

/-- `MsgUpdateParams` of `costaking`, sent by the authority. -/
def updateCostakingParams (params : Costaking.Params) : Outcome RewardStores := do
  params.validate.orWrapf errInvalidProposalMsg "invalid parameter: %v"
  let s ← (if params.scoreRatioBtcByBaby = s.costaking.params.scoreRatioBtcByBaby then .ok s
    else s.updateAllCostakersScore params.scoreRatioBtcByBaby).orWrapf errInvalidProposalMsg
      "unable to update all the costakers score: %v"
  return { s with costaking := { s.costaking with params } }

end RewardStores

end Babylon
