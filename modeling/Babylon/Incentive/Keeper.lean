/-
  `x/incentive/keeper`: the store of the module and its reward accounting.

  Rewards reach a finality provider by `RewardBTCStaking`.  Its commission goes to a
  reward gauge at once, the rest to the open period of the provider.  Activations and
  unbondings of delegations are recorded as events under the Babylon height and
  applied when the rewards of a height are distributed.
-/
import Babylon.Incentive.Types
import Babylon.Finality.PowerTable

set_option autoImplicit false

namespace Babylon.Incentive

open Lib Finality

/-- The store of `incentive`, without the index of refundable messages. -/
structure State where
  params : Params
  btcStakingGauges : KVStore Nat Coins
  fpDirectGauges : KVStore Nat Coins
  rewardGauges : StakeholderType → KVStore AccAddress RewardGauge
  withdrawAddrs : KVStore AccAddress AccAddress
  btcDelegatorToFp : KVStore AccAddress (KVStore AccAddress Unit)
  finalityProviderCurrentRewards : KVStore AccAddress FinalityProviderCurrentRewards
  finalityProviderHistoricalRewards :
    KVStore AccAddress (KVStore Nat FinalityProviderHistoricalRewards)
  btcDelegationRewardsTracker : KVStore AccAddress (KVStore AccAddress BTCDelegationRewardsTracker)
  rewardTrackerEvents : KVStore Nat (List EventPowerUpdate)
  rewardTrackerEventsLastProcessedHeight : Nat

namespace State

/-- The store at genesis. -/
def blank (params : Params) : State where
  params := params
  btcStakingGauges := KVStore.empty
  fpDirectGauges := KVStore.empty
  rewardGauges := fun _ => KVStore.empty
  withdrawAddrs := KVStore.empty
  btcDelegatorToFp := KVStore.empty
  finalityProviderCurrentRewards := KVStore.empty
  finalityProviderHistoricalRewards := KVStore.empty
  btcDelegationRewardsTracker := KVStore.empty
  rewardTrackerEvents := KVStore.empty
  rewardTrackerEventsLastProcessedHeight := 0

/-! ## Reward gauges -/

variable (s : State)

/-- `SetRewardGauge`. -/
def setRewardGauge (sType : StakeholderType) (addr : AccAddress) (rg : RewardGauge) : State :=
  { s with
    rewardGauges := Function.update s.rewardGauges sType ((s.rewardGauges sType).set addr rg) }

/-- `accumulateRewardGauge`: coins of which one amount is zero are dropped as a whole. -/
def accumulateRewardGauge (sType : StakeholderType) (addr : AccAddress) (reward : Coins) : State :=
  if reward.isAllPositive then
    let rg := ((s.rewardGauges sType).get addr).getD RewardGauge.new
    { s with
      rewardGauges := Function.update s.rewardGauges sType
        ((s.rewardGauges sType).set addr (rg.add reward)) }
  else s

/-- `GetWithdrawAddr`. -/
def getWithdrawAddr (addr : AccAddress) : AccAddress :=
  (s.withdrawAddrs.get addr).getD addr

/-! ## Stores of the reward trackers -/

def setBTCDelegationRewardsTracker (fp del : AccAddress)
    (rwd : BTCDelegationRewardsTracker) : State :=
  { s with
    btcDelegatorToFp := s.btcDelegatorToFp.setUnder del fp ()
    btcDelegationRewardsTracker := s.btcDelegationRewardsTracker.setUnder fp del rwd }

def getBTCDelegationRewardsTracker (fp del : AccAddress) : Outcome BTCDelegationRewardsTracker :=
  orThrow ((s.btcDelegationRewardsTracker.under fp).get del)
    (.registered errBTCDelegationRewardsTrackerNotFound)

def setFinalityProviderCurrentRewards (fp : AccAddress)
    (rwd : FinalityProviderCurrentRewards) : State :=
  { s with finalityProviderCurrentRewards := s.finalityProviderCurrentRewards.set fp rwd }

def getFinalityProviderCurrentRewards (fp : AccAddress) : Outcome FinalityProviderCurrentRewards :=
  orThrow (s.finalityProviderCurrentRewards.get fp) (.registered errFPCurrentRewardsNotFound)

def setFinalityProviderHistoricalRewards (fp : AccAddress) (period : Nat)
    (rwd : FinalityProviderHistoricalRewards) : State :=
  { s with
    finalityProviderHistoricalRewards :=
      s.finalityProviderHistoricalRewards.setUnder fp period rwd }

def getFinalityProviderHistoricalRewards (fp : AccAddress) (period : Nat) :
    Outcome FinalityProviderHistoricalRewards :=
  orThrow ((s.finalityProviderHistoricalRewards.under fp).get period)
    (.registered errFPHistoricalRewardsNotFound)

/-! ## Periods -/

/-- `initializeFinalityProvider`: period 1 is open, period 0 gave nothing. -/
def initializeFinalityProvider (fp : AccAddress) : State :=
  (s.setFinalityProviderHistoricalRewards fp 0 ⟨KVStore.empty⟩).setFinalityProviderCurrentRewards fp
    ⟨KVStore.empty, 1, 0⟩

/-- `IncrementFinalityProviderPeriod`; returns the period that ended. -/
def incrementFinalityProviderPeriod (fp : AccAddress) : Outcome (Nat × State) :=
  match s.finalityProviderCurrentRewards.get fp with
  | none => .ok (1, s.initializeFinalityProvider fp)
  | some fpCurrentRwd => do
      let fpHistoricalRwd ← s.getFinalityProviderHistoricalRewards fp (fpCurrentRwd.period - 1)
      let newFpHistoricalRwd : FinalityProviderHistoricalRewards :=
        ⟨fpHistoricalRwd.cumulativeRewardsPerSat.add fpCurrentRwd.rewardsPerSat⟩
      let s := s.setFinalityProviderHistoricalRewards fp fpCurrentRwd.period newFpHistoricalRwd
      let s := s.setFinalityProviderCurrentRewards fp
        ⟨KVStore.empty, fpCurrentRwd.period + 1, fpCurrentRwd.totalActiveSat⟩
      return (fpCurrentRwd.period, s)

/-- `calculateDelegationRewardsBetween`. -/
def calculateDelegationRewardsBetween (fp : AccAddress)
    (btcDelRwdTracker : BTCDelegationRewardsTracker) (endingPeriod : Nat) : Outcome Coins := do
  ensure (btcDelRwdTracker.startPeriodCumulativeReward ≤ endingPeriod)
    (.panic "startingPeriod cannot be greater than endingPeriod")
  let starting ← s.getFinalityProviderHistoricalRewards fp
    btcDelRwdTracker.startPeriodCumulativeReward
  let ending ← s.getFinalityProviderHistoricalRewards fp endingPeriod
  let differenceWithDecimals ← ending.cumulativeRewardsPerSat.sub starting.cumulativeRewardsPerSat
  return (differenceWithDecimals.mulInt btcDelRwdTracker.totalActiveSat).quoInt decimalRewards

/-- `CalculateBTCDelegationRewards` of a tracker that was found. -/
def calculateBTCDelegationRewards (fp : AccAddress) (btcDelRwdTracker : BTCDelegationRewardsTracker)
    (endPeriod : Nat) : Outcome Coins :=
  if btcDelRwdTracker.totalActiveSat = 0 then .ok KVStore.empty
  else s.calculateDelegationRewardsBetween fp btcDelRwdTracker endPeriod

/-- `CalculateBTCDelegationRewardsAndSendToGauge`; without a tracker there are no rewards. -/
def calculateBTCDelegationRewardsAndSendToGauge (fp del : AccAddress)
    (endPeriod : Nat) : Outcome State :=
  match (s.btcDelegationRewardsTracker.under fp).get del with
  | none => .ok s
  | some btcDelRwdTracker => do
      let rewards ← s.calculateBTCDelegationRewards fp btcDelRwdTracker endPeriod
      return if rewards.isZero then s else s.accumulateRewardGauge .btcStaker del rewards

/-- `initializeBTCDelegation`. -/
def initializeBTCDelegation (fp del : AccAddress) : Outcome State := do
  let valCurrentRewards ← s.getFinalityProviderCurrentRewards fp
  let btcDelRwdTracker ← s.getBTCDelegationRewardsTracker fp del
  return s.setBTCDelegationRewardsTracker fp del
    ⟨valCurrentRewards.period - 1, btcDelRwdTracker.totalActiveSat⟩

/-- `btcDelegationModifiedWithPreInitDel`. -/
def btcDelegationModifiedWithPreInitDel (fp del : AccAddress)
    (preInitializeDelegation : State → Outcome State) : Outcome State := do
  let (endedPeriod, s) ← s.incrementFinalityProviderPeriod fp
  let s ← s.calculateBTCDelegationRewardsAndSendToGauge fp del endedPeriod
  let s ← preInitializeDelegation s
  s.initializeBTCDelegation fp del

/-- `addFinalityProviderStaked`. -/
def addFinalityProviderStaked (fp : AccAddress) (amt : Nat) : State :=
  match s.finalityProviderCurrentRewards.get fp with
  | some cur =>
    s.setFinalityProviderCurrentRewards fp { cur with totalActiveSat := cur.totalActiveSat + amt }
  | none =>
    (s.initializeFinalityProvider fp).setFinalityProviderCurrentRewards fp
      ⟨KVStore.empty, 1, 0 + amt⟩

/-- `addDelegationSat`. -/
def addDelegationSat (fp del : AccAddress) (amt : Nat) : State :=
  let btcDelRwdTracker := ((s.btcDelegationRewardsTracker.under fp).get del).getD ⟨0, 0⟩
  (s.setBTCDelegationRewardsTracker fp del
    { btcDelRwdTracker with
      totalActiveSat := btcDelRwdTracker.totalActiveSat + amt }).addFinalityProviderStaked fp amt

/-- `subFinalityProviderStaked`. -/
def subFinalityProviderStaked (fp : AccAddress) (amt : Nat) : Outcome State := do
  let cur ← s.getFinalityProviderCurrentRewards fp
  ensure (amt ≤ cur.totalActiveSat) (.registered errFPCurrentRewardsTrackerNegativeAmount)
  return s.setFinalityProviderCurrentRewards fp
    { cur with totalActiveSat := cur.totalActiveSat - amt }

/-- `subDelegationSat`. -/
def subDelegationSat (fp del : AccAddress) (amt : Nat) : Outcome State := do
  let btcDelRwdTracker ← s.getBTCDelegationRewardsTracker fp del
  ensure (amt ≤ btcDelRwdTracker.totalActiveSat)
    (.registered errBTCDelegationRewardsTrackerNegativeAmount)
  let s := s.setBTCDelegationRewardsTracker fp del
    { btcDelRwdTracker with totalActiveSat := btcDelRwdTracker.totalActiveSat - amt }
  s.subFinalityProviderStaked fp amt

/-- `BtcDelegationActivated`. -/
def btcDelegationActivated (fp del : AccAddress) (sat : Nat) : Outcome State :=
  s.btcDelegationModifiedWithPreInitDel fp del fun s => .ok (s.addDelegationSat fp del sat)

/-- `BtcDelegationUnbonded`. -/
def btcDelegationUnbonded (fp del : AccAddress) (sat : Nat) : Outcome State :=
  s.btcDelegationModifiedWithPreInitDel fp del fun s => s.subDelegationSat fp del sat

/-- `btcDelegationModified`. -/
def btcDelegationModified (fp del : AccAddress) : Outcome State :=
  s.btcDelegationModifiedWithPreInitDel fp del .ok

/-- `sendAllBtcRewardsToGauge`: settle the delegator with all its providers. -/
def sendAllBtcRewardsToGauge (del : AccAddress) : Outcome State :=
  foldOutcome (fun s fp => s.btcDelegationModified fp del) s (s.btcDelegatorToFp.under del).keys

/-- `sendAllBtcDelegationTypeToRewardsGauge`. -/
def sendAllBtcDelegationTypeToRewardsGauge (sType : StakeholderType)
    (del : AccAddress) : Outcome State :=
  if sType = .btcStaker then s.sendAllBtcRewardsToGauge del else .ok s

/-- `AddFinalityProviderRewardsForBtcDelegations`. -/
def addFinalityProviderRewardsForBtcDelegations (fp : AccAddress) (rwd : Coins) :
    Outcome State := do
  let cur ← s.getFinalityProviderCurrentRewards fp
  return s.setFinalityProviderCurrentRewards fp
    { cur with currentRewards := cur.currentRewards.add rwd }

/-! ## Events -/

/-- `GetOrNewRewardTrackerEvent`. -/
def eventsAt (height : Nat) : List EventPowerUpdate :=
  (s.rewardTrackerEvents.get height).getD []

/-- `AddRewardTrackerEvent`. -/
def addRewardTrackerEvent (height : Nat) (newEv : EventPowerUpdate) : State :=
  { s with
    rewardTrackerEvents := s.rewardTrackerEvents.set height (s.eventsAt height ++ [newEv]) }

/-- Apply one event. -/
def processRewardTrackerEvent : EventPowerUpdate → Outcome State
  | .btcActivated fp del sat => s.btcDelegationActivated fp del sat
  | .btcUnbonded fp del sat => s.btcDelegationUnbonded fp del sat

/-- `ProcessRewardTrackerEventsAtHeight`. -/
def processRewardTrackerEventsAtHeight (height : Nat) : Outcome State := do
  let s ← foldOutcome processRewardTrackerEvent s (s.eventsAt height)
  return { s with rewardTrackerEvents := s.rewardTrackerEvents.delete height }

/-- `ProcessRewardTrackerEvents`: from the height after the last processed one. -/
def processRewardTrackerEvents (untilBlkHeight : Nat) : Outcome State := do
  let s ← foldOutcome processRewardTrackerEventsAtHeight s
    (List.range' (s.rewardTrackerEventsLastProcessedHeight + 1)
      (untilBlkHeight - s.rewardTrackerEventsLastProcessedHeight))
  return { s with rewardTrackerEventsLastProcessedHeight := untilBlkHeight }

/-- Book one event in the sums that `GetRewardTrackerEventsCompiledByBtcDel` compiles for a
provider. -/
def compileEvent (fp : AccAddress) (satsByBtcDel : KVStore AccAddress Int) :
    EventPowerUpdate → KVStore AccAddress Int
  | .btcActivated fpAddr del sat =>
    if fpAddr = fp then satsByBtcDel.set del ((satsByBtcDel.get del).getD 0 + sat)
    else satsByBtcDel
  | .btcUnbonded fpAddr del sat =>
    if fpAddr = fp then satsByBtcDel.set del ((satsByBtcDel.get del).getD 0 - sat)
    else satsByBtcDel

/-- The events after the last processed height. -/
def pendingEvents (untilBlkHeight : Nat) : List EventPowerUpdate :=
  (List.range' (s.rewardTrackerEventsLastProcessedHeight + 1)
    (untilBlkHeight - s.rewardTrackerEventsLastProcessedHeight)).flatMap s.eventsAt

/-- `GetRewardTrackerEventsCompiledByBtcDel`, filtered by provider. -/
def getRewardTrackerEventsCompiledByBtcDel (untilBlkHeight : Nat) (fp : AccAddress) :
    KVStore AccAddress Int :=
  (s.pendingEvents untilBlkHeight).foldl (compileEvent fp) KVStore.empty

/-- The delegators that `IterateBTCDelegationSatsUpdated` visits, with their satoshis: those
with a tracker, then those that only occur in pending events. -/
def btcDelegationSatsUpdated (blockHeight : Nat) (fp : AccAddress) : List (AccAddress × Int) :=
  let compiledEvents := s.getRewardTrackerEventsCompiledByBtcDel blockHeight fp
  let trackers := s.btcDelegationRewardsTracker.under fp
  (trackers.entries.map fun entry =>
    (entry.1, (entry.2.totalActiveSat : Int) + (compiledEvents.get entry.1).getD 0))
  ++ compiledEvents.entries.filter fun entry => (trackers.get entry.1).isNone

/-! ## Distribution -/

/-- `accumulateRewards` in the store: the gauges of the height.  Emitted events are left out. -/
def setGauges (height : Nat) (btcStakingReward fpDirectRewards : Coins) : State :=
  { s with
    btcStakingGauges := s.btcStakingGauges.set height btcStakingReward
    fpDirectGauges :=
      if fpDirectRewards.isAllPositive then s.fpDirectGauges.set height fpDirectRewards
      else s.fpDirectGauges }

/-- The voting providers among the active ones, for which rewards are distributed. -/
def rewardedFps (dc : VotingPowerDistCache) (voters : List BIP340PubKey) :
    List FinalityProviderDistInfo :=
  dc.getActiveFinalityProviderSet.filter fun fp => decide (fp.btcPk ∈ voters)

/-- `LegacyNewDec(sat).QuoTruncate(LegacyNewDec(total))`. -/
def portionOf (sat total : Nat) : Dec := (sat * 10 ^ 18 / total : Nat)

/-- The rewards of one voting provider. -/
def rewardFp (gauge fpDirectGauge : Coins) (totalVotingPowerOfVoters : Nat) (s : State)
    (fp : FinalityProviderDistInfo) : Outcome State := do
  ensure (totalVotingPowerOfVoters ≠ 0) (.panic "division by zero")
  let fpPortion := portionOf fp.totalBondedSat totalVotingPowerOfVoters
  let coinsForFpsAndDels := gauge.portion fpPortion
  let coinsForCommission := coinsForFpsAndDels.portion fp.commission
  let coinsForFpDirect := fpDirectGauge.portion fpPortion
  let totalCoinsForFp := coinsForCommission.add coinsForFpDirect
  let s := s.accumulateRewardGauge .finalityProvider fp.addr totalCoinsForFp
  let coinsForBTCDels ← coinsForFpsAndDels.sub coinsForCommission
  (s.addFinalityProviderRewardsForBtcDelegations fp.addr coinsForBTCDels).orPanic
    "failed to add fp rewards for btc delegation %s at height %d: %w"

/-- `RewardBTCStaking`. -/
def rewardBTCStaking (height : Nat) (dc : VotingPowerDistCache)
    (voters : List BIP340PubKey) : Outcome State := do
  let gauge := (s.btcStakingGauges.get height).getD KVStore.empty
  let fpDirectGauge := (s.fpDirectGauges.get height).getD KVStore.empty
  let fps := rewardedFps dc voters
  let totalVotingPowerOfVoters := (fps.map (·.totalBondedSat)).sum
  let s ← (s.processRewardTrackerEvents height).orPanic
    "failed to process reward tracker events at height %d: %s"
  let s ← foldOutcome (rewardFp gauge fpDirectGauge totalVotingPowerOfVoters) s fps
  return { s with
    btcStakingGauges := s.btcStakingGauges.delete height
    fpDirectGauges := s.fpDirectGauges.delete height }

end State

end Babylon.Incentive
