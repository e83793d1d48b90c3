/-
  `x/incentive/keeper`: fees, withdrawals and the messages of the module.

  At the beginning of a block a portion of the collected fees moves to the account of
  the module and is recorded in the gauges of the height.  `MsgWithdrawReward` first
  settles the stakeholder and then pays out its reward gauge; a BTC staker also
  withdraws as a costaker, of which errors are only logged.  The status codes around
  errors are left out.
-/
import Babylon.Costaking.Keeper

set_option autoImplicit false

namespace Babylon

open Lib Incentive

namespace RewardStores

/-! ## Fees -/

variable (s : RewardStores)

/-- `accumulateRewards`. -/
def accumulateRewards (height : Nat) (btcStakingReward fpDirectRewards : Coins) :
    Outcome RewardStores :=
  let s := { s with incentive := s.incentive.setGauges height btcStakingReward fpDirectRewards }
  let totalRwds := btcStakingReward.add fpDirectRewards
  if totalRwds.isAllPositive then do
    let bank ← (s.bank.sendCoinsFromModuleToModule .feeCollector .incentive totalRwds).orPanic
      "this can only be programming error and is unrecoverable"
    return { s with bank }
  else .ok s

/-- `HandleCoinsInFeeCollector` of `incentive`. -/
def handleCoinsInFeeCollector (height : Nat) : Outcome RewardStores :=
  let feesCollectedInt := s.bank.modules .feeCollector
  if !feesCollectedInt.isAllPositive then .ok s
  else
    let fpsDirectRwds := s.incentive.params.fpPortion.elim KVStore.empty feesCollectedInt.portion
    let btcStakingReward := feesCollectedInt.portion s.incentive.params.btcStakingPortion
    s.accumulateRewards height btcStakingReward fpsDirectRwds

/-! ## Withdrawals -/

/-- `withdrawReward`. -/
def withdrawReward (sType : StakeholderType) (addr : AccAddress) :
    Outcome (Coins × RewardStores) := do
  let rg ← orThrow ((s.incentive.rewardGauges sType).get addr) (.registered errRewardGaugeNotFound)
  let withdrawableCoins ← rg.getWithdrawableCoins
  ensure (withdrawableCoins.isAllPositive = true) (.registered errNoWithdrawableCoins)
  let withdrawAddr := s.incentive.getWithdrawAddr addr
  let bank ← s.bank.sendCoinsFromModuleToAccount .incentive withdrawAddr withdrawableCoins
  return (withdrawableCoins,
    { s with bank, incentive := s.incentive.setRewardGauge sType addr rg.setFullyWithdrawn })

/-- A withdrawal of which an error is only logged. -/
def withdrawOrNothing (sType : StakeholderType) (addr : AccAddress) : Coins × RewardStores :=
  match s.withdrawReward sType addr with
  | .ok withdrawn => withdrawn
  | .error _ => (KVStore.empty, s)

/-- The second half of `MsgWithdrawReward` of a BTC staker: withdraw as a costaker. -/
def withdrawAsCostaker (addr : AccAddress) (withdrawnCoins : Coins) : Coins × RewardStores :=
  let s := (s.beforeRewardWithdraw .costaker addr).logged
  match s.withdrawReward .costaker addr with
  | .ok (withdrawnCoinsCostaker, s) => (withdrawnCoins.add withdrawnCoinsCostaker, s)
  | .error _ => (withdrawnCoins, s)

/-- `MsgWithdrawReward`: the coins that were paid and the new state. -/
def msgWithdrawReward (sType : StakeholderType) (addr : AccAddress) :
    Outcome (Coins × RewardStores) := do
  let incentive ← s.incentive.sendAllBtcDelegationTypeToRewardsGauge sType addr
  let s ← ({ s with incentive }.beforeRewardWithdraw sType addr).reverted
  let (withdrawnCoins, s) := s.withdrawOrNothing sType addr
  let (withdrawnCoins, s) :=
    if sType = .btcStaker then s.withdrawAsCostaker addr withdrawnCoins else (withdrawnCoins, s)
  ensure (withdrawnCoins.isZero = false) (.registered errNoWithdrawableCoins)
  return (withdrawnCoins, s)

/-- `MsgSetWithdrawAddress`. -/
def setWithdrawAddress (delegatorAddress withdrawAddress : AccAddress) : Outcome RewardStores := do
  ensure (withdrawAddress ∉ s.bank.blockedAddrs)
    (.wrapf errUnauthorized "%s is not allowed to receive external funds")
  return { s with
    incentive := { s.incentive with
      withdrawAddrs := s.incentive.withdrawAddrs.set delegatorAddress withdrawAddress } }

/-- `MsgUpdateParams` of `incentive`, sent by the authority. -/
def updateIncentiveParams (params : Incentive.Params) : Outcome RewardStores := do
  params.validate.orWrapf errInvalidProposalMsg "invalid parameter: %v"
  return { s with incentive := { s.incentive with params } }

end RewardStores

end Babylon
