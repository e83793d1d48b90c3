/-
  The modules that pay rewards, as a transition system: `incentive`, `costaking`, and
  as much of `bank` and `epoching` as they read.  `staking` calls the hooks as it likes.

  The chain calls them by `rewardModules`, the interfaces that `finality` is built
  with.  Here these calls are steps among others, in any order: fees, distributions,
  withdrawals, parameters, messages of `staking` and ends of epochs.  A message that
  fails leaves the state as it was, up to the cache of `costaking`; a failure in
  `BeginBlock` or `EndBlock` halts the chain, so there is no such step.
-/
import Babylon.Lib.Run
import Babylon.Incentive.MsgServer
import Babylon.Costaking.Hooks
import Babylon.Finality.Keeper

set_option autoImplicit false

namespace Babylon

open Lib Incentive Costaking

/-! ## The interfaces that `finality` calls -/

namespace RewardStores

/-- `AfterBtcDelegationActivated` of `incentive` and then of `costaking`. -/
def btcDelegationActivated (s : RewardStores) (header : HeaderInfo) (fpAddr btcDelAddr : AccAddress)
    (isFpActiveInPrevSet : Bool) (sats : Nat) :
    Outcome RewardStores :=
  let incentive := s.incentive.addRewardTrackerEvent header.height
    (.btcActivated fpAddr btcDelAddr sats)
  { s with incentive }.afterBtcDelegationActivated btcDelAddr isFpActiveInPrevSet sats

/-- `AfterBtcDelegationUnbonded` of `incentive` and then of `costaking`. -/
def btcDelegationUnbonded (s : RewardStores) (header : HeaderInfo) (fpAddr btcDelAddr : AccAddress)
    (isFpActiveInPrevSet : Bool) (sats : Nat) :
    Outcome RewardStores :=
  let incentive := s.incentive.addRewardTrackerEvent header.height
    (.btcUnbonded fpAddr btcDelAddr sats)
  { s with incentive }.afterBtcDelegationUnbonded btcDelAddr isFpActiveInPrevSet sats

/-- `RewardBTCStaking`. -/
def rewardBTCStaking (s : RewardStores) (height : Nat) (dc : Finality.VotingPowerDistCache)
    (voters : List BIP340PubKey) : Outcome RewardStores := do
  let incentive ← s.incentive.rewardBTCStaking height dc voters
  return { s with incentive }

end RewardStores

/-- A call that changes only the reward stores. -/
def StakingStores.onRewards (c : StakingStores) (call : RewardStores → Outcome RewardStores) :
    Option StakingStores :=
  (call c.rewards).toOption.map fun rewards => { c with rewards }

/-- The modules behind `FinalityHooks` and `IncentiveKeeper`. -/
def rewardModules : Finality.External StakingStores where
  afterBtcDelegationActivated := fun header c fpAddr btcDelAddr prev _ sats =>
    c.onRewards (·.btcDelegationActivated header fpAddr btcDelAddr prev sats)
  afterBtcDelegationUnbonded := fun header c fpAddr btcDelAddr prev _ sats =>
    c.onRewards (·.btcDelegationUnbonded header fpAddr btcDelAddr prev sats)
  afterBbnFpEntersActiveSet := fun header c fpAddr =>
    c.onRewards (·.afterBbnFpEntersActiveSet header.height fpAddr)
  afterBbnFpRemovedFromActiveSet := fun header c fpAddr =>
    c.onRewards (·.afterBbnFpRemovedFromActiveSet header.height fpAddr)
  rewardBTCStaking := fun _ c height dc voters => c.onRewards (·.rewardBTCStaking height dc voters)

/-! ## Steps -/

/-- What the modules do on their own, between the calls of `finality`. -/
inductive RewardOp where
  /-- other modules move coins; nobody else spends from the two module accounts -/
  | updateBank (bank : Bank)
  /-- `BeginBlock` of `incentive` -/
  | collectFees (height : Nat)
  /-- `BeginBlock` of `costaking` -/
  | collectCostakingFees (totalPwr : Nat) (allocated : Outcome Unit)
  | withdrawReward (sType : StakeholderType) (addr : AccAddress)
  | setWithdrawAddress (delegatorAddress withdrawAddress : AccAddress)
  | updateIncentiveParams (params : Incentive.Params)
  | updateCostakingParams (params : Costaking.Params)
  /-- a message of `staking`, or a slashing -/
  | staking (calls : List StakingCall)
  | beforeEpochEnds
  /-- `staking` applies the validator set of the next epoch, and the block ends -/
  | endEpoch (staking : StakingKeeper)
  | endBlock

/-- What can happen to the modules. -/
inductive RewardLabel where
  | op (op : RewardOp)
  | btcDelegationActivated (header : HeaderInfo) (fpAddr btcDelAddr : AccAddress)
      (isFpActiveInPrevSet isFpActiveInCurrSet : Bool) (sats : Nat)
  | btcDelegationUnbonded (header : HeaderInfo) (fpAddr btcDelAddr : AccAddress)
      (isFpActiveInPrevSet isFpActiveInCurrSet : Bool) (sats : Nat)
  | fpEntersActiveSet (header : HeaderInfo) (fpAddr : AccAddress)
  | fpRemovedFromActiveSet (header : HeaderInfo) (fpAddr : AccAddress)
  | rewardBTCStaking (header : HeaderInfo) (height : Nat) (dc : Finality.VotingPowerDistCache)
      (voters : List BIP340PubKey)

namespace StakingStores

variable (c : StakingStores)

/-- The end of an epoch, after its queued messages: the hook of `epoching`, and the end of the
block. -/
def endEpoch (staking : StakingKeeper) : StakingStores :=
  { c with staking }.afterEpochEnds.endBlock

/-- One step of the modules on their own. -/
def runOp : RewardOp → Option StakingStores
  | .updateBank bank =>
    if bank.Holds .incentive (c.rewards.bank.modules .incentive) ∧
        bank.Holds .costaking (c.rewards.bank.modules .costaking) ∧
        bank.blockedAddrs = c.rewards.bank.blockedAddrs then
      some { c with rewards := { c.rewards with bank } }
    else none
  | .collectFees height => c.onRewards (·.handleCoinsInFeeCollector height)
  | .collectCostakingFees totalPwr allocated =>
    c.onRewards (·.handleCoinsForCostakers totalPwr allocated)
  | .withdrawReward sType addr =>
    c.onRewards fun s => (s.msgWithdrawReward sType addr).map Prod.snd
  | .setWithdrawAddress delegatorAddress withdrawAddress =>
    c.onRewards (·.setWithdrawAddress delegatorAddress withdrawAddress)
  | .updateIncentiveParams params => c.onRewards (·.updateIncentiveParams params)
  | .updateCostakingParams params => c.onRewards (·.updateCostakingParams params)
  | .staking calls => some (c.deliver (foldOutcome call c calls))
  | .beforeEpochEnds => some c.beforeEpochEnds
  | .endEpoch staking => some (c.endEpoch staking)
  | .endBlock => some c.endBlock

/-- One step of the modules. -/
def step : RewardLabel → Option StakingStores
  | .op op => c.runOp op
  | .btcDelegationActivated header fpAddr btcDelAddr prev curr sats =>
    rewardModules.afterBtcDelegationActivated header c fpAddr btcDelAddr prev curr sats
  | .btcDelegationUnbonded header fpAddr btcDelAddr prev curr sats =>
    rewardModules.afterBtcDelegationUnbonded header c fpAddr btcDelAddr prev curr sats
  | .fpEntersActiveSet header fpAddr => rewardModules.afterBbnFpEntersActiveSet header c fpAddr
  | .fpRemovedFromActiveSet header fpAddr =>
    rewardModules.afterBbnFpRemovedFromActiveSet header c fpAddr
  | .rewardBTCStaking header height dc voters =>
    rewardModules.rewardBTCStaking header c height dc voters

end StakingStores

/-! ## Genesis -/

/-- Empty stores, before the first epoch. -/
def StakingStores.blank (incentiveParams : Incentive.Params) (costakingParams : Costaking.Params)
    (bank : Bank) (staking : StakingKeeper) : StakingStores where
  rewards := ⟨Incentive.State.blank incentiveParams, Costaking.State.blank costakingParams, bank⟩
  staking
  stkCache := StakingCache.new

/-- The states in which the modules can start: empty stores with valid parameters, in the
first epoch. -/
def RewardGenesis (c : StakingStores) : Prop :=
  ∃ incentiveParams costakingParams bank staking,
    Incentive.Params.validate incentiveParams = .ok () ∧
      Costaking.Params.validate costakingParams = .ok () ∧
        c = (StakingStores.blank incentiveParams costakingParams bank staking).afterEpochBegins

/-- The modules that pay rewards. -/
def rewardSystem : System StakingStores RewardLabel where
  init := RewardGenesis
  step := StakingStores.step

end Babylon
