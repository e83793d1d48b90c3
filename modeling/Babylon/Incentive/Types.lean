/-
  `x/incentive/types`: parameters, gauges of rewards, and the records by which the
  rewards of a finality provider are shared among its BTC delegators.
-/
import Babylon.Types.Coins

set_option autoImplicit false

namespace Babylon.Incentive

open Lib Option

/-- `DecimalRewards`: rewards per satoshi are kept in units of 10^-20. -/
def decimalRewards : Nat := 10 ^ 20

/-- The coins that are left of scaled claims: one for every claim, also if it truncates to
zero. -/
def Truncates (rewards : Coins) (claim : Denom → Nat) : Prop :=
  ∀ denom, rewards.get denom = if claim denom = 0 then none else some (claim denom / decimalRewards)

namespace Truncates

variable {rewards : Coins} {claim : Denom → Nat}

/-- `MulInt` and `QuoInt` of a difference, which holds no zero amounts. -/
theorem exists_difference {first last : Coins} (stake : Nat)
    (hle : ∀ denom, first.amountOf denom ≤ last.amountOf denom) (hstake : stake ≠ 0) :
    ∃ difference, last.sub first = .ok difference ∧
      Truncates ((difference.mulInt stake).quoInt decimalRewards) fun denom =>
        stake * (last.amountOf denom - first.amountOf denom) := by
  obtain ⟨difference, hsub, hval⟩ := Coins.exists_sub hle
  refine ⟨difference, hsub, fun denom => ?_⟩
  simp only [← Coins.amountOf_sub hsub denom, Nat.add_sub_cancel]
  unfold Coins.quoInt Coins.mulInt Coins.amountOf
  rw [KVStore.get_map, KVStore.get_map]
  cases hget : difference.get denom with
  | none => rw [getD_none, Nat.mul_zero, if_pos rfl, map_none, map_none]
  | some amount =>
    have hpos : 0 < amount :=
      of_decide_eq_true (List.all_eq_true.mp hval _ (KVStore.mem_entries.mpr hget))
    rw [getD_some, if_neg (Nat.mul_ne_zero hstake hpos.ne'), map_some, map_some, Nat.mul_comm]

theorem of_claim_eq_zero (h : ∀ denom, claim denom = 0) : Truncates KVStore.empty claim := by
  intro denom
  rw [h, if_pos rfl, KVStore.get_empty]

section

variable (h : Truncates rewards claim)

include h

theorem congr {claim' : Denom → Nat}
    (heq : ∀ denom, claim denom = claim' denom) : Truncates rewards claim' := by
  obtain rfl : claim = claim' := funext heq
  exact h

theorem amountOf (denom : Denom) : rewards.amountOf denom = claim denom / decimalRewards := by
  unfold Coins.amountOf
  rw [h denom]
  split
  case isTrue hzero => rw [hzero, Nat.zero_div, getD_none]
  case isFalse => rw [getD_some]

theorem isZero_iff : rewards.isZero = true ↔ ∀ denom, claim denom / decimalRewards = 0 := by
  refine ⟨fun hzero denom => ?_, fun hzero => List.all_eq_true.mpr fun coin hcoin => ?_⟩
  · rw [← h.amountOf, Coins.amountOf_eq_zero_of_isZero hzero]
  · have hget := KVStore.mem_entries.mp hcoin
    rw [h coin.1] at hget
    split at hget
    case isTrue => cases hget
    case isFalse => exact decide_eq_true (by rw [← some.inj hget, hzero])

theorem isValid_iff :
    rewards.isValid = true ↔ ∀ denom, claim denom ≠ 0 → claim denom / decimalRewards ≠ 0 := by
  refine ⟨fun hval denom hne => ?_, fun hall => List.all_eq_true.mpr fun coin hcoin => ?_⟩
  · have hmem : (denom, claim denom / decimalRewards) ∈ rewards.entries := by
      rw [KVStore.mem_entries, h denom, if_neg hne]
    exact (of_decide_eq_true (List.all_eq_true.mp hval _ hmem)).ne'
  · have hget := KVStore.mem_entries.mp hcoin
    rw [h coin.1] at hget
    split at hget
    case isTrue => cases hget
    case isFalse hne =>
      rw [← some.inj hget]
      exact decide_eq_true (Nat.pos_of_ne_zero (hall _ hne))

end

end Truncates

/-! ## Errors -/

def errRewardGaugeNotFound : RegisteredError := ⟨"incentive", 1101, "reward gauge not found"⟩
def errNoWithdrawableCoins : RegisteredError := ⟨"incentive", 1102, "no coin is withdrawable"⟩
def errFPCurrentRewardsNotFound : RegisteredError :=
  ⟨"incentive", 1103, "finality provider current rewards not found"⟩
def errFPHistoricalRewardsNotFound : RegisteredError :=
  ⟨"incentive", 1104, "finality provider historical rewards not found"⟩
def errBTCDelegationRewardsTrackerNotFound : RegisteredError :=
  ⟨"incentive", 1105, "BTC delegation rewards tracker not found"⟩
def errBTCDelegationRewardsTrackerNegativeAmount : RegisteredError :=
  ⟨"incentive", 1106, "BTC delegation rewards tracker has a negative amount of TotalActiveSat"⟩
def errFPCurrentRewardsTrackerNegativeAmount : RegisteredError :=
  ⟨"incentive", 1107, "FP current rewards tracker has a negative amount of TotalActiveSat"⟩

/-! ## Parameters -/

/-- `Params`.  The portion of the finality providers is nil on chains that have not set it. -/
structure Params where
  btcStakingPortion : Dec
  fpPortion : Option Dec

/-- `Params.Validate`. -/
def Params.validate (p : Params) : Outcome Unit := do
  ensure (0 ≤ p.btcStakingPortion) (.errorf "BtcStakingPortion should not be negative")
  let fpPortion ← orThrow p.fpPortion (.errorf "FpPortion should not be nil")
  ensure (0 ≤ fpPortion) (.errorf "FpPortion should not be negative")
  ensure (p.btcStakingPortion + fpPortion < Dec.one)
    (.errorf "sum of all portions should be less than 1")

/-! ## Gauges -/

/-- `StakeholderType`. -/
inductive StakeholderType where
  | finalityProvider
  | btcStaker
  | costaker
deriving DecidableEq

/-- `RewardGauge`: the rewards of a stakeholder over time, and what it has withdrawn. -/
structure RewardGauge where
  coins : Coins
  withdrawnCoins : Coins
  withdrawn_le : ∀ denom, withdrawnCoins.amountOf denom ≤ coins.amountOf denom

namespace RewardGauge

/-- `NewRewardGauge`. -/
def new : RewardGauge := ⟨KVStore.empty, KVStore.empty, fun _ => le_refl _⟩

variable (rg : RewardGauge)

/-- `GetWithdrawableCoins`. -/
def getWithdrawableCoins : Outcome Coins := rg.coins.sub rg.withdrawnCoins

/-- `SetFullyWithdrawn`. -/
def setFullyWithdrawn : RewardGauge where
  coins := rg.coins
  withdrawnCoins := rg.coins.newCoins
  withdrawn_le := fun denom => (Coins.amountOf_newCoins rg.coins denom).le

/-- `Add`. -/
def add (coins : Coins) : RewardGauge where
  coins := rg.coins.add coins
  withdrawnCoins := rg.withdrawnCoins
  withdrawn_le := fun denom => by
    rw [Coins.amountOf_add]
    exact (rg.withdrawn_le denom).trans (Nat.le_add_right _ _)

/-- What is left to withdraw of a denomination. -/
def outstanding (denom : Denom) : Nat :=
  rg.coins.amountOf denom - rg.withdrawnCoins.amountOf denom

theorem outstanding_add (coins : Coins) (denom : Denom) :
    (rg.add coins).outstanding denom = rg.outstanding denom + coins.amountOf denom := by
  have hle := rg.withdrawn_le denom
  unfold outstanding add
  dsimp only
  rw [Coins.amountOf_add]
  omega

theorem outstanding_setFullyWithdrawn (denom : Denom) :
    rg.setFullyWithdrawn.outstanding denom = 0 := by
  unfold outstanding setFullyWithdrawn
  rw [Coins.amountOf_newCoins, Nat.sub_self]

/-- The withdrawable coins always exist, and hold no zero amounts. -/
theorem exists_withdrawable :
    ∃ coins, rg.getWithdrawableCoins = .ok coins ∧ coins.isValid = true ∧
      ∀ denom, coins.amountOf denom = rg.outstanding denom := by
  have hsub := Coins.sub_ok_iff.mpr ⟨rg.withdrawn_le, rfl⟩
  refine ⟨_, hsub, Coins.isValid_collect _ _, fun denom => ?_⟩
  have hsplit := Coins.amountOf_sub hsub denom
  unfold outstanding
  omega

end RewardGauge

/-! ## Reward trackers -/

/-- `FinalityProviderCurrentRewards`: the rewards of the open period. -/
structure FinalityProviderCurrentRewards where
  currentRewards : Coins
  period : Nat
  totalActiveSat : Nat

/-- The rewards per satoshi of the open period. -/
def FinalityProviderCurrentRewards.rewardsPerSat (cur : FinalityProviderCurrentRewards) : Coins :=
  if cur.totalActiveSat = 0 then KVStore.empty
  else (cur.currentRewards.mulInt decimalRewards).quoInt cur.totalActiveSat

/-- `FinalityProviderHistoricalRewards`: the rewards per satoshi up to the end of a period. -/
structure FinalityProviderHistoricalRewards where
  cumulativeRewardsPerSat : Coins

/-- `BTCDelegationRewardsTracker`: the stake of a delegator with a provider, and the period
after which it has not been paid. -/
structure BTCDelegationRewardsTracker where
  startPeriodCumulativeReward : Nat
  totalActiveSat : Nat

/-- `EventPowerUpdate`. -/
inductive EventPowerUpdate where
  | btcActivated (fpAddr btcDelAddr : AccAddress) (totalSat : Nat)
  | btcUnbonded (fpAddr btcDelAddr : AccAddress) (totalSat : Nat)
deriving DecidableEq

end Babylon.Incentive
