/-
  Rewards of several denominations.

  A settlement computes the entitlement of each denomination, rounds it down and books
  the result in a gauge.  The rounded coins keep amounts of zero, with which the gauge
  takes none of the coins and the bank sends none of them.
-/
import Babylon.App.RewardAccounts

set_option autoImplicit false

namespace Babylon

open Lib Incentive Costaking Devnet

/-! ## Settlements -/

namespace Incentive.State

variable {s t : State} {fp del : AccAddress}

/-- What a gauge has received. -/
def credited (s : State) (sType : StakeholderType) (addr : AccAddress) (denom : Denom) : Nat :=
  ((s.rewardGauges sType).get addr).elim 0 fun rg => rg.coins.amountOf denom

/-- A settlement: the open period of the provider ends, and its delegator is paid. -/
def settle (s : State) (fp del : AccAddress) : Outcome State := do
  let (endedPeriod, s) ← s.incrementFinalityProviderPeriod fp
  s.calculateBTCDelegationRewardsAndSendToGauge fp del endedPeriod

/-- What the delegator is entitled to at the end of the open period, in units of 10^-20. -/
def entitlement (s : State) (fp del : AccAddress) (denom : Denom) : Nat :=
  (s.pool fp denom).close.claim del

theorem credited_accumulate (s : State) (sType : StakeholderType) (addr : AccAddress)
    (reward : Coins) (denom : Denom) :
    (s.accumulateRewardGauge sType addr reward).credited sType addr denom
      = s.credited sType addr denom
        + if reward.isAllPositive then reward.amountOf denom else 0 := by
  unfold accumulateRewardGauge credited
  split
  case isFalse => rfl
  case isTrue =>
    dsimp only
    rw [Function.update_self, KVStore.get_set_self, Option.elim_some]
    unfold RewardGauge.add
    rw [Coins.amountOf_add]
    cases (s.rewardGauges sType).get addr <;> rfl

/-- Booking truncated coins credits every one of them unless they are mixed. -/
theorem credited_truncates_iff {rewards : Coins} {claim : Denom → Nat} (h : Truncates rewards claim)
    (s : State) (sType : StakeholderType) (addr : AccAddress) :
    (∀ denom, (s.accumulateRewardGauge sType addr rewards).credited sType addr denom
      = s.credited sType addr denom + claim denom / decimalRewards) ↔ ¬ Mixed claim := by
  constructor
  · rintro hcred ⟨⟨denom, hne, hzero⟩, ⟨other, ho⟩⟩
    have hinvalid : rewards.isAllPositive = false := by
      refine Bool.eq_false_iff.mpr fun hposi => ?_
      have hval : rewards.isValid = true := (Bool.and_eq_true_iff.mp hposi).2
      exact h.isValid_iff.mp hval denom hne hzero
    have hbooked := hcred other
    rw [credited_accumulate, hinvalid, if_neg Bool.false_ne_true] at hbooked
    omega
  · intro hmix denom
    rw [credited_accumulate, ← h.amountOf]
    by_cases hzero : rewards.isZero = true
    · rw [Coins.amountOf_eq_zero_of_isZero hzero]
      split <;> rfl
    · have hval := (h.not_mixed_iff.mp hmix).resolve_left hzero
      rw [Coins.isAllPositive_of_isValid hval hzero, if_pos rfl]

theorem settle_credits_iff (h : s.Tracked fp) (del : AccAddress) :
    (∃ t, s.settle fp del = .ok t ∧ ∀ denom, t.credited .btcStaker del denom
      = s.credited .btcStaker del denom + s.entitlement fp del denom / decimalRewards) ↔
    ¬ Mixed (s.entitlement fp del) := by
  obtain ⟨ended, closed, rewards, hclose, hcl, hbooked, htr⟩ := exists_settled h del
  have hsame : ∀ denom, s.credited .btcStaker del denom = closed.credited .btcStaker del denom := by
    intro denom
    unfold credited
    rw [hcl.rewardGauges]
  have hsettle : s.settle fp del = .ok (closed.accumulateRewardGauge .btcStaker del rewards) := by
    unfold settle
    rw [hclose, ok_bind]
    exact hbooked
  change Truncates rewards (s.entitlement fp del) at htr
  rw [← credited_truncates_iff htr closed .btcStaker del]
  constructor
  · rintro ⟨t, ht, hcred⟩ denom
    rw [hsettle] at ht
    obtain rfl := Except.ok.inj ht
    rw [hcred, hsame]
  · intro hcred
    refine ⟨_, hsettle, fun denom => ?_⟩
    rw [hcred, hsame]

end Incentive.State

namespace RewardStores

variable {s t : RewardStores}

/-- A settlement of a costaker: the open period ends, and it is paid. -/
def settleCostaker (s : RewardStores) (costaker : AccAddress) :
    Attempt RewardStores RewardStores := do
  let (endedPeriod, costaking) ← s.costaking.incrementRewardsPeriod.leaving s
  { s with costaking }.calculateCostakerRewardsAndSendToGauge costaker endedPeriod

/-- A settlement that is not mixed moves and books every denomination; a mixed one fails. -/
theorem settleCostaker_credits_iff (h : s.costaking.Sound) (hfund : s.CostakersFunded)
    (costaker : AccAddress) :
    (∃ t, s.settleCostaker costaker = .ok t ∧ ∀ denom, (t.bank.modules .incentive).amountOf denom
          = (s.bank.modules .incentive).amountOf denom + s.claims costaker denom / decimalRewards ∧
        t.incentive.credited .costaker costaker denom
          = s.incentive.credited .costaker costaker denom
            + s.claims costaker denom / decimalRewards) ↔
    ¬ Mixed (s.claims costaker) := by
  obtain ⟨ended, closed, hincr, -, hcases⟩ := exists_settled h hfund costaker
  unfold settleCostaker
  rw [hincr, Outcome.leaving_ok]
  simp only [ok_bind]
  rcases hcases with ⟨hmix, paid, hpaid, -, htrf⟩ | ⟨hmix, hfails⟩
  · refine ⟨fun _ => hmix, fun _ => ⟨paid, hpaid, fun denom => ⟨?_, ?_⟩⟩⟩
    · exact htrf.incentiveBalance denom
    · obtain ⟨rewards, htr, -, hinc⟩ := htrf.incentive
      rw [hinc]
      exact (Incentive.State.credited_truncates_iff htr s.incentive .costaker costaker).mpr
        hmix denom
  · refine ⟨?_, fun hnot => absurd hmix hnot⟩
    rintro ⟨t, ht, -⟩
    rw [hfails] at ht
    cases ht

end RewardStores

/-! ## Reachable states -/

/-- In every reachable state, a settlement credits each denomination with its truncated
entitlement exactly if no positive entitlement is rounded to zero beside another that is not. -/
theorem settlement_credits_denominations_iff {history : List (StakingStores × RewardLabel)}
    {c : StakingStores} (run : Run rewardSystem history c) :
    (∀ fp del, (∃ t, c.rewards.incentive.settle fp del = .ok t ∧ ∀ denom,
        t.credited .btcStaker del denom = c.rewards.incentive.credited .btcStaker del denom
          + c.rewards.incentive.entitlement fp del denom / decimalRewards) ↔
      ¬ Mixed (c.rewards.incentive.entitlement fp del)) ∧
    ∀ costaker, (∃ t, c.rewards.settleCostaker costaker = .ok t ∧ ∀ denom,
        (t.bank.modules .incentive).amountOf denom
            = (c.rewards.bank.modules .incentive).amountOf denom
              + c.rewards.claims costaker denom / decimalRewards ∧
          t.incentive.credited .costaker costaker denom
            = c.rewards.incentive.credited .costaker costaker denom
              + c.rewards.claims costaker denom / decimalRewards) ↔
      ¬ Mixed (c.rewards.claims costaker) := by
  have hsolvent := solvent_of_run run
  refine ⟨fun fp del => ?_, fun costaker => ?_⟩
  · exact Incentive.State.settle_credits_iff (hsolvent.tracked fp) del
  · exact RewardStores.settleCostaker_credits_iff hsolvent.sound hsolvent.funded costaker

namespace Devnet

/-- A fee collector with 1000 coins of one denomination and 100 of another. -/
def mixedBank : Bank :=
  { rewardBank with
    modules := fun account =>
      if account = .feeCollector then (KVStore.empty.set 0 1000).set 1 100 else KVStore.empty }

def mixedStart : StakingStores :=
  (StakingStores.blank incentiveParams costakingParams mixedBank
    (validatorThree [])).afterEpochBegins

theorem mixedStart_genesis : RewardGenesis mixedStart :=
  ⟨incentiveParams, costakingParams, mixedBank, validatorThree [], rfl, rfl, rfl⟩

/-- Two stakers with 1 and 99 satoshis and with scores 1 and 9. -/
def mixedLabels : List RewardLabel :=
  [delegateBaby 6 [(6, 2 * 10 ^ 18)], delegateBaby 7 [(6, 2 * 10 ^ 18), (7, 18 * 10 ^ 18)],
    .btcDelegationActivated ⟨1, 0, []⟩ 5 6 true true 1,
    .btcDelegationActivated ⟨1, 0, []⟩ 5 7 true true 99, .op (.collectFees 1),
    .op (.collectCostakingFees 0 (.ok ())), .rewardBTCStaking ⟨1, 0, []⟩ 1 rewardCache [9]]

/-- The staker is entitled to 4 coins of the first denomination and to a fraction of the second,
and a settlement credits it with nothing. -/
def creditsNothing (c : StakingStores) : Bool :=
  match c.rewards.incentive.settle 5 6 with
  | .ok t => decide (c.rewards.incentive.entitlement 5 6 0 / decimalRewards = 4 ∧
      c.rewards.incentive.entitlement 5 6 1 / decimalRewards = 0 ∧
      c.rewards.incentive.credited .btcStaker 6 0 = 0 ∧ t.credited .btcStaker 6 0 = 0)
  | .error _ => false

/-- As a costaker it is entitled to 8 coins of the first denomination, and its settlement
fails. -/
def refusesCostaker (c : StakingStores) : Bool :=
  decide (c.rewards.claims 6 0 / decimalRewards = 8 ∧ c.rewards.claims 6 1 / decimalRewards = 0) &&
    !succeeds (c.rewards.settleCostaker 6)

end Devnet

/-- A staker loses its coins of one denomination because its part of another is too small. -/
theorem settlement_drops_denominations : ∃ history c, Run rewardSystem history c ∧
    (¬ ∃ t, c.rewards.incentive.settle 5 6 = .ok t ∧ ∀ denom,
      t.credited .btcStaker 6 denom = c.rewards.incentive.credited .btcStaker 6 denom
        + c.rewards.incentive.entitlement 5 6 denom / decimalRewards) ∧
    ¬ ∃ t, c.rewards.settleCostaker 6 = .ok t := by
  obtain ⟨history, c, run, hnothing, hrefused⟩ := Run.reaching rewardSystem
    (P := fun c => creditsNothing c = true ∧ refusesCostaker c = true)
    mixedStart_genesis mixedLabels (by decide +kernel)
  refine ⟨history, c, run, ?_, ?_⟩
  · rintro ⟨t, ht, hcredited⟩
    unfold creditsNothing at hnothing
    rw [ht] at hnothing
    obtain ⟨hentitled, -, hbefore, hafter⟩ := of_decide_eq_true hnothing
    have hfirst := hcredited 0
    rw [hentitled, hbefore, hafter] at hfirst
    cases hfirst
  · rintro ⟨t, ht⟩
    have hfails := (Bool.and_eq_true_iff.mp hrefused).2
    rw [ht] at hfails
    cases hfails

/-- With rewards of one denomination, both settlements credit the staker. -/
theorem settlement_credits_denominations_devnet : ∃ history c, Run rewardSystem history c ∧
    c.rewards.incentive.entitlement 5 6 0 / decimalRewards ≠ 0 ∧
    (∀ fp del, (∃ t, c.rewards.incentive.settle fp del = .ok t ∧ ∀ denom,
        t.credited .btcStaker del denom = c.rewards.incentive.credited .btcStaker del denom
          + c.rewards.incentive.entitlement fp del denom / decimalRewards) ↔
      ¬ Mixed (c.rewards.incentive.entitlement fp del)) := by
  obtain ⟨history, c, run, hentitled⟩ := Run.reaching rewardSystem
    (P := fun c => c.rewards.incentive.entitlement 5 6 0 / decimalRewards ≠ 0)
    rewardStart_genesis rewardLabels (by decide +kernel)
  exact ⟨history, c, run, hentitled, (settlement_credits_denominations_iff run).1⟩

end Babylon
