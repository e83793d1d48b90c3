/-
  The module accounts of `incentive` and `costaking` cover what the modules owe.

  `Backed` is about the account of `incentive` and `Solvent` about both accounts.  Each
  operation on the reward stores keeps them, also one that fails half-way.
-/
import Babylon.Incentive.Solvency
import Babylon.Incentive.MsgServer
import Babylon.Costaking.Settlement

set_option autoImplicit false

namespace Babylon

open Lib Incentive Costaking Incentive.State Attempt FailsOnly Coins Bank

variable {height : Nat} {incentive : Incentive.State} {sType : StakeholderType}
  {addr : AccAddress} {coins : Coins}

namespace RewardStores

variable {s t u : RewardStores} {costaker : AccAddress}

/-- The account of `incentive` covers what the module owes. -/
structure Backed (s : RewardStores) : Prop where
  tracked : ∀ fp, s.incentive.Tracked fp
  covered : ∀ denom, s.incentive.liabilities denom
    ≤ (s.bank.modules .incentive).amountOf denom * decimalRewards

/-- Both accounts cover what is owed, and the scores of the costakers add up. -/
structure Solvent (s : RewardStores) : Prop extends Backed s where
  sound : s.costaking.Sound
  funded : s.CostakersFunded

/-! ## Payments to costakers -/

/-- A payment to a costaker raises the balance by what it adds to the gauge. -/
theorem Transferred.backed {claim : Denom → Nat} (h : Transferred costaker claim s t)
    (inv : Backed s) : Backed t := by
  obtain ⟨rewards, htr, -, hinc⟩ := h.incentive
  have hgr := grows_accumulate inv.tracked .costaker costaker rewards
  rw [← hinc] at hgr
  refine ⟨hgr.tracked, fun denom => ?_⟩
  have hcov := inv.covered denom
  have hle := hgr.liabilities denom
  rw [htr.amountOf] at hle
  rw [h.incentiveBalance, Nat.add_mul]
  omega

theorem Booked.solvent (h : Booked costaker s t) (inv : Solvent s) : Solvent t := by
  obtain ⟨claim, -, htrf⟩ := h.paid
  exact ⟨htrf.backed inv.toBacked, h.sound, h.funded inv.funded⟩

theorem solvent_costakerModified (inv : Solvent s)
    {modify : CostakerRewardsTracker → CostakerRewardsTracker} (hmodify : Adjusts modify)
    (costaker : AccAddress) : Keeps Solvent Solvent (s.costakerModified costaker modify) := by
  rcases costakerModified_cases inv.sound inv.funded hmodify costaker with
    ⟨t, ht, -, hmod⟩ | ⟨fault, t, ht, hbooked, -, -⟩
  · rw [ht]
    exact hmod.toBooked.solvent inv
  · rw [ht]
    exact hbooked.solvent inv

theorem solvent_costakerWithdrawRewards (inv : Solvent s) (costaker : AccAddress) :
    Keeps Solvent Solvent (s.costakerWithdrawRewards costaker) := by
  rcases costakerWithdrawRewards_cases inv.sound inv.funded costaker with
    ⟨t, ht, hbooked, -⟩ | ⟨fault, t, ht, hbooked, -⟩
  · rw [ht]
    exact hbooked.solvent inv
  · rw [ht]
    exact hbooked.solvent inv

/-! ## Hooks of `finality` -/

theorem solvent_addActiveSatoshis (inv : Solvent s) {sats : Int}
    (h : (s.addActiveSatoshis costaker sats).reverted = .ok t) : Solvent t := by
  unfold addActiveSatoshis at h
  refine (solvent_costakerModified inv ?_ costaker).of_ok (reverted_ok_iff.mp h)
  exact ⟨fun _ => rfl, fun _ => rfl⟩

/-! ## Fees -/

/-- The stores change only in `incentive`, which owes no more than before. -/
theorem Backed.of_incentive (inv : Backed s) (htrk : ∀ fp, incentive.Tracked fp)
    (hle : ∀ denom, incentive.liabilities denom ≤ s.incentive.liabilities denom) :
    Backed { s with incentive } :=
  ⟨htrk, fun denom => (hle denom).trans (inv.covered denom)⟩

/-- The fees of `incentive` are paid from the fee collector. -/
theorem solvent_handleCoinsInFeeCollector (inv : Solvent s)
    (h : s.handleCoinsInFeeCollector height = .ok t) : Solvent t := by
  unfold handleCoinsInFeeCollector at h
  dsimp only at h
  split at h
  case isTrue =>
    cases h
    exact inv
  case isFalse =>
    unfold accumulateRewards at h
    dsimp only at h
    generalize (s.incentive.params.fpPortion.elim KVStore.empty
      (s.bank.modules .feeCollector).portion) = direct at h
    generalize (s.bank.modules .feeCollector).portion s.incentive.params.btcStakingPortion
      = staking at h
    have htrk : ∀ fp, (s.incentive.setGauges height staking direct).Tracked fp := inv.tracked
    have hgs := s.incentive.liabilities_setGauges height staking direct
    split at h
    case isTrue =>
      simp only [ok_iff, Outcome.orPanic_ok_iff] at h
      obtain ⟨bank, hsent, rfl⟩ := h
      have hmoved := sendCoinsFromModuleToModule_ok (by decide) hsent
      refine ⟨⟨htrk, fun denom => ?_⟩, inv.sound, fun denom => ?_⟩
      · have hcov := inv.covered denom
        have hle := hgs denom
        obtain ⟨-, hreceived, -⟩ := hmoved denom
        dsimp only
        rw [hreceived, amountOf_add, Nat.add_mul]
        omega
      · have ho := (hmoved denom).2.2 .costaking (by decide) (by decide)
        rw [ho]
        exact inv.funded denom
    case isFalse hnone =>
      cases h
      -- the sum of the rewards has no coins
      have hnoth : ∀ denom, amountOf staking denom + amountOf direct denom = 0 := by
        intro denom
        rw [← amountOf_add]
        by_contra hne
        exact hnone (isAllPositive_of_isValid (isValid_collect _ _)
          fun hzero => hne (amountOf_eq_zero_of_isZero hzero denom))
      refine ⟨inv.toBacked.of_incentive htrk fun denom => ?_, inv.sound, inv.funded⟩
      have hle := hgs denom
      rwa [hnoth, Nat.zero_mul, Nat.add_zero] at hle

/-- Two accounts that keep their balances. -/
theorem Solvent.of_bank {bank : Bank} (inv : Solvent s)
    (hinc : ∀ denom, (s.bank.modules .incentive).amountOf denom
      ≤ (bank.modules .incentive).amountOf denom)
    (hcost : ∀ denom, (s.bank.modules .costaking).amountOf denom
      ≤ (bank.modules .costaking).amountOf denom) : Solvent { s with bank } where
  tracked := inv.tracked
  covered := fun denom =>
    (inv.covered denom).trans (Nat.mul_le_mul_right _ (hinc denom))
  sound := inv.sound
  funded := fun denom => (inv.funded denom).trans (Nat.mul_le_mul_right _ (hcost denom))

variable {totalPwr : Nat} {allocated : Outcome Unit}

theorem solvent_allocateValidatorsRewards (inv : Solvent s) {rwds : Coins}
    (h : s.allocateValidatorsRewards totalPwr allocated rwds = .ok t) : Solvent t := by
  unfold allocateValidatorsRewards at h
  split at h
  case isTrue =>
    cases h
    exact inv
  case isFalse =>
    split at h
    case isTrue =>
      cases h
      exact inv
    case isFalse =>
      simp only [ok_iff] at h
      obtain ⟨bank, hsent, _, -, rfl⟩ := h
      have hmoved := sendCoinsFromModuleToModule_ok (by decide) hsent
      exact inv.of_bank
        (fun denom => ((hmoved denom).2.2 .incentive (by decide) (by decide)).ge)
        (fun denom => ((hmoved denom).2.2 .costaking (by decide) (by decide)).ge)

theorem solvent_accumulateCostakingRewards (inv : Solvent s) {rwds : Coins}
    (h : s.accumulateCostakingRewards rwds = .ok t) : Solvent t := by
  unfold accumulateCostakingRewards at h
  split at h
  case isTrue =>
    cases h
    exact inv
  case isFalse =>
    simp only [ok_iff] at h
    obtain ⟨bank, hsent, rfl⟩ := h
    have hmoved := sendCoinsFromModuleToModule_ok (by decide) hsent
    obtain ⟨hsound, hpool⟩ := Costaking.State.sound_addRewards inv.sound rwds
    refine ⟨⟨inv.tracked, fun denom => ?_⟩, hsound, fun denom => ?_⟩
    · have ho := (hmoved denom).2.2 .incentive (by decide) (by decide)
      rw [ho]
      exact inv.covered denom
    · have hfund := inv.funded denom
      obtain ⟨-, hreceived, -⟩ := hmoved denom
      rw [hpool, Pool.value_add, hreceived, Nat.add_mul]
      omega

theorem solvent_handleCoinsForCostakers (inv : Solvent s)
    (h : s.handleCoinsForCostakers totalPwr allocated = .ok t) : Solvent t := by
  unfold handleCoinsForCostakers at h
  dsimp only at h
  split at h
  case isTrue =>
    cases h
    exact inv
  case isFalse =>
    simp only [bind_ok_iff] at h
    obtain ⟨allocatedStores, hallocated, haccumulated⟩ := h
    exact solvent_accumulateCostakingRewards (solvent_allocateValidatorsRewards inv hallocated)
      haccumulated

/-- The fee collector pays two modules, and nothing else moves. -/
structure FeesTaken (validators costakers : Denom → Nat) (s t : RewardStores) : Prop where
  feeCollector : ∀ denom, (t.bank.modules .feeCollector).amountOf denom
    + (validators denom + costakers denom) = (s.bank.modules .feeCollector).amountOf denom
  distribution : ∀ denom, (t.bank.modules .distribution).amountOf denom
    = (s.bank.modules .distribution).amountOf denom + validators denom
  costaking : ∀ denom, (t.bank.modules .costaking).amountOf denom
    = (s.bank.modules .costaking).amountOf denom + costakers denom

theorem FeesTaken.nothing (s : RewardStores) : FeesTaken (fun _ => 0) (fun _ => 0) s s :=
  ⟨fun _ => rfl, fun _ => rfl, fun _ => rfl⟩

theorem FeesTaken.trans {u : RewardStores} {validators costakers : Denom → Nat}
    (h : FeesTaken validators (fun _ => 0) s t) (h' : FeesTaken (fun _ => 0) costakers t u) :
    FeesTaken validators costakers s u := by
  constructor <;> intro denom
  · have := h.feeCollector denom
    have := h'.feeCollector denom
    omega
  · rw [h'.distribution, h.distribution, Nat.add_zero]
  · rw [h'.costaking, h.costaking, Nat.add_zero]

/-- Coins without a positive amount. -/
theorem amountOf_portion_eq_zero {part : Dec} (h : ¬ (coins.portion part).isAllPositive = true) :
    (coins.portion part).amountOf = fun _ => 0 := by
  funext denom
  by_contra hne
  exact h (isAllPositive_of_isValid (isValid_collect _ _)
    fun hzero => hne (amountOf_eq_zero_of_isZero hzero denom))

theorem allocateValidatorsRewards_taken {part : Dec}
    (h : s.allocateValidatorsRewards totalPwr allocated (coins.portion part) = .ok t) :
    FeesTaken (if totalPwr = 0 then fun _ => 0 else (coins.portion part).amountOf) (fun _ => 0)
      s t := by
  unfold allocateValidatorsRewards at h
  split at h
  case isTrue hnone =>
    cases h
    rw [amountOf_portion_eq_zero (by simpa using hnone), ite_self]
    exact .nothing s
  case isFalse =>
    split at h
    case isTrue hpwr =>
      cases h
      rw [if_pos hpwr]
      exact .nothing s
    case isFalse hpwr =>
      simp only [ok_iff] at h
      obtain ⟨bank, hsent, _, -, rfl⟩ := h
      have hmoved := sendCoinsFromModuleToModule_ok (by decide) hsent
      rw [if_neg hpwr]
      exact ⟨fun denom => (hmoved denom).1, fun denom => (hmoved denom).2.1,
        fun denom => (hmoved denom).2.2 .costaking (by decide) (by decide)⟩

theorem accumulateCostakingRewards_taken {part : Dec}
    (h : s.accumulateCostakingRewards (coins.portion part) = .ok t) :
    FeesTaken (fun _ => 0) (coins.portion part).amountOf s t := by
  unfold accumulateCostakingRewards at h
  split at h
  case isTrue hnone =>
    cases h
    rw [amountOf_portion_eq_zero (by simpa using hnone)]
    exact .nothing s
  case isFalse =>
    simp only [ok_iff] at h
    obtain ⟨bank, hsent, rfl⟩ := h
    have hmoved := sendCoinsFromModuleToModule_ok (by decide) hsent
    refine ⟨fun denom => ?_, fun denom => (hmoved denom).2.2 .distribution (by decide) (by decide),
      fun denom => (hmoved denom).2.1⟩
    rw [Nat.zero_add]
    exact (hmoved denom).1

/-! ## Withdrawals -/

/-- The coins of a gauge are in the account. -/
theorem Backed.holds_withdrawable (inv : Backed s) {rg : RewardGauge}
    (hget : (s.incentive.rewardGauges sType).get addr = some rg)
    (hcoins : ∀ denom, coins.amountOf denom = rg.outstanding denom) :
    s.bank.Holds .incentive coins := by
  refine holds_iff.mpr fun denom => ?_
  have hsplit := liabilities_withdraw hget denom
  have hcov := inv.covered denom
  rw [hcoins]
  refine Nat.le_of_mul_le_mul_right (c := decimalRewards) ?_ (by decide)
  omega

/-- The fault of a transfer that the account cannot pay. -/
def LacksFunds (fault : Fault) : Prop := ∃ text, fault = .wrapf errInsufficientFunds text

/-- A withdrawal from a backed account never fails for lack of funds. -/
theorem Backed.withdrawReward_failsOnly (inv : Backed s) (sType : StakeholderType)
    (addr : AccAddress) :
    FailsOnly (fun fault => ¬ LacksFunds fault) (s.withdrawReward sType addr) := by
  have ho : ∀ {err : RegisteredError} {text : String}, err.code ≠ errInsufficientFunds.code →
      ¬ LacksFunds (.error (some err) text) := by
    rintro err text hne ⟨text', heq⟩
    injection heq with herr
    exact hne (congrArg RegisteredError.code (Option.some.inj herr))
  refine bind (.orThrow fun _ => ho (by decide)) fun rg hrg => ?_
  obtain ⟨coins, hcoins, hval, hamounts⟩ := rg.exists_withdrawable
  rw [hcoins, ok_bind]
  refine bind (.ensure (ho (by decide))) fun _ _ => bind ?_ fun _ _ => .ok _
  refine bind (.ensure (ho (by decide))) fun _ _ => ?_
  have hholds := inv.holds_withdrawable (orThrow_ok_iff.mp hrg) hamounts
  obtain ⟨balance, -, hsent⟩ := exists_subUnlockedCoins hval hholds
  rw [hsent, ok_bind]
  exact .ok _

theorem solvent_withdrawReward (inv : Solvent s)
    (h : s.withdrawReward sType addr = .ok (coins, t)) : Solvent t := by
  simp only [withdrawReward, ok_iff] at h
  obtain ⟨rg, hget, withdrawable, hwithdrawable, _, -, bank, hsent, hres⟩ := h
  obtain ⟨-, rfl⟩ := Prod.mk.inj hres
  obtain ⟨coins', hcoins', -, hamounts⟩ := rg.exists_withdrawable
  rw [hwithdrawable] at hcoins'
  obtain rfl := Except.ok.inj hcoins'
  simp only [Bank.sendCoinsFromModuleToAccount, ok_iff] at hsent
  obtain ⟨_, -, _, hsub, rfl⟩ := hsent
  have hpaid := Bank.subUnlockedCoins_amounts hsub
  refine ⟨⟨inv.tracked, fun denom => ?_⟩, inv.sound, fun denom => ?_⟩
  · have hsplit := liabilities_withdraw hget denom
    have hcov := inv.covered denom
    obtain ⟨hbalance, -⟩ := hpaid denom
    rw [hamounts] at hbalance
    rw [← hbalance, Nat.add_mul] at hcov
    dsimp only
    omega
  · have ho := (hpaid denom).2 .costaking (by decide)
    rw [ho]
    exact inv.funded denom

theorem solvent_beforeRewardWithdraw (inv : Solvent s) (sType : StakeholderType)
    (addr : AccAddress) : Keeps Solvent Solvent (s.beforeRewardWithdraw sType addr) := by
  unfold beforeRewardWithdraw
  split
  case isTrue => exact solvent_costakerWithdrawRewards inv addr
  case isFalse => exact inv

/-- The stakeholder types and states for which `MsgWithdrawReward` calls `withdrawReward`. -/
def withdrawals (s : RewardStores) (sType : StakeholderType) (addr : AccAddress) :
    List (StakeholderType × RewardStores) :=
  match s.incentive.sendAllBtcDelegationTypeToRewardsGauge sType addr with
  | .error _ => []
  | .ok incentive =>
    match ({ s with incentive }.beforeRewardWithdraw sType addr).reverted with
    | .error _ => []
    | .ok s =>
      (sType, s) ::
        if sType = .btcStaker then
          let (_, s) := s.withdrawOrNothing sType addr
          [(.costaker, (s.beforeRewardWithdraw .costaker addr).logged)]
        else []

section

variable (inv : Solvent s)

include inv

theorem solvent_settled
    (hsend : s.incentive.sendAllBtcDelegationTypeToRewardsGauge sType addr = .ok incentive) :
    Solvent { s with incentive } := by
  have hgr := grows_sendAll inv.tracked hsend
  refine ⟨inv.toBacked.of_incentive hgr.tracked fun denom => ?_, inv.sound, inv.funded⟩
  have hle := hgr.liabilities denom
  rwa [Nat.zero_mul, Nat.add_zero] at hle

theorem solvent_withdrawOrNothing (sType : StakeholderType) (addr : AccAddress) :
    Solvent (s.withdrawOrNothing sType addr).2 := by
  unfold withdrawOrNothing
  split
  case h_1 hok => exact solvent_withdrawReward inv hok
  case h_2 => exact inv

theorem solvent_of_mem_withdrawals {sType' : StakeholderType}
    (h : (sType', t) ∈ s.withdrawals sType addr) : Solvent t := by
  unfold withdrawals at h
  split at h
  case h_1 => cases h
  case h_2 incentive hsend =>
    split at h
    case h_1 => cases h
    case h_2 settled hstl =>
      have hinv : Solvent settled :=
        (solvent_beforeRewardWithdraw (solvent_settled inv hsend) sType addr).of_ok
          (reverted_ok_iff.mp hstl)
      rcases List.mem_cons.mp h with heq | hmem
      · obtain ⟨-, rfl⟩ := Prod.mk.inj heq
        exact hinv
      · split at hmem
        case isFalse => cases hmem
        case isTrue =>
          obtain ⟨-, rfl⟩ := Prod.mk.inj (List.mem_singleton.mp hmem)
          exact (solvent_beforeRewardWithdraw (solvent_withdrawOrNothing hinv sType addr)
            .costaker addr).logged

theorem solvent_withdrawAsCostaker (addr : AccAddress) (withdrawn : Coins) :
    Solvent (s.withdrawAsCostaker addr withdrawn).2 := by
  have hstl := (solvent_beforeRewardWithdraw inv .costaker addr).logged
  unfold withdrawAsCostaker
  dsimp only
  split
  case h_1 hok => exact solvent_withdrawReward hstl hok
  case h_2 => exact hstl

theorem solvent_msgWithdrawReward
    (h : s.msgWithdrawReward sType addr = .ok (coins, t)) : Solvent t := by
  simp only [msgWithdrawReward, bind_ok_iff, reverted_ok_iff] at h
  obtain ⟨incentive, hsend, settled, hstl, h⟩ := h
  have hinv : Solvent settled :=
    (solvent_beforeRewardWithdraw (solvent_settled inv hsend) sType addr).of_ok hstl
  have hpaid := solvent_withdrawOrNothing hinv sType addr
  have hcostaker := solvent_withdrawAsCostaker hpaid addr (settled.withdrawOrNothing sType addr).1
  obtain ⟨_, -, hres⟩ := h
  obtain ⟨-, rfl⟩ := Prod.mk.inj (pure_ok_iff.mp hres)
  split
  case isTrue => exact hcostaker
  case isFalse => exact hpaid

/-! ## Messages without payments -/

theorem solvent_setWithdrawAddress {delegator withdraw : AccAddress}
    (h : s.setWithdrawAddress delegator withdraw = .ok t) : Solvent t := by
  simp only [setWithdrawAddress, ok_iff] at h
  obtain ⟨_, -, rfl⟩ := h
  exact ⟨⟨inv.tracked, inv.covered⟩, inv.sound, inv.funded⟩

theorem solvent_updateIncentiveParams {params : Incentive.Params}
    (h : s.updateIncentiveParams params = .ok t) : Solvent t := by
  simp only [updateIncentiveParams, ok_iff] at h
  obtain ⟨_, -, rfl⟩ := h
  exact ⟨⟨inv.tracked, inv.covered⟩, inv.sound, inv.funded⟩

theorem solvent_addRewardTrackerEvent (height : Nat) (ev : EventPowerUpdate) :
    Solvent { s with incentive := s.incentive.addRewardTrackerEvent height ev } :=
  ⟨⟨inv.tracked, inv.covered⟩, inv.sound, inv.funded⟩

end

end RewardStores

end Babylon
