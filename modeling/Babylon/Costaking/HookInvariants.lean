/-
  What the hooks of `staking` and `epoching` keep.

  All of them change the reward stores in two ways only: they add to the active BABY of
  a costaker, and they store a validator set.  A property that survives both survives
  every message of `staking` and every end of an epoch, whether or not the hooks
  succeed.
-/
import Babylon.Costaking.Hooks

set_option autoImplicit false

namespace Babylon

open Lib Costaking Attempt.Keeps

/-- A property that survives what the hooks do to the reward stores. -/
structure StakingInvariant (R : RewardStores → Prop) : Prop where
  addBaby : ∀ (s : RewardStores) (costaker : AccAddress) (amount : Int), R s →
    Attempt.Keeps R R (s.costakerModified costaker fun rwdTracker =>
      { rwdTracker with activeBaby := rwdTracker.activeBaby + amount })
  validatorSet : ∀ (s : RewardStores) (valSet : List ValAddress), R s →
    R { s with costaking := { s.costaking with validatorSet := some valSet } }

namespace StakingStores

variable {c c' : StakingStores} {R : RewardStores → Prop}

/-- Calls that leave the property behind, whether or not they succeed. -/
abbrev KeepsRewards (R : RewardStores → Prop) (call : Attempt StakingStores StakingStores) : Prop :=
  Attempt.Keeps (fun c : StakingStores => R c.rewards) (fun c : StakingStores => R c.rewards) call

/-- Reading the validator set only fills the cache. -/
theorem getActiveValidatorSet_ok {valSet : List ValAddress}
    (h : c.getActiveValidatorSet = .ok (valSet, c')) : c'.rewards = c.rewards := by
  unfold getActiveValidatorSet at h
  split at h
  case h_1 =>
    cases h
    rfl
  case h_2 =>
    simp only [ok_iff] at h
    obtain ⟨_, -, hres⟩ := h
    obtain ⟨-, rfl⟩ := Prod.mk.inj hres
    rfl

/-- Every hook starts by reading the validator set. -/
theorem keeps_withValidatorSet (hR : R c.rewards)
    {next : List ValAddress × StakingStores → Attempt StakingStores StakingStores}
    (hnext : ∀ valSet c', R c'.rewards → KeepsRewards R (next (valSet, c'))) :
    KeepsRewards R (c.getActiveValidatorSet.leaving c >>= next) := by
  refine bind (leaving hR fun result hres => ?_) fun result hres => hnext result.1 result.2 hres
  obtain ⟨valSet, c'⟩ := result
  rw [getActiveValidatorSet_ok hres]
  exact hR

theorem keeps_deferDelete {call : Attempt StakingStores StakingStores} (h : KeepsRewards R call)
    (delAddr : AccAddress) (valAddr : ValAddress) :
    KeepsRewards R (deferDelete delAddr valAddr call) := by
  unfold deferDelete
  split
  case h_1 => exact h
  case h_2 => exact h

section Hooks

variable (inv : StakingInvariant R) (hR : R c.rewards)

include inv hR

theorem keeps_addActiveBaby (delAddr : AccAddress) (amount : Int) :
    KeepsRewards R (c.addActiveBaby delAddr amount) :=
  bind
    (within (inv.addBaby c.rewards delAddr amount hR) fun _ hrwds => hrwds)
    fun _ hrwds => hrwds

omit inv in
theorem keeps_beforeDelegationSharesModified (delAddr : AccAddress)
    (valAddr : ValAddress) : KeepsRewards R (c.beforeDelegationSharesModified delAddr valAddr) := by
  refine keeps_withValidatorSet hR fun valSet c' hR' => ?_
  dsimp only
  split
  case isTrue => exact hR'
  case isFalse =>
    split
    case h_1 => exact hR'
    case h_2 =>
      exact reading hR' fun _ => hR'

theorem keeps_afterDelegationModified (delAddr : AccAddress)
    (valAddr : ValAddress) : KeepsRewards R (c.afterDelegationModified delAddr valAddr) := by
  refine keeps_deferDelete (keeps_withValidatorSet hR fun valSet c' hR' => ?_) delAddr valAddr
  dsimp only
  split
  case isTrue => exact hR'
  case isFalse =>
    refine reading hR' fun _ => ?_
    refine reading hR' fun _ => ?_
    exact keeps_addActiveBaby inv hR' _ _

theorem keeps_beforeDelegationRemoved (delAddr : AccAddress)
    (valAddr : ValAddress) : KeepsRewards R (c.beforeDelegationRemoved delAddr valAddr) := by
  refine keeps_deferDelete (keeps_withValidatorSet hR fun valSet c' hR' => ?_) delAddr valAddr
  dsimp only
  split
  case isTrue => exact hR'
  case isFalse =>
    refine reading hR' fun _ => ?_
    refine reading hR' fun _ => ?_
    split
    case isTrue => exact hR'
    case isFalse => exact keeps_addActiveBaby inv hR' _ _

theorem keeps_beforeValidatorSlashed (valAddr : ValAddress) (fraction : Dec) :
    KeepsRewards R (c.beforeValidatorSlashed valAddr fraction) := by
  refine keeps_withValidatorSet hR fun valSet c' hR' => ?_
  dsimp only
  split
  case isTrue => exact hR'
  case isFalse =>
    refine reading hR' fun _ => ?_
    refine reading hR' fun _ => ?_
    exact foldOutcome (fun _ _ _ hR'' => keeps_addActiveBaby inv hR'' _ _) hR'

theorem keeps_updateValidatorSet (newValAddrs : List ValAddress) :
    KeepsRewards R ((c.updateValidatorSet newValAddrs).leaving c) := by
  refine leaving hR fun c' hc' => ?_
  simp only [updateValidatorSet, ok_iff] at hc'
  obtain ⟨_, -, rfl⟩ := hc'
  exact inv.validatorSet c.rewards newValAddrs hR

theorem keeps_afterEpochBegins : R c.afterEpochBegins.rewards := by
  unfold afterEpochBegins
  split
  case h_1 => exact hR
  case h_2 => exact (keeps_updateValidatorSet inv hR _).logged

omit inv in
theorem keeps_beforeEpochEnds : R c.beforeEpochEnds.rewards := by
  unfold beforeEpochEnds
  split
  case h_1 hset =>
    rw [getActiveValidatorSet_ok hset]
    exact hR
  case h_2 => exact hR

theorem keeps_updateCoStkTrackerForDelegators (valAddr : ValAddress) (update : Int → Int) :
    KeepsRewards R (c.updateCoStkTrackerForDelegators valAddr update) := by
  refine reading hR fun _ => ?_
  refine reading hR fun _ => ?_
  exact foldOutcome (fun _ _ _ hR' => keeps_addActiveBaby inv hR' _ _) hR

theorem keeps_removeInactive (prevValAddrs newValAddrs : List ValAddress) :
    R (c.removeInactive prevValAddrs newValAddrs).rewards := by
  unfold removeInactive
  generalize prevValAddrs.filter (· ∉ newValAddrs) = removed
  induction removed generalizing c with
  | nil => exact hR
  | cons valAddr rest ih =>
    exact ih (keeps_updateCoStkTrackerForDelegators inv hR valAddr _).logged

theorem keeps_afterEpochEnds : R c.afterEpochEnds.rewards := by
  unfold afterEpochEnds
  split
  case h_1 => exact hR
  case h_2 prevValAddrs read hread =>
    have hR' : R read.rewards := by
      rw [getActiveValidatorSet_ok hread]
      exact hR
    have hadd : KeepsRewards R (foldOutcome addBabyForDelegators read
        (read.staking.lastValidatorPowers.filter (· ∉ prevValAddrs))) :=
      foldOutcome (fun c valAddr _ hc => keeps_updateCoStkTrackerForDelegators inv hc valAddr _) hR'
    dsimp only
    split
    case h_1 herror =>
      rw [herror] at hadd
      exact hadd
    case h_2 added hok =>
      exact (keeps_updateValidatorSet inv (keeps_removeInactive inv (hadd.of_ok hok) _ _) _).logged

/-! ## Calls of `staking` -/

theorem keeps_call (call : StakingCall) : KeepsRewards R (c.call call) := by
  induction call with
  | update | fail => exact hR
  | beforeDelegationSharesModified => exact keeps_beforeDelegationSharesModified hR _ _
  | afterDelegationModified => exact keeps_afterDelegationModified inv hR _ _
  | beforeDelegationRemoved => exact keeps_beforeDelegationRemoved inv hR _ _
  | beforeValidatorSlashed => exact keeps_beforeValidatorSlashed inv hR _ _
  | logged _ ih => exact ih.logged

omit inv in
theorem keeps_deliver {message : Attempt StakingStores StakingStores}
    (h : KeepsRewards R message) : R (c.deliver message).rewards := by
  unfold deliver
  split
  case h_1 => exact h
  case h_2 => exact hR

end Hooks

end StakingStores

end Babylon
