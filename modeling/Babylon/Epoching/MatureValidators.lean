/-
  The lifecycles that `ApplyMatureUnbonding` records.

  The validators to record are read from the queue at the time of the current block,
  while the staking module completes those of the queue at the time of the last block of
  the epoch, moved by the unbonding time.  A validator between the two times is completed
  and not recorded, or recorded and not completed.
-/
import Babylon.Epoching.Unbonding

set_option autoImplicit false

namespace Babylon.Epoching

open Lib Stores List

variable {S : Type} {stk : StakingKeeper S}

/-- The number of times that a validator was recorded to be unbonded. -/
def timesUnbonded (s : State) (valAddr : ValAddress) : Nat :=
  ((s.validatorLifecycle.get valAddr).getD []).countP (·.state = .unbonded)

/-- The staking module completed the unbonding of a validator: an entry left the queue. -/
def Completed (stk : StakingKeeper S) (s s' : S) (valAddr : ValAddress) : Prop :=
  ∃ entry ∈ stk.unbondings s, entry.kind = .validator valAddr ∧ entry ∉ stk.unbondings s'

instance (s s' : S) (valAddr : ValAddress) : Decidable (Completed stk s s' valAddr) :=
  inferInstanceAs (Decidable (∃ entry ∈ stk.unbondings s, _))

variable {header : HeaderInfo} {valAddr : ValAddress}

theorem timesUnbonded_foldl (addrs : List ValAddress) (s : State) :
    timesUnbonded (addrs.foldl (fun s addr => s.recordNewValState header .unbonded addr) s) valAddr
      = timesUnbonded s valAddr + addrs.count valAddr := by
  induction addrs generalizing s with
  | nil => rfl
  | cons addr rest ih =>
    rw [foldl_cons, ih, count_cons, timesUnbonded, State.recordNewValState, KVStore.get_set]
    by_cases heq : valAddr = addr
    · simp [heq, timesUnbonded]
      omega
    · simp [heq, Ne.symm heq, timesUnbonded]

/-- Some unbonding of the validator is over at a time. -/
def OverBy (stk : StakingKeeper S) (s : S) (time : Time) (valAddr : ValAddress) : Prop :=
  ∃ entry ∈ stk.unbondings s, entry.kind = .validator valAddr ∧ entry.completionTime ≤ time

instance (s : S) (time : Time) (valAddr : ValAddress) : Decidable (OverBy stk s time valAddr) :=
  inferInstanceAs (Decidable (∃ entry ∈ stk.unbondings s, _))

theorem OverBy.mono {s : S} {time later : Time} (h : OverBy stk s time valAddr)
    (hle : time ≤ later) : OverBy stk s later valAddr := by
  obtain ⟨entry, hmem, hkind, hover⟩ := h
  exact ⟨entry, hmem, hkind, hover.trans hle⟩

/-- Lifecycles of delegations do not matter. -/
theorem timesUnbonded_delegations (dvPairs : List (AccAddress × ValAddress)) (s : State) :
    timesUnbonded (dvPairs.foldl (fun s dvPair =>
      s.recordNewDelegationState header dvPair.1 dvPair.2 none .unbonded) s) valAddr
      = timesUnbonded s valAddr :=
  foldlRecOn (motive := (timesUnbonded · valAddr = timesUnbonded s valAddr)) dvPairs _ rfl
    fun _ h _ _ => h

theorem mem_filterMap_matureValidator? {s : S}
    (hheights : ∀ entry ∈ stk.unbondings s, entry.creationHeight ≤ header.height) :
    valAddr ∈ (stk.unbondings s).filterMap (matureValidator? header) ↔
      OverBy stk s header.time valAddr := by
  rw [mem_filterMap]
  refine exists_congr fun entry => and_congr_right fun hmem => ?_
  have hle := hheights entry hmem
  cases hkind : entry.kind <;> simp [matureValidator?, hkind, hle, and_comm]

/-- The recorded validators are those that are completed, unless the unbonding of one is over at
the later of the two times and not at the earlier one. -/
theorem recorded_iff_completed (htm : stk.Timely) {w left : Stores S}
    {number last : Nat} {time : Time} (hend : w.epoching.endOf number = some (last, time))
    (hheights : ∀ entry ∈ stk.unbondings w.staking, entry.creationHeight ≤ header.height)
    (h : w.applyMatureUnbonding stk header number = .ok left) :
    (∀ valAddr, timesUnbonded w.epoching valAddr < timesUnbonded left.epoching valAddr ↔
        Completed stk w.staking left.staking valAddr) ↔
      ∀ valAddr,
        OverBy stk w.staking (max header.time (time + (stk.params w.staking).unbondingTime))
          valAddr →
        OverBy stk w.staking (min header.time (time + (stk.params w.staking).unbondingTime))
          valAddr := by
  obtain ⟨epoch, hepoch, htime, -⟩ := State.endOf_eq_some.mp hend
  simp only [applyMatureUnbonding, getAllMatureValidators, State.getHistoricalEpoch, ok_iff,
    Outcome.orPanic_ok_iff] at h
  obtain ⟨_, hget, _, htime', _, ⟨_, -, _, -, rfl⟩, rfl⟩ := h
  cases hepoch.symm.trans hget
  cases htime.symm.trans htime'
  generalize time + (stk.params w.staking).unbondingTime = fin
  have hleft : ∀ valAddr,
      Completed stk w.staking (stk.completeMature fin w.staking w.bank).1 valAddr ↔
        OverBy stk w.staking fin valAddr := by
    intro valAddr
    refine exists_congr fun entry => and_congr_right fun hmem => and_congr_right fun _ => ?_
    simp [(htm.completeMature fin w.staking w.bank).2, hmem]
  simp only [hleft, timesUnbonded_delegations, timesUnbonded_foldl, Nat.lt_add_right_iff_pos,
    count_pos_iff, mem_filterMap_matureValidator? hheights]
  constructor
  · intro hall valAddr
    rcases le_total header.time fin with hle | hle
    · rw [max_eq_right hle, min_eq_left hle]
      exact (hall valAddr).mpr
    · rw [max_eq_left hle, min_eq_right hle]
      exact (hall valAddr).mp
  · intro hall valAddr
    exact ⟨fun hover => (hall valAddr (hover.mono (le_max_left _ _))).mono (min_le_right _ _),
      fun hover => (hall valAddr (hover.mono (le_max_right _ _))).mono (min_le_left _ _)⟩

/-- The stores after the last block of epoch 1, in which a validator began to unbond. -/
def unbondingStores : Stores LocalStaking :=
  { (localChain KVStore.empty).toStores with
    epoching := (localChain KVStore.empty).epoching.setEpochInfo ⟨1, 10, 1, some 100⟩
    staking := ⟨⟨1000, 0, 0, []⟩, [1], [⟨.validator 1, 10, 1100⟩]⟩ }

/-- The checkpoint of the epoch is finalized at time 120: the validator is completed, and its
lifecycle says nothing. -/
theorem completed_unrecorded :
    ∃ left, unbondingStores.applyMatureUnbonding localStaking ⟨20, 120, []⟩ 1 = .ok left ∧
      Completed localStaking unbondingStores.staking left.staking 1 ∧
      timesUnbonded left.epoching 1 = 0 := by
  decide +kernel

theorem recorded_iff_completed_local :
    ∃ left, unbondingStores.applyMatureUnbonding localStaking ⟨20, 120, []⟩ 1 = .ok left ∧
      ¬ ∀ valAddr, timesUnbonded unbondingStores.epoching valAddr <
          timesUnbonded left.epoching valAddr ↔
        Completed localStaking unbondingStores.staking left.staking valAddr := by
  obtain ⟨left, hcall⟩ : ∃ left,
      unbondingStores.applyMatureUnbonding localStaking ⟨20, 120, []⟩ 1 = .ok left := by
    decide +kernel
  refine ⟨left, hcall, fun hall => ?_⟩
  have hover := (recorded_iff_completed localStaking_timely (by rfl) (by decide) hcall).mp hall 1
  exact absurd (hover (by decide)) (by decide)

end Babylon.Epoching
