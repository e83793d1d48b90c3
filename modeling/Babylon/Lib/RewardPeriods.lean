/-
  Reward pools as they are stored: numbered periods.

  A store keeps the rewards of the open period, the cumulative reward per unit of
  stake at the end of every closed period, and for every participant its stake and
  the closed period after which it has not been paid.  The participants of such a
  store, with the cumulative reward of their period as mark, are a reward pool.
-/
import Babylon.Lib.RewardPool

set_option autoImplicit false

namespace Babylon.Lib

/-- The open period. -/
structure OpenPeriod where
  rewards : Nat
  number : Nat
  total : Nat

/-- A participant: the period after which it has not been paid, and its stake. -/
structure Participant where
  start : Nat
  stake : Nat

/-- The stored form of a reward pool. -/
@[ext]
structure Periods (K : Type) [LinearOrder K] where
  openPeriod : Option OpenPeriod
  history : KVStore Nat Nat
  participants : KVStore K Participant

namespace Periods

variable {K : Type} [LinearOrder K] {periods : Periods K} {key : K}

/-- The cumulative reward at the end of a period. -/
def cumulativeAt (periods : Periods K) (period : Nat) : Nat := (periods.history.get period).getD 0

/-- The pool that is stored. -/
def pool (periods : Periods K) : Pool K where
  current := periods.openPeriod.elim 0 OpenPeriod.rewards
  cumulative := periods.openPeriod.elim 0 fun current => periods.cumulativeAt (current.number - 1)
  shares := periods.participants.map fun participant =>
    .of participant.stake (periods.cumulativeAt participant.start)

/-- The periods are in order: the closed ones are those below the open one, the cumulative
reward does not fall, and participants start at closed periods. -/
structure Ordered (periods : Periods K) : Prop where
  number_pos : ∀ current, periods.openPeriod = some current → 1 ≤ current.number
  history : ∀ current, periods.openPeriod = some current → ∀ period < current.number,
    ∃ amount, periods.history.get period = some amount
  rising : ∀ current, periods.openPeriod = some current → ∀ first last, first ≤ last →
    last < current.number → periods.cumulativeAt first ≤ periods.cumulativeAt last
  started : ∀ key participant, periods.participants.get key = some participant →
    participant.stake ≠ 0 →
      ∃ current, periods.openPeriod = some current ∧ participant.start < current.number

/-- The parts of the store fit together: the periods are in order, and the total is the sum of
the stakes. -/
structure Consistent (periods : Periods K) : Prop extends Ordered periods where
  total : ∀ current, periods.openPeriod = some current →
    current.total = periods.participants.sumBy fun _ participant => participant.stake

section

variable (inv : periods.Ordered) {current : OpenPeriod} (h : periods.openPeriod = some current)

include inv h

theorem Ordered.start_lt {participant : Participant}
    (hget : periods.participants.get key = some participant) (hstake : participant.stake ≠ 0) :
    participant.start < current.number := by
  obtain ⟨current', hcur', hlt⟩ := inv.started key participant hget hstake
  rw [h] at hcur'
  cases hcur'
  exact hlt

/-- Periods in order are consistent once the total is the sum of the stakes. -/
theorem Ordered.consistent {rewards total : Nat}
    (htot : total = periods.participants.sumBy fun _ participant => participant.stake) :
    Consistent { periods with openPeriod := some ⟨rewards, current.number, total⟩ } := by
  refine ⟨⟨?_, ?_, ?_, fun _ _ hget hstake => ⟨_, rfl, inv.start_lt h hget hstake⟩⟩, ?_⟩
  · rintro _ ⟨⟩
    exact inv.number_pos current h
  · rintro _ ⟨⟩
    exact inv.history current h
  · rintro _ ⟨⟩
    exact inv.rising current h
  · rintro _ ⟨⟩
    exact htot

end

/-! ## Reading the pool -/

section Reading

variable {current : OpenPeriod}

theorem pool_current (h : periods.openPeriod = some current) :
    periods.pool.current = current.rewards := by
  unfold pool
  rw [h, Option.elim_some]

theorem pool_cumulative (h : periods.openPeriod = some current) :
    periods.pool.cumulative = periods.cumulativeAt (current.number - 1) := by
  unfold pool
  dsimp only
  rw [h, Option.elim_some]

theorem pool_stake (periods : Periods K) (key : K) :
    periods.pool.stake key = (periods.participants.get key).elim 0 Participant.stake := by
  unfold pool Pool.stake
  rw [KVStore.get_map]
  cases periods.participants.get key <;> rfl

theorem pool_total (inv : periods.Consistent) (h : periods.openPeriod = some current) :
    periods.pool.total = current.total := by
  unfold pool Pool.total
  rw [KVStore.sumBy_map, inv.total current h]
  rfl

theorem pool_claim (periods : Periods K) (key : K) :
    periods.pool.claim key = (periods.participants.get key).elim 0 fun participant =>
      participant.stake * (periods.pool.cumulative - periods.cumulativeAt participant.start) := by
  have hshare : periods.pool.shares.get key = (periods.participants.get key).map fun participant =>
      .of participant.stake (periods.cumulativeAt participant.start) := KVStore.get_map _ _ _
  unfold Pool.claim
  rw [hshare]
  cases periods.participants.get key with
  | none => rfl
  | some participant =>
    rw [Option.map_some, Option.elim_some, Option.elim_some]
    unfold Share.of
    split
    case isTrue hzero => rw [hzero, Nat.zero_mul, Nat.zero_mul]
    case isFalse => rfl

/-- Before the first period is opened, nobody has a stake. -/
theorem stake_eq_zero (inv : periods.Consistent) (h : periods.openPeriod = none)
    {participant : Participant} (hget : periods.participants.get key = some participant) :
    participant.stake = 0 := by
  by_contra hstake
  obtain ⟨current, hcur, -⟩ := inv.started key participant hget hstake
  rw [h] at hcur
  cases hcur

end Reading

/-! ## Opening the first period -/

/-- Period 1 is open, and period 0 gave nothing. -/
def initialized (periods : Periods K) : Periods K :=
  { periods with openPeriod := some ⟨0, 1, 0⟩, history := periods.history.set 0 0 }

theorem cumulativeAt_set (periods : Periods K) (openPeriod : Option OpenPeriod)
    (participants : KVStore K Participant) (period amount other : Nat) :
    (Periods.mk openPeriod (periods.history.set period amount) participants).cumulativeAt other
      = if other = period then amount else periods.cumulativeAt other := by
  unfold cumulativeAt
  rw [KVStore.get_set]
  split <;> rfl

theorem pool_initialized (inv : periods.Consistent) (h : periods.openPeriod = none) :
    periods.initialized.pool = periods.pool ∧ periods.pool.close = periods.pool := by
  have hcur : periods.pool.current = 0 := by
    unfold pool
    rw [h, Option.elim_none]
  have hcum : periods.pool.cumulative = 0 := by
    unfold pool
    dsimp only
    rw [h, Option.elim_none]
  refine ⟨Pool.ext hcur.symm ?_ ?_, Pool.ext hcur.symm ?_ rfl⟩
  · rw [hcum, pool_cumulative rfl]
    exact (cumulativeAt_set _ _ _ 0 0 0).trans (if_pos rfl)
  · unfold pool initialized
    dsimp only
    refine KVStore.map_congr fun key participant hget => ?_
    rw [stake_eq_zero inv h hget]
    rfl
  · unfold Pool.close
    rw [hcur, Nat.zero_div, Nat.add_zero]

theorem Consistent.initialized (inv : periods.Consistent) (h : periods.openPeriod = none) :
    periods.initialized.Consistent := by
  refine ⟨⟨?_, ?_, ?_, ?_⟩, ?_⟩
  · rintro _ ⟨⟩
    exact le_refl 1
  · rintro _ ⟨⟩ period hlt
    obtain rfl : period = 0 := Nat.lt_one_iff.mp hlt
    exact ⟨0, KVStore.get_set_self _ _ _⟩
  · rintro _ ⟨⟩ first last hle hlt
    obtain rfl : last = 0 := Nat.lt_one_iff.mp hlt
    obtain rfl : first = 0 := Nat.le_zero.mp hle
    exact le_refl _
  · intro key participant hget hstake
    exact absurd (stake_eq_zero inv h hget) hstake
  · rintro _ ⟨⟩
    exact (KVStore.sumBy_eq_zero fun key participant hget => stake_eq_zero inv h hget).symm

/-! ## Closing a period -/

/-- The next period is open, with the same stakes and without rewards. -/
def closed (periods : Periods K) (current : OpenPeriod) : Periods K where
  openPeriod := some ⟨0, current.number + 1, current.total⟩
  history := periods.history.set current.number
    (periods.cumulativeAt (current.number - 1) + current.rewards / current.total)
  participants := periods.participants

section Closing

variable {current : OpenPeriod}

theorem cumulativeAt_closed (periods : Periods K) (current : OpenPeriod) (period : Nat) :
    (periods.closed current).cumulativeAt period
      = if period = current.number then
          periods.cumulativeAt (current.number - 1) + current.rewards / current.total
        else periods.cumulativeAt period :=
  cumulativeAt_set _ _ _ _ _ _

theorem pool_closed (inv : periods.Consistent) (h : periods.openPeriod = some current) :
    (periods.closed current).pool = periods.pool.close := by
  refine Pool.ext rfl ?_ ?_
  · unfold Pool.close
    rw [pool_cumulative rfl, pool_total inv h, pool_current h, pool_cumulative h]
    exact (cumulativeAt_closed periods current _).trans (if_pos (Nat.add_sub_cancel _ _))
  · unfold Pool.close pool
    dsimp only
    refine KVStore.map_congr fun key participant hget => ?_
    unfold Share.of
    congr 1
    split
    case isTrue => rfl
    case isFalse hstake => rw [cumulativeAt_closed, if_neg (inv.start_lt h hget hstake).ne]

theorem Ordered.closed (inv : periods.Ordered) (h : periods.openPeriod = some current) :
    (periods.closed current).Ordered := by
  have hpos := inv.number_pos current h
  refine ⟨?_, ?_, ?_, ?_⟩
  · rintro _ ⟨⟩
    exact Nat.le_add_left 1 _
  · rintro _ ⟨⟩ period hlt
    dsimp only at hlt
    unfold Periods.closed
    rw [KVStore.get_set]
    split
    case isTrue => exact ⟨_, rfl⟩
    case isFalse hne => exact inv.history current h period (by omega)
  · rintro _ ⟨⟩ first last hle hlt
    dsimp only at hlt
    rw [cumulativeAt_closed, cumulativeAt_closed]
    by_cases hlast : last = current.number
    · rw [if_pos hlast]
      split
      case isTrue => exact le_refl _
      case isFalse hfirst =>
        exact (inv.rising current h first (current.number - 1) (by omega) (by omega)).trans
          (Nat.le_add_right _ _)
    · rw [if_neg hlast, if_neg (by omega)]
      exact inv.rising current h first last hle (by omega)
  · intro key participant hget hstake
    exact ⟨_, rfl, Nat.lt_succ_of_lt (inv.start_lt h hget hstake)⟩

theorem Consistent.closed (inv : periods.Consistent) (h : periods.openPeriod = some current) :
    (periods.closed current).Consistent := by
  refine ⟨inv.toOrdered.closed h, ?_⟩
  rintro _ ⟨⟩
  exact inv.total current h

end Closing

/-! ## Rewards arrive -/

/-- The open period has more rewards. -/
def earned (periods : Periods K) (current : OpenPeriod) (amount : Nat) : Periods K :=
  { periods with openPeriod := some { current with rewards := current.rewards + amount } }

section Earning

variable {current : OpenPeriod}

theorem pool_earned (h : periods.openPeriod = some current) (amount : Nat) :
    (periods.earned current amount).pool = periods.pool.add amount := by
  refine Pool.ext ?_ (pool_cumulative h).symm rfl
  unfold Pool.add
  rw [pool_current h]
  rfl

theorem Consistent.earned (inv : periods.Consistent) (h : periods.openPeriod = some current)
    (amount : Nat) : (periods.earned current amount).Consistent :=
  inv.consistent h (inv.total current h)

end Earning

/-! ## Changing a stake -/

/-- A participant that was paid up to the last closed period has a new stake. -/
def restaked (periods : Periods K) (current : OpenPeriod) (key : K) (stake total : Nat) :
    Periods K where
  openPeriod := some { current with total }
  history := periods.history
  participants := periods.participants.set key ⟨current.number - 1, stake⟩

section Restaking

variable {current : OpenPeriod} {stake total : Nat}

theorem pool_restaked (h : periods.openPeriod = some current) :
    (periods.restaked current key stake total).pool = periods.pool.restake key stake := by
  have hshares : (periods.participants.set key ⟨current.number - 1, stake⟩).map
        (fun participant => Share.of participant.stake (periods.cumulativeAt participant.start))
      = (periods.participants.map fun participant =>
          Share.of participant.stake (periods.cumulativeAt participant.start)).set key
            (.of stake (periods.cumulativeAt (current.number - 1))) := KVStore.map_set _ _ _ _
  refine Pool.ext (pool_current h).symm (pool_cumulative h).symm ?_
  unfold Pool.restake
  rw [pool_cumulative h]
  exact hshares

theorem Ordered.restaked (inv : periods.Ordered) (h : periods.openPeriod = some current) :
    (periods.restaked current key stake total).Ordered := by
  have hpos := inv.number_pos current h
  refine ⟨?_, ?_, ?_, ?_⟩
  · rintro _ ⟨⟩
    exact hpos
  · rintro _ ⟨⟩
    exact inv.history current h
  · rintro _ ⟨⟩
    exact inv.rising current h
  · intro other participant hget hstake
    refine ⟨_, rfl, ?_⟩
    obtain ⟨-, rfl⟩ | ⟨-, hold⟩ := KVStore.of_get_set hget
    · dsimp only
      omega
    · exact inv.start_lt h hold hstake

theorem Consistent.restaked (inv : periods.Consistent) (h : periods.openPeriod = some current)
    (htot : total + periods.pool.stake key = current.total + stake) :
    (periods.restaked current key stake total).Consistent := by
  refine ⟨inv.toOrdered.restaked h, ?_⟩
  rintro _ ⟨⟩
  have hpool : (periods.restaked current key stake total).pool = periods.pool.restake key stake :=
    pool_restaked h
  have hrestake := periods.pool.total_restake key stake
  rw [pool_total inv h, ← hpool] at hrestake
  have hsum : (periods.restaked current key stake total).pool.total
      = (periods.restaked current key stake total).participants.sumBy
          fun _ participant => participant.stake := by
    unfold pool Pool.total
    rw [KVStore.sumBy_map]
    rfl
  dsimp only
  omega

/-- A participant joins without a stake. -/
def joined (periods : Periods K) (key : K) (start : Nat) : Periods K :=
  { periods with participants := periods.participants.set key ⟨start, 0⟩ }

theorem pool_joined (periods : Periods K) (key : K) (start : Nat) :
    (periods.joined key start).pool = periods.pool.restake key 0 := by
  refine Pool.ext rfl rfl ?_
  unfold pool joined Pool.restake
  rw [KVStore.map_set]
  rfl

theorem Consistent.joined (inv : periods.Consistent) {start : Nat}
    (hnone : periods.participants.get key = none) : (periods.joined key start).Consistent := by
  refine ⟨⟨inv.number_pos, inv.history, inv.rising, ?_⟩, ?_⟩
  · exact KVStore.forall_set inv.started fun hstake => absurd rfl hstake
  · intro current hcur
    unfold Periods.joined
    rw [KVStore.sumBy_set_of_none _ hnone, Nat.zero_add]
    exact inv.total current hcur

end Restaking

end Periods

end Babylon.Lib
