/-
  Distributing rewards by stake, one period at a time.

  Rewards are collected in the open period.  When a period is closed they are divided
  by the total stake, rounded down, and added to a cumulative reward per unit of
  stake; each participant remembers the cumulative value at which it was last paid.
  What a participant can claim is its stake times the growth since then, so that a
  change of one stake needs no work for the others.

  Amounts are counted in a fraction of a coin that is fine enough for the division.
-/
import Babylon.Lib.KVStore
import Mathlib.Algebra.BigOperators.Ring.List

set_option autoImplicit false

namespace Babylon.Lib

/-- The stake of a participant, and the cumulative reward when it was last paid. -/
structure Share where
  stake : Nat
  mark : Nat

/-- A share; without a stake it does not matter when it was last paid. -/
def Share.of (stake mark : Nat) : Share := ⟨stake, if stake = 0 then 0 else mark⟩

/-- A pool of rewards. -/
@[ext]
structure Pool (K : Type) [LinearOrder K] where
  /-- rewards of the open period -/
  current : Nat
  /-- reward per unit of stake over all closed periods -/
  cumulative : Nat
  shares : KVStore K Share

/-- A share that was just paid has no claim. -/
theorem Share.claim_of (stake mark : Nat) :
    (Share.of stake mark).stake * (mark - (Share.of stake mark).mark) = 0 := by
  unfold Share.of
  split
  case isTrue hzero => rw [hzero, Nat.zero_mul]
  case isFalse => rw [Nat.sub_self, Nat.mul_zero]

namespace Pool

variable {K : Type} [LinearOrder K]

/-! ## Operations -/

variable (pool : Pool K)

/-- The total stake. -/
def total : Nat := pool.shares.sumBy fun _ share => share.stake

/-- The stake of one participant. -/
def stake (key : K) : Nat := (pool.shares.get key).elim 0 Share.stake

/-- Rewards arrive. -/
def add (amount : Nat) : Pool K := { pool with current := pool.current + amount }

/-- Close the period. -/
def close : Pool K :=
  { pool with current := 0, cumulative := pool.cumulative + pool.current / pool.total }

/-- What a participant has earned in closed periods since it was last paid. -/
def claim (key : K) : Nat :=
  (pool.shares.get key).elim 0 fun share => share.stake * (pool.cumulative - share.mark)

/-- A participant is paid, and its stake becomes `stake`. -/
def restake (key : K) (stake : Nat) : Pool K :=
  { pool with shares := pool.shares.set key (.of stake pool.cumulative) }

/-- All claims together. -/
def owed : Nat :=
  pool.shares.sumBy fun _ share => share.stake * (pool.cumulative - share.mark)

/-! ## The pool never owes more than it was given -/

/-- Closing a period turns its rewards into claims, up to rounding. -/
theorem owed_close_le : pool.close.owed ≤ pool.owed + pool.current := by
  have hgrowth : pool.close.owed ≤ pool.shares.sumBy fun _ share =>
      share.stake * (pool.cumulative - share.mark)
        + share.stake * (pool.current / pool.total) := by
    refine KVStore.sumBy_le fun key share _ => ?_
    rw [← Nat.mul_add]
    refine Nat.mul_le_mul_left _ ?_
    have hcum : pool.close.cumulative = pool.cumulative + pool.current / pool.total := rfl
    rw [hcum]
    generalize pool.current / pool.total = growth
    omega
  have hshared : (pool.shares.sumBy fun _ share => share.stake * (pool.current / pool.total))
      = pool.total * (pool.current / pool.total) := by
    unfold total KVStore.sumBy
    rw [List.sum_map_mul_right]
  calc pool.close.owed
      ≤ pool.owed + pool.total * (pool.current / pool.total) := by
        rw [KVStore.sumBy_add, hshared] at hgrowth
        exact hgrowth
    _ ≤ pool.owed + pool.current := Nat.add_le_add_left (Nat.mul_div_le _ _) _

/-- Paying a participant discharges its claim. -/
theorem owed_restake (key : K) (stake : Nat) :
    (pool.restake key stake).owed + pool.claim key = pool.owed := by
  have hset := KVStore.sumBy_set pool.shares key (.of stake pool.cumulative) fun _ share =>
    share.stake * (pool.cumulative - share.mark)
  rw [Share.claim_of, Nat.add_zero] at hset
  exact hset

/-- One claim is part of all claims. -/
theorem owed_eq : pool.owed = pool.shares.sumBy fun key _ => pool.claim key := by
  unfold owed claim
  refine KVStore.sumBy_congr fun key share hget => ?_
  rw [hget, Option.elim_some]

theorem claim_le_owed (key : K) : pool.claim key ≤ pool.owed := by
  have hrestake := pool.owed_restake key 0
  omega

/-- What a pool has to pay: the rewards of the open period and all claims. -/
def value : Nat := pool.current + pool.owed

theorem value_add (amount : Nat) : (pool.add amount).value = pool.value + amount := by
  have howed : (pool.add amount).owed = pool.owed := rfl
  unfold value
  rw [howed]
  unfold add
  dsimp only
  omega

theorem value_close_le : pool.close.value ≤ pool.value := by
  have howed := pool.owed_close_le
  have hcur : pool.close.current = 0 := rfl
  unfold value
  omega

theorem value_restake (key : K) (stake : Nat) :
    (pool.restake key stake).value + pool.claim key = pool.value := by
  have howed := pool.owed_restake key stake
  have hcur : (pool.restake key stake).current = pool.current := rfl
  unfold value
  omega

/-! ## Stakes -/

theorem total_restake (key : K) (stake : Nat) :
    (pool.restake key stake).total + pool.stake key = pool.total + stake :=
  KVStore.sumBy_set pool.shares key (.of stake pool.cumulative) fun _ share => share.stake

theorem stake_le_total (key : K) : pool.stake key ≤ pool.total := by
  have hrestake := pool.total_restake key 0
  omega

end Pool

end Babylon.Lib
