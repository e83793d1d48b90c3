/-
  The voting power that is slashed in an epoch.

  `AddSlashedValidator` writes the validator into a set and adds its power to a sum,
  without looking whether the validator is in the set already.  The sum is the power of
  the set as long as no validator with power is slashed twice in the epoch; after that it
  is larger, and a threshold can fire before the slashed validators reach it.
-/
import Babylon.Epoching.Types
import Mathlib.Algebra.Order.BigOperators.Group.Finset

set_option autoImplicit false

namespace Babylon.Epoching

open Lib KVStore List

def errUnknownValidator : RegisteredError :=
  ⟨"epoching", 6, "the validator is not known in the validator set."⟩

/-- What the stores have under the number of an epoch.  The calls of `BeforeValidatorSlashed` in
the epoch are recorded, the latest first, with the thresholds that each of them fired. -/
structure EpochPowers where
  valSet : KVStore ValAddress Nat
  votingPower : Nat
  slashedValSet : KVStore ValAddress Nat := empty
  slashedVotingPower : Nat := 0
  calls : List (ValAddress × List Nat) := []

/-- The thresholds, in percent. -/
def slashThresholds : List Nat := [33, 67]

namespace EpochPowers

/-- `InitSlashedVotingPower` and `InitValidatorSet`, with the last validator powers of the
staking module. -/
def init (lastPowers : KVStore ValAddress Nat) : EpochPowers :=
  { valSet := lastPowers, votingPower := lastPowers.sumBy fun _ power => power }

variable (r : EpochPowers)

/-- `GetValidatorVotingPower`. -/
def getValidatorVotingPower (valAddr : ValAddress) : Outcome Nat :=
  orThrow (r.valSet.get valAddr) (.registered errUnknownValidator)

/-- `AddSlashedValidator`. -/
def addSlashedValidator (valAddr : ValAddress) : Outcome EpochPowers := do
  let thisVotingPower ← (r.getValidatorVotingPower valAddr).orPanic "ErrMarshal"
  return { r with
    slashedValSet := r.slashedValSet.set valAddr thisVotingPower
    slashedVotingPower := r.slashedVotingPower + thisVotingPower }

/-- `BeforeValidatorSlashed`. -/
def beforeValidatorSlashed (valAddr : ValAddress) : Outcome EpochPowers := do
  let thisVotingPower ← r.getValidatorVotingPower valAddr
  let fired := slashThresholds.filter fun threshold =>
    r.slashedVotingPower * 100 < r.votingPower * threshold ∧
      r.votingPower * threshold ≤ (r.slashedVotingPower + thisVotingPower) * 100
  let r ← r.addSlashedValidator valAddr
  return { r with calls := (valAddr, fired) :: r.calls }

/-- The staking module logs a failure of the hook and goes on. -/
def slash (valAddr : ValAddress) : EpochPowers := (r.beforeValidatorSlashed valAddr).toOption.getD r

end EpochPowers

/-! ## Powers -/

section

variable (valSet : KVStore ValAddress Nat)

def powerOf (valAddr : ValAddress) : Nat := (valSet.get valAddr).getD 0

/-- The power of distinct validators. -/
def distinctPower (valAddrs : List ValAddress) : Nat :=
  ∑ valAddr ∈ valAddrs.toFinset, powerOf valSet valAddr

/-- The power with repetitions. -/
def countedPower (valAddrs : List ValAddress) : Nat := (valAddrs.map (powerOf valSet)).sum

end

/-- Each call fires the thresholds that a power crosses with it. -/
def Crossed (total : Nat) (power : List ValAddress → Nat) : List (ValAddress × List Nat) → Prop
  | [] => True
  | call :: earlier =>
    (∀ threshold ∈ slashThresholds, threshold ∈ call.2 ↔
      power (earlier.map Prod.fst) * 100 < total * threshold ∧
        total * threshold ≤ power ((call :: earlier).map Prod.fst) * 100) ∧
    Crossed total power earlier

variable {valSet : KVStore ValAddress Nat} {calls : List (ValAddress × List Nat)} {total : Nat}

theorem sumBy_eq_distinctPower {store : KVStore ValAddress Nat}
    (h : ∀ valAddr power, store.get valAddr = some power → valSet.get valAddr = some power) :
    (store.sumBy fun _ power => power) = distinctPower valSet store.keys := by
  rw [distinctPower, sum_toFinset _ store.nodup_keys, KVStore.keys, map_map, sumBy]
  congr 1
  refine map_congr_left fun entry hent => ?_
  rw [Function.comp_apply, powerOf, h _ _ (mem_entries.mp hent), Option.getD_some]

/-- The two powers differ as soon as a validator with power is counted twice. -/
theorem countedPower_eq_distinctPower_iff {valAddrs : List ValAddress} :
    countedPower valSet valAddrs = distinctPower valSet valAddrs ↔
      ∀ valAddr, 0 < powerOf valSet valAddr → valAddrs.count valAddr ≤ 1 := by
  have hle : ∀ valAddr ∈ valAddrs.toFinset,
      powerOf valSet valAddr ≤ valAddrs.count valAddr • powerOf valSet valAddr := by
    intro valAddr hmem
    exact Nat.le_mul_of_pos_left _ (count_pos_iff.mpr (mem_toFinset.mp hmem))
  rw [countedPower, Finset.sum_list_map_count, distinctPower, eq_comm,
    Finset.sum_eq_sum_iff_of_le hle]
  refine forall_congr' fun valAddr => ?_
  rw [mem_toFinset, ← count_pos_iff, nsmul_eq_mul, Nat.cast_id]
  constructor
  · intro heq hpos
    by_contra hlt
    have hone := Nat.eq_of_mul_eq_mul_right hpos ((Nat.one_mul _).trans (heq (by omega)))
    omega
  · intro honce hpos
    rcases Nat.eq_zero_or_pos (powerOf valSet valAddr) with hzero | hpow
    · rw [hzero, Nat.mul_zero]
    · rw [le_antisymm (honce hpow) hpos, Nat.one_mul]

/-- A threshold fires once at most, since the sum only grows. -/
theorem Crossed.once (h : Crossed total (countedPower valSet) calls) {threshold : Nat}
    (hmem : threshold ∈ slashThresholds) :
    calls.countP (threshold ∈ ·.2) ≤ 1 ∧ (0 < calls.countP (threshold ∈ ·.2) →
      total * threshold ≤ countedPower valSet (calls.map Prod.fst) * 100) := by
  induction calls with
  | nil => simp
  | cons call earlier ih =>
    obtain ⟨hle, hover⟩ := ih h.2
    have hiff := h.1 threshold hmem
    have hgrow : countedPower valSet (earlier.map Prod.fst) ≤
        countedPower valSet ((call :: earlier).map Prod.fst) := by
      simp [countedPower]
    rw [countP_cons]
    by_cases hfired : threshold ∈ call.2
    · have hcross := hiff.mp hfired
      simp only [hfired, decide_true, if_true]
      omega
    · simp only [hfired, decide_false, Bool.false_eq_true, if_false]
      omega

theorem Crossed.congr {power power' : List ValAddress → Nat} (h : Crossed total power calls)
    (heq : ∀ valAddrs, valAddrs <:+ calls.map Prod.fst → power valAddrs = power' valAddrs) :
    Crossed total power' calls := by
  induction calls with
  | nil => trivial
  | cons call earlier ih =>
    have hsuf := suffix_cons call.1 (earlier.map Prod.fst)
    refine ⟨?_, ih h.2 fun valAddrs hmem => heq valAddrs (hmem.trans hsuf)⟩
    rw [← heq _ hsuf, ← heq _ suffix_rfl]
    exact h.1

/-! ## Runs -/

namespace EpochPowers

variable {r r' : EpochPowers} {valAddr : ValAddress}

/-- The validators that were slashed, once for each call. -/
def slashes (r : EpochPowers) : List ValAddress := r.calls.map Prod.fst

/-- The slashed power is that of the slashed validators and at most the total, and a threshold
fires at most once, when the distinct slashed validators cross it. -/
structure Accounted (r : EpochPowers) : Prop where
  sum : r.slashedVotingPower = r.slashedValSet.sumBy fun _ power => power
  bound : r.slashedVotingPower ≤ r.votingPower
  once : ∀ threshold ∈ slashThresholds, r.calls.countP (threshold ∈ ·.2) ≤ 1
  crossed : Crossed r.votingPower (distinctPower r.valSet) r.calls

/-- What the calls of an epoch keep. -/
structure Booked (r : EpochPowers) : Prop where
  total : r.votingPower = distinctPower r.valSet r.valSet.keys
  counted : r.slashedVotingPower = countedPower r.valSet r.slashes
  slashed : ∀ valAddr power, r.slashedValSet.get valAddr = some power ↔
    valAddr ∈ r.slashes ∧ r.valSet.get valAddr = some power
  known : r.slashes ⊆ r.valSet.keys
  crossed : Crossed r.votingPower (countedPower r.valSet) r.calls

theorem booked_init (lastPowers : KVStore ValAddress Nat) : (init lastPowers).Booked where
  total := sumBy_eq_distinctPower fun _ _ => id
  counted := rfl
  slashed _ _ := ⟨fun h => (by cases h), fun h => (by cases h.1)⟩
  known := nil_subset _
  crossed := trivial

theorem Booked.step (h : r.Booked) (hcall : r.beforeValidatorSlashed valAddr = .ok r') :
    r'.Booked := by
  simp only [beforeValidatorSlashed, addSlashedValidator, getValidatorVotingPower, ok_iff,
    Outcome.orPanic_ok_iff] at hcall
  obtain ⟨power, hpow, _, ⟨_, hpow', rfl⟩, rfl⟩ := hcall
  obtain rfl : power = _ := Option.some.inj (hpow.symm.trans hpow')
  have hsum : r.slashedVotingPower + power = countedPower r.valSet (valAddr :: r.slashes) := by
    rw [h.counted, countedPower, countedPower, map_cons, sum_cons, powerOf, hpow, add_comm]
    rfl
  refine ⟨h.total, hsum, ?_, cons_subset.mpr ⟨mem_keys.mpr ⟨power, hpow⟩, h.known⟩, ?_, h.crossed⟩
  · intro other found
    show (r.slashedValSet.set valAddr power).get other = _ ↔ other ∈ valAddr :: r.slashes ∧ _
    rw [get_set, mem_cons]
    split
    case isTrue heq => simp [heq, hpow]
    case isFalse hne => simp [hne, h.slashed]
  · intro threshold hmem
    rw [mem_filter, decide_eq_true_eq, hsum, h.counted]
    exact and_iff_right hmem

theorem Booked.accounted_iff (h : r.Booked) :
    r.Accounted ↔ ∀ valAddr, 0 < powerOf r.valSet valAddr → r.slashes.count valAddr ≤ 1 := by
  have hset : (r.slashedValSet.sumBy fun _ power => power) = distinctPower r.valSet r.slashes := by
    rw [sumBy_eq_distinctPower fun _ _ hget => ((h.slashed _ _).mp hget).2, distinctPower,
      distinctPower]
    congr 1
    ext valAddr
    simp only [mem_toFinset, KVStore.mem_keys, h.slashed, exists_and_left]
    exact and_iff_left_of_imp fun hmem => mem_keys.mp (h.known hmem)
  constructor
  · intro hacc
    rw [← countedPower_eq_distinctPower_iff, ← h.counted, hacc.sum, hset]
  · intro honce
    have heq : ∀ valAddrs, valAddrs <:+ r.slashes →
        countedPower r.valSet valAddrs = distinctPower r.valSet valAddrs := fun _ hsuf =>
      countedPower_eq_distinctPower_iff.mpr fun valAddr hpos =>
        (hsuf.sublist.count_le valAddr).trans (honce valAddr hpos)
    refine ⟨?_, ?_, fun _ hmem => (h.crossed.once hmem).1, h.crossed.congr heq⟩
    · rw [h.counted, hset, heq _ suffix_rfl]
    · rw [h.counted, heq _ suffix_rfl, h.total]
      exact Finset.sum_le_sum_of_subset (fun _ => by simpa using @h.known _)

/-- A validator with power is recorded whenever it is slashed. -/
theorem foldl_slash (valAddrs : List ValAddress) (r : EpochPowers) :
    (valAddrs.foldl slash r).valSet = r.valSet ∧ ∀ valAddr, 0 < powerOf r.valSet valAddr →
      (valAddrs.foldl slash r).slashes.count valAddr =
        valAddrs.count valAddr + r.slashes.count valAddr := by
  induction valAddrs generalizing r with
  | nil => exact ⟨rfl, fun _ _ => (Nat.zero_add _).symm⟩
  | cons first rest ih =>
    have hstep : (r.slash first).valSet = r.valSet ∧ ∀ valAddr, 0 < powerOf r.valSet valAddr →
        (r.slash first).slashes.count valAddr = (first :: r.slashes).count valAddr := by
      unfold slash beforeValidatorSlashed addSlashedValidator getValidatorVotingPower
      cases hget : r.valSet.get first with
      | none =>
        refine ⟨rfl, fun valAddr hpos => (count_cons_of_ne ?_).symm⟩
        rintro rfl
        simp [powerOf, hget] at hpos
      | some power => exact ⟨rfl, fun _ _ => rfl⟩
    obtain ⟨hset, hcount⟩ := ih (r.slash first)
    rw [hstep.1] at hset hcount
    refine ⟨hset, fun valAddr hpos => ?_⟩
    rw [foldl_cons, hcount valAddr hpos, hstep.2 valAddr hpos, count_cons, count_cons]
    omega

end EpochPowers

open EpochPowers

/-- After any calls of the hook in an epoch, the slashed power is accounted for exactly if no
validator with power was slashed twice. -/
theorem accounted_iff_slashed_once (lastPowers : KVStore ValAddress Nat)
    (valAddrs : List ValAddress) :
    (valAddrs.foldl slash (.init lastPowers)).Accounted ↔
      ∀ valAddr, 0 < powerOf lastPowers valAddr → valAddrs.count valAddr ≤ 1 := by
  have hbooked : (valAddrs.foldl slash (.init lastPowers)).Booked := by
    refine foldlRecOn valAddrs _ (booked_init lastPowers) fun r hr valAddr _ => ?_
    unfold slash
    cases hcall : (r.beforeValidatorSlashed valAddr).toOption with
    | none => exact hr
    | some r' => exact hr.step (toOption_eq_some_iff.mp hcall)
  obtain ⟨hset, hcount⟩ := foldl_slash valAddrs (.init lastPowers)
  rw [hbooked.accounted_iff, hset]
  exact forall₂_congr fun valAddr hpos => by rw [hcount valAddr hpos]; rfl

/-- Two validators, with 60 and 40 of the power. -/
def twoPowers : KVStore ValAddress Nat := (empty.set 1 60).set 2 40

/-- Both are slashed once. -/
theorem accounted_of_two_slashed :
    (([1, 2].foldl slash (.init twoPowers)).slashedVotingPower = 100) ∧
      ([1, 2].foldl slash (.init twoPowers)).Accounted :=
  ⟨rfl, (accounted_iff_slashed_once twoPowers [1, 2]).mpr
    fun valAddr _ => nodup_iff_count_le_one.mp (by decide) valAddr⟩

/-- The first validator is slashed twice: its 60 percent count as 120, and the threshold of 67
percent fires. -/
theorem slashed_twice_unaccounted :
    ∃ r, [1, 1].foldl slash (.init twoPowers) = r ∧ r.slashedVotingPower = 120 ∧
      r.votingPower = 100 ∧ (r.slashedValSet.sumBy fun _ power => power) = 60 ∧
      r.calls = [(1, [67]), (1, [33])] ∧ ¬ r.Accounted :=
  ⟨_, rfl, rfl, rfl, rfl, by decide, fun hacc => absurd hacc.bound (by decide)⟩

end Babylon.Epoching
