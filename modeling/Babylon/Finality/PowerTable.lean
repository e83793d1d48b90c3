/-
  `x/finality/types/power_table.go`: the voting power distribution cache of a
  height and the selection of its active finality providers.
-/
import Mathlib.Data.Prod.Lex
import Babylon.Lib.Ranking
import Babylon.Finality.Types

set_option autoImplicit false

namespace Babylon.Finality

open Lib BTCStaking List

/-- `FinalityProviderDistInfo`. -/
structure FinalityProviderDistInfo where
  btcPk : BIP340PubKey
  addr : AccAddress
  commission : Dec
  totalBondedSat : Nat
  isTimestamped : Bool
  isJailed : Bool
  isSlashed : Bool
deriving DecidableEq

variable {i j : FinalityProviderDistInfo}

namespace FinalityProviderDistInfo

/-- `NewFinalityProviderDistInfo`. -/
def new (fp : FinalityProvider) : FinalityProviderDistInfo where
  btcPk := fp.btcPk
  addr := fp.addr
  commission := fp.commission
  totalBondedSat := 0
  isTimestamped := false
  isJailed := fp.jailed
  isSlashed := fp.isSlashed

/-- `ChangeDeltaSats`: more sats than there are cannot be removed. -/
def changeDeltaSats (v : FinalityProviderDistInfo) (fpDeltaSats : Int) :
    Outcome FinalityProviderDistInfo := do
  ensure (0 ≤ (v.totalBondedSat : Int) + fpDeltaSats)
    (.wrapf errInvalidSats "removed amount: %d is bigger than the current total bonded: %d")
  return { v with totalBondedSat := ((v.totalBondedSat : Int) + fpDeltaSats).toNat }

variable (fp : FinalityProviderDistInfo)

/-- Whether the voting power is treated as zero when sorting. -/
def shouldBeZeroed : Bool :=
  fp.isJailed || !fp.isTimestamped || fp.isSlashed

/-- The comparison of `SortFinalityProvidersWithZeroedVotingPower`. -/
def ranksBefore (i j : FinalityProviderDistInfo) : Bool :=
  if i.shouldBeZeroed && !j.shouldBeZeroed then false
  else if !i.shouldBeZeroed && j.shouldBeZeroed then true
  else if i.shouldBeZeroed && j.shouldBeZeroed then decide (i.btcPk < j.btcPk)
  else if i.totalBondedSat = j.totalBondedSat then decide (i.btcPk < j.btcPk)
  else decide (j.totalBondedSat < i.totalBondedSat)

/-- What lets a finality provider be active if it is ranked high enough. -/
def eligible : Bool :=
  decide (fp.totalBondedSat ≠ 0) && fp.isTimestamped && !fp.isJailed && !fp.isSlashed

/-- The comparison as an order: zeroed providers last, more sats first, then the
public key. -/
def rankKey : Bool ×ₗ ℕᵒᵈ ×ₗ BIP340PubKey :=
  toLex (fp.shouldBeZeroed,
    toLex (OrderDual.toDual (if fp.shouldBeZeroed then 0 else fp.totalBondedSat), fp.btcPk))

theorem rankKey_lt_iff (i j : FinalityProviderDistInfo) :
    i.rankKey < j.rankKey ↔ ranksBefore i j = true := by
  unfold rankKey ranksBefore
  simp only [Prod.Lex.toLex_lt_toLex, OrderDual.toDual_lt_toDual]
  cases i.shouldBeZeroed <;> cases j.shouldBeZeroed <;> simp
  -- only two providers with voting power are left
  split_ifs with heq
  · simp [heq]
  · simp [heq]

theorem rankKey_le_iff (i j : FinalityProviderDistInfo) :
    i.rankKey ≤ j.rankKey ↔ ranksBefore j i = false := by
  rw [← not_lt, rankKey_lt_iff, Bool.not_eq_true]

theorem btcPk_eq_of_rankKey_eq (h : i.rankKey = j.rankKey) : i.btcPk = j.btcPk :=
  congrArg (fun key => (ofLex (ofLex key).2).2) h

@[simp] theorem eligible_iff :
    fp.eligible = true ↔ fp.totalBondedSat ≠ 0 ∧ fp.shouldBeZeroed = false := by
  unfold eligible shouldBeZeroed
  cases fp.isJailed <;> cases fp.isTimestamped <;> cases fp.isSlashed <;> simp

/-- Whoever is ranked before an eligible provider is eligible. -/
theorem eligible_of_rankKey_le (h : i.rankKey ≤ j.rankKey)
    (hj : j.eligible = true) : i.eligible = true := by
  obtain ⟨hsats, hzeroed⟩ := (eligible_iff j).mp hj
  rw [eligible_iff]
  unfold rankKey at h
  simp only [Prod.Lex.toLex_le_toLex, OrderDual.toDual_lt_toDual, hzeroed] at h
  cases hi : i.shouldBeZeroed with
  | true =>
    simp only [hi] at h
    simp at h
    exact absurd h (by decide)
  | false =>
    refine ⟨?_, rfl⟩
    simp only [hi, lt_irrefl, false_or, true_and, Bool.false_eq_true, if_false,
      EmbeddingLike.apply_eq_iff_eq] at h
    omega

theorem outranks_of_rankKey_le (h : i.rankKey ≤ j.rankKey)
    (hi : i.eligible = true) (hj : j.eligible = true) (hne : i.btcPk ≠ j.btcPk) :
    j.totalBondedSat < i.totalBondedSat ∨
      i.totalBondedSat = j.totalBondedSat ∧ i.btcPk < j.btcPk := by
  rw [rankKey_le_iff, ranksBefore, ((eligible_iff i).mp hi).2, ((eligible_iff j).mp hj).2] at h
  simp only [Bool.not_false, Bool.and_true, Bool.and_false, Bool.false_eq_true, if_false] at h
  split at h
  case isTrue heq => exact .inr ⟨heq.symm, lt_of_le_of_ne (not_lt.mp (of_decide_eq_false h)) hne⟩
  case isFalse hdiff => exact .inl (lt_of_le_of_ne (not_lt.mp (of_decide_eq_false h)) hdiff)

end FinalityProviderDistInfo

/-- `SortFinalityProvidersWithZeroedVotingPower`. -/
def sortFinalityProvidersWithZeroedVotingPower (fps : List FinalityProviderDistInfo) :
    List FinalityProviderDistInfo :=
  fps.insertionSort fun i j => FinalityProviderDistInfo.ranksBefore j i = false

theorem sortFinalityProviders_eq_rankBy (fps : List FinalityProviderDistInfo) :
    sortFinalityProvidersWithZeroedVotingPower fps
      = rankBy FinalityProviderDistInfo.rankKey fps := by
  unfold sortFinalityProvidersWithZeroedVotingPower rankBy
  congr 1
  funext i j
  exact propext (FinalityProviderDistInfo.rankKey_le_iff i j).symm

/-! ## Distribution cache -/

/-- The sum of the sats of providers as the code takes it, in `uint64`. -/
def satsUint64 (fps : List FinalityProviderDistInfo) : UInt64 :=
  fps.foldl (fun total fp => total + .ofNat fp.totalBondedSat) 0

theorem satsUint64_eq (fps : List FinalityProviderDistInfo) :
    satsUint64 fps = .ofNat (fps.map (·.totalBondedSat)).sum := by
  have hfold : ∀ total : Nat, fps.foldl (fun total fp => total + .ofNat fp.totalBondedSat)
      (UInt64.ofNat total) = .ofNat (total + (fps.map (·.totalBondedSat)).sum) := by
    induction fps with
    | nil => exact fun _ => rfl
    | cons fp rest ih =>
      intro total
      rw [foldl_cons, ← UInt64.ofNat_add, ih, map_cons, sum_cons, Nat.add_assoc]
  rw [satsUint64, ← Nat.zero_add (sum _)]
  exact hfold 0

/-- `VotingPowerDistCache`.  The active finality providers are the first
`numActiveFps` ones. -/
structure VotingPowerDistCache where
  totalVotingPower : Nat
  finalityProviders : List FinalityProviderDistInfo
  numActiveFps : Nat
  active_le : numActiveFps ≤ finalityProviders.length
deriving DecidableEq

namespace VotingPowerDistCache

/-- `NewVotingPowerDistCacheWithFinalityProviders`. -/
def withFinalityProviders (fps : List FinalityProviderDistInfo) : VotingPowerDistCache where
  totalVotingPower := 0
  finalityProviders := fps
  numActiveFps := 0
  active_le := Nat.zero_le _

/-- `NewVotingPowerDistCache`. -/
def new : VotingPowerDistCache := withFinalityProviders []

variable (dc : VotingPowerDistCache)

/-- The values of `GetActiveFinalityProviderSet`. -/
def getActiveFinalityProviderSet : List FinalityProviderDistInfo :=
  dc.finalityProviders.take dc.numActiveFps

/-- The values of `GetInactiveFinalityProviderSet`. -/
def getInactiveFinalityProviderSet : List FinalityProviderDistInfo :=
  dc.finalityProviders.drop dc.numActiveFps

theorem active_append_inactive :
    dc.getActiveFinalityProviderSet ++ dc.getInactiveFinalityProviderSet = dc.finalityProviders :=
  take_append_drop _ _

/-- The keys of `GetActiveFinalityProviderSet` and of `ActiveFpsByBtcPk`. -/
def activeFpsByBtcPk : List BIP340PubKey :=
  dc.getActiveFinalityProviderSet.map (·.btcPk)

/-- Sorting by the public key, whose hex encodings are ordered as the keys. -/
def sortByBtcPk (fps : List FinalityProviderDistInfo) : List FinalityProviderDistInfo :=
  rankBy (·.btcPk) fps

/-- `FindNewActiveFinalityProviders`. -/
def findNewActiveFinalityProviders (dc prevDc : VotingPowerDistCache) :
    List FinalityProviderDistInfo :=
  sortByBtcPk <| dc.getActiveFinalityProviderSet.filter fun fp =>
    decide (fp.btcPk ∉ prevDc.activeFpsByBtcPk)

/-- `FindNewInactiveFinalityProviders`. -/
def findNewInactiveFinalityProviders (dc prevDc : VotingPowerDistCache) :
    List FinalityProviderDistInfo :=
  let newInactiveFps := dc.getInactiveFinalityProviderSet.filter fun fp =>
    decide (fp.btcPk ∉ prevDc.getInactiveFinalityProviderSet.map (·.btcPk))
  -- active before, and no longer present because of full unbonding
  let removedFps := prevDc.getActiveFinalityProviderSet.filter fun fp =>
    decide (fp.btcPk ∉ dc.finalityProviders.map (·.btcPk))
  sortByBtcPk (newInactiveFps ++ removedFps)

section Deltas

variable {dc prevDc : VotingPowerDistCache} {fp : FinalityProviderDistInfo}

theorem mem_findNewActive :
    fp ∈ dc.findNewActiveFinalityProviders prevDc ↔
      fp ∈ dc.getActiveFinalityProviderSet ∧ fp.btcPk ∉ prevDc.activeFpsByBtcPk := by
  rw [findNewActiveFinalityProviders, sortByBtcPk, (rankBy_perm _ _).mem_iff, mem_filter,
    decide_eq_true_eq]

variable (hnodup : (dc.finalityProviders.map (·.btcPk)).Nodup)

include hnodup

theorem nodup_findNewActive : ((dc.findNewActiveFinalityProviders prevDc).map (·.btcPk)).Nodup := by
  refine ((rankBy_perm _ _).map _).nodup_iff.mpr (hnodup.sublist (Sublist.map _ ?_))
  exact filter_sublist.trans (take_sublist _ _)

/-- Active and inactive providers of a cache are different. -/
theorem active_disjoint (hi : i ∈ dc.getActiveFinalityProviderSet)
    (hj : j ∈ dc.getInactiveFinalityProviderSet) :
    i.btcPk ≠ j.btcPk := by
  rw [← dc.active_append_inactive, map_append, nodup_append] at hnodup
  exact hnodup.2.2 _ (mem_map_of_mem hi) _ (mem_map_of_mem hj)

/-- Nobody becomes inactive twice: who is still listed is not missing. -/
theorem nodup_findNewInactive (hprev : (prevDc.finalityProviders.map (·.btcPk)).Nodup) :
    ((dc.findNewInactiveFinalityProviders prevDc).map (·.btcPk)).Nodup := by
  refine ((rankBy_perm _ _).map _).nodup_iff.mpr ?_
  rw [map_append, nodup_append]
  refine ⟨hnodup.sublist (Sublist.map _ (filter_sublist.trans (drop_sublist _ _))),
    hprev.sublist (Sublist.map _ (filter_sublist.trans (take_sublist _ _))), ?_⟩
  intro pk hina _ hrmv heq
  obtain ⟨i, hi, rfl⟩ := mem_map.mp hina
  obtain ⟨j, hj, rfl⟩ := mem_map.mp hrmv
  refine of_decide_eq_true (mem_filter.mp hj).2 (heq ▸ mem_map_of_mem ?_)
  exact mem_of_mem_drop (mem_filter.mp hi).1

omit hnodup in
/-- Who was active and is not any more becomes inactive, listed or not. -/
theorem mem_findNewInactive (hprev : (prevDc.finalityProviders.map (·.btcPk)).Nodup)
    {pk : BIP340PubKey} (hwas : pk ∈ prevDc.activeFpsByBtcPk) (hnot : pk ∉ dc.activeFpsByBtcPk) :
    pk ∈ (dc.findNewInactiveFinalityProviders prevDc).map (·.btcPk) := by
  obtain ⟨old, hold, rfl⟩ := mem_map.mp hwas
  refine ((rankBy_perm _ _).map _).mem_iff.mpr ?_
  rw [map_append, mem_append]
  by_cases hlst : old.btcPk ∈ dc.finalityProviders.map (·.btcPk)
  · obtain ⟨fp, hfp, heq⟩ := mem_map.mp hlst
    rw [← dc.active_append_inactive, mem_append] at hfp
    have hina := hfp.resolve_left fun h => hnot (heq ▸ mem_map_of_mem h)
    refine .inl (mem_map.mpr ⟨fp, mem_filter.mpr ⟨hina, decide_eq_true ?_⟩, heq⟩)
    intro hthen
    obtain ⟨other, ho, hpk⟩ := mem_map.mp hthen
    exact active_disjoint hprev hold ho (hpk.trans heq).symm
  · exact .inr (mem_map_of_mem (mem_filter.mpr ⟨hold, decide_eq_true hlst⟩))

end Deltas

/-- The loop of `ApplyActiveFinalityProviders` over the sorted providers. -/
def countActive (maxActiveFPs : Nat) :
    List FinalityProviderDistInfo → (numActiveFPs totalVotingPower : Nat) → Nat × Nat
  | [], numActiveFPs, totalVotingPower => (numActiveFPs, totalVotingPower)
  | fp :: rest, numActiveFPs, totalVotingPower =>
    if numActiveFPs = maxActiveFPs then (numActiveFPs, totalVotingPower)
    else if fp.eligible = false then (numActiveFPs, totalVotingPower)
    else countActive maxActiveFPs rest (numActiveFPs + 1) (totalVotingPower + fp.totalBondedSat)

/-- The providers the loop counts. -/
def selectActive (maxActiveFPs : Nat) (fps : List FinalityProviderDistInfo) :
    List FinalityProviderDistInfo :=
  (fps.takeWhile (·.eligible)).take maxActiveFPs

theorem selectActive_isPrefix (maxActiveFPs : Nat) (fps : List FinalityProviderDistInfo) :
    selectActive maxActiveFPs fps <+: fps :=
  take_prefix _ _ |>.trans <| takeWhile_prefix _

theorem countActive_eq {maxActiveFPs : Nat} {fps : List FinalityProviderDistInfo}
    {numActiveFPs totalVotingPower : Nat} (hnum : numActiveFPs ≤ maxActiveFPs) :
    countActive maxActiveFPs fps numActiveFPs totalVotingPower =
      (numActiveFPs + (selectActive (maxActiveFPs - numActiveFPs) fps).length, totalVotingPower
          + ((selectActive (maxActiveFPs - numActiveFPs) fps).map (·.totalBondedSat)).sum) := by
  unfold selectActive
  induction fps generalizing numActiveFPs totalVotingPower with
  | nil => simp [countActive]
  | cons fp rest ih =>
    unfold countActive
    split
    case isTrue hmax => simp [hmax]
    case isFalse hmax =>
      split
      case isTrue hfp => simp [hfp]
      case isFalse hfp =>
        rw [Bool.not_eq_false] at hfp
        have hsucc : maxActiveFPs - numActiveFPs = maxActiveFPs - (numActiveFPs + 1) + 1 := by
          omega
        rw [ih (by omega), hsucc]
        simp only [takeWhile_cons, hfp, if_true, take_succ_cons, length_cons, map_cons, sum_cons]
        congr 1 <;> omega

theorem countActive_zero (maxActiveFPs : Nat) (fps : List FinalityProviderDistInfo) :
    countActive maxActiveFPs fps 0 0 =
      ((selectActive maxActiveFPs fps).length,
        ((selectActive maxActiveFPs fps).map (·.totalBondedSat)).sum) := by
  rw [countActive_eq (Nat.zero_le _), Nat.zero_add, Nat.zero_add, Nat.sub_zero]

/-- `ApplyActiveFinalityProviders`. -/
def applyActiveFinalityProviders (maxActiveFPs : Nat) : VotingPowerDistCache where
  totalVotingPower :=
    (countActive maxActiveFPs (sortFinalityProvidersWithZeroedVotingPower dc.finalityProviders)
      0 0).2
  finalityProviders := sortFinalityProvidersWithZeroedVotingPower dc.finalityProviders
  numActiveFps :=
    (countActive maxActiveFPs (sortFinalityProvidersWithZeroedVotingPower dc.finalityProviders)
      0 0).1
  active_le := by
    rw [countActive_zero]
    exact (selectActive_isPrefix _ _).length_le

/-- What every distribution cache that is recorded satisfies. -/
structure WellFormed (dc : VotingPowerDistCache) : Prop where
  nodup : (dc.finalityProviders.map (·.btcPk)).Nodup
  ranked : Ranked FinalityProviderDistInfo.rankKey dc.finalityProviders
  eligible : ∀ fp ∈ dc.getActiveFinalityProviderSet, fp.eligible = true
  total : dc.totalVotingPower = (dc.getActiveFinalityProviderSet.map (·.totalBondedSat)).sum

theorem wellFormed_new : new.WellFormed where
  nodup := nodup_nil
  ranked := Pairwise.nil
  eligible := by
    intro fp hfp
    simp [getActiveFinalityProviderSet, new, withFinalityProviders] at hfp
  total := rfl

section Apply

variable {dc : VotingPowerDistCache} {maxActiveFPs : Nat}

theorem applyActive_perm :
    (dc.applyActiveFinalityProviders maxActiveFPs).finalityProviders.Perm dc.finalityProviders :=
  perm_insertionSort _ _

theorem applyActive_ranked :
    Ranked FinalityProviderDistInfo.rankKey
      (dc.applyActiveFinalityProviders maxActiveFPs).finalityProviders := by
  show Ranked _ (sortFinalityProvidersWithZeroedVotingPower dc.finalityProviders)
  rw [sortFinalityProviders_eq_rankBy]
  exact ranked_rankBy _ _

theorem applyActive_selectActive :
    (dc.applyActiveFinalityProviders maxActiveFPs).getActiveFinalityProviderSet
      = selectActive maxActiveFPs
          (dc.applyActiveFinalityProviders maxActiveFPs).finalityProviders := by
  have hnum : (dc.applyActiveFinalityProviders maxActiveFPs).numActiveFps
      = (selectActive maxActiveFPs
          (dc.applyActiveFinalityProviders maxActiveFPs).finalityProviders).length :=
    congrArg Prod.fst (countActive_zero _ _)
  unfold getActiveFinalityProviderSet
  rw [hnum]
  exact (prefix_iff_eq_take.mp (selectActive_isPrefix _ _)).symm

/-- The active providers are the first of the eligible ones. -/
theorem applyActive_active :
    (dc.applyActiveFinalityProviders maxActiveFPs).getActiveFinalityProviderSet
      = ((dc.applyActiveFinalityProviders maxActiveFPs).finalityProviders.filter
          (·.eligible)).take maxActiveFPs := by
  rw [applyActive_selectActive, selectActive, applyActive_ranked.takeWhile_eq_filter]
  intro i j
  exact FinalityProviderDistInfo.eligible_of_rankKey_le

theorem applyActive_wellFormed (hnodup : (dc.finalityProviders.map (·.btcPk)).Nodup) :
    (dc.applyActiveFinalityProviders maxActiveFPs).WellFormed where
  nodup := (applyActive_perm.map _).nodup_iff.mpr hnodup
  ranked := applyActive_ranked
  eligible := by
    intro fp hfp
    rw [applyActive_active] at hfp
    exact (mem_filter.mp (mem_of_mem_take hfp)).2
  total := by
    rw [applyActive_selectActive]
    exact congrArg Prod.snd (countActive_zero _ _)

/-- The order of the input does not matter. -/
theorem applyActive_eq_of_perm {other : VotingPowerDistCache}
    (hnodup : (dc.finalityProviders.map (·.btcPk)).Nodup)
    (hperm : other.finalityProviders.Perm dc.finalityProviders) :
    other.applyActiveFinalityProviders maxActiveFPs
      = dc.applyActiveFinalityProviders maxActiveFPs := by
  have hsrt : sortFinalityProvidersWithZeroedVotingPower other.finalityProviders
      = sortFinalityProvidersWithZeroedVotingPower dc.finalityProviders := by
    rw [sortFinalityProviders_eq_rankBy, sortFinalityProviders_eq_rankBy]
    have ho := rankBy_perm FinalityProviderDistInfo.rankKey other.finalityProviders
    refine Ranked.eq_of_perm (ranked_rankBy _ _) (ranked_rankBy _ _)
      (ho.trans (hperm.trans (rankBy_perm _ _).symm)) ?_
    intro i hi j hj hkey
    exact inj_on_of_nodup_map hnodup ((ho.trans hperm).mem_iff.mp hi)
      ((ho.trans hperm).mem_iff.mp hj) (FinalityProviderDistInfo.btcPk_eq_of_rankKey_eq hkey)
  simp only [applyActiveFinalityProviders, hsrt]

end Apply

/-- `ApplyActiveFinalityProviders` makes the first of the eligible providers active, ranked by
their sats and then by their keys, whatever the order they are given in.  The sum of the code is
that of their sats if those of all providers are below 2^64. -/
theorem active_set_exact (dc : VotingPowerDistCache)
    (hnodup : (dc.finalityProviders.map (·.btcPk)).Nodup) (maxActiveFPs : Nat) :
    (∃ ranked : List FinalityProviderDistInfo,
      ranked.Perm (dc.finalityProviders.filter (·.eligible)) ∧
      ranked.Pairwise (fun i j => j.totalBondedSat < i.totalBondedSat ∨
        i.totalBondedSat = j.totalBondedSat ∧ i.btcPk < j.btcPk) ∧
      (dc.applyActiveFinalityProviders maxActiveFPs).getActiveFinalityProviderSet
        = ranked.take maxActiveFPs ∧
      (dc.applyActiveFinalityProviders maxActiveFPs).numActiveFps = min maxActiveFPs ranked.length ∧
      (dc.applyActiveFinalityProviders maxActiveFPs).totalVotingPower
        = ((ranked.take maxActiveFPs).map (·.totalBondedSat)).sum) ∧
    ((dc.finalityProviders.map (·.totalBondedSat)).sum < 2 ^ 64 →
      (satsUint64 (dc.applyActiveFinalityProviders maxActiveFPs).getActiveFinalityProviderSet).toNat
        = (dc.applyActiveFinalityProviders maxActiveFPs).totalVotingPower) ∧
    ∀ other : VotingPowerDistCache, other.finalityProviders.Perm dc.finalityProviders →
      other.applyActiveFinalityProviders maxActiveFPs
        = dc.applyActiveFinalityProviders maxActiveFPs := by
  have hwf : (dc.applyActiveFinalityProviders maxActiveFPs).WellFormed :=
    applyActive_wellFormed hnodup
  refine ⟨⟨_, applyActive_perm.filter _, ?_, applyActive_active, ?_, ?_⟩, fun hsats => ?_, fun _ =>
    applyActive_eq_of_perm hnodup⟩
  · -- two eligible providers are ranked by sats and key
    have hpairs := (hwf.ranked.and (pairwise_map.mp hwf.nodup)).filter (·.eligible)
    refine hpairs.imp_of_mem fun hi hj hij => ?_
    exact FinalityProviderDistInfo.outranks_of_rankKey_le hij.1 (mem_filter.mp hi).2
      (mem_filter.mp hj).2 hij.2
  · rw [← length_take, ← applyActive_active, getActiveFinalityProviderSet, length_take]
    exact (min_eq_left (VotingPowerDistCache.active_le _)).symm
  · rw [← applyActive_active]
    exact hwf.total
  · rw [hwf.total, satsUint64_eq]
    refine UInt64.toNat_ofNat_of_lt (Nat.lt_of_le_of_lt ?_ hsats)
    rw [← (applyActive_perm.map _).sum_eq]
    exact ((take_sublist _ _).map _).sum_le_sum fun _ _ => Nat.zero_le _

/-- Two eligible providers for one place. -/
theorem one_place_for_two_providers :
    ((withFinalityProviders [⟨1, 0, 0, 5, true, false, false⟩,
      ⟨2, 0, 0, 7, true, false, false⟩]).applyActiveFinalityProviders 1).numActiveFps = 1 := by
  obtain ⟨ranked, hperm, -, -, hnum, -⟩ := (active_set_exact (withFinalityProviders
    [⟨1, 0, 0, 5, true, false, false⟩, ⟨2, 0, 0, 7, true, false, false⟩]) (by decide) 1).1
  rw [hnum, hperm.length_eq]
  rfl

end VotingPowerDistCache

end Babylon.Finality
