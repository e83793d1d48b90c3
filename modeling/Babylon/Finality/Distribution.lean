/-
  What `ProcessAllPowerDistUpdateEvents` computes: the providers of the previous
  cache with their changes of sats, and the providers that get their first sats.

  The loops of the code fail on a negative amount.  Here each of them is a
  condition on all providers together with a list that no longer depends on the
  order of the work.
-/
import Babylon.Finality.PowerDistChange
import Babylon.BTCStaking.Effects

set_option autoImplicit false

namespace Babylon.Finality

open Lib BTCStaking FinalityProviderDistInfo List

/-- A provider with a new amount of sats, unless it has none left. -/
def FinalityProviderDistInfo.bonded (fp : FinalityProviderDistInfo) (sats : Int) :
    Option FinalityProviderDistInfo :=
  if 0 < sats then some { fp with totalBondedSat := sats.toNat } else none

variable {fp fp' : FinalityProviderDistInfo}

theorem FinalityProviderDistInfo.bonded_eq_some_iff {sats : Int} :
    fp.bonded sats = some fp' ↔ 0 < sats ∧ fp' = { fp with totalBondedSat := sats.toNat } := by
  unfold bonded
  split <;> simp [*, eq_comm]

@[simp] theorem FinalityProviderDistInfo.withState_btcPk (fp : FinalityProviderDistInfo)
    (state : Option FinalityProviderState) : (fp.withState state).btcPk = fp.btcPk := by
  unfold withState
  split <;> rfl

@[simp] theorem FinalityProviderDistInfo.withState_totalBondedSat (fp : FinalityProviderDistInfo)
    (state : Option FinalityProviderState) :
    (fp.withState state).totalBondedSat = fp.totalBondedSat := by
  unfold withState
  split <;> rfl

@[simp] theorem FinalityProviderDistInfo.withState_isSlashed (fp : FinalityProviderDistInfo)
    (state : Option FinalityProviderState) : (fp.withState state).isSlashed = fp.isSlashed := by
  unfold withState
  split <;> rfl

variable {fps fps' : List FinalityProviderDistInfo}

theorem addIfBonded_ok_iff {delta : Int} :
    addIfBonded fps fp delta = .ok fps' ↔
      0 ≤ (fp.totalBondedSat : Int) + delta ∧
        fps' = fps ++ (fp.bonded (fp.totalBondedSat + delta)).toList := by
  simp only [addIfBonded, changeDeltaSats, ok_iff, Outcome.orPanic_ok_iff, bonded]
  by_cases hpos : 0 < (fp.totalBondedSat : Int) + delta
  · simp [hpos, eq_comm]
  · have hzero : ((fp.totalBondedSat : Int) + delta).toNat = 0 := by omega
    simp [hpos, hzero, eq_comm]

/-! ## The providers of the previous cache -/

section Cached

variable (states : KVStore BIP340PubKey FinalityProviderState) (deltas : KVStore BIP340PubKey Int)

/-- The sats of a provider after the events. -/
def nextSats (fp : FinalityProviderDistInfo) : Int :=
  fp.totalBondedSat + (deltas.get fp.btcPk).getD 0

/-- What becomes of a provider of the previous cache. -/
def updatedFp (fp : FinalityProviderDistInfo) : Option FinalityProviderDistInfo :=
  if states.get fp.btcPk = some .slashed then none
  else (fp.withState (states.get fp.btcPk)).bonded (nextSats deltas fp)

/-- The changes of sats that are left for providers outside of the previous cache. -/
def remainingDeltas (fps : List FinalityProviderDistInfo) : KVStore BIP340PubKey Int :=
  fps.foldl (fun deltas fp =>
    if states.get fp.btcPk = some .slashed then deltas else deltas.delete fp.btcPk) deltas

variable {states deltas}

theorem get_remainingDeltas (fps : List FinalityProviderDistInfo) (pk : BIP340PubKey) :
    (remainingDeltas states deltas fps).get pk =
      if pk ∈ fps.map (·.btcPk) ∧ states.get pk ≠ some .slashed then none else deltas.get pk := by
  unfold remainingDeltas
  induction fps generalizing deltas with
  | nil => simp
  | cons fp rest ih =>
    rw [foldl_cons, ih]
    by_cases hfp : states.get fp.btcPk = some .slashed
    · have hne : states.get pk ≠ some .slashed → pk ≠ fp.btcPk := by
        rintro hpk rfl
        exact hpk hfp
      by_cases hpk : states.get pk = some .slashed
      · simp [hfp, hpk]
      · simp [hfp, hpk, hne hpk]
    · rw [if_neg hfp, KVStore.get_delete]
      by_cases heq : pk = fp.btcPk
      · subst heq
        simp [hfp]
      · simp [heq]

theorem filterMap_cons_eq {A B : Type} (f : A → Option B) (a : A) (rest : List A) :
    (a :: rest).filterMap f = (f a).toList ++ rest.filterMap f := by
  cases h : f a <;> simp [h]

theorem nextSats_delete {other : FinalityProviderDistInfo} (h : fp.btcPk ≠ other.btcPk) :
    nextSats (deltas.delete other.btcPk) fp = nextSats deltas fp := by
  rw [nextSats, KVStore.get_delete, if_neg h, nextSats]

/-- The loop over the previous cache: each provider is looked at once, so the changes it
finds are those of the events. -/
theorem foldOutcome_updateCachedFp_ok_iff (hnd : (fps.map (·.btcPk)).Nodup)
    {out : List FinalityProviderDistInfo}
    {result : List FinalityProviderDistInfo × KVStore BIP340PubKey Int} :
    foldOutcome (updateCachedFp states) (out, deltas) fps = .ok result ↔
      (∀ fp ∈ fps, states.get fp.btcPk ≠ some .slashed → 0 ≤ nextSats deltas fp) ∧
        result = (out ++ fps.filterMap (updatedFp states deltas),
          remainingDeltas states deltas fps) := by
  induction fps generalizing out deltas with
  | nil => simp [foldOutcome, remainingDeltas, eq_comm]
  | cons fp rest ih =>
    obtain ⟨hfp, hrest⟩ := nodup_cons.mp hnd
    have ho : ∀ fp' ∈ rest, fp'.btcPk ≠ fp.btcPk := by
      intro fp' hmem heq
      exact hfp (mem_map.mpr ⟨fp', hmem, heq⟩)
    simp only [foldOutcome, bind_ok_iff, updateCachedFp]
    by_cases hsl : states.get fp.btcPk = some .slashed
    · have hnone : updatedFp states deltas fp = none := by rw [updatedFp, if_pos hsl]
      simp [hsl, ih hrest, hnone, remainingDeltas]
    · have hsats : ∀ fp' ∈ rest, nextSats (deltas.delete fp.btcPk) fp' = nextSats deltas fp' :=
        fun fp' hmem => nextSats_delete (ho fp' hmem)
      have hmap : rest.filterMap (updatedFp states (deltas.delete fp.btcPk))
          = rest.filterMap (updatedFp states deltas) :=
        filterMap_congr fun fp' hmem => by rw [updatedFp, nextSats_delete (ho fp' hmem), updatedFp]
      have hhead : updatedFp states deltas fp
          = (fp.withState (states.get fp.btcPk)).bonded (nextSats deltas fp) := by
        rw [updatedFp, if_neg hsl]
      have hremaining : remainingDeltas states deltas (fp :: rest)
          = remainingDeltas states (deltas.delete fp.btcPk) rest := by
        rw [remainingDeltas, foldl_cons, if_neg hsl, remainingDeltas]
      have hnext : (fp.totalBondedSat : Int) + (deltas.get fp.btcPk).getD 0
          = nextSats deltas fp := rfl
      simp only [if_neg hsl, ok_iff, addIfBonded_ok_iff, withState_totalBondedSat, forall_mem_cons,
        hremaining, hnext, filterMap_cons_eq, hhead]
      constructor
      · rintro ⟨_, ⟨_, ⟨hnn, rfl⟩, rfl⟩, hloop⟩
        obtain ⟨hall, rfl⟩ := (ih hrest).mp hloop
        refine ⟨⟨fun _ => hnn, fun fp' hmem hne => hsats fp' hmem ▸ hall fp' hmem hne⟩, ?_⟩
        rw [hmap, append_assoc]
      · rintro ⟨⟨hnn, hall⟩, rfl⟩
        refine ⟨_, ⟨_, ⟨hnn hsl, rfl⟩, rfl⟩, (ih hrest).mpr ⟨?_, ?_⟩⟩
        · exact fun fp' hmem hne => (hsats fp' hmem).symm ▸ hall fp' hmem hne
        · rw [hmap, append_assoc]

end Cached

/-! ## New providers -/

variable {pk : BIP340PubKey}

section New

variable (bs : BTCStaking.State) (states : KVStore BIP340PubKey FinalityProviderState)
  (deltas : KVStore BIP340PubKey Int)

/-- The entry of a provider that was not in the previous cache. -/
def newFp (pk : BIP340PubKey) : Option FinalityProviderDistInfo :=
  match bs.finalityProviders.get pk with
  | some fp =>
    if fp.isSlashed then none
    else ((new fp).withState (states.get pk)).bonded ((deltas.get pk).getD 0)
  | none => none

/-- The provider is stored and, if it counts, gains sats. -/
def CanAddFp (pk : BIP340PubKey) : Prop :=
  ∃ fp, bs.finalityProviders.get pk = some fp ∧
    (fp.isSlashed = false → 0 ≤ (deltas.get pk).getD 0)

variable {bs states deltas}

theorem addNewFp_ok_iff :
    addNewFp bs states deltas fps pk = .ok fps' ↔
      CanAddFp bs deltas pk ∧ fps' = fps ++ (newFp bs states deltas pk).toList := by
  simp only [addNewFp, BTCStaking.State.getFinalityProvider, ok_iff, Outcome.orPanic_ok_iff,
    CanAddFp, newFp]
  constructor
  · rintro ⟨fp, hfp, h⟩
    rw [hfp]
    cases hsl : fp.isSlashed with
    | true =>
      simp only [hsl, if_true, pure_ok_iff] at h
      exact ⟨⟨fp, rfl, by simp [hsl]⟩, by simp [h, hsl]⟩
    | false =>
      simp only [hsl, Bool.false_eq_true, if_false, addIfBonded_ok_iff,
        withState_totalBondedSat, new, Nat.cast_zero, zero_add] at h
      exact ⟨⟨fp, rfl, fun _ => h.1⟩, by simpa [hsl, new] using h.2⟩
  · rintro ⟨⟨fp, hfp, hnn⟩, rfl⟩
    refine ⟨fp, hfp, ?_⟩
    rw [hfp]
    cases hsl : fp.isSlashed with
    | true => simp [hsl, pure_ok_iff]
    | false =>
      simp only [hsl, Bool.false_eq_true, if_false, addIfBonded_ok_iff,
        withState_totalBondedSat, new, Nat.cast_zero, zero_add, and_true]
      exact hnn hsl

theorem foldOutcome_addNewFp_ok_iff {pks : List BIP340PubKey} :
    foldOutcome (addNewFp bs states deltas) fps pks = .ok fps' ↔
      (∀ pk ∈ pks, CanAddFp bs deltas pk) ∧
        fps' = fps ++ pks.filterMap (newFp bs states deltas) := by
  refine foldOutcome_append_iff ?_
  intro out pk out'
  exact addNewFp_ok_iff

end New

/-! ## The new distribution -/

/-- The providers outside of the previous cache that the code looks at. -/
def newFpKeys (states : KVStore BIP340PubKey FinalityProviderState)
    (deltas : KVStore BIP340PubKey Int) (dc : VotingPowerDistCache) : List BIP340PubKey :=
  (remainingDeltas states deltas dc.finalityProviders).keys.filter fun pk =>
    states.get pk ≠ some .slashed

variable {dc : VotingPowerDistCache}

variable {states : KVStore BIP340PubKey FinalityProviderState} {deltas : KVStore BIP340PubKey Int}

theorem mem_newFpKeys : pk ∈ newFpKeys states deltas dc ↔
      pk ∉ dc.finalityProviders.map (·.btcPk) ∧ states.get pk ≠ some .slashed ∧
        ∃ delta, deltas.get pk = some delta := by
  rw [newFpKeys, mem_filter, KVStore.mem_keys, decide_eq_true_eq]
  simp only [get_remainingDeltas]
  by_cases hsl : states.get pk = some .slashed
  · simp [hsl]
  · by_cases hmem : pk ∈ dc.finalityProviders.map (·.btcPk)
    · simp [hmem, hsl]
    · simp [hmem, hsl]

/-- The providers of the new cache. -/
def nextFps (bs : BTCStaking.State) (state : ProcessingState) (dc : VotingPowerDistCache) :
    List FinalityProviderDistInfo :=
  dc.finalityProviders.filterMap (updatedFp state.fpStatesByBtcPk state.deltaSatsByFpBtcPk) ++
    (newFpKeys state.fpStatesByBtcPk state.deltaSatsByFpBtcPk dc).filterMap
      (newFp bs state.fpStatesByBtcPk state.deltaSatsByFpBtcPk)

/-- No provider is left with a negative amount of sats, and all of them are known. -/
structure Applicable (bs : BTCStaking.State) (state : ProcessingState)
    (dc : VotingPowerDistCache) : Prop where
  cached : ∀ fp ∈ dc.finalityProviders, state.fpStatesByBtcPk.get fp.btcPk ≠ some .slashed →
    0 ≤ nextSats state.deltaSatsByFpBtcPk fp
  added : ∀ pk ∈ newFpKeys state.fpStatesByBtcPk state.deltaSatsByFpBtcPk dc,
    CanAddFp bs state.deltaSatsByFpBtcPk pk

variable {bs : BTCStaking.State}

theorem processAllPowerDistUpdateEvents_ok_iff {lastBTCTip curBTCTip : Nat}
    (hnd : (dc.finalityProviders.map (·.btcPk)).Nodup) {newDc : VotingPowerDistCache}
    {final : ProcessingState} :
    processAllPowerDistUpdateEvents bs dc lastBTCTip curBTCTip = .ok (newDc, final) ↔
      ∃ state, processAllEvents bs dc lastBTCTip curBTCTip = .ok state ∧
        Applicable bs state dc ∧
        newDc = .withFinalityProviders (nextFps bs state dc) ∧
        final = { state with
          deltaSatsByFpBtcPk := remainingDeltas state.fpStatesByBtcPk state.deltaSatsByFpBtcPk
            dc.finalityProviders } := by
  simp only [processAllPowerDistUpdateEvents, ok_iff]
  refine exists_congr fun state => and_congr_right fun _ => ?_
  let states := state.fpStatesByBtcPk
  let deltas := state.deltaSatsByFpBtcPk
  -- a provider outside of the previous cache keeps its change
  have hget : ∀ pk ∈ newFpKeys states deltas dc,
      (remainingDeltas states deltas dc.finalityProviders).get pk = deltas.get pk := by
    intro pk hpk
    rw [get_remainingDeltas, if_neg fun h => (mem_newFpKeys.mp hpk).1 h.1]
  have hcan : (∀ pk ∈ newFpKeys states deltas dc,
      CanAddFp bs (remainingDeltas states deltas dc.finalityProviders) pk) ↔
      ∀ pk ∈ newFpKeys states deltas dc, CanAddFp bs deltas pk := by
    refine forall₂_congr fun pk hpk => ?_
    rw [CanAddFp, hget pk hpk, CanAddFp]
  have hnew : (newFpKeys states deltas dc).filterMap
      (newFp bs states (remainingDeltas states deltas dc.finalityProviders)) =
      (newFpKeys states deltas dc).filterMap (newFp bs states deltas) := by
    refine filterMap_congr fun pk hpk => ?_
    rw [newFp, hget pk hpk, newFp]
  constructor
  · rintro ⟨result, hchd, fps, hadd, heq⟩
    obtain ⟨hnn, rfl⟩ := (foldOutcome_updateCachedFp_ok_iff hnd).mp hchd
    obtain ⟨hall, rfl⟩ := foldOutcome_addNewFp_ok_iff.mp hadd
    cases heq
    exact ⟨⟨hnn, hcan.mp hall⟩, congrArg _ (congrArg _ hnew), rfl⟩
  · rintro ⟨happlicable, rfl, rfl⟩
    refine ⟨_, (foldOutcome_updateCachedFp_ok_iff hnd).mpr ⟨happlicable.cached, rfl⟩, _,
      foldOutcome_addNewFp_ok_iff.mpr ⟨hcan.mpr happlicable.added, rfl⟩, ?_⟩
    exact congrArg (fun fps => (VotingPowerDistCache.withFinalityProviders fps, _))
      (congrArg _ hnew)

theorem updatedFp_eq_some_iff :
    updatedFp states deltas fp = some fp' ↔ states.get fp.btcPk ≠ some .slashed ∧
      0 < nextSats deltas fp ∧ fp' = { fp.withState (states.get fp.btcPk) with
        totalBondedSat := (nextSats deltas fp).toNat } := by
  unfold updatedFp
  split <;> simp [*, bonded_eq_some_iff]

theorem newFp_eq_some_iff :
    newFp bs states deltas pk = some fp' ↔ ∃ fp, bs.finalityProviders.get pk = some fp ∧
      fp.isSlashed = false ∧ 0 < (deltas.get pk).getD 0 ∧
        fp' = { (new fp).withState (states.get pk) with
          totalBondedSat := ((deltas.get pk).getD 0).toNat } := by
  unfold newFp
  split
  case h_1 fp hfp => cases hsl : fp.isSlashed <;> simp [hfp, hsl, bonded_eq_some_iff]
  case h_2 hnone => simp [hnone]

/-- An entry of the new cache is one of the previous cache with another amount of sats, or that of
a provider which was not in it. -/
theorem mem_nextFps {state : ProcessingState} : fp' ∈ nextFps bs state dc ↔
      (∃ fp ∈ dc.finalityProviders,
        updatedFp state.fpStatesByBtcPk state.deltaSatsByFpBtcPk fp = some fp') ∨
      ∃ pk, pk ∉ dc.finalityProviders.map (·.btcPk) ∧
        state.fpStatesByBtcPk.get pk ≠ some .slashed ∧
        newFp bs state.fpStatesByBtcPk state.deltaSatsByFpBtcPk pk = some fp' := by
  rw [nextFps, mem_append, mem_filterMap, mem_filterMap]
  refine or_congr_right (exists_congr fun pk => ?_)
  rw [mem_newFpKeys, and_assoc, and_assoc]
  refine and_congr_right fun _ => and_congr_right fun _ => and_iff_right_of_imp fun h => ?_
  -- a provider without a change of sats has no entry
  obtain ⟨fp, -, -, hpos, -⟩ := newFp_eq_some_iff.mp h
  cases hget : state.deltaSatsByFpBtcPk.get pk with
  | none => simp [hget] at hpos
  | some delta => exact ⟨delta, rfl⟩

/-- Mapping each key of a list to at most one entry with that key keeps keys different. -/
theorem nodup_map_filterMap {A : Type} {key : A → BIP340PubKey}
    {f : A → Option FinalityProviderDistInfo} {items : List A}
    (hf : ∀ a fp, f a = some fp → fp.btcPk = key a) (hnd : (items.map key).Nodup) :
    ((items.filterMap f).map (·.btcPk)).Nodup := by
  refine Nodup.sublist ?_ hnd
  induction items with
  | nil => simp
  | cons a rest ih =>
    have hrest := ih (nodup_cons.mp hnd).2
    cases hfa : f a with
    | none =>
      rw [filterMap_cons_none hfa, map_cons]
      exact hrest.cons _
    | some fp =>
      rw [filterMap_cons_some hfa, map_cons, map_cons, hf a fp hfa]
      exact hrest.cons_cons _

theorem updatedFp_key (h : updatedFp states deltas fp = some fp') : fp'.btcPk = fp.btcPk := by
  obtain ⟨-, -, rfl⟩ := updatedFp_eq_some_iff.mp h
  simp

theorem newFp_key (hk : bs.ProvidersKeyed)
    (h : newFp bs states deltas pk = some fp') : fp'.btcPk = pk := by
  obtain ⟨fp, hfp, -, -, rfl⟩ := newFp_eq_some_iff.mp h
  simpa [new] using hk pk fp hfp

/-- The providers of the new cache are different. -/
theorem nextFps_nodup {state : ProcessingState} (hk : bs.ProvidersKeyed)
    (hnd : (dc.finalityProviders.map (·.btcPk)).Nodup) :
    ((nextFps bs state dc).map (·.btcPk)).Nodup := by
  rw [nextFps, map_append, nodup_append]
  refine ⟨nodup_map_filterMap (fun _ _ => updatedFp_key) hnd,
    nodup_map_filterMap (fun _ _ => newFp_key hk)
      (by simpa [newFpKeys] using (KVStore.nodup_keys _).filter _), ?_⟩
  rintro pk hpk _ hpk' rfl
  obtain ⟨fp', hfp', rfl⟩ := mem_map.mp hpk
  obtain ⟨fp, hfp, hupd⟩ := mem_filterMap.mp hfp'
  obtain ⟨fp'', hfp'', heq⟩ := mem_map.mp hpk'
  obtain ⟨pk, hnew, hadd⟩ := mem_filterMap.mp hfp''
  refine (mem_newFpKeys.mp hnew).1 (mem_map.mpr ⟨fp, hfp, ?_⟩)
  rw [← updatedFp_key hupd, ← heq, newFp_key hk hadd]

end Babylon.Finality
