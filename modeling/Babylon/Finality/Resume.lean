/-
  What a proposal to resume finality does to the distribution caches and the
  voting power tables of the heights since the halting height.

  The cache of a height is ranked again with its old number of active providers.
  The active providers that are not named stay active, and each place that becomes
  free is filled by a provider that was not active before, if one is eligible.
-/
import Babylon.Finality.Effects

set_option autoImplicit false

namespace Babylon.Finality

open Lib BTCStaking KVStore VotingPowerDistCache List

variable {names : List HexString} {dc : VotingPowerDistCache}

/-! ## The rewritten cache -/

@[simp] theorem jailInCache_btcPk (names : List HexString) (fp : FinalityProviderDistInfo) :
    (jailInCache names fp).btcPk = fp.btcPk := by
  unfold jailInCache
  split <;> rfl

variable {fp : FinalityProviderDistInfo}

theorem jailInCache_of_not (h : shouldJail names fp = false) : jailInCache names fp = fp := by
  simp [jailInCache, h]

theorem eligible_jailInCache (fp : FinalityProviderDistInfo) :
    (jailInCache names fp).eligible = (fp.eligible && !shouldJail names fp) := by
  unfold jailInCache
  cases hnm : shouldJail names fp with
  | false => simp
  | true =>
    cases hsl : fp.isSlashed with
    | true => simp [FinalityProviderDistInfo.eligible, hsl]
    | false => simp [FinalityProviderDistInfo.eligible]

/-- The providers that may be active after the proposal. -/
def remainsEligible (names : List HexString) (fp : FinalityProviderDistInfo) : Bool :=
  fp.eligible && !shouldJail names fp

/-- The providers that take the places of named active ones. -/
def promoted (names : List HexString) (dc : VotingPowerDistCache) : List FinalityProviderDistInfo :=
  (dc.getInactiveFinalityProviderSet.filter (remainsEligible names)).take
    (dc.getActiveFinalityProviderSet.filter (shouldJail names)).length

/-- Nobody is promoted if no active provider is named, or nobody could take its place. -/
theorem promoted_eq_nil_iff : promoted names dc = [] ↔
    (∀ fp ∈ dc.getActiveFinalityProviderSet, shouldJail names fp = false) ∨
      ∀ fp ∈ dc.getInactiveFinalityProviderSet, remainsEligible names fp = false := by
  rw [promoted, take_eq_nil_iff, length_eq_zero_iff, filter_eq_nil_iff, filter_eq_nil_iff]
  simp only [Bool.not_eq_true]

section

variable (hwf : dc.WellFormed)

include hwf

theorem rewriteCache_wellFormed : (rewriteCache names dc).WellFormed := by
  refine applyActive_wellFormed ?_
  have hkeys : ((dc.finalityProviders.map (jailInCache names)).map (·.btcPk))
      = dc.finalityProviders.map (·.btcPk) := by
    rw [map_map]
    exact map_congr_left fun fp _ => jailInCache_btcPk names fp
  show ((dc.finalityProviders.map (jailInCache names)).map (·.btcPk)).Nodup
  rw [hkeys]
  exact hwf.nodup

/-- The active providers are the first of those that remain eligible, in the old order. -/
theorem rewriteCache_active_eq_take :
    (rewriteCache names dc).getActiveFinalityProviderSet
      = (dc.finalityProviders.filter (remainsEligible names)).take dc.numActiveFps := by
  -- jailing changes none of the providers that remain eligible
  have hfilter : (dc.finalityProviders.map (jailInCache names)).filter (·.eligible)
      = dc.finalityProviders.filter (remainsEligible names) := by
    rw [filter_map]
    have hcomp : ((·.eligible) ∘ jailInCache names) = remainsEligible names :=
      funext fun fp => eligible_jailInCache fp
    rw [hcomp]
    calc (dc.finalityProviders.filter (remainsEligible names)).map (jailInCache names)
        = (dc.finalityProviders.filter (remainsEligible names)).map id := by
          refine map_congr_left fun fp hfp => jailInCache_of_not ?_
          have hremains := (mem_filter.mp hfp).2
          simp only [remainsEligible, Bool.and_eq_true, Bool.not_eq_true'] at hremains
          exact hremains.2
      _ = dc.finalityProviders.filter (remainsEligible names) := map_id _
  have hperm : ((rewriteCache names dc).finalityProviders.filter (·.eligible)).Perm
      (dc.finalityProviders.filter (remainsEligible names)) :=
    hfilter ▸ applyActive_perm.filter _
  have hsame : (rewriteCache names dc).finalityProviders.filter (·.eligible)
      = dc.finalityProviders.filter (remainsEligible names) := by
    refine Ranked.eq_of_perm (applyActive_ranked.filter _) (hwf.ranked.filter _) hperm ?_
    intro i hi j hj hkey
    have hmem : ∀ {fp}, fp ∈ (rewriteCache names dc).finalityProviders.filter (·.eligible) →
        fp ∈ dc.finalityProviders := fun h => (mem_filter.mp (hperm.mem_iff.mp h)).1
    exact inj_on_of_nodup_map hwf.nodup (hmem hi) (hmem hj)
      (FinalityProviderDistInfo.btcPk_eq_of_rankKey_eq hkey)
  rw [← hsame]
  exact applyActive_active

/-- The active providers that are not named stay active, and the others are replaced. -/
theorem rewriteCache_active :
    (rewriteCache names dc).getActiveFinalityProviderSet
      = dc.getActiveFinalityProviderSet.filter (fun fp => !shouldJail names fp) ++
        promoted names dc := by
  have hkept : dc.getActiveFinalityProviderSet.filter (remainsEligible names)
      = dc.getActiveFinalityProviderSet.filter (fun fp => !shouldJail names fp) := by
    refine filter_congr fun fp hfp => ?_
    rw [remainsEligible, hwf.eligible fp hfp, Bool.true_and]
  have hsplit : dc.finalityProviders.filter (remainsEligible names)
      = dc.getActiveFinalityProviderSet.filter (fun fp => !shouldJail names fp) ++
        dc.getInactiveFinalityProviderSet.filter (remainsEligible names) := by
    rw [← hkept, ← filter_append, dc.active_append_inactive]
  have hlen : dc.getActiveFinalityProviderSet.length = dc.numActiveFps := by
    rw [getActiveFinalityProviderSet, length_take]
    exact Nat.min_eq_left dc.active_le
  have hcnt : (dc.getActiveFinalityProviderSet.filter (shouldJail names)).length +
      (dc.getActiveFinalityProviderSet.filter (fun fp => !shouldJail names fp)).length
        = dc.numActiveFps := by
    rw [← hlen, ← countP_eq_length_filter, ← countP_eq_length_filter]
    rw [length_eq_countP_add_countP (shouldJail names)]
    simp
  rw [rewriteCache_active_eq_take hwf, hsplit, take_append, promoted]
  congr 1
  · exact take_of_length_le (by omega)
  · congr 1
    omega

theorem mem_rewriteCache_active_of_not (hfp : fp ∈ dc.getActiveFinalityProviderSet)
    (hnot : shouldJail names fp = false) :
    fp ∈ (rewriteCache names dc).getActiveFinalityProviderSet := by
  rw [rewriteCache_active hwf]
  exact mem_append_left _ (mem_filter.mpr ⟨hfp, by simp [hnot]⟩)

end

theorem mem_rewriteCache :
    fp ∈ (rewriteCache names dc).finalityProviders ↔
      ∃ old ∈ dc.finalityProviders, jailInCache names old = fp := by
  refine applyActive_perm.mem_iff.trans ?_
  exact mem_map

/-- The providers that become inactive were active, and are jailed in the rewritten cache. -/
theorem mem_findNewInactive_rewriteCache (hwf : dc.WellFormed)
    (hfp : fp ∈ (rewriteCache names dc).findNewInactiveFinalityProviders dc) :
    fp.btcPk ∈ dc.activeFpsByBtcPk ∧ fp.isJailed = true := by
  have hmem := (rankBy_perm _ _).mem_iff.mp hfp
  rcases mem_append.mp hmem with hina | hrmv
  · obtain ⟨hnew, hold⟩ := mem_filter.mp hina
    rw [decide_eq_true_eq] at hold
    obtain ⟨old, hchd, rfl⟩ := mem_rewriteCache.mp (mem_of_mem_drop hnew)
    have hact : old ∈ dc.getActiveFinalityProviderSet := by
      rw [← dc.active_append_inactive] at hchd
      rcases mem_append.mp hchd with h | h
      · exact h
      · exact absurd (mem_map.mpr ⟨old, h, (jailInCache_btcPk names old).symm⟩) hold
    refine ⟨mem_map.mpr ⟨old, hact, (jailInCache_btcPk names old).symm⟩, ?_⟩
    cases hnm : shouldJail names old with
    | false =>
      -- a provider that is not named would have stayed active
      have hstill := mem_rewriteCache_active_of_not hwf hact hnm
      exact absurd (jailInCache_btcPk names old).symm
        (active_disjoint (rewriteCache_wellFormed hwf).nodup hstill hnew)
    | true =>
      have helig := hwf.eligible old hact
      have hsl : old.isSlashed = false := by
        simp only [FinalityProviderDistInfo.eligible, Bool.and_eq_true, Bool.not_eq_true'] at helig
        exact helig.2
      simp [jailInCache, hnm, hsl]
  · obtain ⟨hact, hgone⟩ := mem_filter.mp hrmv
    rw [decide_eq_true_eq] at hgone
    refine absurd ?_ hgone
    have hin : jailInCache names fp ∈ (rewriteCache names dc).finalityProviders :=
      mem_rewriteCache.mpr ⟨fp, mem_of_mem_take hact, rfl⟩
    exact mem_map.mpr ⟨_, hin, jailInCache_btcPk names fp⟩

/-! ## One height -/

variable {s : State} {haltingHeight height : Nat} {name : HexString}

section Height

variable {I : Type} {ext : External I} {env : Env} {w w' : Stores I}

/-- The hooks that the rewritten cache of the current height calls: first for the providers
that become active, then for those that become inactive. -/
def resumeHooks (ext : External I) (header : HeaderInfo) (names : List HexString)
    (dc : VotingPowerDistCache) (i : I) : Option I := do
  let i ← ((rewriteCache names dc).findNewActiveFinalityProviders dc).foldlM
    (fun i fp => ext.afterBbnFpEntersActiveSet header i fp.addr) i
  ((rewriteCache names dc).findNewInactiveFinalityProviders dc).foldlM
    (fun i fp => ext.afterBbnFpRemovedFromActiveSet header i fp.addr) i

theorem resumeProcessingState_prevActive (names : List HexString) (dc : VotingPowerDistCache) :
    (resumeProcessingState names dc).prevActiveFpByBtcPk = dc.activeFpsByBtcPk := by
  have hfill : (ProcessingState.new.fillByPrevVpDstCache dc).prevActiveFpByBtcPk
      = dc.activeFpsByBtcPk := by
    refine foldlRecOn (motive := fun ps : ProcessingState =>
      ps.prevActiveFpByBtcPk = dc.activeFpsByBtcPk) _ _ rfl ?_
    intro ps hps fp _
    unfold ProcessingState.addStateForFp
    split <;> split <;> exact hps
  exact foldlRecOn (motive := fun ps : ProcessingState =>
    ps.prevActiveFpByBtcPk = dc.activeFpsByBtcPk) _ _ hfill fun _ hps _ _ => hps

/-- Without hooks, a jailed provider needs no processing state. -/
theorem processInactiveFp_of_jailed (hj : fp.isJailed = true) :
    processInactiveFp ext env none false w fp = .ok w := by
  simp [processInactiveFp, callRemovedHook, isFpSlashedOrJailed, hj]

/-- At the current height, the updates succeed with the hooks. -/
theorem handleFPStateUpdates_iff_hooks (hwf : dc.WellFormed) {i : I} :
    (∃ w', handleFPStateUpdates ext env { w with finality := s }
        (some (resumeProcessingState names dc)) dc (rewriteCache names dc) true = .ok w' ∧
        w'.external = i) ↔
      resumeHooks ext env.header names dc w.external = some i := by
  have hact : ∀ x j, (∃ y, foldOutcome (processActiveFp ext env true) x
      ((rewriteCache names dc).findNewActiveFinalityProviders dc) = .ok y ∧ y.external = j) ↔
      ((rewriteCache names dc).findNewActiveFinalityProviders dc).foldlM
        (fun i fp => ext.afterBbnFpEntersActiveSet env.header i fp.addr) x.external = some j :=
    foldOutcome_follows fun x j fp _ => by simp [processActiveFp, ok_iff, -bind_pure_comp]
  have hina : ∀ x j, (∃ y, foldOutcome (processInactiveFp ext env
      (some (resumeProcessingState names dc)) true) x
      ((rewriteCache names dc).findNewInactiveFinalityProviders dc) = .ok y ∧ y.external = j) ↔
      ((rewriteCache names dc).findNewInactiveFinalityProviders dc).foldlM
        (fun i fp => ext.afterBbnFpRemovedFromActiveSet env.header i fp.addr) x.external
          = some j := by
    refine foldOutcome_follows fun x j fp hfp => ?_
    obtain ⟨hprev, hjailed⟩ := mem_findNewInactive_rewriteCache hwf hfp
    rw [← resumeProcessingState_prevActive names] at hprev
    simp [processInactiveFp, callRemovedHook, isFpSlashedOrJailed, hjailed,
      ProcessingState.isFpInPrevActiveSet, hprev, ok_iff]
  simp only [handleFPStateUpdates, resumeHooks, bind_ok_iff, Option.bind_eq_bind,
    Option.bind_eq_some_iff]
  constructor
  · rintro ⟨w', ⟨v, hv, hw'⟩, hi⟩
    exact ⟨v.external, (hact { w with finality := s } _).mp ⟨v, hv, rfl⟩,
      (hina v i).mp ⟨w', hw', hi⟩⟩
  · rintro ⟨j, hj, hi⟩
    obtain ⟨v, hv, rfl⟩ := (hact { w with finality := s } j).mpr hj
    obtain ⟨w', hw', hi⟩ := (hina v i).mpr hi
    exact ⟨w', ⟨v, hv, hw'⟩, hi⟩

/-- At an earlier height, the updates call no hook and succeed. -/
theorem handleFPStateUpdates_past (hwf : dc.WellFormed) :
    ∃ w', handleFPStateUpdates ext env w none dc (rewriteCache names dc) false = .ok w' ∧
      w'.external = w.external := by
  have hact : ∀ fps : List FinalityProviderDistInfo,
      ∃ v, foldOutcome (processActiveFp ext env false) w fps = .ok v ∧ v.external = w.external :=
    fun fps => foldOutcome_succeeds (fun x : Stores I => x.external = w.external)
      (fun x fp _ hx => ⟨_, rfl, hx⟩) rfl
  obtain ⟨v, hv, hext⟩ := hact ((rewriteCache names dc).findNewActiveFinalityProviders dc)
  have hina : ∃ w', foldOutcome (processInactiveFp ext env none false) v
      ((rewriteCache names dc).findNewInactiveFinalityProviders dc) = .ok w' ∧
        w'.external = w.external := by
    refine foldOutcome_succeeds (fun x : Stores I => x.external = w.external) ?_ hext
    intro x fp hfp hx
    exact ⟨x, processInactiveFp_of_jailed (mem_findNewInactive_rewriteCache hwf hfp).2, hx⟩
  obtain ⟨w', hw', hext'⟩ := hina
  exact ⟨w', by simp [handleFPStateUpdates, hv, hw'], hext'⟩

/-- The height has a cache and, at the current height, its hooks succeed. -/
def CanResume (ext : External I) (env : Env) (names : List HexString) (w : Stores I)
    (height : Nat) : Prop :=
  ∃ dc, w.finality.getVotingPowerDistCache height = some dc ∧
    (height = env.header.height → (resumeHooks ext env.header names dc w.external).isSome = true)

section

variable (hwf : ∀ dc, w.finality.votingPowerDistCache.get height = some dc → dc.WellFormed)

include hwf

theorem resumeAtHeight_succeeds_iff :
    (∃ w', resumeAtHeight ext env names w height = .ok w') ↔ CanResume ext env names w height := by
  unfold CanResume
  cases hcache : w.finality.getVotingPowerDistCache height with
  | none => simp [resumeAtHeight, hcache]
  | some dc =>
    have hdc := hwf dc (Option.filter_eq_some_iff.mp hcache).1
    simp only [resumeAtHeight, hcache, orThrow_some, ok_bind, Option.some.injEq, exists_eq_left']
    by_cases hcur : height = env.header.height
    · simp only [hcur, decide_true, if_true, true_imp_iff, Option.isSome_iff_exists]
      constructor
      · rintro ⟨w', hw'⟩
        exact ⟨_, (handleFPStateUpdates_iff_hooks hdc).mp ⟨w', hw', rfl⟩⟩
      · rintro ⟨i, hi⟩
        exact ((handleFPStateUpdates_iff_hooks hdc).mpr hi).imp fun w' hw' => hw'.1
    · simp only [hcur, decide_false, Bool.false_eq_true, if_false, false_imp_iff, iff_true]
      obtain ⟨w', hw', -⟩ := handleFPStateUpdates_past hdc
      exact ⟨w', hw'⟩

theorem resumeAtHeight_external
    (hpast : height ≠ env.header.height) (h : resumeAtHeight ext env names w height = .ok w') :
    w'.external = w.external := by
  simp only [resumeAtHeight, ok_iff] at h
  obtain ⟨dc, hcache, h⟩ := h
  have hdc := hwf dc (Option.filter_eq_some_iff.mp hcache).1
  simp only [hpast, decide_false, Bool.false_eq_true, if_false] at h
  obtain ⟨v, hv, hext⟩ := handleFPStateUpdates_past hdc
  obtain rfl : v = w' := Except.ok.inj (hv.symm.trans h)
  exact hext

end

/-! ## All heights -/

theorem State.get_of_getVotingPowerDistCache (h : s.getVotingPowerDistCache height = some dc) :
    s.votingPowerDistCache.get height = some dc :=
  (Option.filter_eq_some_iff.mp h).1

/-- The cache and the table of a height are as before. -/
structure KeepsHeight (s t : State) (height : Nat) : Prop where
  cache : t.votingPowerDistCache.get height = s.votingPowerDistCache.get height
  table : t.votingPower.get height = s.votingPower.get height

/-- The cache of a height is rewritten, and its named providers lose their power. -/
structure RewritesHeight (names : List HexString) (s t : State) (height : Nat)
    (dc : VotingPowerDistCache) : Prop where
  cached : s.getVotingPowerDistCache height = some dc
  cache : t.votingPowerDistCache.get height = some (rewriteCache names dc)
  power : ∀ pk, t.getVotingPower pk height =
    if pk ∈ dc.finalityProviders.map (·.btcPk) ∧ pk.marshalHex ∈ names then 0
    else s.getVotingPower pk height

variable {t : State}

theorem KeepsHeight.getVotingPower (h : KeepsHeight s t height) (pk : BIP340PubKey) :
    t.getVotingPower pk height = s.getVotingPower pk height := by
  rw [State.getVotingPower, under, h.table, State.getVotingPower, under]

theorem KeepsHeight.getVotingPowerDistCache (h : KeepsHeight s t height) :
    t.getVotingPowerDistCache height = s.getVotingPowerDistCache height := by
  rw [State.getVotingPowerDistCache, h.cache, State.getVotingPowerDistCache]

theorem resumeAtHeight_rewrites
    (hwf : ∀ dc, w.finality.votingPowerDistCache.get height = some dc → dc.WellFormed)
    (h : resumeAtHeight ext env names w height = .ok w') :
    (∃ dc, RewritesHeight names w.finality w'.finality height dc) ∧
      ∀ other, other ≠ height → KeepsHeight w.finality w'.finality other := by
  obtain ⟨-, dc, hchd, tracker, bitmap, hfin⟩ := resumeAtHeight_ok h
  rw [State.clearVotingPower_eq] at hfin
  have hnd := (hwf dc (State.get_of_getVotingPowerDistCache hchd)).nodup
  refine ⟨⟨dc, hchd, ?_, ?_⟩, ?_⟩
  · rw [hfin]
    exact get_set_self _ _ _
  · intro pk
    rw [hfin]
    let zeros := (dc.finalityProviders.filter (shouldJail names)).map fun fp => (fp.btcPk, 0)
    show (((w.finality.votingPower.setMany height zeros).under height).get pk).getD 0 = _
    have hkeys : zeros.map Prod.fst
        = (dc.finalityProviders.filter (shouldJail names)).map (·.btcPk) := by
      rw [map_map]
      rfl
    split
    case isTrue hnm =>
      obtain ⟨fp, hfp, rfl⟩ := mem_map.mp hnm.1
      have hmem : (fp.btcPk, 0) ∈ zeros :=
        mem_map.mpr ⟨fp, mem_filter.mpr ⟨hfp, decide_eq_true hnm.2⟩, rfl⟩
      rw [get_under_setMany _ _ (hkeys ▸ hnd.sublist (filter_sublist.map _)) hmem]
      rfl
    case isFalse hnot =>
      rw [get_under_setMany_of_not_mem _ _ ?_]
      · rfl
      · rw [hkeys]
        intro hmem
        obtain ⟨fp, hfp, rfl⟩ := mem_map.mp hmem
        obtain ⟨hcache, hnm⟩ := mem_filter.mp hfp
        exact hnot ⟨mem_map_of_mem hcache, of_decide_eq_true hnm⟩
  · intro other hne
    rw [hfin]
    exact ⟨get_set_of_ne _ _ hne, get_setMany _ _ _ (.inl hne)⟩

/-- A cache that is not empty is not empty after the proposal. -/
theorem rewriteCache_ne_new (hwf : dc.WellFormed) (hne : dc ≠ new) :
    rewriteCache names dc ≠ new := by
  intro hnew
  refine hne ?_
  have hperm : (rewriteCache names dc).finalityProviders.Perm
      (dc.finalityProviders.map (jailInCache names)) := applyActive_perm
  have hlen := hperm.length_eq
  rw [hnew, length_map] at hlen
  have hemp : dc.finalityProviders = [] := length_eq_zero_iff.mp hlen.symm
  obtain ⟨total, fps, active, hle⟩ := dc
  obtain rfl : fps = [] := hemp
  obtain rfl : active = 0 := Nat.le_zero.mp hle
  obtain rfl : total = 0 := hwf.total
  rfl

theorem RewritesHeight.getVotingPowerDistCache (hwf : dc.WellFormed)
    (h : RewritesHeight names s t height dc) :
    t.getVotingPowerDistCache height = some (rewriteCache names dc) := by
  have hne := (Option.filter_eq_some_iff.mp h.cached).2
  rw [State.getVotingPowerDistCache, h.cache, Option.filter_eq_some_iff]
  exact ⟨rfl, decide_eq_true (rewriteCache_ne_new hwf (of_decide_eq_true hne))⟩

/-- All caches of a state are well formed. -/
def State.CachesWellFormed (s : State) : Prop :=
  ∀ height dc, s.votingPowerDistCache.get height = some dc → dc.WellFormed

theorem RewritesHeight.cachesWellFormed (hwf : s.CachesWellFormed)
    (h : RewritesHeight names s t height dc)
    (hkeeps : ∀ other, other ≠ height → KeepsHeight s t other) : t.CachesWellFormed := by
  intro other dc' hget
  by_cases heq : other = height
  · subst heq
    obtain rfl : rewriteCache names dc = dc' := Option.some.inj (h.cache.symm.trans hget)
    exact rewriteCache_wellFormed (hwf _ _ (State.get_of_getVotingPowerDistCache h.cached))
  · exact hwf other dc' ((hkeeps other heq).cache ▸ hget)

/-- The loop over the heights rewrites each of them and no other. -/
theorem foldOutcome_resumeAtHeight_ok {heights : List Nat} (hnd : heights.Nodup)
    (hwf : w.finality.CachesWellFormed)
    (h : foldOutcome (resumeAtHeight ext env names) w heights = .ok w') :
    (∀ height ∈ heights, ∃ dc, RewritesHeight names w.finality w'.finality height dc) ∧
      ∀ height, height ∉ heights → KeepsHeight w.finality w'.finality height := by
  induction heights generalizing w with
  | nil =>
    cases h
    exact ⟨fun _ hmem => absurd hmem not_mem_nil, fun _ _ => ⟨rfl, rfl⟩⟩
  | cons height rest ih =>
    simp only [foldOutcome, bind_ok_iff] at h
    obtain ⟨v, hv, hrest⟩ := h
    obtain ⟨hfr, hrestNodup⟩ := nodup_cons.mp hnd
    obtain ⟨⟨dc, hrw⟩, hkeeps⟩ := resumeAtHeight_rewrites (hwf height) hv
    obtain ⟨hall, hoth⟩ := ih hrestNodup (hrw.cachesWellFormed hwf hkeeps) hrest
    constructor
    · intro other hmem
      rcases mem_cons.mp hmem with rfl | hmem
      · -- the rest of the loop leaves this height alone
        have hsame := hoth other hfr
        exact ⟨dc, hrw.cached, hsame.cache.trans hrw.cache,
          fun pk => (hsame.getVotingPower pk).trans (hrw.power pk)⟩
      · have hsame := hkeeps other fun heq => hfr (heq ▸ hmem)
        obtain ⟨dc', hdc'⟩ := hall other hmem
        refine ⟨dc', hsame.getVotingPowerDistCache.symm.trans hdc'.cached, hdc'.cache, ?_⟩
        intro pk
        rw [hdc'.power pk, hsame.getVotingPower pk]
    · intro other hmem
      rw [mem_cons, not_or] at hmem
      obtain ⟨hne, hmem⟩ := hmem
      have hfirst := hkeeps other hne
      have hlast := hoth other hmem
      exact ⟨hlast.cache.trans hfirst.cache, hlast.table.trans hfirst.table⟩

/-- The loop runs to its end where all heights have a cache and the hooks of the current
height succeed. -/
theorem foldOutcome_resumeAtHeight_succeeds_iff {heights : List Nat} (hnd : heights.Nodup)
    (hwf : w.finality.CachesWellFormed) :
    (∃ w', foldOutcome (resumeAtHeight ext env names) w heights = .ok w') ↔
      ∀ height ∈ heights, CanResume ext env names w height := by
  refine foldOutcome_succeeds_iff (fun w : Stores I => w.finality.CachesWellFormed)
    (fun w height hwf => resumeAtHeight_succeeds_iff (hwf height)) ?_ hwf hnd
  -- once a height is rewritten, the others are as they were
  intro w first v hwf hv
  obtain ⟨⟨dc', hrw⟩, hkeeps⟩ := resumeAtHeight_rewrites (hwf first) hv
  refine ⟨hrw.cachesWellFormed hwf hkeeps, fun height hne => ?_⟩
  unfold CanResume
  rw [(hkeeps height hne.symm).getVotingPowerDistCache]
  refine exists_congr fun dc => and_congr_right fun _ => imp_congr_right fun hcur => ?_
  rw [resumeAtHeight_external (hwf first) (hcur ▸ hne) hv]

/-- A proposal rewrites the heights from the halting height to the current one. -/
theorem handleResumeFinalityProposal_rewrites (hwf : w.finality.CachesWellFormed)
    (h : handleResumeFinalityProposal ext env w names haltingHeight = .ok w') :
    (∀ height, haltingHeight ≤ height → height ≤ env.header.height →
      ∃ dc, RewritesHeight names w.finality w'.finality height dc) ∧
    ∀ height, ¬ (haltingHeight ≤ height ∧ height ≤ env.header.height) →
      KeepsHeight w.finality w'.finality height := by
  obtain ⟨v, hjail, hrsm⟩ := handleResumeFinalityProposal_ok h
  -- jailing only writes signing records
  obtain ⟨⟨tracker, bitmap, hfin⟩, -⟩ := foldOutcome_jails
    (fun _ _ _ hy => jailProposedFp_ok hy) hjail
  have hnd : (resumeHeights env haltingHeight).Nodup := nodup_range'
  have hwf' : v.finality.CachesWellFormed := by
    rw [hfin]
    exact hwf
  obtain ⟨hall, hoth⟩ := foldOutcome_resumeAtHeight_ok hnd hwf' hrsm
  rw [hfin] at hall hoth
  constructor
  · intro height hlow hhigh
    obtain ⟨dc, hdc⟩ := hall height (mem_resumeHeights.mpr ⟨hlow, hhigh⟩)
    exact ⟨dc, hdc.cached, hdc.cache, hdc.power⟩
  · intro height hout
    have hkeeps := hoth height fun hmem => hout (mem_resumeHeights.mp hmem)
    exact ⟨hkeeps.cache, hkeeps.table⟩

/-! ## The checks before the loop -/

/-- The proposal may name a provider: the name decodes to its key and is no voter, and the
provider exists and is jailed or slashed, or has a signing record. -/
def CanName (voters : List BIP340PubKey) (w : Stores I) (name : HexString) : Prop :=
  ∃ pk fp, newBIP340PubKeyFromHex name = .ok pk ∧
    name ∉ voters.map BIP340PubKey.marshalHex ∧
    w.btcStaking.finalityProviders.get pk = some fp ∧
    (fp.isJailed = true ∨ fp.isSlashed = true ∨
      (w.finality.finalityProviderSigningTracker.get pk).isSome = true)

variable {voters : List BIP340PubKey}

theorem jailProposedFp_succeeds_iff :
    (∃ w', jailProposedFp env voters w name = .ok w') ↔ CanName voters w name := by
  simp only [jailProposedFp_ok_iff]
  constructor
  · rintro ⟨w', pk, fp, hpk, hvoter, hfp, ⟨hdis, -⟩ | ⟨-, info, hinfo, -⟩⟩
    · rw [Bool.or_eq_true] at hdis
      exact ⟨pk, fp, hpk, hvoter, hfp, hdis.elim (fun h => .inr (.inl h)) .inl⟩
    · exact ⟨pk, fp, hpk, hvoter, hfp, .inr (.inr (by rw [hinfo]; rfl))⟩
  · rintro ⟨pk, fp, hpk, hvoter, hfp, h⟩
    cases hdis : fp.isSlashed || fp.isJailed with
    | true => exact ⟨w, pk, fp, hpk, hvoter, hfp, .inl ⟨hdis, rfl⟩⟩
    | false =>
      obtain ⟨hsl, hj⟩ := Bool.or_eq_false_iff.mp hdis
      rw [hsl, hj] at h
      obtain ⟨info, hinfo⟩ := Option.isSome_iff_exists.mp (by simpa using h)
      exact ⟨_, pk, fp, hpk, hvoter, hfp, .inr ⟨hdis, info, hinfo, rfl⟩⟩

/-- Jailing one provider does not change which providers may be named. -/
theorem jailProposedFp_canName_iff {other : HexString} (hk : w.btcStaking.ProvidersKeyed)
    (h : jailProposedFp env voters w name = .ok w') :
    CanName voters w' other ↔ CanName voters w other := by
  obtain ⟨pk, fp, -, -, hfp, ⟨-, rfl⟩ | ⟨-, info, hinfo, rfl⟩⟩ := jailProposedFp_ok_iff.mp h
  · exact Iff.rfl
  · unfold CanName
    refine exists_congr fun pk' => ?_
    show (∃ fp', _ ∧ _ ∧ (w.btcStaking.finalityProviders.set fp.btcPk
        { fp with jailed := true }).get pk' = some fp' ∧ (_ ∨ _ ∨
          ((w.finality.finalityProviderSigningTracker.set pk _).get pk').isSome = true)) ↔ _
    rw [hk pk fp hfp]
    by_cases heq : pk' = pk
    · subst heq
      rw [get_set_self, get_set_self, hfp, hinfo]
      constructor
      · rintro ⟨_, hpk, hvoter, -⟩
        exact ⟨fp, hpk, hvoter, rfl, .inr (.inr rfl)⟩
      · rintro ⟨_, hpk, hvoter, -⟩
        exact ⟨_, hpk, hvoter, rfl, .inl rfl⟩
    · rw [get_set_of_ne _ _ heq, get_set_of_ne _ _ heq]

/-- The provider is jailed or slashed. -/
def Disabled (bs : BTCStaking.State) (pk : BIP340PubKey) : Prop :=
  ∃ fp, bs.finalityProviders.get pk = some fp ∧ (fp.isJailed = true ∨ fp.isSlashed = true)

/-- One iteration disables the provider of the name, and enables none. -/
theorem jailProposedFp_disables (hk : w.btcStaking.ProvidersKeyed)
    (h : jailProposedFp env voters w name = .ok w') :
    (∀ pk, newBIP340PubKeyFromHex name = .ok pk → Disabled w'.btcStaking pk) ∧
      ∀ pk, Disabled w.btcStaking pk → Disabled w'.btcStaking pk := by
  obtain ⟨pk, fp, hpk, -, hfp, hcases⟩ := jailProposedFp_ok_iff.mp h
  rw [hpk]
  rcases hcases with ⟨hdis, rfl⟩ | ⟨-, info, hinfo, rfl⟩
  · refine ⟨?_, fun _ => id⟩
    rintro _ ⟨⟩
    rw [Bool.or_eq_true] at hdis
    exact ⟨fp, hfp, hdis.symm⟩
  · have hget : ∀ other, (jailNamed env w pk fp info).btcStaking.finalityProviders.get other =
        if other = pk then some { fp with jailed := true }
        else w.btcStaking.finalityProviders.get other := by
      intro other
      show (w.btcStaking.finalityProviders.set fp.btcPk _).get other = _
      rw [hk pk fp hfp, get_set]
    constructor
    · rintro _ ⟨⟩
      exact ⟨_, by rw [hget, if_pos rfl], .inl rfl⟩
    · rintro other ⟨fp', hfp', hdis⟩
      by_cases heq : other = pk
      · exact ⟨_, by rw [hget, if_pos heq], .inl rfl⟩
      · exact ⟨fp', by rw [hget, if_neg heq, hfp'], hdis⟩

/-- A proposal disables every provider that is named by some spelling of its key. -/
theorem handleResumeFinalityProposal_disables (hk : w.btcStaking.ProvidersKeyed)
    (h : handleResumeFinalityProposal ext env w names haltingHeight = .ok w') :
    ∀ name ∈ names, ∀ pk, newBIP340PubKeyFromHex name = .ok pk → Disabled w'.btcStaking pk := by
  obtain ⟨v, hjail, hrsm⟩ := handleResumeFinalityProposal_ok h
  rw [(foldOutcome_resumeAtHeight_tablesOnly hrsm).1]
  refine (foldOutcome_visited (fun visited x => x.btcStaking.ProvidersKeyed ∧
    ∀ name ∈ visited, ∀ pk, newBIP340PubKeyFromHex name = .ok pk → Disabled x.btcStaking pk)
    ?_ ⟨hk, fun _ hmem => absurd hmem not_mem_nil⟩ hjail).2
  intro visited name rest x y _ hx hy
  obtain ⟨hname, hkept⟩ := jailProposedFp_disables hx.1 hy
  refine ⟨(jailProposedFp_ok hy).2.keyed hx.1, fun other hmem pk hpk => ?_⟩
  rcases mem_append.mp hmem with hmem | hmem
  · exact hkept pk (hx.2 other hmem pk hpk)
  · exact hname pk (mem_singleton.mp hmem ▸ hpk)

/-- The jailing loop succeeds if all its names may be named. -/
theorem foldOutcome_jailProposedFp_succeeds_iff (hk : w.btcStaking.ProvidersKeyed) :
    (∃ w', foldOutcome (jailProposedFp env voters) w names = .ok w') ↔
      ∀ name ∈ names, CanName voters w name := by
  refine foldOutcome_succeeds_iff (fun w : Stores I => w.btcStaking.ProvidersKeyed)
    (fun _ _ _ => jailProposedFp_succeeds_iff) (R := fun _ _ => True) ?_ hk
    (pairwise_of_forall fun _ _ => trivial)
  intro w name v hk hv
  exact ⟨(jailProposedFp_ok hv).2.keyed hk, fun other _ => jailProposedFp_canName_iff hk hv⟩

/-! ## How the handler fails -/

theorem jailProposedFp_failsOnly (voters : List BIP340PubKey) (w : Stores I) (name : HexString) :
    FailsOnly (fun fault => fault.isError = true) (jailProposedFp env voters w name) := by
  have hname : FailsOnly (fun fault => fault.isError = true) (newBIP340PubKeyFromHex name) :=
    .bind (.orThrow fun _ => rfl) fun _ _ => .bind (.ensure rfl) fun _ _ =>
      .bind (.ensure rfl) fun _ _ => .ok _
  have hjail : ∀ pk, FailsOnly (fun fault => fault.isError = true)
      (w.btcStaking.jailFinalityProvider env.toEnv pk) := fun pk =>
    .bind (.orThrow fun _ => rfl) fun _ _ => .bind (.ensure rfl) fun _ _ =>
      .bind (.ensure rfl) fun _ _ => .ok _
  refine .bind hname fun pk _ => .bind (.ensure rfl) fun _ _ =>
    .bind (.orThrow fun _ => rfl) fun fp _ => ?_
  split
  · exact .ok _
  · exact .bind (hjail pk) fun _ _ => .bind (.orThrow fun _ => rfl) fun _ _ => .ok _

/-- The updates of states fail by a hook, or without a processing state. -/
theorem handleFPStateUpdates_failsOnly {P : Fault → Prop} (hhook : ∀ text, P (.hookFailed text))
    {state : Option ProcessingState} (hnil : state = none → ∀ text, P (.panic text))
    (w : Stores I) (prevDc newDc : VotingPowerDistCache) (shouldCallHooks : Bool) :
    FailsOnly P (handleFPStateUpdates ext env w state prevDc newDc shouldCallHooks) := by
  refine .bind (.foldOutcome (fun x fp _ => ?_) _) fun _ _ => .foldOutcome (fun x fp _ => ?_) _
  · unfold processActiveFp
    split
    · exact .bind (.orThrow fun _ => hhook _) fun _ _ => .ok _
    · exact .ok _
  · refine .bind ?_ fun _ _ => .bind ?_ fun _ _ => .ok _
    · unfold callRemovedHook
      split
      · refine .bind (.orThrow fun hnone => hnil hnone _) fun _ _ => ?_
        split
        · exact .bind (.orThrow fun _ => hhook _) fun _ _ => .ok _
        · exact .ok _
      · exact .ok _
    · unfold isFpSlashedOrJailed
      split
      · exact .ok _
      · exact .bind (.orThrow fun hnone => hnil hnone _) fun _ _ => .ok _

/-- The checks that a proposal passes before any cache is rewritten. -/
structure ResumeChecks (env : Env) (w : Stores I) (names : List HexString)
    (haltingHeight : Nat) : Prop where
  activation_le : w.finality.params.finalityActivationHeight ≤ haltingHeight
  le_height : haltingHeight ≤ env.header.height
  names : ∀ name ∈ names, CanName (w.finality.getVoters haltingHeight) w name

/-- A proposal that passes the checks goes on to the caches, which the checks left alone. -/
theorem ResumeChecks.rewrites (ext : External I) (hk : w.btcStaking.ProvidersKeyed)
    (h : ResumeChecks env w names haltingHeight) :
    ∃ v : Stores I, w.finality.SigningOnly v.finality ∧ v.external = w.external ∧
      handleResumeFinalityProposal ext env w names haltingHeight
        = foldOutcome (resumeAtHeight ext env names) v (resumeHeights env haltingHeight) := by
  obtain ⟨v, hv⟩ : ∃ v, foldOutcome (jailProposedFp env (w.finality.getVoters haltingHeight)) w
      names = .ok v := (foldOutcome_jailProposedFp_succeeds_iff hk).mpr h.names
  refine ⟨v, (foldOutcome_jails (fun _ _ _ hy => jailProposedFp_ok hy) hv).1, ?_, ?_⟩
  · refine foldOutcome_preserves (fun x : Stores I => x.external = w.external) ?_ rfl hv
    intro x name y _ hx hy
    obtain ⟨pk, fp, -, -, -, ⟨-, rfl⟩ | ⟨-, info, -, rfl⟩⟩ := jailProposedFp_ok_iff.mp hy
    · exact hx
    · exact hx
  · simp only [handleResumeFinalityProposal, ensure_of _ h.activation_le, ensure_of _ h.le_height,
      ok_bind, hv]
    rfl

theorem handleResumeFinalityProposal_checks (hk : w.btcStaking.ProvidersKeyed)
    (h : handleResumeFinalityProposal ext env w names haltingHeight = .ok w') :
    ResumeChecks env w names haltingHeight := by
  simp only [handleResumeFinalityProposal, ok_iff] at h
  obtain ⟨_, hactn, _, hle, v, hjail, -⟩ := h
  exact ⟨hactn, hle, (foldOutcome_jailProposedFp_succeeds_iff hk).mp ⟨v, hjail⟩⟩

/-- A proposal succeeds if it passes the checks, all heights since the halting height have
a cache, and the hooks of the current height succeed. -/
theorem handleResumeFinalityProposal_succeeds_iff (hk : w.btcStaking.ProvidersKeyed)
    (hwf : w.finality.CachesWellFormed) :
    (∃ w', handleResumeFinalityProposal ext env w names haltingHeight = .ok w') ↔
      ResumeChecks env w names haltingHeight ∧
      ∀ height, haltingHeight ≤ height → height ≤ env.header.height →
        CanResume ext env names w height := by
  by_cases hchks : ResumeChecks env w names haltingHeight
  case neg =>
    refine iff_of_false ?_ fun h => hchks h.1
    rintro ⟨w', h⟩
    exact hchks (handleResumeFinalityProposal_checks hk h)
  case pos =>
    rw [and_iff_right hchks]
    obtain ⟨v, ⟨tracker, bitmap, hfin⟩, hext, hsame⟩ := hchks.rewrites ext hk
    have hnd : (resumeHeights env haltingHeight).Nodup := nodup_range'
    have hwf' : v.finality.CachesWellFormed := by
      rw [hfin]
      exact hwf
    rw [hsame, foldOutcome_resumeAtHeight_succeeds_iff hnd hwf']
    simp only [mem_resumeHeights, and_imp, CanResume, hfin, hext]
    rfl

/-- A proposal is rejected with an error if and only if it fails the checks. -/
theorem handleResumeFinalityProposal_error_iff (hk : w.btcStaking.ProvidersKeyed) :
    (∃ registered text, handleResumeFinalityProposal ext env w names haltingHeight
      = .error (.error registered text)) ↔ ¬ ResumeChecks env w names haltingHeight := by
  constructor
  · rintro ⟨registered, text, h⟩ hchks
    obtain ⟨v, -, -, hsame⟩ := hchks.rewrites ext hk
    have hfails : FailsOnly (fun fault => fault.isError = false)
        (foldOutcome (resumeAtHeight ext env names) v (resumeHeights env haltingHeight)) := by
      refine .foldOutcome (fun x height _ => ?_) v
      refine .bind (.orThrow fun _ => rfl) fun _ _ => ?_
      exact handleFPStateUpdates_failsOnly (fun _ => rfl) (fun _ _ => rfl) _ _ _ _
    exact Bool.noConfusion (hfails _ (hsame.symm.trans h))
  · intro hnot
    by_cases hactn : w.finality.params.finalityActivationHeight ≤ haltingHeight
    · by_cases hle : haltingHeight ≤ env.header.height
      · simp only [handleResumeFinalityProposal, ensure_of _ hactn, ensure_of _ hle, ok_bind]
        have hfails : FailsOnly (fun fault => fault.isError = true) (foldOutcome
            (jailProposedFp env (w.finality.getVoters haltingHeight)) w names) :=
          .foldOutcome (fun x name _ => jailProposedFp_failsOnly _ x name) w
        cases hjail : foldOutcome (jailProposedFp env (w.finality.getVoters haltingHeight)) w
            names with
        | ok v =>
          exact absurd ⟨hactn, hle, (foldOutcome_jailProposedFp_succeeds_iff hk).mp ⟨v, hjail⟩⟩ hnot
        | error fault =>
          cases fault with
          | error registered text => exact ⟨registered, text, rfl⟩
          | _ => cases hfails _ hjail
      · simp only [handleResumeFinalityProposal, ensure_of _ hactn, ensure_of_not _ hle,
          ok_bind, error_bind]
        exact ⟨_, _, rfl⟩
    · simp only [handleResumeFinalityProposal, ensure_of_not _ hactn, error_bind]
      exact ⟨_, _, rfl⟩

end Height

end Babylon.Finality
