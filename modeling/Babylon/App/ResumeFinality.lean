/-
  Proposals to resume finality.

  The handler jails by the decoded key of a name, and rewrites caches and tables by
  the name itself.  It looks at every height since the halting height, whether or
  not the height is finalized and whether or not its cache still exists.
-/
import Babylon.App.PowerTables
import Babylon.App.InOrderFinality

set_option autoImplicit false

namespace Babylon

open Lib Finality Devnet BIP340PubKey List

variable {I : Type} {cfg : Config I} {c : Chain I} {names : List HexString} {haltingHeight : Nat}

/-- What an accepted proposal does at a height with a cache. -/
theorem PowerInv.rewrites_at (inv : PowerInv c) {w : Stores I}
    (h : handleResumeFinalityProposal cfg.ext (c.env cfg) c.toStores names haltingHeight = .ok w)
    {height : Nat} (hlow : haltingHeight ≤ height) (hhigh : height ≤ c.header.height)
    {dc : VotingPowerDistCache} (hcache : c.finality.getVotingPowerDistCache height = some dc) :
    dc.WellFormed ∧ RewritesHeight names c.finality w.finality height dc := by
  obtain ⟨hall, -⟩ := handleResumeFinalityProposal_rewrites inv.caches h
  obtain ⟨dc', hdc'⟩ := hall height hlow hhigh
  obtain rfl : dc' = dc := Option.some.inj (hdc'.cached.symm.trans hcache)
  exact ⟨inv.caches height dc' (State.get_of_getVotingPowerDistCache hcache), hdc'⟩

/-! ## What a proposal is for -/

/-- After an accepted proposal, the providers it names, in any spelling, have no voting
power and are not active at any height since the halting height, and are jailed or slashed,
if and only if for every name the lower-case spelling is also a name, or the provider is
not among the first `NumActiveFps` providers that remain eligible at any of these heights. -/
theorem resume_disables_named_iff {history : History I}
    (run : Run (chain cfg) history c) {w : Stores I}
    (h : handleResumeFinalityProposal cfg.ext (c.env cfg) c.toStores names haltingHeight = .ok w) :
    (∀ name ∈ names, ∀ pk, newBIP340PubKeyFromHex name = .ok pk →
      (∀ height, haltingHeight ≤ height → height ≤ c.header.height →
        w.finality.getVotingPower pk height = 0 ∧
        ∀ dc, w.finality.getVotingPowerDistCache height = some dc → pk ∉ dc.activeFpsByBtcPk) ∧
      ∃ fp, w.btcStaking.finalityProviders.get pk = some fp ∧
        (fp.isJailed = true ∨ fp.isSlashed = true)) ↔
    ∀ name ∈ names, ∀ pk, newBIP340PubKeyFromHex name = .ok pk →
      pk.marshalHex ∈ names ∨
      ∀ height dc, haltingHeight ≤ height → height ≤ c.header.height →
        c.finality.getVotingPowerDistCache height = some dc →
        pk ∉ ((dc.finalityProviders.filter fun fp =>
          fp.eligible && !decide (fp.btcPk.marshalHex ∈ names)).take dc.numActiveFps).map
            (·.btcPk) := by
  have inv := PowerInv.of_run run
  have hcovered := (inv.rewritesOrKeeps h).covered inv.caches inv.covered
  have hdisabled := handleResumeFinalityProposal_disables inv.keyed h
  refine forall₂_congr fun name hname => forall₂_congr fun pk hpk => ?_
  refine (and_iff_left (hdisabled name hname pk hpk)).trans ?_
  -- at each height everything depends on the rewritten cache
  have hheight : ∀ height dc, haltingHeight ≤ height → height ≤ c.header.height →
      c.finality.getVotingPowerDistCache height = some dc →
      ((w.finality.getVotingPower pk height = 0 ∧
        ∀ dc, w.finality.getVotingPowerDistCache height = some dc → pk ∉ dc.activeFpsByBtcPk) ↔
      pk ∉ ((dc.finalityProviders.filter (remainsEligible names)).take
        dc.numActiveFps).map (·.btcPk)) := by
    intro height dc hlow hhigh hcache
    obtain ⟨hwf, hrewrites⟩ := inv.rewrites_at h hlow hhigh hcache
    have hnew := hrewrites.getVotingPowerDistCache hwf
    rw [← congrArg (map _) (rewriteCache_active_eq_take hwf)]
    constructor
    · exact fun hnone => hnone.2 _ hnew
    · intro hnot
      constructor
      · by_contra hpower
        obtain ⟨fp, hfp, hpk, -⟩ := hcovered height _ pk hrewrites.cache hpower
        exact hnot (mem_map.mpr ⟨fp, hfp, hpk⟩)
      · intro dc hdc
        rw [hnew] at hdc
        cases hdc
        exact hnot
  constructor
  · exact fun hnone => .inr fun height dc hlow hhigh hcache =>
      (hheight height dc hlow hhigh hcache).mp (hnone height hlow hhigh)
  · intro hor height hlow hhigh
    obtain ⟨dc, hrewrites⟩ := (handleResumeFinalityProposal_rewrites inv.caches h).1 height
      hlow hhigh
    refine (hheight height dc hlow hhigh hrewrites.cached).mpr ?_
    rcases hor with hmem | hout
    · -- a provider whose lower-case name is given does not remain eligible
      intro hactive
      obtain ⟨fp, hfp, rfl⟩ := mem_map.mp hactive
      have hremains := (mem_filter.mp (mem_of_mem_take hfp)).2
      simp [remainsEligible, shouldJail, hmem] at hremains
    · exact hout height dc hlow hhigh hrewrites.cached

/-- A provider with key 10 and 100 sats. -/
def letterKeyBlock : List (Label Unit) :=
  block 1 (registerFp 10 ++ delegate 10 (stakingTx 1 100) 100)

/-- The name of the provider with key 10, with its last digit in upper case. -/
def upperCaseName : HexString := hexDigits 63 0 ++ ['A']

/-- A proposal with the lower-case name of the provider works. -/
theorem resume_disables_lower_case_name :
    ∃ (c : Chain Unit) (w : Stores Unit),
      handleResumeFinalityProposal config.ext (c.env config) c.toStores [marshalHex 10] 2 = .ok w ∧
      c.header.height = 2 ∧ c.finality.getVotingPower 10 2 = 100 ∧
      w.finality.getVotingPower 10 2 = 0 := by
  obtain ⟨history, c, run, w, hw, hheight, hpower⟩ := reaching
    (P := fun c => ∃ w, handleResumeFinalityProposal config.ext
      (c.env config) c.toStores [marshalHex 10] 2 = .ok w ∧
        c.header.height = 2 ∧ c.finality.getVotingPower 10 2 = 100)
    (finalityParams 10 3 1) delegationLightClient
    (letterKeyBlock ++ [.beginBlock (header 2)]) (by decide +kernel)
  refine ⟨c, w, hw, hheight, hpower, ?_⟩
  have hdisabled := (resume_disables_named_iff run hw).mpr (by
    intro name hname pk hpk
    obtain rfl := mem_singleton.mp hname
    rw [newBIP340PubKeyFromHex_marshalHex] at hpk
    cases hpk
    exact .inl hname)
  exact ((hdisabled _ mem_cons_self 10 (newBIP340PubKeyFromHex_marshalHex 10)).1 2
    (Nat.le_refl 2) (Nat.le_of_eq hheight.symm)).1

/-- A proposal that names the provider in upper case is accepted.  The provider is jailed,
keeps its voting power at height 2 and stays active in the cache of height 2. -/
theorem upper_case_name_keeps_power :
    ∃ history c w dc, Run (chain config) history c ∧
      newBIP340PubKeyFromHex upperCaseName = .ok 10 ∧
      handleResumeFinalityProposal config.ext (c.env config) c.toStores [upperCaseName] 2 = .ok w ∧
      c.header.height = 2 ∧ w.finality.getVotingPower 10 2 = 100 ∧
      w.finality.getVotingPowerDistCache 2 = some dc ∧ 10 ∈ dc.activeFpsByBtcPk ∧
      (w.btcStaking.finalityProviders.get 10).any (·.isJailed) = true := by
  have hname : newBIP340PubKeyFromHex upperCaseName = .ok 10 := by rfl
  simp only [hname, true_and, exists_and_left]
  exact reaching (finalityParams 10 3 1) delegationLightClient
    (letterKeyBlock ++ [.beginBlock (header 2)]) (by decide +kernel)

/-! ## Finalized heights -/

/-- A rewritten height keeps its voting power and its active providers if and only if no
active provider is named. -/
theorem rewritesHeight_unchanged_iff {s t : State} {height : Nat} {dc : VotingPowerDistCache}
    (hwf : dc.WellFormed) (hcov : s.Covered) (h : RewritesHeight names s t height dc) :
    ((∀ pk, t.getVotingPower pk height = s.getVotingPower pk height) ∧
      (t.getVotingPowerDistCache height).map (·.activeFpsByBtcPk)
        = (s.getVotingPowerDistCache height).map (·.activeFpsByBtcPk)) ↔
    ∀ fp ∈ dc.getActiveFinalityProviderSet, fp.btcPk.marshalHex ∉ names := by
  rw [h.getVotingPowerDistCache hwf, h.cached, Option.map_some, Option.map_some, Option.some.injEq]
  constructor
  · rintro ⟨-, hsame⟩ fp hfp hnm
    have hmem : fp.btcPk ∈ (rewriteCache names dc).activeFpsByBtcPk := hsame ▸ mem_map_of_mem hfp
    obtain ⟨fp', hfp', hpk⟩ := mem_map.mp hmem
    rw [rewriteCache_active_eq_take hwf] at hfp'
    have hremains := (mem_filter.mp (mem_of_mem_take hfp')).2
    simp only [remainsEligible, Bool.and_eq_true, Bool.not_eq_true'] at hremains
    exact of_decide_eq_false hremains.2 (hpk ▸ hnm)
  · intro hnone
    have hnot : ∀ fp ∈ dc.getActiveFinalityProviderSet, shouldJail names fp = false :=
      fun fp hfp => decide_eq_false (hnone fp hfp)
    constructor
    · intro pk
      rw [h.power]
      split
      case isTrue hnm =>
        -- a named provider is not active, so it had no power
        by_contra hpow
        obtain ⟨fp, hfp, rfl, -⟩ := hcov height dc pk
          (State.get_of_getVotingPowerDistCache h.cached) (Ne.symm hpow)
        exact hnone fp hfp hnm.2
      case isFalse => rfl
    · refine congrArg (map _) ?_
      rw [rewriteCache_active hwf, promoted_eq_nil_iff.mpr (.inl hnot), append_nil, filter_eq_self]
      intro fp hfp
      rw [hnot fp hfp]
      rfl

/-- A proposal never panics, leaves finalized heights alone, and is rejected with an error if
the halting height is finalized or has no cache, if and only if a proposal that passes the
checks has a halting height that is not finalized, all heights since then have a cache, the
hooks of the current height succeed, and no active provider of a finalized height is named. -/
theorem resume_keeps_finalized_iff {history : History I} (run : Run (chain cfg) history c) :
    (((∃ w, handleResumeFinalityProposal cfg.ext (c.env cfg) c.toStores names
          haltingHeight = .ok w) ∨
        ∃ registered text, handleResumeFinalityProposal cfg.ext (c.env cfg) c.toStores
          names haltingHeight = .error (.error registered text)) ∧
      (∀ w, handleResumeFinalityProposal cfg.ext (c.env cfg) c.toStores names
          haltingHeight = .ok w →
        ∀ height block, c.finality.blocks.get height = some block → block.finalized = true →
          (∀ pk, w.finality.getVotingPower pk height = c.finality.getVotingPower pk height) ∧
          (w.finality.getVotingPowerDistCache height).map (·.activeFpsByBtcPk)
            = (c.finality.getVotingPowerDistCache height).map (·.activeFpsByBtcPk)) ∧
      ((∃ block, c.finality.blocks.get haltingHeight = some block ∧ block.finalized = true) ∨
          c.finality.getVotingPowerDistCache haltingHeight = none →
        ∃ registered text, handleResumeFinalityProposal cfg.ext (c.env cfg) c.toStores
          names haltingHeight = .error (.error registered text))) ↔
    (ResumeChecks (c.env cfg) c.toStores names haltingHeight →
      (¬ ∃ block, c.finality.blocks.get haltingHeight = some block ∧ block.finalized = true) ∧
      ∀ height, haltingHeight ≤ height → height ≤ c.header.height →
        ∃ dc, c.finality.getVotingPowerDistCache height = some dc ∧
          (height = c.header.height →
            (resumeHooks cfg.ext c.header names dc c.external).isSome = true) ∧
          ((∃ block, c.finality.blocks.get height = some block ∧ block.finalized = true) →
            ∀ fp ∈ dc.getActiveFinalityProviderSet, fp.btcPk.marshalHex ∉ names)) := by
  have inv := PowerInv.of_run run
  have herror : (∃ registered text, handleResumeFinalityProposal cfg.ext (c.env cfg)
      c.toStores names haltingHeight = .error (.error registered text)) ↔
        ¬ ResumeChecks (c.env cfg) c.toStores names haltingHeight :=
    handleResumeFinalityProposal_error_iff inv.keyed
  by_cases hchecks : ResumeChecks (c.env cfg) c.toStores names haltingHeight
  case neg =>
    refine iff_of_true ⟨.inr (herror.mpr hchecks), ?_, fun _ => herror.mpr hchecks⟩
      fun h => absurd h hchecks
    intro w hw
    exact absurd (handleResumeFinalityProposal_checks inv.keyed hw) hchecks
  case pos =>
    have hok : (∃ w, handleResumeFinalityProposal cfg.ext (c.env cfg) c.toStores names
        haltingHeight = .ok w) ↔ _ :=
      handleResumeFinalityProposal_succeeds_iff inv.keyed inv.caches
    constructor
    · rintro ⟨hsucceeds, hkept, hrejected⟩ -
      obtain ⟨w, hw⟩ := hsucceeds.resolve_right fun h => herror.mp h hchecks
      refine ⟨fun hfinalized => herror.mp (hrejected (.inl hfinalized)) hchecks, ?_⟩
      intro height hlow hhigh
      obtain ⟨dc, hcache, hhooks⟩ := (hok.mp ⟨w, hw⟩).2 height hlow hhigh
      refine ⟨dc, hcache, hhooks, ?_⟩
      rintro ⟨block, hblock, hfinalized⟩
      obtain ⟨hwf, hdc⟩ := inv.rewrites_at hw hlow hhigh hcache
      exact (rewritesHeight_unchanged_iff hwf inv.covered hdc).mp
        (hkept w hw height block hblock hfinalized)
    · intro hcondition
      obtain ⟨hnot, hall⟩ := hcondition hchecks
      refine ⟨.inl (hok.mpr ⟨hchecks, ?_⟩), ?_, ?_⟩
      · intro height hlow hhigh
        obtain ⟨dc, hcache, hhooks, -⟩ := hall height hlow hhigh
        exact ⟨dc, hcache, hhooks⟩
      · intro w hw height block hblock hfinalized
        by_cases hin : haltingHeight ≤ height ∧ height ≤ c.header.height
        · obtain ⟨dc, hcache, -, hnone⟩ := hall height hin.1 hin.2
          obtain ⟨hwf, hdc⟩ := inv.rewrites_at hw hin.1 hin.2 hcache
          exact (rewritesHeight_unchanged_iff hwf inv.covered hdc).mpr
            (hnone ⟨block, hblock, hfinalized⟩)
        · have hkeeps := (handleResumeFinalityProposal_rewrites inv.caches hw).2 height hin
          exact ⟨hkeeps.getVotingPower, by rw [hkeeps.getVotingPowerDistCache]⟩
      · rintro (hfinalized | hnone)
        · exact absurd hfinalized hnot
        · obtain ⟨dc, hcache, -⟩ := hall haltingHeight (Nat.le_refl _) hchecks.le_height
          rw [hnone] at hcache
          cases hcache

/-- Before height 2 is finalized, a proposal that names the provider with key 10 does not
panic. -/
theorem resume_keeps_finalized_before_votes :
    ∃ c : Chain Unit, c.header.height = 2 ∧ c.finality.getVotingPower 10 2 = 100 ∧
      ((∃ w, handleResumeFinalityProposal config.ext (c.env config)
          c.toStores [marshalHex 10] 2 = .ok w) ∨
        ∃ registered text, handleResumeFinalityProposal config.ext
          (c.env config) c.toStores [marshalHex 10] 2
            = .error (.error registered text)) := by
  obtain ⟨history, c, run, dc, hcache, hheight, hpower, hnot, hhooks⟩ := reaching
    (P := fun c => ∃ dc, c.finality.getVotingPowerDistCache 2 = some dc ∧
      c.header.height = 2 ∧ c.finality.getVotingPower 10 2 = 100 ∧
      (¬ ∃ block, c.finality.blocks.get 2 = some block ∧ block.finalized = true) ∧
      (resumeHooks config.ext c.header [marshalHex 10] dc c.external).isSome = true)
    (finalityParams 10 3 1) delegationLightClient
    (letterKeyBlock ++ [.beginBlock (header 2)]) (by decide +kernel)
  refine ⟨c, hheight, hpower, ((resume_keeps_finalized_iff run).mpr fun _ => ⟨hnot, ?_⟩).1⟩
  intro height hlow hhigh
  obtain rfl : height = 2 := Nat.le_antisymm (hheight ▸ hhigh) hlow
  exact ⟨dc, hcache, fun _ => hhooks, fun hfinalized => absurd hfinalized hnot⟩

/-- Providers with keys 0 and 1, with 100 and 10 sats. -/
def unequalProvidersBlock : List (Label Unit) :=
  block 1 (registerFp 0 ++ registerFp 1 ++
    delegate 0 (stakingTx 1 100) 100 ++ delegate 1 (stakingTx 2 10) 10)

/-- A Bitcoin chain with their staking transactions. -/
def unequalProvidersLightClient : BTCLightClient :=
  lightClient 10 [(blockRoot (stakingTx 1 100), 5), (blockRoot (stakingTx 2 10), 6)]

/-- The provider with key 0 finalizes height 2 in block 3, and block 4 begins. -/
def finalizedHeightTwo : List (Label Unit) :=
  unequalProvidersBlock ++ block 2 [] ++
    block 3 [vote 2 (replicate 32 0)] ++ [.beginBlock (header 4)]

/-- Height 2 is finalized, and a proposal with halting height 2 names the provider that did
not vote.  If votes time out after one block, the cache of height 2 is already removed and the
proposal panics; if they time out after three, it takes 10 sats of voting power from the
finalized height. -/
theorem resume_at_finalized_height :
    (∃ history c, Run (chain config) history c ∧
      (c.finality.blocks.get 2).any (·.finalized) = true ∧
      c.finality.getVotingPowerDistCache 2 = none ∧
      Outcome.panics (handleResumeFinalityProposal config.ext
        (c.env config) c.toStores [marshalHex 1] 2) = true) ∧
    ∃ history c w, Run (chain config) history c ∧
      (c.finality.blocks.get 2).any (·.finalized) = true ∧
      handleResumeFinalityProposal config.ext (c.env config) c.toStores [marshalHex 1] 2 = .ok w ∧
      c.finality.getVotingPower 1 2 = 10 ∧ w.finality.getVotingPower 1 2 = 0 := by
  simp only [exists_and_left]
  constructor
  · exact reaching (finalityParams 10 1 1) unequalProvidersLightClient
      finalizedHeightTwo (by decide +kernel)
  · exact reaching (finalityParams 10 3 1) unequalProvidersLightClient
      finalizedHeightTwo (by decide +kernel)

end Babylon
