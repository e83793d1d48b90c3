/-
  What the calls of `x/finality` have checked when they succeed, and what they
  change.

  One inversion lemma per handler.  Each says which part of the state differs
  afterwards, so that an invariant about another part is kept without looking at
  the handler.
-/
import Babylon.BTCStaking.Effects
import Babylon.Finality.Abci

set_option autoImplicit false

namespace Babylon.Finality

open Lib EOTS BTCStaking KVStore State BTCStaking.State VotingPowerDistCache List

/-! ## Parts of the state -/

variable {s t : State}

namespace State

/-- Only the records of signing behaviour differ. -/
def SigningOnly (s t : State) : Prop :=
  ∃ tracker bitmap, t = { s with
    finalityProviderSigningTracker := tracker
    finalityProviderMissedBlockBitmap := bitmap }

theorem SigningOnly.refl (s : State) : s.SigningOnly s := ⟨_, _, rfl⟩

theorem SigningOnly.trans {u : State} (hst : s.SigningOnly t) (htu : t.SigningOnly u) :
    s.SigningOnly u := by
  obtain ⟨_, _, rfl⟩ := hst
  obtain ⟨tracker, bitmap, rfl⟩ := htu
  exact ⟨tracker, bitmap, rfl⟩

/-- Only voting power, distribution caches and signing records differ. -/
def TablesOnly (s t : State) : Prop :=
  ∃ power caches tracker bitmap, t = { s with
    votingPower := power
    votingPowerDistCache := caches
    finalityProviderSigningTracker := tracker
    finalityProviderMissedBlockBitmap := bitmap }

theorem TablesOnly.refl (s : State) : s.TablesOnly s := ⟨_, _, _, _, rfl⟩

theorem TablesOnly.trans {u : State} (hst : s.TablesOnly t) (htu : t.TablesOnly u) :
    s.TablesOnly u := by
  obtain ⟨_, _, _, _, rfl⟩ := hst
  obtain ⟨power, caches, tracker, bitmap, rfl⟩ := htu
  exact ⟨power, caches, tracker, bitmap, rfl⟩

theorem SigningOnly.tablesOnly (h : s.SigningOnly t) : s.TablesOnly t := by
  obtain ⟨tracker, bitmap, rfl⟩ := h
  exact ⟨_, _, tracker, bitmap, rfl⟩

/-- Writing the voting power of several providers at one height. -/
theorem foldl_setVotingPower (s : State) (height : Nat) (power : FinalityProviderDistInfo → Nat)
    (fps : List FinalityProviderDistInfo) :
    fps.foldl (fun s fp => s.setVotingPower fp.btcPk height (power fp)) s =
      { s with votingPower :=
          s.votingPower.setMany height (fps.map fun fp => (fp.btcPk, power fp)) } := by
  induction fps generalizing s with
  | nil => rfl
  | cons fp rest ih => rw [foldl_cons, ih]; rfl

theorem recordVotingPowerAndCache_fst (s : State) (env : Env) (newDc : VotingPowerDistCache) :
    (s.recordVotingPowerAndCache env newDc).1 =
      { s with
        votingPower := s.votingPower.setMany env.header.height
          ((s.recordVotingPowerAndCache env newDc).2.getActiveFinalityProviderSet.map
            fun fp => (fp.btcPk, fp.totalBondedSat))
        votingPowerDistCache := s.votingPowerDistCache.set env.header.height
          (s.recordVotingPowerAndCache env newDc).2 } := by
  simp only [recordVotingPowerAndCache, foldl_setVotingPower]
  rfl

theorem clearVotingPower_eq (s : State) (names : List HexString) (dc : VotingPowerDistCache)
    (height : Nat) :
    s.clearVotingPower names dc height =
      { s with
        votingPower := s.votingPower.setMany height
          ((dc.finalityProviders.filter (shouldJail names)).map fun fp => (fp.btcPk, 0)) } :=
  foldl_setVotingPower s height (fun _ => 0) _

end State

variable {newDc : VotingPowerDistCache} {shouldCallHooks : Bool} {fp : FinalityProviderDistInfo}
  {state : Option ProcessingState} {pk : BIP340PubKey} {haltingHeight height : Nat}
  {commit : PubRandCommit} {req : MsgAddFinalitySig} {fprim : FinalityPrimitives}
  {names : List HexString}

section Calls

variable {I : Type} {ext : External I} {env : Env} {w w' : Stores I}

/-! ## Hooks and status changes -/

theorem processHooksBTCDelegation_ok {state : ProcessingState}
    (h : processHooksBTCDelegation ext env w state newDc = .ok w') :
    w'.btcStaking = w.btcStaking ∧ w'.finality = w.finality := by
  simp only [processHooksBTCDelegation, ok_iff] at h
  obtain ⟨_, -, _, -, rfl⟩ := h
  exact ⟨rfl, rfl⟩

theorem callRemovedHook_ok (h : callRemovedHook ext env state shouldCallHooks w fp = .ok w') :
    w'.btcStaking = w.btcStaking ∧ w'.finality = w.finality := by
  unfold callRemovedHook at h
  split at h
  · simp only [bind_ok_iff] at h
    obtain ⟨_, -, h⟩ := h
    split at h
    · simp only [ok_iff] at h
      obtain ⟨_, -, rfl⟩ := h
      exact ⟨rfl, rfl⟩
    · cases h
      exact ⟨rfl, rfl⟩
  · cases h
    exact ⟨rfl, rfl⟩

/-- What activating the new active providers keeps holds afterwards. -/
theorem handleFPStateUpdates_preserves {P : State → Prop} {prevDc : VotingPowerDistCache}
    (hactivate : ∀ s, ∀ fp ∈ newDc.findNewActiveFinalityProviders prevDc, P s →
      P (s.handleActivatedFinalityProvider env fp.btcPk)) (hw : P w.finality)
    (h : handleFPStateUpdates ext env w state prevDc newDc shouldCallHooks = .ok w') :
    w'.btcStaking = w.btcStaking ∧ P w'.finality := by
  simp only [handleFPStateUpdates, bind_ok_iff] at h
  obtain ⟨v, hact, hina⟩ := h
  let Kept : Stores I → Prop := fun x => x.btcStaking = w.btcStaking ∧ P x.finality
  have hv : Kept v := by
    refine foldOutcome_preserves Kept ?_ ⟨rfl, hw⟩ hact
    intro x fp y hmem hx hy
    simp only [processActiveFp] at hy
    split at hy
    · simp only [ok_iff] at hy
      obtain ⟨_, -, rfl⟩ := hy
      exact ⟨hx.1, hactivate _ fp hmem hx.2⟩
    · cases hy
      exact ⟨hx.1, hactivate _ fp hmem hx.2⟩
  refine foldOutcome_preserves Kept ?_ hv hina
  intro x fp y _ hx hy
  simp only [processInactiveFp, ok_iff] at hy
  obtain ⟨v, hv, _, -, rfl⟩ := hy
  obtain ⟨hbs, hfin⟩ := callRemovedHook_ok hv
  exact ⟨hbs.trans hx.1, hfin ▸ hx.2⟩

theorem handleFPStateUpdates_ok {prevDc : VotingPowerDistCache}
    (h : handleFPStateUpdates ext env w state prevDc newDc shouldCallHooks = .ok w') :
    w'.btcStaking = w.btcStaking ∧ w.finality.SigningOnly w'.finality := by
  refine handleFPStateUpdates_preserves ?_ (.refl _) h
  intro s fp _ hs
  refine hs.trans ?_
  unfold State.handleActivatedFinalityProvider
  split <;> exact ⟨_, _, rfl⟩

/-! ## Begin block -/

/-- The cache that `UpdatePowerDist` starts from. -/
def previousCache (env : Env) (s : State) : VotingPowerDistCache :=
  (s.getVotingPowerDistCache (env.header.height - 1)).getD new

/-- The BTC heights whose events `UpdatePowerDist` processes. -/
def eventWindow (env : Env) (bs : BTCStaking.State) : List Nat :=
  btcHeightRange (bs.getBTCHeightAtBabylonHeight env.lc (env.header.height - 1)) env.lc.tipHeight

theorem updatePowerDist_ok (h : updatePowerDist ext env w = .ok w') :
    ∃ newDc state, processAllPowerDistUpdateEvents w.btcStaking (previousCache env w.finality)
        (w.btcStaking.getBTCHeightAtBabylonHeight env.lc (env.header.height - 1))
        env.lc.tipHeight = .ok (newDc, state) ∧
      (w.finality.recordVotingPowerAndCache env newDc).1.SigningOnly w'.finality ∧
      w'.btcStaking = (eventWindow env w.btcStaking).foldl
        clearPowerDistUpdateEvents w.btcStaking := by
  simp only [updatePowerDist, ok_iff] at h
  obtain ⟨⟨newDc, state⟩, hpr, v, hhooks, x, hupdates, rfl⟩ := h
  obtain ⟨hbs, hfin⟩ := processHooksBTCDelegation_ok hhooks
  obtain ⟨hbs', hsgn⟩ := handleFPStateUpdates_ok hupdates
  refine ⟨newDc, state, hpr, ?_, ?_⟩
  · rw [hfin] at hsgn
    exact hsgn
  · simp only [hbs', hbs]
    rfl

theorem getPubRandCommitForHeight_ok_iff :
    s.getPubRandCommitForHeight pk height = .ok commit ↔
      ∃ heights start, s.pubRandCommitIndex.get pk = some heights ∧
        (heights.takeWhile fun h => h.toNat ≤ height).getLast? = some start ∧
        (s.pubRandCommit.under pk).get start.toNat = some commit ∧
        commit.isInRange height = true := by
  simp only [getPubRandCommitForHeight, ok_iff]
  constructor
  · rintro ⟨heights, hidx, _, -, start, hstart, _, hget, _, hrng, rfl⟩
    exact ⟨heights, start, hidx, hstart, hget, hrng⟩
  · rintro ⟨heights, start, hidx, hstart, hget, hrng⟩
    have hne : heights ≠ [] := by
      rintro rfl
      cases hstart
    exact ⟨heights, hidx, (), hne, start, hstart, commit, hget, (), hrng, rfl⟩

theorem getTimestampedPubRandCommitForHeight_ok
    (h : s.getTimestampedPubRandCommitForHeight env pk height = .ok commit) :
    s.getPubRandCommitForHeight pk height = .ok commit := by
  simp only [getTimestampedPubRandCommitForHeight, ok_iff] at h
  obtain ⟨commit', hcom, _, -, _, -, rfl⟩ := h
  exact hcom

/-- An active provider has a commitment that starts at or below the height. -/
theorem commit_of_active {dc : VotingPowerDistCache}
    (hfp : fp ∈ (s.recordVotingPowerAndCache env dc).2.getActiveFinalityProviderSet) :
    ∃ start commit, (s.pubRandCommit.under fp.btcPk).get start = some commit ∧
      commit.startHeight.toNat ≤ env.header.height := by
  simp only [recordVotingPowerAndCache, applyActive_active] at hfp
  obtain ⟨hmem, helig⟩ := mem_filter.mp (mem_of_mem_take hfp)
  obtain ⟨fp', -, rfl⟩ := mem_map.mp (applyActive_perm.mem_iff.mp hmem)
  have hhas : s.hasTimestampedPubRand env fp'.btcPk env.header.height = true := by
    simp only [FinalityProviderDistInfo.eligible, Bool.and_eq_true] at helig
    exact helig.1.1.2
  obtain ⟨commit, hcom⟩ := succeeds_iff.mp hhas
  obtain ⟨_, start, -, -, hget, hrng⟩ :=
    getPubRandCommitForHeight_ok_iff.mp (getTimestampedPubRandCommitForHeight_ok hcom)
  simp only [PubRandCommit.isInRange, decide_eq_true_eq] at hrng
  exact ⟨start.toNat, commit, hget, hrng.1⟩

/-- `UpdatePowerDist` writes the voting power of the current height only, and only if
some provider has committed public randomness for it. -/
theorem updatePowerDist_power (h : updatePowerDist ext env w = .ok w') :
    w.finality.TablesOnly w'.finality ∧
      (∀ height, height ≠ env.header.height →
        w'.finality.votingPower.get height = w.finality.votingPower.get height) ∧
      ∀ table, w'.finality.votingPower.get env.header.height = some table →
        w.finality.votingPower.get env.header.height = some table ∨
          ∃ pk start commit, (w.finality.pubRandCommit.under pk).get start = some commit ∧
            commit.startHeight.toNat ≤ env.header.height := by
  obtain ⟨newDc, state, -, hsgn, -⟩ := updatePowerDist_ok h
  rw [recordVotingPowerAndCache_fst] at hsgn
  refine ⟨TablesOnly.trans ⟨_, _, _, _, rfl⟩ hsgn.tablesOnly, ?_, ?_⟩
  · intro height hne
    obtain ⟨tracker, bitmap, hfin⟩ := hsgn
    rw [hfin]
    exact get_setMany _ _ _ (.inl hne)
  · intro table htab
    obtain ⟨tracker, bitmap, hfin⟩ := hsgn
    rw [hfin] at htab
    cases hact :
        (w.finality.recordVotingPowerAndCache env newDc).2.getActiveFinalityProviderSet with
    | nil =>
      left
      rw [hact] at htab
      exact htab
    | cons fp rest =>
      obtain ⟨start, commit, hget, hle⟩ := commit_of_active (hact ▸ mem_cons_self : fp ∈ _)
      exact .inr ⟨fp.btcPk, start, commit, hget, hle⟩

/-! ## Votes -/

/-- What `AddFinalitySig` has checked when it accepts a vote. -/
structure VoteAccepted (fprim : FinalityPrimitives) (env : Env) (w : Stores I)
    (req : MsgAddFinalitySig) (block : IndexedBlock) (fp : FinalityProvider)
    (commit : PubRandCommit) : Prop where
  appHash : req.blockAppHash.length = 32
  indexed : w.finality.blocks.get req.blockHeight = some block
  provider : w.btcStaking.finalityProviders.get req.fpBtcPk = some fp
  notSlashed : fp.isSlashed = false
  power : w.finality.getVotingPower req.fpBtcPk req.blockHeight ≠ 0
  committed : w.finality.getPubRandCommitForHeight req.fpBtcPk req.blockHeight = .ok commit
  verified : verifyFinalitySig fprim req commit = .ok ()

/-- The evidence of a vote for a fork. -/
def forkEvidence (req : MsgAddFinalitySig) (block : IndexedBlock)
    (canonicalSig : Option SchnorrEOTSSig) : Evidence where
  fpBtcPk := req.fpBtcPk
  blockHeight := req.blockHeight
  pubRand := req.pubRand
  canonicalAppHash := block.appHash
  forkAppHash := req.blockAppHash
  canonicalFinalitySig := canonicalSig
  forkFinalitySig := req.finalitySig

theorem slashFinalityProvider_stores_ok (h : slashFinalityProvider env w pk = .ok w') :
    w.btcStaking.slashFinalityProvider env.toEnv pk = .ok w'.btcStaking ∧
      w'.finality = w.finality := by
  simp only [slashFinalityProvider, ok_iff, Outcome.orPanic_ok_iff] at h
  obtain ⟨bs, hbs, rfl⟩ := h
  exact ⟨hbs, rfl⟩

theorem addForkVote_ok {block : IndexedBlock} (h : addForkVote env w req block = .ok w') :
    w'.finality = w.finality.setEvidence
        (forkEvidence req block (w.finality.getSig env req.blockHeight req.fpBtcPk)) ∧
      (w.finality.getSig env req.blockHeight req.fpBtcPk = none ∧
          w'.btcStaking = w.btcStaking ∨
        w.btcStaking.slashFinalityProvider env.toEnv req.fpBtcPk = .ok w'.btcStaking) := by
  simp only [addForkVote] at h
  split at h
  case h_1 sig hsig =>
    simp only [ok_iff] at h
    obtain ⟨v, hslash, rfl⟩ := h
    obtain ⟨hbs, hfin⟩ := slashFinalityProvider_stores_ok hslash
    exact ⟨by rw [hfin]; rfl, .inr hbs⟩
  case h_2 hsig =>
    cases h
    exact ⟨rfl, .inl ⟨hsig, rfl⟩⟩

/-- The stored record of a provider only gets another highest voted height. -/
def RecordsHighestVote (bs : BTCStaking.State) (fp : FinalityProvider)
    (bs' : BTCStaking.State) : Prop :=
  bs' = bs ∨ ∃ height, bs' = bs.setFinalityProvider { fp with highestVotedHeight := height }

theorem updateHighestVotedHeight_ok {bs bs' : BTCStaking.State} {fp : FinalityProvider}
    (h : updateHighestVotedHeight bs fp height = .ok bs') :
    RecordsHighestVote bs fp bs' := by
  unfold updateHighestVotedHeight at h
  split at h
  · simp only [updateFinalityProvider, ok_iff] at h
    obtain ⟨_, -, rfl⟩ := h
    exact .inr ⟨_, rfl⟩
  · cases h
    exact .inl rfl

theorem addCanonicalVote_ok {fp : FinalityProvider} (h : addCanonicalVote env w req fp = .ok w') :
    ∃ bs, RecordsHighestVote w.btcStaking fp bs ∧
      ((w.finality.evidence.under req.fpBtcPk).get req.blockHeight = none ∧ w'.btcStaking = bs ∧
          w'.finality = w.finality.setSig req.blockHeight req.fpBtcPk req.finalitySig ∨
        ∃ evidence, (w.finality.evidence.under req.fpBtcPk).get req.blockHeight = some evidence ∧
          bs.slashFinalityProvider env.toEnv req.fpBtcPk = .ok w'.btcStaking ∧
          w'.finality = (w.finality.setSig req.blockHeight req.fpBtcPk req.finalitySig).setEvidence
              { evidence with canonicalFinalitySig := some req.finalitySig }) := by
  simp only [addCanonicalVote, bind_ok_iff] at h
  obtain ⟨bs, hbs, h⟩ := h
  refine ⟨bs, updateHighestVotedHeight_ok hbs, ?_⟩
  split at h
  case isTrue =>
    simp only [ok_iff] at h
    obtain ⟨evidence, hget, h⟩ := h
    obtain ⟨hslash, hfin⟩ := slashFinalityProvider_stores_ok h
    unfold getEvidence at hget
    split at hget
    case isTrue => cases hget
    case isFalse => exact .inr ⟨evidence, hget, hslash, hfin⟩
  case isFalse hno =>
    cases h
    refine .inl ⟨?_, rfl, rfl⟩
    simpa [hasEvidence, setSig, has] using hno

/-- The public randomness of an accepted vote is stored first. -/
def withPubRand (w : Stores I) (req : MsgAddFinalitySig) : Stores I :=
  { w with finality := w.finality.setPubRand req.fpBtcPk req.blockHeight req.pubRand }

section

variable (h : addFinalitySig fprim env w req = .ok w')

include h

theorem addFinalitySig_ok :
    ∃ block fp commit, VoteAccepted fprim env w req block fp commit ∧
      (block.appHash ≠ req.blockAppHash ∧
          addForkVote env (withPubRand w req) req block = .ok w' ∨
        block.appHash = req.blockAppHash ∧
          addCanonicalVote env (withPubRand w req) req fp = .ok w') := by
  simp only [addFinalitySig, getBlock, getFinalityProvider, ok_iff] at h
  obtain ⟨_, hlen, _, -, block, hblk, _, -, _, -, fp, hfp, _, hsl, _, -, _, hpow, _, -,
    commit, hcom, _, hverd, h⟩ := h
  refine ⟨block, fp, commit, ⟨hlen, hblk, hfp, hsl, hpow,
    getTimestampedPubRandCommitForHeight_ok hcom, hverd⟩, ?_⟩
  split at h
  case isTrue hfork => exact .inl ⟨hfork, h⟩
  case isFalse hsame => exact .inr ⟨not_not.mp hsame, h⟩

/-- A vote changes no table, no block and no commitment, and removes no other vote. -/
theorem addFinalitySig_effect :
    ∃ pubRand votes evidence, w'.finality = { w.finality with pubRand, votes, evidence } ∧
      (votes = w.finality.votes ∨
        votes = w.finality.votes.setUnder req.blockHeight req.fpBtcPk req.finalitySig) := by
  obtain ⟨block, fp, commit, -, ⟨-, hfork⟩ | ⟨-, hcanon⟩⟩ := addFinalitySig_ok h
  · exact ⟨_, _, _, (addForkVote_ok hfork).1, .inl rfl⟩
  · obtain ⟨bs, -, ⟨-, -, hfin⟩ | ⟨evidence, -, -, hfin⟩⟩ := addCanonicalVote_ok hcanon
    · exact ⟨_, _, _, hfin, .inr rfl⟩
    · exact ⟨_, _, _, hfin, .inr rfl⟩

theorem addFinalitySig_voters
    (hpk : pk ∈ w.finality.getVoters height) : pk ∈ w'.finality.getVoters height := by
  obtain ⟨_, votes, _, hfin, hvotes⟩ := addFinalitySig_effect h
  rw [hfin]
  rcases hvotes with rfl | rfl
  · exact hpk
  · obtain ⟨old, hold⟩ := mem_keys.mp hpk
    refine mem_keys.mpr ?_
    rw [get_under_setUnder]
    split
    · exact ⟨_, rfl⟩
    · exact ⟨old, hold⟩

end

/-! ## Commitments, unjailing and parameters -/

/-- What `CommitPubRandList` has checked, and the commitment it stores. -/
structure CommitAccepted (env : Env) (s : State) (pk : BIP340PubKey) (commit : PubRandCommit) :
    Prop where
  noWrap : commit.startHeight < commit.startHeight + commit.numPubRand
  activation : s.params.finalityActivationHeight ≤ commit.startHeight.toNat
  after_last : ∀ last ∈ s.getLastPubRandCommit pk, last.endHeight < commit.startHeight

theorem commitPubRandList_ok {prim : BtcPrimitives} {req : MsgCommitPubRandList}
    (h : commitPubRandList prim env w req = .ok w') :
    w'.btcStaking = w.btcStaking ∧ ∃ commit, CommitAccepted env w.finality req.fpBtcPk commit ∧
      w.finality.setPubRandCommit req.fpBtcPk commit = .ok w'.finality := by
  simp only [commitPubRandList, MsgCommitPubRandList.validateBasic, ok_iff] at h
  obtain ⟨_, ⟨_, -, hwrap⟩, _, -, _, hactn, _, -, _, -, _, -, _, -, _, hlast, finality,
    hset, rfl⟩ := h
  exact ⟨rfl, _, ⟨hwrap, hactn, hlast⟩, hset⟩

theorem setPubRandCommit_ok (h : s.setPubRandCommit pk commit = .ok t) :
    (∀ last ∈ ((s.pubRandCommitIndex.get pk).getD []).getLast?, last < commit.startHeight) ∧
      t = { s with
        pubRandCommit := s.pubRandCommit.setUnder pk commit.startHeight.toNat commit
        pubRandCommitIndex := s.pubRandCommitIndex.set pk
          ((s.pubRandCommitIndex.get pk).getD [] ++ [commit.startHeight]) } := by
  simp only [setPubRandCommit, upsertPubRandCommitIdx, ok_iff] at h
  obtain ⟨_, hlast, rfl⟩ := h
  exact ⟨hlast, rfl⟩

theorem unjailFinalityProvider_stores_ok {req : MsgUnjailFinalityProvider}
    (h : unjailFinalityProvider env w req = .ok w') :
    w'.finality = w.finality ∧
      w.btcStaking.unjailFinalityProvider env.toEnv req.fpBtcPk = .ok w'.btcStaking := by
  simp only [unjailFinalityProvider, ok_iff] at h
  obtain ⟨_, -, _, -, _, -, _, -, _, -, _, -, bs, hbs, rfl⟩ := h
  exact ⟨rfl, hbs⟩

theorem updateParams_stores_ok {req : MsgUpdateParams} (h : updateParams env w req = .ok w') :
    (∃ u, req.params.validate = .ok u) ∧
      w' = { w with finality := { w.finality with params := req.params } } := by
  simp only [updateParams, ok_iff] at h
  obtain ⟨_, -, u, hval, rfl⟩ := h
  exact ⟨⟨u, hval⟩, rfl⟩

/-! ## Jailing -/

/-- Any number of providers are jailed. -/
def Jails (env : Env) : BTCStaking.State → BTCStaking.State → Prop :=
  Relation.ReflTransGen fun s t => ∃ pk, s.jailFinalityProvider env.toEnv pk = .ok t

theorem Jails.keyed {s t : BTCStaking.State} (hk : s.ProvidersKeyed) (h : Jails env s t) :
    t.ProvidersKeyed := by
  induction h with
  | refl => exact hk
  | @tail u _ _ hjail ih =>
    obtain ⟨pk, hjail⟩ := hjail
    obtain ⟨fp, hfp, hnot, rfl⟩ := BTCStaking.jailFinalityProvider_ok hjail
    refine BTCStaking.ProvidersEvolve.keyed (s := u) ?_
    exact .of_notSlashed ih hfp hnot rfl rfl

/-- The state after an enabled provider with this signing record is jailed. -/
def jailNamed (env : Env) (w : Stores I) (pk : BIP340PubKey) (fp : FinalityProvider)
    (info : FinalityProviderSigningInfo) : Stores I :=
  { w with
    btcStaking := (w.btcStaking.setFinalityProvider
      { fp with jailed := true }).addPowerDistUpdateEvent env.lc.tipHeight (.jailedFp fp.btcPk)
    finality := (w.finality.deleteMissedBlockBitmap pk).setSigningInfo pk
      { info with
        jailedUntil := env.header.time + w.finality.params.jailDuration
        missedBlocksCounter := 0 } }

theorem jailFinalityProvider_of_enabled {fp : FinalityProvider}
    (hfp : w.btcStaking.finalityProviders.get pk = some fp)
    (hen : (fp.isSlashed || fp.isJailed) = false) (info : FinalityProviderSigningInfo) :
    w.btcStaking.jailFinalityProvider env.toEnv pk = .ok
      (jailNamed env w pk fp info).btcStaking := by
  rw [Bool.or_eq_false_iff] at hen
  simp [jailFinalityProvider, getFinalityProvider, hfp, hen, ensure]
  rfl

theorem jailProposedFp_ok_iff {voters : List BIP340PubKey} {name : HexString} :
    jailProposedFp env voters w name = .ok w' ↔
      ∃ pk fp, newBIP340PubKeyFromHex name = .ok pk ∧
        name ∉ voters.map BIP340PubKey.marshalHex ∧
        w.btcStaking.finalityProviders.get pk = some fp ∧
        (((fp.isSlashed || fp.isJailed) = true ∧ w' = w) ∨
          ((fp.isSlashed || fp.isJailed) = false ∧
            ∃ info, w.finality.finalityProviderSigningTracker.get pk = some info ∧
              w' = jailNamed env w pk fp info)) := by
  simp only [jailProposedFp, getFinalityProvider, ok_iff]
  constructor
  · rintro ⟨pk, hpk, _, hvoter, fp, hfp, h⟩
    refine ⟨pk, fp, hpk, hvoter, hfp, ?_⟩
    split at h
    case isTrue hdis =>
      cases h
      exact .inl ⟨hdis, rfl⟩
    case isFalse hnot =>
      simp only [ok_iff] at h
      obtain ⟨_, hjail, info, hinfo, rfl⟩ := h
      rw [jailFinalityProvider_of_enabled hfp (Bool.eq_false_iff.mpr hnot) info] at hjail
      cases hjail
      exact .inr ⟨Bool.eq_false_iff.mpr hnot, info, hinfo, rfl⟩
  · rintro ⟨pk, fp, hpk, hvoter, hfp, h⟩
    refine ⟨pk, hpk, (), hvoter, fp, hfp, ?_⟩
    rcases h with ⟨hdis, rfl⟩ | ⟨hen, info, hinfo, rfl⟩
    · rw [if_pos hdis]
      rfl
    · rw [if_neg (Bool.eq_false_iff.mp hen), hinfo, jailFinalityProvider_of_enabled hfp hen info]
      rfl

theorem jailProposedFp_ok {voters : List BIP340PubKey} {name : HexString}
    (h : jailProposedFp env voters w name = .ok w') :
    w.finality.SigningOnly w'.finality ∧ Jails env w.btcStaking w'.btcStaking := by
  obtain ⟨pk, fp, -, -, hfp, ⟨-, rfl⟩ | ⟨hen, info, -, rfl⟩⟩ := jailProposedFp_ok_iff.mp h
  · exact ⟨.refl _, .refl⟩
  · exact ⟨⟨_, _, rfl⟩, .single ⟨pk, jailFinalityProvider_of_enabled hfp hen info⟩⟩

/-- `UpdateSigningInfo` writes the bitmap only. -/
theorem State.updateSigningInfo_ok {missed updated : Bool} {height : Int}
    {info : FinalityProviderSigningInfo}
    (h : s.updateSigningInfo pk missed height = .ok (t, updated, info)) :
    ∃ bitmap, t = { s with finalityProviderMissedBlockBitmap := bitmap } := by
  simp only [updateSigningInfo, bind_ok_iff] at h
  obtain ⟨signInfo, -, h⟩ := h
  split at h
  · cases h
    exact ⟨_, rfl⟩
  · split at h <;> cases h <;> exact ⟨_, rfl⟩

/-- A provider is jailed for a height if its window is full and more than the allowed number of
blocks are missed. -/
def FinalityProviderSigningInfo.exceeds (info : FinalityProviderSigningInfo) (params : Params)
    (height : Int) : Prop :=
  info.startHeight + params.signedBlocksWindow < height ∧
    params.signedBlocksWindow - params.minSignedPerWindowInt < info.missedBlocksCounter

section

variable {missed : Bool} {height : Int}
  (h : handleFinalityProviderLiveness env w pk missed height = .ok w')

include h

theorem handleFinalityProviderLiveness_cases :
    ∃ fp, w.btcStaking.finalityProviders.get pk = some fp ∧
      ((fp.isSlashed || fp.isJailed) = true ∧ w' = w ∨
        (fp.isSlashed || fp.isJailed) = false ∧ ∃ finality updated info,
          w.finality.updateSigningInfo pk missed height = .ok (finality, updated, info) ∧
          (info.exceeds w.finality.params height ∧
              w' = jailNamed env { w with finality } pk fp info ∨
            ¬info.exceeds w.finality.params height ∧
              w' = { w with
                finality := if updated then finality.setSigningInfo pk info else finality })) := by
  simp only [handleFinalityProviderLiveness, getFinalityProvider, ok_iff] at h
  obtain ⟨fp, hfp, h⟩ := h
  refine ⟨fp, hfp, ?_⟩
  split at h
  case isTrue hdis =>
    cases h
    exact .inl ⟨hdis, rfl⟩
  case isFalse hnot =>
    simp only [bind_ok_iff] at h
    obtain ⟨⟨finality, updated, info⟩, hinfo, h⟩ := h
    refine .inr ⟨Bool.eq_false_iff.mpr hnot, finality, updated, info, hinfo, ?_⟩
    obtain ⟨bitmap, rfl⟩ := updateSigningInfo_ok hinfo
    split at h
    case isTrue hexc =>
      simp only [ok_iff] at h
      obtain ⟨_, hjail, rfl⟩ := h
      rw [jailFinalityProvider_of_enabled hfp (Bool.eq_false_iff.mpr hnot) info] at hjail
      cases hjail
      exact .inl ⟨hexc, rfl⟩
    case isFalse hexc =>
      refine .inr ⟨hexc, ?_⟩
      cases updated <;> cases h <;> rfl

theorem handleFinalityProviderLiveness_ok :
    w.finality.SigningOnly w'.finality ∧ Jails env w.btcStaking w'.btcStaking := by
  obtain ⟨fp, hfp, ⟨-, rfl⟩ | ⟨hen, finality, updated, info, hinfo, hcases⟩⟩ :=
    handleFinalityProviderLiveness_cases h
  · exact ⟨.refl _, .refl⟩
  · obtain ⟨bitmap, rfl⟩ := updateSigningInfo_ok hinfo
    rcases hcases with ⟨-, rfl⟩ | ⟨-, rfl⟩
    · exact ⟨⟨_, _, rfl⟩, .single ⟨pk, jailFinalityProvider_of_enabled hfp hen info⟩⟩
    · refine ⟨?_, .refl⟩
      split <;> exact ⟨_, _, rfl⟩

end

/-- A loop over calls that jail providers and write signing records. -/
theorem foldOutcome_jails {A : Type} {f : Stores I → A → Outcome (Stores I)} {items : List A}
    (hstep : ∀ x a y, f x a = .ok y →
      x.finality.SigningOnly y.finality ∧ Jails env x.btcStaking y.btcStaking)
    (h : foldOutcome f w items = .ok w') :
    w.finality.SigningOnly w'.finality ∧ Jails env w.btcStaking w'.btcStaking := by
  let Kept : Stores I → Prop := fun x =>
    w.finality.SigningOnly x.finality ∧ Jails env w.btcStaking x.btcStaking
  have hw : Kept w := ⟨.refl _, .refl⟩
  refine foldOutcome_preserves Kept ?_ hw h
  intro x a y _ hx hy
  obtain ⟨hsgn, hjails⟩ := hstep x a y hy
  exact ⟨hx.1.trans hsgn, hx.2.trans hjails⟩

theorem handleLiveness_ok (h : handleLiveness env w height = .ok w') :
    w.finality.SigningOnly w'.finality ∧ Jails env w.btcStaking w'.btcStaking := by
  refine foldOutcome_jails ?_ h
  intro x fp y hy
  rw [Outcome.orPanic_ok_iff] at hy
  exact handleFinalityProviderLiveness_ok hy

/-! ## Resuming finality -/

theorem resumeAtHeight_ok (h : resumeAtHeight ext env names w height = .ok w') :
    w'.btcStaking = w.btcStaking ∧ ∃ dc, w.finality.getVotingPowerDistCache height = some dc ∧
      ((w.finality.clearVotingPower names dc height).setVotingPowerDistCache height
        (rewriteCache names dc)).SigningOnly w'.finality := by
  simp only [resumeAtHeight, ok_iff] at h
  obtain ⟨dc, hdc, h⟩ := h
  obtain ⟨hbs, hsgn⟩ := handleFPStateUpdates_ok h
  exact ⟨hbs, dc, hdc, hsgn⟩

/-- The heights that a proposal rewrites. -/
def resumeHeights (env : Env) (haltingHeight : Nat) : List Nat :=
  range' haltingHeight (env.header.height + 1 - haltingHeight)

theorem mem_resumeHeights :
    height ∈ resumeHeights env haltingHeight ↔
      haltingHeight ≤ height ∧ height ≤ env.header.height := by
  rw [resumeHeights, mem_range'_1]
  omega

theorem handleResumeFinalityProposal_ok
    (h : handleResumeFinalityProposal ext env w names haltingHeight = .ok w') :
    ∃ v, foldOutcome (jailProposedFp env (w.finality.getVoters haltingHeight)) w names = .ok v ∧
      foldOutcome (resumeAtHeight ext env names) v (resumeHeights env haltingHeight) = .ok w' := by
  simp only [handleResumeFinalityProposal, ok_iff] at h
  obtain ⟨_, -, _, -, h⟩ := h
  exact h

theorem resumeFinalityProposal_ok {req : MsgResumeFinalityProposal}
    (h : resumeFinalityProposal ext env w req = .ok w') :
    handleResumeFinalityProposal ext env w req.fpPksHex req.haltingHeight = .ok w' := by
  simp only [resumeFinalityProposal, bind_ok_iff] at h
  obtain ⟨_, -, _, -, h⟩ := h
  exact h

theorem foldOutcome_resumeAtHeight_tablesOnly {heights : List Nat}
    (h : foldOutcome (resumeAtHeight ext env names) w heights = .ok w') :
    w'.btcStaking = w.btcStaking ∧ w.finality.TablesOnly w'.finality := by
  refine foldOutcome_preserves
    (fun x => x.btcStaking = w.btcStaking ∧ w.finality.TablesOnly x.finality)
    ?_ ⟨rfl, .refl _⟩ h
  intro x height y _ hx hy
  obtain ⟨hbs, dc, -, hsgn⟩ := resumeAtHeight_ok hy
  rw [clearVotingPower_eq] at hsgn
  exact ⟨hbs.trans hx.1, hx.2.trans (TablesOnly.trans ⟨_, _, _, _, rfl⟩ hsgn.tablesOnly)⟩

theorem handleResumeFinalityProposal_effect
    (h : handleResumeFinalityProposal ext env w names haltingHeight = .ok w') :
    w.finality.TablesOnly w'.finality ∧ Jails env w.btcStaking w'.btcStaking := by
  obtain ⟨v, hjail, hrsm⟩ := handleResumeFinalityProposal_ok h
  obtain ⟨hsgn, hjails⟩ := foldOutcome_jails (fun _ _ _ hy => jailProposedFp_ok hy) hjail
  obtain ⟨hbs, htables⟩ := foldOutcome_resumeAtHeight_tablesOnly hrsm
  exact ⟨hsgn.tablesOnly.trans htables, hbs ▸ hjails⟩

/-- A proposal removes no table. -/
theorem handleResumeFinalityProposal_isSome
    (h : handleResumeFinalityProposal ext env w names haltingHeight = .ok w') (height : Nat)
    (htab : (w.finality.votingPower.get height).isSome = true) :
    (w'.finality.votingPower.get height).isSome = true := by
  obtain ⟨v, hjail, hrsm⟩ := handleResumeFinalityProposal_ok h
  obtain ⟨⟨_, _, hv⟩, -⟩ := foldOutcome_jails (fun _ _ _ hy => jailProposedFp_ok hy) hjail
  refine foldOutcome_preserves
    (fun x : Stores I => (x.finality.votingPower.get height).isSome = true) ?_ ?_ hrsm
  · intro x other y _ hx hy
    obtain ⟨-, dc, -, tracker, bitmap, hfin⟩ := resumeAtHeight_ok hy
    rw [clearVotingPower_eq] at hfin
    rw [hfin]
    exact isSome_get_setMany hx
  · rw [hv]
    exact htab

/-! ## The tally -/

/-- Only the indexed blocks and the cursor of finalization differ. -/
def State.TallyOnly (s t : State) : Prop :=
  ∃ blocks next, t = { s with blocks, nextHeightToFinalize := next }

theorem State.TallyOnly.trans {u : State} (hst : s.TallyOnly t) (htu : t.TallyOnly u) :
    s.TallyOnly u := by
  obtain ⟨_, _, rfl⟩ := hst
  obtain ⟨blocks, next, rfl⟩ := htu
  exact ⟨blocks, next, rfl⟩

theorem State.tallyHeights_tallyOnly {heights : List Nat} (h : s.tallyHeights heights = .ok t) :
    s.TallyOnly t := by
  induction heights generalizing s with
  | nil =>
    cases h
    exact ⟨_, _, rfl⟩
  | cons i rest ih =>
    simp only [tallyHeights, bind_ok_iff] at h
    obtain ⟨ib, -, h⟩ := h
    split at h
    · split at h
      · obtain ⟨blocks, next, rfl⟩ := ih h
        exact ⟨blocks, next, rfl⟩
      · cases h
        exact ⟨_, _, rfl⟩
    · obtain ⟨blocks, next, rfl⟩ := ih h
      exact ⟨blocks, next, rfl⟩
    · cases h
    · cases h

theorem State.tallyBlocks_tallyOnly {maxBlocks : Nat} (h : s.tallyBlocks env maxBlocks = .ok t) :
    s.TallyOnly t := by
  simp only [tallyBlocks, bind_ok_iff] at h
  obtain ⟨_, -, h⟩ := h
  obtain ⟨blocks, next, rfl⟩ := tallyHeights_tallyOnly h
  split
  · exact ⟨blocks, next, rfl⟩
  · exact ⟨blocks, next, rfl⟩

end Calls

end Babylon.Finality
