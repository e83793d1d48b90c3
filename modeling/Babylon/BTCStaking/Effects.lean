/-
  What an accepted message of `x/btcstaking` has checked and what it changes.

  One lemma per handler says which change it makes.  The invariants are derived from
  these lemmas, without unfolding a handler again.
-/
import Mathlib.Logic.Relation
import Babylon.BTCStaking.MsgServer

set_option autoImplicit false

namespace Babylon.BTCStaking

open Lib KVStore State

variable {prim : BtcPrimitives} {env : Env} {s t : State}

/-! ## Creating delegations -/

/-- What is known about a delegation at the moment it is stored. -/
structure FreshDelegation (prim : BtcPrimitives) (env : Env) (s : State) (d : BTCDelegation) :
    Prop where
  unused : s.btcDelegations.get (prim.txHash d.stakingTx) = none
  provider : ∃ pk fp, d.fpBtcPkList = [pk] ∧ s.finalityProviders.get pk = some fp
  params : ∃ p, s.params.get d.paramsVersion = some p ∧ d.unbondingTime = p.unbondingTimeBlocks
  covenantSigs : d.covenantSigs = []
  undelegationSigs : d.btcUndelegation.covenantUnbondingSigList = [] ∧
    d.btcUndelegation.covenantSlashingSigs = []
  notUnbonded : d.isUnbondedEarly = false
  time : d.startHeight = 0 ∧ d.endHeight = 0 ∨
    d.stkExp = none ∧ 0 < d.startHeight ∧ d.startHeight ≤ env.lc.tipHeight ∧
      env.lc.tipHeight + d.unbondingTime < d.endHeight

/-- The store after a delegation has been added to it. -/
def State.insertDelegation (s : State) (prim : BtcPrimitives) (delegators : DelegatorIndex)
    (d : BTCDelegation) : State :=
  let s := { s with btcDelegators := delegators }.setBTCDelegation prim d
  if d.hasInclusionProof then
    s.addPowerDistUpdateEvent (d.endHeight - d.unbondingTime)
      (.btcDelStateUpdate (prim.txHash d.stakingTx) .expired)
  else s

variable {d : BTCDelegation}

theorem addBTCDelegation_ok (h : s.addBTCDelegation prim d = .ok t) :
    ∃ delegators, t = s.insertDelegation prim delegators d := by
  simp only [addBTCDelegation, bind_ok_iff] at h
  obtain ⟨delegators, -, h⟩ := h
  refine ⟨delegators, ?_⟩
  unfold insertDelegation
  split at h <;> rename_i hprf <;> simp only [pure_ok_iff] at h <;> simp [hprf, ← h]

variable {pk : BIP340PubKey}

theorem validateStakedFPs_ok {pks : List BIP340PubKey} {u : Unit}
    (h : s.validateStakedFPs pks = .ok u) (hpk : pk ∈ pks) :
    ∃ fp, s.finalityProviders.get pk = some fp := by
  unfold validateStakedFPs at h
  induction pks with
  | nil => simp at hpk
  | cons head rest ih =>
    simp only [foldOutcome, ok_iff] at h
    obtain ⟨_, ⟨fp, hfp, -⟩, hrest⟩ := h
    rcases List.mem_cons.mp hpk with rfl | hmem
    · exact ⟨fp, hfp⟩
    · exact ih hrest hmem

variable {p : Params}

theorem getParamsForBtcHeight_ok {height : Nat} {version : Nat}
    (h : s.getParamsForBtcHeight height = .ok (p, version)) : s.params.get version = some p := by
  simp only [getParamsForBtcHeight, ok_iff] at h
  obtain ⟨v, -, q, hq, heq⟩ := h
  obtain ⟨rfl, rfl⟩ := Prod.mk.inj heq
  exact hq

variable {parsed : ParsedCreateDelegationMessage}

variable {timeInfo : DelegationTimeRangeInfo}

/-- The time range and the parameters of a request, with or without inclusion proof. -/
theorem getTimeInfoAndParams_ok {version : Nat}
    (h : s.getTimeInfoAndParams prim env parsed = .ok (timeInfo, p, version)) :
    s.params.get version = some p ∧
      (parsed.stakingTxProofOfInclusion = none ∧
          s.getParamsForBtcHeight env.lc.tipHeight = .ok (p, version) ∧
          timeInfo.startHeight = 0 ∧ timeInfo.endHeight = 0 ∨
        parsed.stakingTxProofOfInclusion ≠ none ∧ 0 < timeInfo.startHeight ∧
          timeInfo.startHeight ≤ env.lc.tipHeight ∧
          env.lc.tipHeight + parsed.unbondingTime < timeInfo.endHeight) := by
  unfold getTimeInfoAndParams at h
  split at h
  case h_1 proof hprf =>
    simp only [ok_iff] at h
    obtain ⟨info, hinfo, ⟨q, v⟩, hpar, heq⟩ := h
    cases heq
    obtain ⟨hpos, hle, -, hend⟩ := verifyInclusionProofAndGetHeight_ok hinfo
    exact ⟨getParamsForBtcHeight_ok hpar, .inr ⟨by simp [hprf], hpos, hle, hend⟩⟩
  case h_2 hprf =>
    simp only [ok_iff] at h
    obtain ⟨⟨q, v⟩, hpar, heq⟩ := h
    cases heq
    exact ⟨getParamsForBtcHeight_ok hpar, .inl ⟨hprf, hpar, rfl, rfl⟩⟩

theorem createBTCDelegation_ok (hone : ∃ pk, parsed.finalityProviderKeys = [pk])
    (hexp : parsed.stkExp = none ∨ parsed.stakingTxProofOfInclusion = none)
    (h : s.createBTCDelegation prim env parsed = .ok t) :
    ∃ d delegators, FreshDelegation prim env s d ∧ d.stakingTx = parsed.stakingTx ∧
      d.stkExp = (parsed.stkExp.map fun stkExp =>
        { previousStakingTxHash := stkExp.previousActiveStkTxHash
          otherFundingTxOut := stkExp.otherFundingOutput }) ∧
      (parsed.stakingTxProofOfInclusion = none →
        ∃ p, s.getParamsForBtcHeight env.lc.tipHeight = .ok (p, d.paramsVersion)) ∧
      t = s.insertDelegation prim delegators d := by
  simp only [createBTCDelegation, ok_iff] at h
  obtain ⟨_, -, _, hunused, _, hfps, ⟨timeInfo, p, version⟩, htime, idx, hval, _, -, hadd⟩ := h
  obtain ⟨delegators, rfl⟩ := addBTCDelegation_ok hadd
  obtain ⟨hpar, htime⟩ := getTimeInfoAndParams_ok htime
  simp only [validateParsedMessageAgainstTheParams, ok_iff] at hval
  obtain ⟨_, hunbonding, -⟩ := hval
  obtain ⟨pk, hpk⟩ := hone
  obtain ⟨fp, hfp⟩ := validateStakedFPs_ok hfps (by rw [hpk]; exact List.mem_singleton_self pk)
  refine ⟨newBTCDelegation parsed timeInfo idx version, delegators, ?_, rfl, rfl, ?_, rfl⟩
  case refine_2 =>
    intro hprf
    rcases htime with ⟨-, hcur, -⟩ | ⟨hsome, -⟩
    · exact ⟨p, hcur⟩
    · exact absurd hprf hsome
  exact {
    unused := by simpa [has, newBTCDelegation] using hunused
    provider := ⟨pk, fp, hpk, hfp⟩
    params := ⟨p, hpar, hunbonding⟩
    covenantSigs := rfl
    undelegationSigs := ⟨rfl, rfl⟩
    notUnbonded := rfl
    time := by
      rcases htime with ⟨-, -, hstart, hend⟩ | ⟨hprf, hpos, hle, hend⟩
      · exact .inl ⟨hstart, hend⟩
      · refine .inr ⟨?_, hpos, hle, hend⟩
        simp [newBTCDelegation, hexp.resolve_right hprf] }

/-- The delegation a stake expansion replaces, as `BtcStakeExpand` finds it. -/
structure ExpandsActive (prim : BtcPrimitives) (env : Env) (s : State) (d : BTCDelegation)
    (stkExp : StakeExpansion) : Prop where
  unsigned : stkExp.previousStkCovenantSigs = []
  previous : ∃ info, s.getBTCDelWithParams stkExp.previousStakingTxHash = .ok info ∧
    btcDelStatusWithTip env info = .active ∧
    ∃ first second, d.stakingTx.txIn = [first, second] ∧
      first.previousOutPoint = ⟨stkExp.previousStakingTxHash, info.delegation.stakingOutputIdx⟩
  overlap : ∃ info p, s.getBTCDelWithParams stkExp.previousStakingTxHash = .ok info ∧
    s.params.get d.paramsVersion = some p ∧
    hasSufficientCovenantOverlap info.params.covenantPks p.covenantPks
      info.params.covenantQuorum = true

/-! ## Inclusion proofs and covenant signatures -/

/-- A delegation that gets an inclusion proof at a later time. -/
structure Includable (env : Env) (s : State) (d : BTCDelegation) (p : Params)
    (timeInfo : DelegationTimeRangeInfo) : Prop where
  notIncluded : d.hasInclusionProof = false
  params : s.params.get d.paramsVersion = some p
  quorum : s.btcDelHasCovenantQuorums d p.covenantQuorum = .ok true
  notUnbonded : d.isUnbondedEarly = false
  start_pos : 0 < timeInfo.startHeight
  start_le : timeInfo.startHeight ≤ env.lc.tipHeight
  end_gt : env.lc.tipHeight + p.unbondingTimeBlocks < timeInfo.endHeight

/-- The store after a delegation has got its inclusion proof. -/
def State.includeDelegation (s : State) (prim : BtcPrimitives) (env : Env) (d : BTCDelegation)
    (p : Params) (timeInfo : DelegationTimeRangeInfo) : State :=
  let s := s.setBTCDelegation prim
    { d with startHeight := timeInfo.startHeight, endHeight := timeInfo.endHeight }
  let s := s.addPowerDistUpdateEvent env.lc.tipHeight
    (.btcDelStateUpdate (prim.txHash d.stakingTx) .active)
  s.addPowerDistUpdateEvent (timeInfo.endHeight - p.unbondingTimeBlocks)
    (.btcDelStateUpdate (prim.txHash d.stakingTx) .expired)

theorem addBTCDelegationInclusionProof_ok {proof : InclusionProof}
    (h : s.addBTCDelegationInclusionProof prim env d proof = .ok t) :
    ∃ p timeInfo, Includable env s d p timeInfo ∧
      t = s.includeDelegation prim env d p timeInfo := by
  simp only [addBTCDelegationInclusionProof, ok_iff] at h
  obtain ⟨_, hnot, p, hpar, hasQuorum, hq, _, htrue, _, hbonded, timeInfo, htime, _, -, rfl⟩ := h
  subst htrue
  obtain ⟨hpos, hle, htip, hend⟩ := verifyInclusionProofAndGetHeight_ok htime
  refine ⟨p, timeInfo, ⟨hnot, hpar, hq, hbonded, hpos, hle, hend⟩, ?_⟩
  simp only [includeDelegation, htip]

/-! ## Undelegating -/

/-- The spending transaction activates a stored stake expansion, or nothing. -/
theorem verifyStakeSpendingTx_ok {tx : MsgTx} {proof : InclusionProof}
    (h : s.verifyStakeSpendingTx prim env tx proof = .ok t) :
    (∃ d p timeInfo, s.btcDelegations.get (prim.txHash tx) = some d ∧ d.stkExp ≠ none ∧
        Includable env s d p timeInfo ∧ t = s.includeDelegation prim env d p timeInfo) ∨
      t = s := by
  simp only [verifyStakeSpendingTx, ok_iff] at h
  obtain ⟨header, -, h⟩ := h
  split at h
  case h_1 d hd =>
    obtain ⟨p, timeInfo, hinc, rfl⟩ :=
      addBTCDelegationInclusionProof_ok (Outcome.orWrapf_ok_iff.mp h)
    simp only [shouldActivateStkExp, Option.filter_eq_some_iff, Bool.and_eq_true] at hd
    obtain ⟨hget, hexp, -⟩ := hd
    refine .inl ⟨d, p, timeInfo, hget, ?_, hinc, rfl⟩
    simpa [BTCDelegation.isStakeExpansion, Option.isSome_iff_ne_none] using hexp
  case h_2 =>
    simp only [ok_iff] at h
    obtain ⟨_, -, rfl⟩ := h
    exact .inr rfl

theorem msgBTCUndelegate_ok {req : MsgBTCUndelegate} (h : s.msgBTCUndelegate prim env req = .ok t) :
    ∃ info tx u activated, req.stakeSpendingTx = some tx ∧
      s.getBTCDelWithParams req.stakingTxHash = .ok info ∧
      btcDelStatusWithTip env info ≠ .unbonded ∧
      btcDelStatusWithTip env info ≠ .expired ∧
      s.verifyStakeSpendingTx prim env tx req.stakeSpendingTxInclusionProof = .ok activated ∧
      (∃ txIn ∈ tx.txIn, txIn.previousOutPoint =
        ⟨prim.txHash info.delegation.stakingTx, info.delegation.stakingOutputIdx⟩) ∧
      t = activated.btcUndelegate prim env info.delegation u := by
  simp only [msgBTCUndelegate, ok_iff] at h
  obtain ⟨tx, htx, _, -, info, hinfo, _, hst, activated, hact, idx, hidx, _, -, _, -, _,
    -, rfl⟩ := h
  have hinput : ∃ txIn ∈ tx.txIn, txIn.previousOutPoint =
      ⟨prim.txHash info.delegation.stakingTx, info.delegation.stakingOutputIdx⟩ := by
    obtain ⟨hlt, hspends, -⟩ := List.findIdx?_eq_some_iff_getElem.mp hidx
    exact ⟨tx.txIn[idx], List.getElem_mem hlt, by simpa using hspends⟩
  exact ⟨info, tx, _, activated, htx, hinfo, hst.1, hst.2, hact, hinput, rfl⟩

/-! ## Finality providers -/

theorem slashFinalityProvider_ok (h : s.slashFinalityProvider env pk = .ok t) :
    ∃ fp, s.finalityProviders.get pk = some fp ∧ fp.isSlashed = false ∧
      t = (s.setFinalityProvider { fp with
          slashedBabylonHeight := env.header.height
          slashedBtcHeight := env.lc.tipHeight }).addPowerDistUpdateEvent env.lc.tipHeight
        (.slashedFp fp.btcPk) := by
  simp only [slashFinalityProvider, getFinalityProvider, ok_iff] at h
  obtain ⟨fp, hfp, _, hsl, rfl⟩ := h
  exact ⟨fp, hfp, hsl, rfl⟩

theorem jailFinalityProvider_ok (h : s.jailFinalityProvider env pk = .ok t) :
    ∃ fp, s.finalityProviders.get pk = some fp ∧ fp.isSlashed = false ∧
      t = (s.setFinalityProvider { fp with jailed := true }).addPowerDistUpdateEvent
        env.lc.tipHeight (.jailedFp fp.btcPk) := by
  simp only [jailFinalityProvider, getFinalityProvider, ok_iff] at h
  obtain ⟨fp, hfp, _, hsl, _, -, rfl⟩ := h
  exact ⟨fp, hfp, hsl, rfl⟩

/-- Providers are stored under their own key. -/
def State.ProvidersKeyed (s : State) : Prop :=
  ∀ pk fp, s.finalityProviders.get pk = some fp → fp.btcPk = pk

/-- Providers keep their key and are never deleted, and a slashed one stays slashed. -/
structure ProvidersEvolve (s t : State) : Prop where
  keyed : t.ProvidersKeyed
  kept : ∀ pk fp, s.finalityProviders.get pk = some fp →
    ∃ fp', t.finalityProviders.get pk = some fp' ∧ (fp.isSlashed = true → fp'.isSlashed = true)

namespace ProvidersEvolve

theorem of_eq (hs : s.ProvidersKeyed) (h : t.finalityProviders = s.finalityProviders) :
    ProvidersEvolve s t where
  keyed := by
    intro pk fp hfp
    exact hs pk fp (h ▸ hfp)
  kept := fun pk fp hfp => ⟨fp, h ▸ hfp, id⟩

theorem trans {u : State} (hst : ProvidersEvolve s t) (htu : ProvidersEvolve t u) :
    ProvidersEvolve s u where
  keyed := htu.keyed
  kept := by
    intro pk fp hfp
    obtain ⟨fp', hfp', hsl⟩ := hst.kept pk fp hfp
    obtain ⟨fp'', hfp'', hsl'⟩ := htu.kept pk fp' hfp'
    exact ⟨fp'', hfp'', hsl' ∘ hsl⟩

/-- Overwriting a provider that is not slashed, or adding one. -/
theorem of_set (hs : s.ProvidersKeyed) {fp' : FinalityProvider}
    (hold : ∀ fp, s.finalityProviders.get fp'.btcPk = some fp → fp.isSlashed = true →
      fp'.isSlashed = true)
    (h : t.finalityProviders = s.finalityProviders.set fp'.btcPk fp') : ProvidersEvolve s t where
  keyed := by
    unfold ProvidersKeyed
    rw [h]
    exact forall_set hs rfl
  kept := by
    intro pk fp hfp
    by_cases heq : pk = fp'.btcPk
    · subst heq
      exact ⟨fp', by rw [h, get_set_self], hold fp hfp⟩
    · exact ⟨fp, by rw [h, get_set_of_ne _ _ heq, hfp], id⟩

/-- Overwriting a provider that is not slashed. -/
theorem of_notSlashed (hs : s.ProvidersKeyed) {fp fp' : FinalityProvider}
    (hfp : s.finalityProviders.get pk = some fp) (hnot : fp.isSlashed = false)
    (h : t.finalityProviders = s.finalityProviders.set fp'.btcPk fp')
    (hkey : fp'.btcPk = fp.btcPk) : ProvidersEvolve s t := by
  refine .of_set hs ?_ h
  intro old hold hsl
  rw [hkey, hs pk fp hfp, hfp] at hold
  cases hold
  rw [hnot] at hsl
  cases hsl

end ProvidersEvolve

/-! ## Parameters -/

theorem nextParamsVersion_unused : s.params.get s.nextParamsVersion = none := by
  unfold nextParamsVersion
  cases hlast : s.params.last? with
  | none => exact last?_eq_none.mp hlast 0
  | some entry =>
    cases hget : s.params.get (entry.1 + 1) with
    | none => rfl
    | some p => exact absurd (le_last? hlast hget) (by simp)

theorem setParams_ok (h : s.setParams prim p = .ok t) :
    (∃ u, p.validate prim = .ok u) ∧ ∃ pairs, t = { s with
      params := s.params.set s.nextParamsVersion p
      heightToVersionMap := pairs } := by
  simp only [setParams, ok_iff] at h
  obtain ⟨u, hval, pairs, -, rfl⟩ := h
  exact ⟨⟨u, hval⟩, pairs, rfl⟩

/-- Every version of the parameters passed its validation. -/
def State.ParamsValid (prim : BtcPrimitives) (s : State) : Prop :=
  ∀ version p, s.params.get version = some p → ∃ u, p.validate prim = .ok u

/-! ## Processed events -/

theorem State.foldl_clearPowerDistUpdateEvents (heights : List Nat) (s : State) :
    heights.foldl clearPowerDistUpdateEvents s = { s with
      powerDistUpdateEvents := heights.foldl delete s.powerDistUpdateEvents } := by
  induction heights generalizing s with
  | nil => rfl
  | cons height rest ih => exact ih (s.clearPowerDistUpdateEvents height)

/-! ## One change of the store -/

/-- The requests that some results restrict. -/
inductive Request where
  | addCovenantSigs (req : MsgAddCovenantSigs)
  | btcUndelegate (req : MsgBTCUndelegate)
  | unjailFinalityProvider (pk : BIP340PubKey)

/-- What an event about a provider has made of it. -/
inductive Moves (env : Env) (fp : FinalityProvider) :
    EventPowerDistUpdate → FinalityProvider → Prop
  | slash {fp' : FinalityProvider} (slashed : fp'.slashedBabylonHeight = env.header.height)
      (jailed : fp'.jailed = fp.jailed) : Moves env fp (.slashedFp fp.btcPk) fp'
  | jail {fp' : FinalityProvider} (slashed : fp'.isSlashed = false) (jailed : fp'.jailed = true) :
      Moves env fp (.jailedFp fp.btcPk) fp'
  | unjail {fp' : FinalityProvider} (slashed : fp'.isSlashed = false)
      (jailed : fp'.jailed = false) : Moves env fp (.unjailedFp fp.btcPk) fp'

/-- What a handler can do to finality providers and parameters. -/
inductive RegistryChange (prim : BtcPrimitives) (env : Env) (requests : State → Request → Prop)
    (s : State) : State → Prop
  | register {fp : FinalityProvider} {addrs : KVStore AccAddress Unit}
      (unused : s.finalityProviders.get fp.btcPk = none) (notSlashed : fp.isSlashed = false) :
      RegistryChange prim env requests s ({ s with fpBbnAddr := addrs }.setFinalityProvider fp)
  | update {pk : BIP340PubKey} {fp fp' : FinalityProvider}
      (stored : s.finalityProviders.get pk = some fp) (btcPk : fp'.btcPk = fp.btcPk)
      (slashed : fp'.slashedBabylonHeight = fp.slashedBabylonHeight)
      (jailed : fp'.jailed = fp.jailed) :
      RegistryChange prim env requests s (s.setFinalityProvider fp')
  | move {pk : BIP340PubKey} {fp fp' : FinalityProvider} {event : EventPowerDistUpdate}
      (stored : s.finalityProviders.get pk = some fp) (notSlashed : fp.isSlashed = false)
      (btcPk : fp'.btcPk = fp.btcPk) (moves : Moves env fp event fp')
      (request : event = .unjailedFp fp.btcPk → requests s (.unjailFinalityProvider pk)) :
      RegistryChange prim env requests s
        ((s.setFinalityProvider fp').addPowerDistUpdateEvent env.lc.tipHeight event)
  | params {p : Params} {t : State} (h : s.setParams prim p = .ok t) :
      RegistryChange prim env requests s t

variable {requests : State → Request → Prop}

theorem RegistryChange.create {msg : MsgCreateFinalityProvider}
    (h : s.createFinalityProvider prim env msg = .ok t) : RegistryChange prim env requests s t := by
  simp only [createFinalityProvider, addFinalityProvider, ok_iff] at h
  obtain ⟨_, -, _, -, _, -, _, -, _, -, _, -, _, -, _, hnew, rfl⟩ := h
  exact .register (by simpa [hasFinalityProvider, has] using hnew) rfl

theorem RegistryChange.edit {msg : MsgEditFinalityProvider}
    (h : s.editFinalityProvider env msg = .ok t) : RegistryChange prim env requests s t := by
  simp only [editFinalityProvider, getFinalityProvider, ok_iff] at h
  obtain ⟨fp, hfp, _, -, fp', hup, rfl⟩ := h
  unfold updateFinalityProviderCommission at hup
  split at hup
  case h_1 =>
    cases hup
    exact .update hfp rfl rfl rfl
  case h_2 =>
    simp only [ok_iff] at hup
    obtain ⟨_, -, _, -, _, -, _, -, _, -, _, -, _, -, rfl⟩ := hup
    exact .update hfp rfl rfl rfl

theorem RegistryChange.slash (h : s.slashFinalityProvider env pk = .ok t) :
    RegistryChange prim env requests s t := by
  obtain ⟨fp, hfp, hnot, rfl⟩ := slashFinalityProvider_ok h
  exact .move hfp hnot rfl (.slash rfl rfl) fun heq => by cases heq

theorem RegistryChange.jail (h : s.jailFinalityProvider env pk = .ok t) :
    RegistryChange prim env requests s t := by
  obtain ⟨fp, hfp, hnot, rfl⟩ := jailFinalityProvider_ok h
  exact .move hfp hnot rfl (.jail hnot rfl) fun heq => by cases heq

theorem RegistryChange.unjail (request : ∀ s, requests s (.unjailFinalityProvider pk))
    (h : s.unjailFinalityProvider env pk = .ok t) : RegistryChange prim env requests s t := by
  simp only [unjailFinalityProvider, getFinalityProvider, ok_iff] at h
  obtain ⟨fp, hfp, _, hnot, _, -, rfl⟩ := h
  exact .move hfp hnot rfl (.unjail hnot rfl) fun _ => request s

theorem RegistryChange.slashSelectively {msg : MsgSelectiveSlashingEvidence}
    (h : s.selectiveSlashingEvidence prim env msg = .ok t) :
    RegistryChange prim env requests s t := by
  simp only [selectiveSlashingEvidence, bind_ok_iff] at h
  obtain ⟨_, -, h⟩ := h
  exact .slash h

theorem RegistryChange.updateParams {msg : MsgUpdateParams}
    (h : s.updateParams prim env msg = .ok t) : RegistryChange prim env requests s t := by
  simp only [State.updateParams, bind_ok_iff] at h
  obtain ⟨_, -, _, -, h⟩ := h
  exact .params h

/-- What a handler can do to the store of the module, given the requests it may have been
called with. -/
inductive Change (prim : BtcPrimitives) (env : Env) (requests : State → Request → Prop)
    (s : State) : State → Prop
  | create {d : BTCDelegation} {delegators : DelegatorIndex}
      (fresh : FreshDelegation prim env s d) (hexp : d.stkExp = none) :
      Change prim env requests s (s.insertDelegation prim delegators d)
  | expand {d : BTCDelegation} {stkExp : StakeExpansion} {delegators : DelegatorIndex}
      (fresh : FreshDelegation prim env s d) (hexp : d.stkExp = some stkExp)
      (expands : ExpandsActive prim env s d stkExp) :
      Change prim env requests s (s.insertDelegation prim delegators d)
  | prove {hash : ChainHash} {d : BTCDelegation} {p : Params}
      {timeInfo : DelegationTimeRangeInfo} (stored : s.btcDelegations.get hash = some d)
      (hexp : d.stkExp = none) (includable : Includable env s d p timeInfo) :
      Change prim env requests s (s.includeDelegation prim env d p timeInfo)
  | sign {req : MsgAddCovenantSigs} {info : BTCDelegationWithParams}
      {slashingSigs unbondingSlashingSigs : List Bytes} {unbondingSig stkExpSig : Bytes}
      (request : requests s (.addCovenantSigs req))
      (stored : s.getBTCDelWithParams req.stakingTxHash = .ok info)
      (notUnbonded : btcDelStatusWithTip env info ≠ .unbonded)
      (notExpired : btcDelStatusWithTip env info ≠ .expired) :
      Change prim env requests s (s.addCovenantSigsToBTCDelegation prim env info req.pk
        slashingSigs unbondingSig unbondingSlashingSigs stkExpSig)
  | undelegate {req : MsgBTCUndelegate} {t : State} (request : requests s (.btcUndelegate req))
      (h : s.msgBTCUndelegate prim env req = .ok t) : Change prim env requests s t
  | registry {t : State} (h : RegistryChange prim env requests s t) : Change prim env requests s t

theorem Change.createDelegation {req : MsgCreateBTCDelegation}
    (h : s.msgCreateBTCDelegation prim env req = .ok t) : Change prim env requests s t := by
  simp only [msgCreateBTCDelegation, bind_ok_iff] at h
  obtain ⟨parsed, hprsd, h⟩ := h
  obtain ⟨hone, hexp, -⟩ := parseCreateDelegationMessage_ok hprsd
  obtain ⟨d, delegators, hfr, -, hstk, -, rfl⟩ := createBTCDelegation_ok hone (.inl hexp) h
  exact .create hfr (by simp [hstk, hexp])

theorem Change.expandStake {req : MsgBtcStakeExpand}
    (h : s.btcStakeExpand prim env req = .ok t) : Change prim env requests s t := by
  simp only [btcStakeExpand, ok_iff] at h
  obtain ⟨previous, hprev, info, hinfo, _, hact, _, -, parsed, hprsd, _, -, _, -, _, -,
    _, -, firstInput, hfirstInput, _, hidx, _, -, ⟨current, version⟩, hcur, _, hoverlap, h⟩ := h
  obtain ⟨hone, hprf, stkExp, hstk, hhash, first, second, hinputs, hfirst⟩ :=
    parseBtcExpandMessage_ok hprsd
  obtain ⟨d, delegators, hfr, htx, hexp, hpar, rfl⟩ := createBTCDelegation_ok hone (.inr hprf) h
  obtain rfl : previous = stkExp.previousActiveStkTxHash := Option.some.inj (hprev.symm.trans hhash)
  obtain rfl : first = firstInput := by simpa [hinputs] using hfirstInput
  rw [hstk] at hexp
  refine .expand hfr hexp
    ⟨rfl, ⟨info, hinfo, hact, first, second, by rw [htx, hinputs], ?_⟩, ?_⟩
  · rcases hout : first.previousOutPoint with ⟨hash, index⟩
    rw [hout] at hfirst hidx
    simp [← hfirst, hidx]
  · -- both calls look up the parameters of the tip
    obtain ⟨p, hp⟩ := hpar hprf
    rw [hcur] at hp
    obtain ⟨rfl, rfl⟩ := Prod.mk.inj (Except.ok.inj hp)
    exact ⟨info, current, hinfo, getParamsForBtcHeight_ok hcur, hoverlap⟩

theorem Change.addInclusionProof {req : MsgAddBTCDelegationInclusionProof}
    (h : s.msgAddBTCDelegationInclusionProof prim env req = .ok t) :
    Change prim env requests s t := by
  simp only [msgAddBTCDelegationInclusionProof, getBTCDelegation, ok_iff] at h
  obtain ⟨d, hd, _, hexp, h⟩ := h
  obtain ⟨p, timeInfo, hinc, rfl⟩ := addBTCDelegationInclusionProof_ok h
  exact .prove hd (by simpa [BTCDelegation.isStakeExpansion] using hexp) hinc

theorem Change.addCovenantSigs {req : MsgAddCovenantSigs}
    (request : requests s (.addCovenantSigs req)) (h : s.addCovenantSigs prim env req = .ok t) :
    Change prim env requests s t := by
  simp only [State.addCovenantSigs, ok_iff] at h
  obtain ⟨info, hinfo, _, -, _, -, _, hst, _, -, _, -, slashingSigs, -, _, -, _, -, _, -, _, -,
    unbondingSlashingSigs, -, _, -, rfl⟩ := h
  exact .sign request hinfo hst.1 hst.2

/-- Any number of changes. -/
abbrev Changes (prim : BtcPrimitives) (env : Env) (requests : State → Request → Prop) :
    State → State → Prop :=
  Relation.ReflTransGen (Change prim env requests)

/-- Delegations and their index are written, events about delegations are queued, and nothing
else happens. -/
inductive State.WritesDelegations (s : State) : State → Prop
  | refl : s.WritesDelegations s
  | set {t : State} (h : s.WritesDelegations t) (btcDelegations : KVStore ChainHash BTCDelegation)
      (btcDelegators : DelegatorIndex) :
      s.WritesDelegations { t with btcDelegations, btcDelegators }
  | queue {t : State} (h : s.WritesDelegations t) (height : Nat) (hash : ChainHash)
      (newState : BTCDelegationStatus) :
      s.WritesDelegations (t.addPowerDistUpdateEvent height (.btcDelStateUpdate hash newState))

namespace State.WritesDelegations

theorem frame (h : s.WritesDelegations t) :
    ∃ btcDelegations btcDelegators powerDistUpdateEvents,
      t = { s with btcDelegations, btcDelegators, powerDistUpdateEvents } := by
  induction h with
  | refl => exact ⟨_, _, _, rfl⟩
  | set _ _ _ ih | queue _ _ _ _ ih =>
    obtain ⟨_, _, _, rfl⟩ := ih
    exact ⟨_, _, _, rfl⟩

theorem finalityProviders (h : s.WritesDelegations t) :
    t.finalityProviders = s.finalityProviders := by
  obtain ⟨_, _, _, rfl⟩ := h.frame
  rfl

theorem params (h : s.WritesDelegations t) : t.params = s.params := by
  obtain ⟨_, _, _, rfl⟩ := h.frame
  rfl

theorem insert (s : State) (delegators : DelegatorIndex) (d : BTCDelegation) :
    s.WritesDelegations (s.insertDelegation prim delegators d) := by
  unfold insertDelegation
  split
  · exact .queue (.set .refl _ _) _ _ _
  · exact .set .refl _ _

theorem prove (h : s.WritesDelegations t) :
    s.WritesDelegations (t.includeDelegation prim env d p timeInfo) :=
  .queue (.queue (.set h _ _) _ _ _) _ _ _

theorem sign (s : State) (env : Env) (info : BTCDelegationWithParams) (pk : BIP340PubKey)
    (slashingSigs unbondingSlashingSigs : List Bytes) (unbondingSig stkExpSig : Bytes) :
    s.WritesDelegations (s.addCovenantSigsToBTCDelegation prim env info pk slashingSigs
      unbondingSig unbondingSlashingSigs stkExpSig) := by
  simp only [addCovenantSigsToBTCDelegation]
  split
  · exact .queue (.set .refl _ _) _ _ _
  · exact .set .refl _ _

theorem unbond (h : s.WritesDelegations t) (u : DelegatorUnbondingInfo) :
    s.WritesDelegations (t.btcUndelegate prim env d u) := by
  simp only [btcUndelegate]
  split
  · exact .queue (.set h _ _) _ _ _
  · exact .set h _ _

end State.WritesDelegations

/-- What a change of the registry writes: parameters, or providers and one event. -/
theorem RegistryChange.frame (h : RegistryChange prim env requests s t) :
    (∃ p, s.setParams prim p = .ok t) ∨ ∃ finalityProviders fpBbnAddr,
      t = { s with finalityProviders, fpBbnAddr } ∨ ∃ event,
        t = { s with finalityProviders, fpBbnAddr }.addPowerDistUpdateEvent env.lc.tipHeight
          event := by
  cases h with
  | register | update => exact .inr ⟨_, _, .inl rfl⟩
  | move => exact .inr ⟨_, _, .inr ⟨_, rfl⟩⟩
  | params h => exact .inl ⟨_, h⟩

/-- A change concerns delegations or the registry. -/
theorem Change.writesDelegations_or_registry (h : Change prim env requests s t) :
    s.WritesDelegations t ∨ RegistryChange prim env requests s t := by
  cases h with
  | create fresh hexp | expand fresh hexp expands => exact .inl (.insert s _ _)
  | prove stored hexp includable => exact .inl (.prove .refl)
  | sign request stored notUnbonded notExpired => exact .inl (.sign s _ _ _ _ _ _ _)
  | undelegate request h =>
    obtain ⟨info, tx, u, activated, -, -, -, -, hact, -, rfl⟩ := msgBTCUndelegate_ok h
    rcases verifyStakeSpendingTx_ok hact with ⟨_, _, _, -, -, -, rfl⟩ | rfl
    · exact .inl (.unbond (.prove .refl) u)
    · exact .inl (.unbond .refl u)
  | registry h => exact .inr h

theorem RegistryChange.providersEvolve (hs : s.ProvidersKeyed)
    (h : RegistryChange prim env requests s t) : ProvidersEvolve s t := by
  cases h with
  | register unused notSlashed =>
    refine .of_set hs ?_ rfl
    intro fp hfp
    rw [unused] at hfp
    cases hfp
  | @update pk fp fp' stored btcPk slashed jailed =>
    refine .of_set hs ?_ rfl
    intro old hold hsl
    rw [btcPk, hs pk fp stored, stored] at hold
    cases hold
    simpa only [FinalityProvider.isSlashed, slashed] using hsl
  | move stored notSlashed btcPk => exact .of_notSlashed hs stored notSlashed rfl btcPk
  | params h =>
    obtain ⟨-, pairs, rfl⟩ := setParams_ok h
    exact .of_eq hs rfl

theorem Change.providersEvolve (hs : s.ProvidersKeyed) (h : Change prim env requests s t) :
    ProvidersEvolve s t := by
  rcases h.writesDelegations_or_registry with hwr | hreg
  · exact .of_eq hs hwr.finalityProviders
  · exact hreg.providersEvolve hs

theorem Changes.providersEvolve (hs : s.ProvidersKeyed) (h : Changes prim env requests s t) :
    ProvidersEvolve s t := by
  induction h with
  | refl => exact .of_eq hs rfl
  | tail _ hchg ih => exact ih.trans (hchg.providersEvolve ih.keyed)

end Babylon.BTCStaking
