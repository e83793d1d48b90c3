/-
  The store of `x/btcstaking` and the keeper functions that read and write it:
  finality providers, power distribution events, the BTC height index,
  parameters, and BTC delegations with their covenant quorums.
-/
import Babylon.Lib.KVStore
import Babylon.BTCCheckpoint.BtcUtils
import Babylon.BTCStaking.Messages

set_option autoImplicit false

namespace Babylon.BTCStaking

open Lib

/-- What the handlers read from the block and from other modules. -/
structure Env where
  header : HeaderInfo
  lc : BTCLightClient
  btcConfirmationDepth : Nat
  checkpointFinalizationTimeout : Nat
  /-- the address of the governance module -/
  authority : AccAddress

/-- The staking transactions, by finality provider and staker. -/
abbrev DelegatorIndex := KVStore BIP340PubKey (KVStore BIP340PubKey (List ChainHash))

/-- The state of the module.  The events recorded at one BTC height are kept in
the order of their index, which is the order they were added in. -/
structure State where
  params : KVStore Nat Params
  heightToVersionMap : HeightToVersionMap
  finalityProviders : KVStore BIP340PubKey FinalityProvider
  finalityProvidersDeleted : KVStore BIP340PubKey Unit
  fpBbnAddr : KVStore AccAddress Unit
  btcDelegations : KVStore ChainHash BTCDelegation
  btcDelegators : DelegatorIndex
  powerDistUpdateEvents : KVStore Nat (List EventPowerDistUpdate)
  btcHeights : KVStore Nat Nat
  allowedStakingTxHashes : KVStore ChainHash Unit

namespace State

/-! ## Power distribution events, `keeper/power_dist_change.go` -/

variable (s : State)

/-- The events recorded at a BTC height, in iteration order. -/
def eventsAt (btcHeight : Nat) : List EventPowerDistUpdate :=
  (s.powerDistUpdateEvents.get btcHeight).getD []

/-- `addPowerDistUpdateEvent`. -/
def addPowerDistUpdateEvent (btcHeight : Nat) (event : EventPowerDistUpdate) : State :=
  { s with powerDistUpdateEvents :=
      s.powerDistUpdateEvents.set btcHeight (s.eventsAt btcHeight ++ [event]) }

/-- `ClearPowerDistUpdateEvents`. -/
def clearPowerDistUpdateEvents (btcHeight : Nat) : State :=
  { s with powerDistUpdateEvents := s.powerDistUpdateEvents.delete btcHeight }

/-! ## BTC height index, `keeper/btc_height_index.go` -/

/-- `IndexBTCHeight`. -/
def indexBTCHeight (env : Env) : State :=
  { s with btcHeights := s.btcHeights.set env.header.height env.lc.tipHeight }

/-- `GetBTCHeightAtBabylonHeight`: the base header where nothing is indexed. -/
def getBTCHeightAtBabylonHeight (lc : BTCLightClient) (babylonHeight : Nat) : Nat :=
  (s.btcHeights.get babylonHeight).getD lc.baseHeight

/-! ## Parameters, `keeper/params.go` -/

def nextParamsVersion : Nat :=
  match s.params.last? with
  | some (version, _) => version + 1
  | none => 0

/-- `SetParams`. -/
def setParams (prim : BtcPrimitives) (p : Params) : Outcome State := do
  p.validate prim
  let nextVersion := s.nextParamsVersion
  let pairs ← HeightToVersionMap.addPair s.heightToVersionMap ⟨p.btcActivationHeight, nextVersion⟩
  return { s with params := s.params.set nextVersion p, heightToVersionMap := pairs }

/-- `GetParams`: the last version. -/
def getParams : Outcome Params :=
  match s.params.last? with
  | some (_, p) => .ok p
  | none => .error (.panic "last params not found")

/-- `GetParamsForBtcHeight`; the code dereferences the parameters it finds. -/
def getParamsForBtcHeight (height : Nat) : Outcome (Params × Nat) := do
  let version ← HeightToVersionMap.getVersionForHeight s.heightToVersionMap height
  let p ← orThrow (s.params.get version) (.panic "nil params")
  return (p, version)

/-! ## Finality providers, `keeper/finality_providers.go` -/

def hasFinalityProvider (fpBTCPK : BIP340PubKey) : Bool :=
  s.finalityProviders.has fpBTCPK

def getFinalityProvider (fpBTCPK : BIP340PubKey) : Outcome FinalityProvider :=
  orThrow (s.finalityProviders.get fpBTCPK) (.registered errFpNotFound)

def setFinalityProvider (fp : FinalityProvider) : State :=
  { s with finalityProviders := s.finalityProviders.set fp.btcPk fp }

def isFinalityProviderDeleted (fpBTCPK : BIP340PubKey) : Bool :=
  s.finalityProvidersDeleted.has fpBTCPK

/-- `SlashFinalityProvider`. -/
def slashFinalityProvider (env : Env) (fpBTCPK : BIP340PubKey) : Outcome State := do
  let fp ← s.getFinalityProvider fpBTCPK
  ensure (fp.isSlashed = false) (.registered errFpAlreadySlashed)
  let fp := { fp with
    slashedBabylonHeight := env.header.height
    slashedBtcHeight := env.lc.tipHeight }
  return (s.setFinalityProvider fp).addPowerDistUpdateEvent env.lc.tipHeight (.slashedFp fp.btcPk)

/-- `JailFinalityProvider`. -/
def jailFinalityProvider (env : Env) (fpBTCPK : BIP340PubKey) : Outcome State := do
  let fp ← s.getFinalityProvider fpBTCPK
  ensure (fp.isSlashed = false) (.registered errFpAlreadySlashed)
  ensure (fp.isJailed = false) (.registered errFpAlreadyJailed)
  let fp := { fp with jailed := true }
  return (s.setFinalityProvider fp).addPowerDistUpdateEvent env.lc.tipHeight (.jailedFp fp.btcPk)

/-- `UnjailFinalityProvider`. -/
def unjailFinalityProvider (env : Env) (fpBTCPK : BIP340PubKey) : Outcome State := do
  let fp ← s.getFinalityProvider fpBTCPK
  ensure (fp.isSlashed = false) (.registered errFpAlreadySlashed)
  ensure (fp.isJailed = true) (.registered errFpNotJailed)
  let fp := { fp with jailed := false }
  return (s.setFinalityProvider fp).addPowerDistUpdateEvent env.lc.tipHeight (.unjailedFp fp.btcPk)

/-- `UpdateFinalityProvider`. -/
def updateFinalityProvider (fp : FinalityProvider) : Outcome State := do
  ensure (s.hasFinalityProvider fp.btcPk = true) (.registered errFpNotFound)
  return s.setFinalityProvider fp

/-! ## BTC delegations, `keeper/btc_delegations.go` -/

/-- `setBTCDelegation`. -/
def setBTCDelegation (prim : BtcPrimitives) (btcDel : BTCDelegation) : State :=
  { s with btcDelegations := s.btcDelegations.set (prim.txHash btcDel.stakingTx) btcDel }

/-- `GetBTCDelegation`. -/
def getBTCDelegation (stakingTxHash : ChainHash) : Outcome BTCDelegation :=
  orThrow (s.btcDelegations.get stakingTxHash) (.registered errBTCDelegationNotFound)

end State

/-- `btcDelegationWithParams`; the previous delegation of a stake expansion comes
with its own parameters. -/
structure BTCDelegationWithParams where
  delegation : BTCDelegation
  params : Params
  prev : Option (BTCDelegation × Params)

/-- The quorum that the signatures on the previous staking output have to reach. -/
def BTCDelegationWithParams.prevStkCovenantQuorum (info : BTCDelegationWithParams) : Nat :=
  match info.prev with
  | some (_, prevParams) => prevParams.covenantQuorum
  | none => 0

namespace State

/-- `getBTCDelWithParams` follows the chain of previous delegations.  A recursion
deeper than the number of delegations would never end. -/
def getBTCDelWithParamsWithin (s : State) : Nat → ChainHash → Outcome BTCDelegationWithParams
  | 0, _ => .error (.panic "stack overflow")
  | fuel + 1, stakingTxHash => do
      let btcDel ← s.getBTCDelegation stakingTxHash
      let bsParams ← orThrow (s.params.get btcDel.paramsVersion)
        (.errorf "params version in BTC delegation is not found")
      match btcDel.stkExp with
      | none => return ⟨btcDel, bsParams, none⟩
      | some stkExp => do
          let stkExpInfo ← s.getBTCDelWithParamsWithin fuel stkExp.previousStakingTxHash
          return ⟨btcDel, bsParams, some (stkExpInfo.delegation, stkExpInfo.params)⟩

/-- `getBTCDelWithParams`. -/
def getBTCDelWithParams (s : State) (stakingTxHash : ChainHash) : Outcome BTCDelegationWithParams :=
  s.getBTCDelWithParamsWithin (s.btcDelegations.size + 1) stakingTxHash

/-- `BtcDelStatusWithTip`. -/
def btcDelStatusWithTip (env : Env) (delInfo : BTCDelegationWithParams) : BTCDelegationStatus :=
  delInfo.delegation.getStatus env.lc.tipHeight delInfo.params.covenantQuorum
    delInfo.prevStkCovenantQuorum

/-- `BtcDelStatus`. -/
def btcDelStatus (s : State) (btcDel : BTCDelegation) (covenantQuorum btcTipHeight : Nat) :
    Outcome BTCDelegationStatus :=
  match btcDel.stkExp with
  | none => .ok (btcDel.getStatus btcTipHeight covenantQuorum 0)
  | some stkExp => do
      let delInfo ← s.getBTCDelWithParams stkExp.previousStakingTxHash
      return btcDel.getStatus btcTipHeight covenantQuorum delInfo.params.covenantQuorum

/-- `BtcDelHasCovenantQuorums`. -/
def btcDelHasCovenantQuorums (s : State) (btcDel : BTCDelegation) (quorum : Nat) : Outcome Bool :=
  match btcDel.stkExp with
  | none => .ok (btcDel.hasCovenantQuorums quorum 0)
  | some stkExp => do
      let delInfo ← s.getBTCDelWithParams stkExp.previousStakingTxHash
      return btcDel.hasCovenantQuorums quorum delInfo.params.covenantQuorum

/-- `AddBTCDelegation`. -/
def addBTCDelegation (s : State) (prim : BtcPrimitives) (btcDel : BTCDelegation) :
    Outcome State := do
  let stakingTxHash := prim.txHash btcDel.stakingTx
  let delegators ← foldOutcome (fun delegators fpBTCPK => do
      let fpDelegators := (delegators.get fpBTCPK).getD KVStore.empty
      let btcDelIndex := (fpDelegators.get btcDel.btcPk).getD []
      ensure (stakingTxHash ∉ btcDelIndex)
        (.wrapf errInvalidStakingTx "error adding staking tx hash to BTC delegator index: %s")
      return delegators.set fpBTCPK (fpDelegators.set btcDel.btcPk
        (btcDelIndex ++ [stakingTxHash])))
    s.btcDelegators btcDel.fpBtcPkList
  let s := { s with btcDelegators := delegators }
  let s := s.setBTCDelegation prim btcDel
  -- with an inclusion proof, the expiry is known and scheduled right away
  if btcDel.hasInclusionProof then
    return s.addPowerDistUpdateEvent (btcDel.endHeight - btcDel.unbondingTime)
      (.btcDelStateUpdate stakingTxHash .expired)
  else
    return s

/-- `addCovenantSigsToBTCDelegation`. -/
def addCovenantSigsToBTCDelegation (s : State) (prim : BtcPrimitives) (env : Env)
    (delInfo : BTCDelegationWithParams) (covPK : BIP340PubKey)
    (slashingAdaptorSigs : List Bytes) (unbondingTxSig : Bytes)
    (unbondingSlashingAdaptorSigs : List Bytes) (stakeExpansionTxSig : Bytes) : State :=
  let quorum := delInfo.params.covenantQuorum
  let quorumPreviousStk := delInfo.prevStkCovenantQuorum
  let hadQuorum := delInfo.delegation.hasCovenantQuorums quorum quorumPreviousStk
  let btcDel := delInfo.delegation.addCovenantSigs covPK slashingAdaptorSigs unbondingTxSig
    unbondingSlashingAdaptorSigs stakeExpansionTxSig
  let s := s.setBTCDelegation prim btcDel
  if !hadQuorum && btcDel.hasCovenantQuorums quorum quorumPreviousStk &&
      btcDel.hasInclusionProof then
    s.addPowerDistUpdateEvent env.lc.tipHeight
      (.btcDelStateUpdate (prim.txHash btcDel.stakingTx) .active)
  else
    s

/-- `btcUndelegate`. -/
def btcUndelegate (s : State) (prim : BtcPrimitives) (env : Env) (btcDel : BTCDelegation)
    (u : DelegatorUnbondingInfo) : State :=
  let btcDel := { btcDel with
    btcUndelegation := { btcDel.btcUndelegation with delegatorUnbondingInfo := some u } }
  let s := s.setBTCDelegation prim btcDel
  if btcDel.hasInclusionProof then
    s.addPowerDistUpdateEvent env.lc.tipHeight
      (.btcDelStateUpdate (prim.txHash btcDel.stakingTx) .unbonded)
  else
    s

end State

/-! ## Inclusion proofs, `keeper/inclusion_proof.go` -/

/-- `DelegationTimeRangeInfo`. -/
structure DelegationTimeRangeInfo where
  startHeight : Nat
  endHeight : Nat
  tipHeight : Nat

/-- `VerifyInclusionProofAndGetHeight`. -/
def verifyInclusionProofAndGetHeight (prim : BtcPrimitives) (lc : BTCLightClient)
    (stakingTx : MsgTx) (confirmationDepth stakingTime unbondingTime : Nat)
    (inclusionProof : InclusionProof) : Outcome DelegationTimeRangeInfo := do
  let stakingTxHeader ← orThrow (lc.headerByHash inclusionProof.headerHash)
    (.errorf "staking tx inclusion proof header %s is not found in BTC light client state: %v")
  ensure (BTCCheckpoint.verifyInclusionProof prim stakingTx stakingTxHeader.merkleRoot
      inclusionProof.proof inclusionProof.index = true)
    (.wrapf errInvalidStakingTx "not included in the Bitcoin chain")
  ensure (inclusionProof.index ≠ 0)
    (.wrapf errInvalidStakingTx "coinbase tx cannot be used for staking")
  let startHeight := stakingTxHeader.height
  let endHeight := stakingTxHeader.height + stakingTime
  ensure (confirmationDepth ≤ lc.tipHeight - stakingTxHeader.height)
    (.wrapf errInvalidStakingTx "not k-deep: k=%d; depth=%d")
  ensure (lc.tipHeight + unbondingTime < endHeight)
    (.wrapf errInvalidStakingTx "staking tx's timelock has no more than unbonding(=%d) blocks left")
  return { startHeight, endHeight, tipHeight := lc.tipHeight }

/-- An accepted staking transaction starts at a known height and its timelock
outlasts the tip by more than the unbonding time. -/
theorem verifyInclusionProofAndGetHeight_ok {prim : BtcPrimitives} {lc : BTCLightClient}
    {tx : MsgTx} {depth stakingTime unbondingTime : Nat} {proof : InclusionProof}
    {info : DelegationTimeRangeInfo}
    (h : verifyInclusionProofAndGetHeight prim lc tx depth stakingTime unbondingTime proof =
      .ok info) :
    0 < info.startHeight ∧ info.startHeight ≤ lc.tipHeight ∧ info.tipHeight = lc.tipHeight ∧
      lc.tipHeight + unbondingTime < info.endHeight := by
  simp only [verifyInclusionProofAndGetHeight, ok_iff] at h
  obtain ⟨header, hhd, _, -, _, -, _, -, _, hend, rfl⟩ := h
  exact ⟨lc.header_pos _ _ hhd, lc.header_le_tip _ _ hhd, rfl, hend⟩

namespace State

/-- `AddBTCDelegationInclusionProof` of the keeper. -/
def addBTCDelegationInclusionProof (s : State) (prim : BtcPrimitives) (env : Env)
    (btcDel : BTCDelegation) (stakingTxInclusionProof : InclusionProof) : Outcome State := do
  let stakingTxHash := prim.txHash btcDel.stakingTx
  ensure (btcDel.hasInclusionProof = false)
    (.errorf "the delegation %s already has inclusion proof")
  let params ← orThrow (s.params.get btcDel.paramsVersion)
    (.panic "params version in BTC delegation is not found")
  let hasQuorum ← s.btcDelHasCovenantQuorums btcDel params.covenantQuorum
  ensure (hasQuorum = true)
    (.errorf "the delegation %s has not received a quorum of covenant signatures")
  ensure (btcDel.isUnbondedEarly = false) (.errorf "the delegation %s is already unbonded")
  let timeInfo ← verifyInclusionProofAndGetHeight prim env.lc btcDel.stakingTx
    env.btcConfirmationDepth btcDel.stakingTime params.unbondingTimeBlocks stakingTxInclusionProof
  ensure (btcDel.btcTipHeight ≤ timeInfo.startHeight)
    (.wrapf errStakingTxIncludedTooEarly
      "btc tip height at the time of the delegation creation: %d, staking tx inclusion height: %d")
  let btcDel := { btcDel with startHeight := timeInfo.startHeight, endHeight := timeInfo.endHeight }
  let s := s.setBTCDelegation prim btcDel
  let s := s.addPowerDistUpdateEvent timeInfo.tipHeight (.btcDelStateUpdate stakingTxHash .active)
  return s.addPowerDistUpdateEvent (btcDel.endHeight - params.unbondingTimeBlocks)
    (.btcDelStateUpdate stakingTxHash .expired)

end State

end Babylon.BTCStaking
