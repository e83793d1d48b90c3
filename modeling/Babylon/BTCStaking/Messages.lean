/-
  The delegation requests of `x/btcstaking`: parsing
  (`types/create_delegation_parser.go`, `types/msg.go`) and validation against
  the parameters (`types/validate_parsed_message.go`).

  A field that is optional here is one whose bytes may fail to parse or whose
  pointer may be nil.
-/
import Babylon.BTCStaking.Types

set_option autoImplicit false

namespace Babylon.BTCStaking

open Lib

/-- The fields that `MsgCreateBTCDelegation` and `MsgBtcStakeExpand` share. -/
structure DelegationRequest where
  stakerAddr : Option AccAddress
  pop : Option Bytes
  btcPk : Option BIP340PubKey
  fpBtcPkList : List BIP340PubKey
  stakingTime : Nat
  stakingValue : Int
  stakingTx : Option MsgTx
  slashingTx : Option MsgTx
  delegatorSlashingSig : Option Bytes
  unbondingTime : Nat
  unbondingTx : Option MsgTx
  unbondingValue : Int
  unbondingSlashingTx : Option MsgTx
  delegatorUnbondingSlashingSig : Option Bytes

/-- `MsgCreateBTCDelegation`. -/
structure MsgCreateBTCDelegation extends DelegationRequest where
  stakingTxInclusionProof : Option InclusionProof

/-- `MsgBtcStakeExpand`. -/
structure MsgBtcStakeExpand extends DelegationRequest where
  previousStakingTxHash : Option ChainHash
  fundingTx : Option MsgTx

/-- `ParsedCreateDelStkExp`. -/
structure ParsedCreateDelStkExp where
  previousActiveStkTxHash : ChainHash
  otherFundingOutput : TxOut
  fundingTxHash : ChainHash
  fundingOutputIndex : Nat

/-- `ParsedCreateDelegationMessage`. -/
structure ParsedCreateDelegationMessage where
  stakerAddress : AccAddress
  stakingTx : MsgTx
  stakingTxProofOfInclusion : Option InclusionProof
  stakingTime : Nat
  stakingValue : Int
  stakingSlashingTx : MsgTx
  stakerPK : BIP340PubKey
  stakerStakingSlashingTxSig : Bytes
  unbondingTx : MsgTx
  unbondingTime : Nat
  unbondingValue : Int
  unbondingSlashingTx : MsgTx
  stakerUnbondingSlashingSig : Bytes
  finalityProviderKeys : List BIP340PubKey
  parsedPop : Bytes
  stkExp : Option ParsedCreateDelStkExp

section Parse

variable (prim : BtcPrimitives)

/-- `NewParsedBIP340Signature`. -/
def newParsedBIP340Signature (sig : Option Bytes) : Outcome Bytes := do
  let sig ← orThrow sig (.errorf "cannot parse nil *bbn.BIP340Signature")
  ensure (prim.validSignature sig = true) (.errorf "failed to parse *bbn.BIP340Signature: %w")
  return sig

/-- `NewParsedPublicKeyList`. -/
def newParsedPublicKeyList (pks : List BIP340PubKey) : Outcome (List BIP340PubKey) := do
  ensure (pks ≠ []) (.errorf "cannot parse empty list of *bbn.BIP340PubKey")
  ensure (pks.all prim.validPubKey = true) (.errorf "failed to parse list of *bbn.BIP340PubKey: %w")
  return pks

/-- `NewParsedPublicKey`. -/
def newParsedPublicKey (key : Option BIP340PubKey) : Outcome BIP340PubKey := do
  let key ← orThrow key (.errorf "cannot parse nil *bbn.BIP340PubKey")
  ensure (prim.validPubKey key = true) (.errorf "failed to parse *bbn.BIP340PubKey: %w")
  return key

/-- `parseCreateDelegationMessage`. -/
def parseCreateDelegationMessage (msg : MsgCreateBTCDelegation) :
    Outcome ParsedCreateDelegationMessage := do
  let stakingTx ← orThrow msg.stakingTx (.errorf "failed to deserialize staking tx: %v")
  let stakingSlashingTx ← orThrow msg.slashingTx
    (.errorf "failed to deserialize staking slashing tx: %v")
  let unbondingTx ← orThrow msg.unbondingTx (.errorf "failed to deserialize unbonding tx: %v")
  let unbondingSlashingTx ← orThrow msg.unbondingSlashingTx
    (.errorf "failed to deserialize unbonding slashing tx: %v")
  ensure (msg.unbondingTime ≤ maxUint16) (.errorf "unbonding time %d must be lower than %d")
  ensure (msg.stakingTime ≤ maxUint16) (.errorf "staking time %d must be lower than %d")
  let stakerAddress ← orThrow msg.stakerAddr (.errorf "invalid staker address %s: %v")
  let pop ← orThrow msg.pop (.errorf "empty proof of possession")
  ensure (prim.popValidateBasic pop = true) (.errorf "invalid BTC signature type")
  let stakerStakingSlashingTxSig ← newParsedBIP340Signature prim msg.delegatorSlashingSig
  let stakerUnbondingSlashingSig ← newParsedBIP340Signature prim msg.delegatorUnbondingSlashingSig
  let fpPKs ← newParsedPublicKeyList prim msg.fpBtcPkList
  let duplicate ← existsDup prim fpPKs
  ensure (duplicate = false) (.registered errDuplicatedFp)
  ensure (fpPKs.length = 1) (.registered errTooManyFpKeys)
  let stakerPK ← newParsedPublicKey prim msg.btcPk
  ensure (0 ≤ msg.stakingValue) (.errorf "staking value must be positive")
  ensure (0 ≤ msg.unbondingValue) (.errorf "unbonding value must be positive")
  return {
    stakerAddress, stakingTx
    stakingTxProofOfInclusion := msg.stakingTxInclusionProof
    stakingTime := msg.stakingTime
    stakingValue := msg.stakingValue
    stakingSlashingTx, stakerPK, stakerStakingSlashingTxSig, unbondingTx
    unbondingTime := msg.unbondingTime
    unbondingValue := msg.unbondingValue
    unbondingSlashingTx, stakerUnbondingSlashingSig
    finalityProviderKeys := fpPKs
    parsedPop := pop
    stkExp := none }

/-- `MsgBtcStakeExpand.GetStakeExpansion`. -/
def MsgBtcStakeExpand.getStakeExpansion (m : MsgBtcStakeExpand) :
    Outcome ParsedCreateDelStkExp := do
  let previousActiveStkTxHash ← orThrow m.previousStakingTxHash (.errorf "invalid hash")
  let stkExpandTx ← orThrow m.stakingTx (.errorf "invalid staking tx")
  let fundingTx ← orThrow m.fundingTx (.errorf "invalid funding tx")
  match stkExpandTx.txIn with
  | [firstInput, secondInput] => do
      ensure (firstInput.previousOutPoint.hash = previousActiveStkTxHash)
        (.errorf "stake expansion first input must be the previous staking transaction hash %s")
      let fundingTxHash := prim.txHash fundingTx
      ensure (secondInput.previousOutPoint.hash = fundingTxHash)
        (.errorf "stake expansion second input must be the given funding tx hash %s")
      let idxOtherInput := secondInput.previousOutPoint.index
      let otherOutput ← orThrow fundingTx.txOut[idxOtherInput]?
        (.errorf "the given funding tx doesn't have the expected output index %d (has %d outputs)")
      ensure (0 < otherOutput.value) (.errorf "funding output has invalid value %d")
      return {
        previousActiveStkTxHash
        otherFundingOutput := otherOutput
        fundingTxHash
        fundingOutputIndex := idxOtherInput }
  | _ => throw (.errorf "stake expansion must have 2 inputs (TxIn)")

/-- `parseBtcExpandMessage`: an expansion carries no inclusion proof. -/
def parseBtcExpandMessage (msg : MsgBtcStakeExpand) : Outcome ParsedCreateDelegationMessage := do
  let parsed ← parseCreateDelegationMessage prim
    { toDelegationRequest := msg.toDelegationRequest, stakingTxInclusionProof := none }
  let stkExp ← msg.getStakeExpansion prim
  return { parsed with stkExp := some stkExp }

end Parse

/-- `GetOutputIdxInBTCTx`: the position of the only output equal to the given one. -/
def getOutputIdxInBTCTx (tx : MsgTx) (output : TxOut) : Outcome Nat :=
  match (List.range tx.txOut.length).filter fun i => tx.txOut[i]? = some output with
  | [] => .error (.errorf "output not found")
  | [i] => .ok i
  | _ => .error (.errorf "multiple outputs match")

/-- `ValidateParsedMessageAgainstTheParams`; returns the staking output index. -/
def validateParsedMessageAgainstTheParams (prim : BtcPrimitives)
    (pm : ParsedCreateDelegationMessage) (parameters : Params) : Outcome Nat := do
  ensure (pm.unbondingTime = parameters.unbondingTimeBlocks)
    (.wrapf errInvalidUnbondingTx "unbonding time %d must be equal to %d")
  let stakingTxHash := prim.txHash pm.stakingTx
  ensure (parameters.covenantPks.all prim.validPubKey = true)
    (.panic "failed to get covenant keys: %w")
  -- the staking output
  let stakingInfo ← orThrow
    (prim.buildStakingInfo pm.stakerPK pm.finalityProviderKeys parameters.covenantPks
      parameters.covenantQuorum pm.stakingTime pm.stakingValue)
    (.wrapf errInvalidStakingTx "failed to build staking info: %v")
  let stakingOutputIdx ← getOutputIdxInBTCTx pm.stakingTx stakingInfo.stakingOutput
  let stakingOutput ← orThrow pm.stakingTx.txOut[stakingOutputIdx]? (.panic "index out of range")
  ensure (parameters.minStakingTimeBlocks ≤ pm.stakingTime ∧
      pm.stakingTime ≤ parameters.maxStakingTimeBlocks)
    (.wrapf errInvalidStakingTx "staking time %d is out of bounds. Min: %d, Max: %d")
  ensure (parameters.minStakingValueSat ≤ stakingOutput.value ∧
      stakingOutput.value ≤ parameters.maxStakingValueSat)
    (.wrapf errInvalidStakingTx "staking value %d is out of bounds. Min: %d, Max: %d")
  ensure (prim.checkSlashingTxMatchFundingTx pm.stakingSlashingTx pm.stakingTx stakingOutputIdx
      parameters.minSlashingTxFeeSat parameters.slashingRate parameters.slashingPkScript
      pm.stakerPK pm.unbondingTime = true)
    (.registered errInvalidStakingTx)
  ensure (prim.verifyTransactionSigWithOutput pm.stakingSlashingTx stakingOutput
      stakingInfo.slashingPathScript pm.stakerPK pm.stakerStakingSlashingTxSig = true)
    (.wrapf errInvalidSlashingTx "invalid delegator signature: %v")
  -- the unbonding transaction
  ensure (prim.checkPreSignedUnbondingTxSanity pm.unbondingTx = true)
    (.wrapf errInvalidUnbondingTx "unbonding tx is not a valid pre-signed transaction: %v")
  let unbondingInfo ← orThrow
    (prim.buildUnbondingInfo pm.stakerPK pm.finalityProviderKeys parameters.covenantPks
      parameters.covenantQuorum pm.unbondingTime pm.unbondingValue)
    (.wrapf errInvalidUnbondingTx "failed to build the unbonding info: %v")
  let unbondingOutput ← orThrow pm.unbondingTx.txOut[0]? (.panic "index out of range")
  ensure (unbondingOutput.pkScript = unbondingInfo.unbondingOutput.pkScript)
    (.wrapf errInvalidUnbondingTx "the unbonding output script is not expected, expected: %x, got: %s")
  ensure (unbondingOutput.value = unbondingInfo.unbondingOutput.value)
    (.wrapf errInvalidUnbondingTx "the unbonding output value is not expected, expected: %d, got: %d")
  ensure (prim.checkSlashingTxMatchFundingTx pm.unbondingSlashingTx pm.unbondingTx 0
      parameters.minSlashingTxFeeSat parameters.slashingRate parameters.slashingPkScript
      pm.stakerPK pm.unbondingTime = true)
    (.wrapf errInvalidUnbondingTx "err: %v")
  ensure (prim.verifyTransactionSigWithOutput pm.unbondingSlashingTx unbondingOutput
      unbondingInfo.slashingPathScript pm.stakerPK pm.stakerUnbondingSlashingSig = true)
    (.wrapf errInvalidSlashingTx "invalid delegator signature: %v")
  let unbondingInput ← orThrow pm.unbondingTx.txIn[0]? (.panic "index out of range")
  ensure (unbondingInput.previousOutPoint.hash = stakingTxHash)
    (.wrapf errInvalidUnbondingTx "unbonding transaction must spend staking output")
  ensure (unbondingInput.previousOutPoint.index = stakingOutputIdx)
    (.wrapf errInvalidUnbondingTx "unbonding transaction input must spend staking output")
  -- the unbonding fee
  ensure (unbondingOutput.value < stakingOutput.value)
    (.wrapf errInvalidUnbondingTx "unbonding tx fee must be larger that 0")
  ensure (stakingOutput.value - unbondingOutput.value = parameters.unbondingFeeSat)
    (.wrapf errInvalidUnbondingTx "unbonding tx fee must be %d, but got %d")
  return stakingOutputIdx

/-! ## What a successful parse and validation guarantee -/

variable {parsed : ParsedCreateDelegationMessage}

variable {prim : BtcPrimitives}

/-- A parsed creation request names one finality provider and is no expansion. -/
theorem parseCreateDelegationMessage_ok {msg : MsgCreateBTCDelegation}
    (h : parseCreateDelegationMessage prim msg = .ok parsed) :
    (∃ fp, parsed.finalityProviderKeys = [fp]) ∧ parsed.stkExp = none ∧
      parsed.stakingTxProofOfInclusion = msg.stakingTxInclusionProof := by
  simp only [parseCreateDelegationMessage, ok_iff] at h
  obtain ⟨_, -, _, -, _, -, _, -, _, -, _, -, _, -, _, -, _, -, _, -, _, -, _, -, _, -, _, -,
    _, hone, _, -, _, -, _, -, rfl⟩ := h
  exact ⟨List.length_eq_one_iff.mp hone, rfl, rfl⟩

/-- A parsed expansion spends the delegation it names with its first input. -/
theorem parseBtcExpandMessage_ok {msg : MsgBtcStakeExpand}
    (h : parseBtcExpandMessage prim msg = .ok parsed) :
    (∃ fp, parsed.finalityProviderKeys = [fp]) ∧ parsed.stakingTxProofOfInclusion = none ∧
      ∃ stkExp, parsed.stkExp = some stkExp ∧
        msg.previousStakingTxHash = some stkExp.previousActiveStkTxHash ∧
        ∃ first second, parsed.stakingTx.txIn = [first, second] ∧
          first.previousOutPoint.hash = stkExp.previousActiveStkTxHash := by
  simp only [parseBtcExpandMessage, ok_iff] at h
  obtain ⟨created, hcre, stkExp, hstk, rfl⟩ := h
  obtain ⟨hone, -, hprf⟩ := parseCreateDelegationMessage_ok hcre
  refine ⟨hone, hprf, stkExp, rfl, ?_⟩
  have htx : msg.stakingTx = some created.stakingTx := by
    simp only [parseCreateDelegationMessage, ok_iff] at hcre
    obtain ⟨tx, htx, _, -, _, -, _, -, _, -, _, -, _, -, _, -, _, -, _, -, _, -, _, -, _, -, _, -,
      _, -, _, -, _, -, _, -, rfl⟩ := hcre
    exact htx
  simp only [MsgBtcStakeExpand.getStakeExpansion, ok_iff] at hstk
  obtain ⟨previous, hprev, tx, htx', funding, -, hstk⟩ := hstk
  obtain rfl : created.stakingTx = tx := Option.some.inj (htx.symm.trans htx')
  split at hstk
  case h_2 => cases hstk
  case h_1 first second hinputs =>
    simp only [ok_iff] at hstk
    obtain ⟨_, hfirst, _, -, _, -, _, -, rfl⟩ := hstk
    exact ⟨hprev, first, second, hinputs, hfirst⟩

end Babylon.BTCStaking
