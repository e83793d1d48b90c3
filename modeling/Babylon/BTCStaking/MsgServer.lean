/-
  `x/btcstaking/keeper/msg_server.go`: the message handlers of the module.
-/
import Babylon.BTCStaking.Keeper

set_option autoImplicit false

namespace Babylon.BTCStaking

open Lib

/-! ## Messages -/

/-- `CommissionRates`. -/
structure CommissionRates where
  rate : Dec
  maxRate : Dec
  maxChangeRate : Dec

structure MsgCreateFinalityProvider where
  addr : AccAddress
  btcPk : BIP340PubKey
  pop : Bytes
  commission : CommissionRates

structure MsgEditFinalityProvider where
  addr : AccAddress
  btcPk : BIP340PubKey
  commission : Option Dec

structure MsgAddBTCDelegationInclusionProof where
  stakingTxHash : ChainHash
  stakingTxInclusionProof : InclusionProof

structure MsgAddCovenantSigs where
  pk : BIP340PubKey
  stakingTxHash : ChainHash
  slashingTxSigs : List Bytes
  unbondingTxSig : Bytes
  slashingUnbondingTxSigs : List Bytes
  stakeExpansionTxSig : Option Bytes

structure MsgBTCUndelegate where
  stakingTxHash : ChainHash
  stakeSpendingTx : Option MsgTx
  stakeSpendingTxInclusionProof : InclusionProof
  fundingTransactions : List (Option MsgTx)

structure MsgSelectiveSlashingEvidence where
  recoveredFpBtcSk : Bytes

structure MsgUpdateParams where
  authority : AccAddress
  params : Params

/-! ## Finality providers -/

/-- `CommissionInfo.Validate`. -/
def CommissionInfo.validate (cr : CommissionInfo) : Outcome Unit := do
  ensure (0 ≤ cr.maxRate) (.errorf "commission must be positive")
  ensure (cr.maxRate ≤ Dec.one) (.errorf "commission cannot be more than 100%")
  ensure (0 ≤ cr.maxChangeRate) (.errorf "commission change rate must be positive")
  ensure (cr.maxChangeRate ≤ cr.maxRate)
    (.errorf "commission change rate cannot be more than the max rate")

namespace State

variable (s : State)

/-- `AddFinalityProvider`. -/
def addFinalityProvider (env : Env) (msg : MsgCreateFinalityProvider) : Outcome State := do
  let params ← s.getParams
  ensure (s.fpBbnAddr.has msg.addr = false)
    (.wrapf errFpRegistered
      "there is already an finality provider registered with the same babylon address: %s")
  ensure (params.minCommissionRate ≤ msg.commission.rate)
    (.wrapf errCommissionLTMinRate
      "cannot set finality provider commission to less than minimum rate of %s")
  let commissionInfo : CommissionInfo :=
    ⟨msg.commission.maxRate, msg.commission.maxChangeRate, env.header.time⟩
  commissionInfo.validate
  ensure (msg.commission.rate ≤ msg.commission.maxRate) (.registered errCommissionGTMaxRate)
  ensure (s.hasFinalityProvider msg.btcPk = false) (.registered errFpRegistered)
  let fp : FinalityProvider := {
    addr := msg.addr
    btcPk := msg.btcPk
    commission := msg.commission.rate
    commissionInfo := some commissionInfo }
  let s := { s with fpBbnAddr := s.fpBbnAddr.set msg.addr () }
  return s.setFinalityProvider fp

/-- `CreateFinalityProvider`. -/
def createFinalityProvider (prim : BtcPrimitives) (env : Env)
    (msg : MsgCreateFinalityProvider) : Outcome State := do
  ensure (prim.validPubKey msg.btcPk = true) (.errorf "invalid BTC public key: %v")
  ensure (prim.popVerify msg.pop msg.addr msg.btcPk = true)
    (.errorf "invalid proof of possession: %v")
  s.addFinalityProvider env msg

/-- `UpdateFinalityProviderCommission`. -/
def updateFinalityProviderCommission (env : Env) (newCommission : Option Dec)
    (fp : FinalityProvider) : Outcome FinalityProvider :=
  match newCommission with
  | none => .ok fp
  | some newCommission => do
      let info ← orThrow fp.commissionInfo (.errorf
        "cannot update commission. Finality provider with address %s does not have commission info defined")
      ensure (0 ≤ newCommission) (.errorf "commission must be positive")
      -- 24 hours
      ensure (24 * 3600 * 10 ^ 9 ≤ env.header.time - info.updateTime)
        (.errorf "commission cannot be changed more than once in 24h")
      let params ← s.getParams
      ensure (params.minCommissionRate ≤ newCommission)
        (.wrapf errCommissionLTMinRate
          "cannot set finality provider commission to less than minimum rate of %s")
      ensure (newCommission ≤ info.maxRate)
        (.errorf "cannot set finality provider commission to more than max rate of %s")
      ensure ((newCommission - fp.commission).natAbs ≤ info.maxChangeRate)
        (.errorf "commission cannot be changed more than max change rate")
      return { fp with
        commission := newCommission
        commissionInfo := some { info with updateTime := env.header.time } }

/-- `EditFinalityProvider`. -/
def editFinalityProvider (env : Env) (msg : MsgEditFinalityProvider) : Outcome State := do
  let fp ← s.getFinalityProvider msg.btcPk
  ensure (msg.addr = fp.addr)
    (.errorf "the signer does not correspond to the finality provider's Babylon address")
  let fp ← s.updateFinalityProviderCommission env msg.commission fp
  return s.setFinalityProvider fp

/-- `SelectiveSlashingEvidence`. -/
def selectiveSlashingEvidence (prim : BtcPrimitives) (env : Env)
    (msg : MsgSelectiveSlashingEvidence) : Outcome State := do
  ensure (msg.recoveredFpBtcSk.length = 32)
    (.errorf "malformed BTC SK. Expected length: %d, got %d")
  s.slashFinalityProvider env (prim.pubKeyOfPrivKey msg.recoveredFpBtcSk)

/-- `UpdateParams`. -/
def updateParams (prim : BtcPrimitives) (env : Env) (msg : MsgUpdateParams) : Outcome State := do
  ensure (env.authority = msg.authority) (.errorf "invalid authority; expected %s, got %s")
  ensure (env.checkpointFinalizationTimeout < msg.params.unbondingTimeBlocks)
    (.errorf "the unbonding time %d must be larger than the checkpoint finalization timeout %d")
  s.setParams prim msg.params

/-! ## Creating delegations -/

/-- `validateStakedFPs`. -/
def validateStakedFPs (fpBTCPKs : List BIP340PubKey) : Outcome Unit :=
  foldOutcome (fun _ fpBTCPK => do
      let fp ← orThrow (s.finalityProviders.get fpBTCPK)
        (.wrapf errFpNotFound "finality provider pk %s is not found: %v")
      ensure (fp.isSlashed = false) (.wrapf errFpAlreadySlashed "finality key: %s")
      ensure (s.isFinalityProviderDeleted fpBTCPK = false)
        (.wrapf errFinalityProviderIsDeleted "finality provider pk %s has been deleted"))
    () fpBTCPKs

/-- `getTimeInfoAndParams`: parameters of the inclusion height, or of the tip for
a delegation that is not on Bitcoin yet. -/
def getTimeInfoAndParams (prim : BtcPrimitives) (env : Env)
    (parsedMsg : ParsedCreateDelegationMessage) :
    Outcome (DelegationTimeRangeInfo × Params × Nat) :=
  match parsedMsg.stakingTxProofOfInclusion with
  | some proof => do
      let timeInfo ← verifyInclusionProofAndGetHeight prim env.lc parsedMsg.stakingTx
        env.btcConfirmationDepth parsedMsg.stakingTime parsedMsg.unbondingTime proof
      let (paramsByHeight, version) ← s.getParamsForBtcHeight timeInfo.startHeight
      return (timeInfo, paramsByHeight, version)
  | none => do
      let (paramsByHeight, version) ← s.getParamsForBtcHeight env.lc.tipHeight
      return (⟨0, 0, env.lc.tipHeight⟩, paramsByHeight, version)

/-- `isAllowListEnabled`. -/
def isAllowListEnabled (env : Env) (p : Params) : Bool :=
  decide (0 < p.allowListExpirationHeight ∧ env.header.height < p.allowListExpirationHeight)

/-- The delegation that `CreateBTCDelegation` constructs. -/
def newBTCDelegation (parsedMsg : ParsedCreateDelegationMessage)
    (timeInfo : DelegationTimeRangeInfo) (stakingOutputIdx paramsVersion : Nat) :
    BTCDelegation where
  stakerAddr := parsedMsg.stakerAddress
  btcPk := parsedMsg.stakerPK
  fpBtcPkList := parsedMsg.finalityProviderKeys
  stakingTime := parsedMsg.stakingTime
  startHeight := timeInfo.startHeight
  endHeight := timeInfo.endHeight
  totalSat := parsedMsg.stakingValue.toNat
  stakingTx := parsedMsg.stakingTx
  stakingOutputIdx := stakingOutputIdx
  slashingTx := parsedMsg.stakingSlashingTx
  delegatorSig := parsedMsg.stakerStakingSlashingTxSig
  unbondingTime := parsedMsg.unbondingTime
  btcUndelegation := {
    unbondingTx := parsedMsg.unbondingTx
    slashingTx := parsedMsg.unbondingSlashingTx
    delegatorSlashingSig := parsedMsg.stakerUnbondingSlashingSig }
  paramsVersion := paramsVersion
  btcTipHeight := timeInfo.tipHeight
  stkExp := parsedMsg.stkExp.map fun stkExp =>
    { previousStakingTxHash := stkExp.previousActiveStkTxHash
      otherFundingTxOut := stkExp.otherFundingOutput }

/-- `CreateBTCDelegation` of the keeper. -/
def createBTCDelegation (prim : BtcPrimitives) (env : Env)
    (parsedMsg : ParsedCreateDelegationMessage) : Outcome State := do
  ensure (prim.popVerify parsedMsg.parsedPop parsedMsg.stakerAddress parsedMsg.stakerPK = true)
    (.registered errInvalidProofOfPossession)
  let stakingTxHash := prim.txHash parsedMsg.stakingTx
  ensure (s.btcDelegations.has stakingTxHash = false)
    (.wrapf errReusedStakingTx "duplicated tx hash: %s")
  s.validateStakedFPs parsedMsg.finalityProviderKeys
  let (timeInfo, params, paramsVersion) ← s.getTimeInfoAndParams prim env parsedMsg
  let stakingOutputIdx ← validateParsedMessageAgainstTheParams prim parsedMsg params
  ensure (isAllowListEnabled env params = true →
      s.allowedStakingTxHashes.has stakingTxHash = true)
    (.wrapf errInvalidStakingTx "staking tx hash: %s, is not in the allow list")
  s.addBTCDelegation prim (newBTCDelegation parsedMsg timeInfo stakingOutputIdx paramsVersion)

/-- `MsgCreateBTCDelegation`. -/
def msgCreateBTCDelegation (prim : BtcPrimitives) (env : Env)
    (req : MsgCreateBTCDelegation) : Outcome State := do
  let parsedMsg ← parseCreateDelegationMessage prim req
  s.createBTCDelegation prim env parsedMsg

/-- `hasSufficientCovenantOverlap`: enough members of the first committee are in
the second.  The code counts the members of the first list one by one. -/
def hasSufficientCovenantOverlap (covCommittee1 covCommittee2 : List BIP340PubKey)
    (requiredOverlap : Nat) : Bool :=
  decide (requiredOverlap ≠ 0 ∧ covCommittee1 ≠ [] ∧ covCommittee2 ≠ [] ∧
    requiredOverlap ≤ (covCommittee1.filter fun pk => pk ∈ covCommittee2).length)

/-- `validateStakeExpansionAmt`. -/
def validateStakeExpansionAmt (parsedMsg : ParsedCreateDelegationMessage)
    (newStakingAmt oldStakingAmt : Int) : Outcome Unit := do
  let stkExp ← orThrow parsedMsg.stkExp (.errorf "missing stake expansion data")
  ensure (oldStakingAmt ≤ newStakingAmt)
    (.errorf "staking expansion output amount %d is less than previous delegation amount %d")
  let fundingInputValue := stkExp.otherFundingOutput.value
  ensure (0 < fundingInputValue) (.errorf "stake expansion funding output has invalid value %d")
  let totalInputValue := oldStakingAmt + fundingInputValue
  let totalOutputValue := (parsedMsg.stakingTx.txOut.map TxOut.value).sum
  ensure (0 < totalInputValue - totalOutputValue)
    (.errorf "invalid transaction fee: inputs %d <= outputs %d")

/-- `BtcStakeExpand`. -/
def btcStakeExpand (prim : BtcPrimitives) (env : Env) (req : MsgBtcStakeExpand) :
    Outcome State := do
  let previousStakingTxHash ← orThrow req.previousStakingTxHash (.errorf "invalid hash")
  let delInfo ← s.getBTCDelWithParams previousStakingTxHash
  ensure (btcDelStatusWithTip env delInfo = .active)
    (.errorf "BTC delegation %s is not active, current status is %s")
  let prevBtcDel := delInfo.delegation
  ensure (some prevBtcDel.stakerAddr = req.stakerAddr)
    (.errorf "the previous BTC staking transaction staker address: %s does not match with current staker address: %s")
  let parsedMsg ← parseBtcExpandMessage prim req
  ensure (req.fpBtcPkList.head? = prevBtcDel.fpBtcPkList.head?)
    (.errorf "the previous BTC staking transaction FP: %+v is not the same as FP of the stake expansion %+v")
  ensure (prevBtcDel.btcPk = parsedMsg.stakerPK)
    (.errorf "staker pk %s does not match previous staker pk %s")
  ensure (req.fpBtcPkList.head?.all (fun fp => !s.isFinalityProviderDeleted fp) = true)
    (.wrapf errFinalityProviderIsDeleted "finality provider pk %s has been deleted")
  -- the funding output is not an existing staking output
  ensure (∀ stkExp ∈ parsedMsg.stkExp, ∀ fundingTxDel ∈ s.btcDelegations.get stkExp.fundingTxHash,
      fundingTxDel.stakingOutputIdx ≠ stkExp.fundingOutputIndex)
    (.errorf "the funding output cannot be a staking output")
  let firstInput ← orThrow parsedMsg.stakingTx.txIn[0]? (.panic "index out of range")
  ensure (prevBtcDel.stakingOutputIdx = firstInput.previousOutPoint.index)
    (.errorf "staking expansion tx input index %d does not match previous delegation staking output index %d")
  validateStakeExpansionAmt parsedMsg parsedMsg.stakingValue prevBtcDel.totalSat
  let (currentParams, _) ← s.getParamsForBtcHeight env.lc.tipHeight
  ensure (hasSufficientCovenantOverlap delInfo.params.covenantPks currentParams.covenantPks
      delInfo.params.covenantQuorum = true)
    (.errorf "insufficient covenant committee overlap: need at least %d members from old committee in new committee")
  s.createBTCDelegation prim env parsedMsg

/-! ## Inclusion proofs and covenant signatures -/

/-- `MsgAddBTCDelegationInclusionProof`: not for stake expansions. -/
def msgAddBTCDelegationInclusionProof (prim : BtcPrimitives) (env : Env)
    (req : MsgAddBTCDelegationInclusionProof) : Outcome State := do
  let btcDel ← s.getBTCDelegation req.stakingTxHash
  ensure (btcDel.isStakeExpansion = false)
    (.errorf "the BTC delegation %s is a stake expansion, use MsgBTCUndelegate to set the inclusion proof")
  s.addBTCDelegationInclusionProof prim env btcDel req.stakingTxInclusionProof

/-- `GetStakingInfo`; a delegation in the store was built with the same call. -/
def getStakingInfo (prim : BtcPrimitives) (d : BTCDelegation) (p : Params) : Option StakingInfo :=
  prim.buildStakingInfo d.btcPk d.fpBtcPkList p.covenantPks p.covenantQuorum d.stakingTime
    d.totalSat

/-- `validateStakeExpansionSig`. -/
def validateStakeExpansionSig (prim : BtcPrimitives) (delInfo : BTCDelegationWithParams)
    (req : MsgAddCovenantSigs) : Outcome Unit :=
  let btcDel := delInfo.delegation
  match btcDel.stkExp, req.stakeExpansionTxSig with
  | none, some _ =>
    throw (.errorf "stake expansion tx signature provided for non-stake expansion delegation")
  | none, none => .ok ()
  | some _, none => throw (.errorf "empty stake expansion covenant signature")
  | some stkExp, some sig => do
      ensure (stkExp.isSignedByCovMember req.pk = false)
        (.wrapf errDuplicatedCovenantSig "stake expansion transaction")
      let (prevBtcDel, prevParams) ← orThrow delInfo.prev (.panic "nil previous delegation")
      ensure (prevParams.hasCovenantPK req.pk = true)
        (.wrapf errInvalidCovenantSig
          "covenant with pk %s was not a member at params (version %d) of the previous delegation")
      ensure (hasSufficientCovenantOverlap prevParams.covenantPks delInfo.params.covenantPks
          prevParams.covenantQuorum = true)
        (.wrapf errInvalidCovenantSig
          "not enough overlap in covenant committee members for stake expansion: quorum=%d")
      let prevDelStakingInfo ← orThrow (getStakingInfo prim prevBtcDel prevParams)
        (.errorf "failed to get staking info of previous delegation: %w")
      let prevOutput ← orThrow prevBtcDel.stakingTx.txOut[prevBtcDel.stakingOutputIdx]?
        (.panic "index out of range")
      ensure (prim.verifyTransactionSigStkExp btcDel.stakingTx prevOutput stkExp.otherFundingTxOut
          prevDelStakingInfo.unbondingPathScript req.pk sig = true)
        (.wrapf errInvalidCovenantSig "bad covenant signature of stake expansion: %v")

/-- `AddCovenantSigs`. -/
def addCovenantSigs (prim : BtcPrimitives) (env : Env) (req : MsgAddCovenantSigs) :
    Outcome State := do
  let delInfo ← s.getBTCDelWithParams req.stakingTxHash
  let btcDel := delInfo.delegation
  let params := delInfo.params
  ensure (params.hasCovenantPK req.pk = true) (.wrapf errInvalidCovenantPK "covenant pk: %s")
  ensure ((btcDel.isSignedByCovMember req.pk && btcDel.btcUndelegation.isSignedByCovMember req.pk)
      = false)
    (.registered errDuplicatedCovenantSig)
  let status := btcDelStatusWithTip env delInfo
  ensure (status ≠ .unbonded ∧ status ≠ .expired)
    (.wrapf errInvalidCovenantSig "the BTC delegation is already unbonded")
  ensure (req.slashingTxSigs.length = btcDel.fpBtcPkList.length)
    (.wrapf errInvalidCovenantSig
      "number of covenant signatures: %d, number of finality providers being staked to: %d")
  let stakingInfo ← orThrow (getStakingInfo prim btcDel params)
    (.panic "failed to get staking info from a verified delegation: %w")
  let slashingAdaptorSigs ← orThrow
    (prim.parseEncVerifyAdaptorSignatures btcDel.slashingTx stakingInfo.stakingOutput
      stakingInfo.slashingPathScript req.pk btcDel.fpBtcPkList req.slashingTxSigs)
    (.wrapf errInvalidCovenantSig "err: %v")
  ensure (req.slashingUnbondingTxSigs.length = btcDel.fpBtcPkList.length)
    (.wrapf errInvalidCovenantSig
      "number of covenant signatures: %d, number of finality providers being staked to: %d")
  let unbondingMsgTx := btcDel.btcUndelegation.unbondingTx
  ensure (prim.verifyTransactionSigWithOutput unbondingMsgTx stakingInfo.stakingOutput
      stakingInfo.unbondingPathScript req.pk req.unbondingTxSig = true)
    (.registered errInvalidCovenantSig)
  let unbondingOutput ← orThrow unbondingMsgTx.txOut[0]? (.panic "index out of range")
  let unbondingInfo ← orThrow
    (prim.buildUnbondingInfo btcDel.btcPk btcDel.fpBtcPkList params.covenantPks
      params.covenantQuorum btcDel.unbondingTime unbondingOutput.value)
    (.panic "could not create BTC staking info: %v")
  let unbondingSlashingAdaptorSigs ← orThrow
    (prim.parseEncVerifyAdaptorSignatures btcDel.btcUndelegation.slashingTx unbondingOutput
      unbondingInfo.slashingPathScript req.pk btcDel.fpBtcPkList req.slashingUnbondingTxSigs)
    (.wrapf errInvalidCovenantSig "err: %v")
  validateStakeExpansionSig prim delInfo req
  return s.addCovenantSigsToBTCDelegation prim env delInfo req.pk slashingAdaptorSigs
    req.unbondingTxSig unbondingSlashingAdaptorSigs (req.stakeExpansionTxSig.getD [])

/-! ## Undelegating -/

/-- `findInputIdx`: the first input that spends the given output. -/
def findInputIdx (tx : MsgTx) (fundingTxHash : ChainHash) (fundingOutputIdx : Nat) : Option Nat :=
  tx.txIn.findIdx? fun txIn => txIn.previousOutPoint = ⟨fundingTxHash, fundingOutputIdx⟩

/-- `getFundingTxTransactions`. -/
def getFundingTxTransactions (txs : List (Option MsgTx)) : Outcome (List MsgTx) := do
  ensure (txs ≠ []) (.errorf "no funding transactions provided")
  orThrow (txs.mapM id) (.errorf "failed to parse funding transaction: %w")

/-- Whether a spending transaction is a stored stake expansion that `BTCUndelegate`
has to activate (`shouldActivateStkExp`). -/
def shouldActivateStkExp (spendStakeTxHash : ChainHash) : Option BTCDelegation :=
  (s.btcDelegations.get spendStakeTxHash).filter fun stakeExpansionDel =>
    stakeExpansionDel.isStakeExpansion && !stakeExpansionDel.isUnbondedEarly

/-- The part of `BTCUndelegate` that verifies the inclusion of the spending
transaction: a stake expansion is activated by its inclusion. -/
def verifyStakeSpendingTx (prim : BtcPrimitives) (env : Env) (stakeSpendingTx : MsgTx)
    (proof : InclusionProof) : Outcome State := do
  let header ← orThrow (env.lc.headerByHash proof.headerHash)
    (.wrapf errInvalidBTCUndelegateReq "stake spending tx is not on BTC chain: %v")
  match s.shouldActivateStkExp (prim.txHash stakeSpendingTx) with
  | some stakeExpansionDel =>
    (s.addBTCDelegationInclusionProof prim env stakeExpansionDel proof).orWrapf
      errInvalidBTCUndelegateReq "failed to handle stake expansion inclusion: %s"
  | none => do
      ensure (BTCCheckpoint.verifyInclusionProof prim stakeSpendingTx header.merkleRoot proof.proof
          proof.index = true)
        (.wrapf errInvalidBTCUndelegateReq
          "stake spending tx is not included in the Bitcoin chain: invalid inclusion proof")
      return s

/-- `BTCUndelegate`.  The delegation is read before a stake expansion is
activated and written back at the end. -/
def msgBTCUndelegate (prim : BtcPrimitives) (env : Env) (req : MsgBTCUndelegate) :
    Outcome State := do
  let stakeSpendingTx ← orThrow req.stakeSpendingTx
    (.wrapf errInvalidBTCUndelegateReq "failed to parse staking spending tx: %v")
  ensure (prim.checkTransactionSanity stakeSpendingTx = true)
    (.errorf "invalid stake spending tx: %w")
  let delInfo ← s.getBTCDelWithParams req.stakingTxHash
  let status := btcDelStatusWithTip env delInfo
  ensure (status ≠ .unbonded ∧ status ≠ .expired)
    (.wrapf errInvalidBTCUndelegateReq "cannot unbond an unbonded BTC delegation")
  let activated ← s.verifyStakeSpendingTx prim env stakeSpendingTx req.stakeSpendingTxInclusionProof
  let btcDel := delInfo.delegation
  let stakingTxInputIdx ← orThrow
    (findInputIdx stakeSpendingTx (prim.txHash btcDel.stakingTx) btcDel.stakingOutputIdx)
    (.wrapf errInvalidBTCUndelegateReq "stake spending tx does not spend staking output: %s")
  let fundingTxs ← (getFundingTxTransactions req.fundingTransactions).orWrapf
    errInvalidBTCUndelegateReq "failed to parse funding transactions: %s"
  let stakingOutput ← orThrow btcDel.stakingTx.txOut[btcDel.stakingOutputIdx]?
    (.panic "index out of range")
  ensure (prim.verifySpendStakeTxStakerSig btcDel.btcPk stakingOutput stakingTxInputIdx fundingTxs
      stakeSpendingTx = true)
    (.wrapf errInvalidBTCUndelegateReq "failed to verify stake spending tx staker signature: %s")
  let isRegisteredUnbondingTx := decide
    (prim.txHash stakeSpendingTx = prim.txHash btcDel.btcUndelegation.unbondingTx)
  return activated.btcUndelegate prim env btcDel
    ⟨if isRegisteredUnbondingTx then none else some stakeSpendingTx⟩

end State

end Babylon.BTCStaking
