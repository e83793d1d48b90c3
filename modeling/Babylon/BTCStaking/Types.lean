/-
  `x/btcstaking/types`: finality providers, BTC delegations with their status,
  and the events by which the module reports changes of voting power.

  Transactions are kept parsed.  The bytes the code stores were produced by
  serializing a parsed transaction, so parsing them again cannot fail.
-/
import Babylon.BTCStaking.Params

set_option autoImplicit false

namespace Babylon.BTCStaking

/-- `CommissionInfo`. -/
structure CommissionInfo where
  maxRate : Dec
  maxChangeRate : Dec
  updateTime : Time

/-- `FinalityProvider`, without its description and proof of possession. -/
structure FinalityProvider where
  addr : AccAddress
  btcPk : BIP340PubKey
  commission : Dec
  commissionInfo : Option CommissionInfo
  slashedBabylonHeight : Nat := 0
  slashedBtcHeight : Nat := 0
  jailed : Bool := false
  highestVotedHeight : Nat := 0

namespace FinalityProvider

def isSlashed (fp : FinalityProvider) : Bool := decide (0 < fp.slashedBabylonHeight)

def isJailed (fp : FinalityProvider) : Bool := fp.jailed

end FinalityProvider

/-- `CovenantAdaptorSignatures`. -/
structure CovenantAdaptorSignatures where
  covPk : BIP340PubKey
  adaptorSigs : List Bytes

/-- `SignatureInfo`. -/
structure SignatureInfo where
  pk : BIP340PubKey
  sig : Bytes

/-- `DelegatorUnbondingInfo`; no transaction is kept when the registered
unbonding transaction was used. -/
structure DelegatorUnbondingInfo where
  spendStakeTx : Option MsgTx

/-- `BTCUndelegation`. -/
structure BTCUndelegation where
  unbondingTx : MsgTx
  slashingTx : MsgTx
  delegatorSlashingSig : Bytes
  covenantSlashingSigs : List CovenantAdaptorSignatures := []
  covenantUnbondingSigList : List SignatureInfo := []
  delegatorUnbondingInfo : Option DelegatorUnbondingInfo := none

/-- `StakeExpansion`. -/
structure StakeExpansion where
  previousStakingTxHash : ChainHash
  otherFundingTxOut : TxOut
  previousStkCovenantSigs : List SignatureInfo := []

/-- `BTCDelegation`, without its proof of possession. -/
structure BTCDelegation where
  stakerAddr : AccAddress
  btcPk : BIP340PubKey
  fpBtcPkList : List BIP340PubKey
  stakingTime : Nat
  startHeight : Nat
  endHeight : Nat
  totalSat : Nat
  stakingTx : MsgTx
  stakingOutputIdx : Nat
  slashingTx : MsgTx
  delegatorSig : Bytes
  covenantSigs : List CovenantAdaptorSignatures := []
  unbondingTime : Nat
  btcUndelegation : BTCUndelegation
  paramsVersion : Nat
  btcTipHeight : Nat
  stkExp : Option StakeExpansion := none

/-- `BTCDelegationStatus`. -/
inductive BTCDelegationStatus where
  | pending
  | verified
  | active
  | unbonded
  | expired
deriving DecidableEq, Repr

namespace StakeExpansion

def hasCovenantQuorums (s : StakeExpansion) (quorumPreviousStk : Nat) : Bool :=
  decide (quorumPreviousStk ≤ s.previousStkCovenantSigs.length)

def isSignedByCovMember (s : StakeExpansion) (covPk : BIP340PubKey) : Bool :=
  s.previousStkCovenantSigs.any fun sig => sig.pk = covPk

def addCovenantSigs (s : StakeExpansion) (covPk : BIP340PubKey) (stkExpSig : Bytes) :
    StakeExpansion :=
  { s with previousStkCovenantSigs := s.previousStkCovenantSigs ++ [⟨covPk, stkExpSig⟩] }

end StakeExpansion

namespace BTCUndelegation

variable (ud : BTCUndelegation)

def hasCovenantQuorumOnSlashing (quorum : Nat) : Bool :=
  decide (quorum ≤ ud.covenantSlashingSigs.length)

def hasCovenantQuorumOnUnbonding (quorum : Nat) : Bool :=
  decide (quorum ≤ ud.covenantUnbondingSigList.length)

def hasCovenantQuorums (covenantQuorum : Nat) : Bool :=
  ud.hasCovenantQuorumOnUnbonding covenantQuorum && ud.hasCovenantQuorumOnSlashing covenantQuorum

def isSignedByCovMember (covPk : BIP340PubKey) : Bool :=
  (ud.covenantUnbondingSigList.any fun sig => sig.pk = covPk) &&
    ud.covenantSlashingSigs.any fun sig => sig.covPk = covPk

def addCovenantSigs (covPk : BIP340PubKey) (unbondingSig : Bytes)
    (slashingSigs : List Bytes) : BTCUndelegation :=
  { ud with
    covenantUnbondingSigList := ud.covenantUnbondingSigList ++ [⟨covPk, unbondingSig⟩]
    covenantSlashingSigs := ud.covenantSlashingSigs ++ [⟨covPk, slashingSigs⟩] }

end BTCUndelegation

namespace BTCDelegation

variable (d : BTCDelegation)

def hasInclusionProof : Bool :=
  decide (0 < d.startHeight ∧ 0 < d.endHeight)

def isUnbondedEarly : Bool :=
  d.btcUndelegation.delegatorUnbondingInfo.isSome

def isStakeExpansion : Bool := d.stkExp.isSome

/-- `HasCovenantQuorums`. -/
def hasCovenantQuorums (quorum quorumPreviousStk : Nat) : Bool :=
  let hasQuorum := decide (quorum ≤ d.covenantSigs.length) &&
    d.btcUndelegation.hasCovenantQuorums quorum
  match d.stkExp with
  | some stkExp => hasQuorum && stkExp.hasCovenantQuorums quorumPreviousStk
  | none => hasQuorum

/-- `GetStatus`. -/
def getStatus (btcHeight covenantQuorum quorumPreviousStk : Nat) : BTCDelegationStatus :=
  if d.isUnbondedEarly then .unbonded
  else if !d.hasCovenantQuorums covenantQuorum quorumPreviousStk then .pending
  else if !d.hasInclusionProof then .verified
  else if btcHeight < d.startHeight then .unbonded
  else if d.endHeight ≤ btcHeight + d.unbondingTime then .expired
  else .active

def isSignedByCovMember (covPk : BIP340PubKey) : Bool :=
  d.covenantSigs.any fun sig => sig.covPk = covPk

/-- `AddCovenantSigs`.  Whether a delegation is a stake expansion decides if the
signature on the expansion is kept. -/
def addCovenantSigs (covPk : BIP340PubKey) (stakingSlashingSigs : List Bytes) (unbondingSig : Bytes)
    (unbondingSlashingSigs : List Bytes) (stkExpSig : Bytes) :
    BTCDelegation :=
  { d with
    covenantSigs := d.covenantSigs ++ [⟨covPk, stakingSlashingSigs⟩]
    btcUndelegation := d.btcUndelegation.addCovenantSigs covPk unbondingSig unbondingSlashingSigs
    stkExp := d.stkExp.map fun stkExp => stkExp.addCovenantSigs covPk stkExpSig }

/-- Activity spelled out: covenant quorum, inclusion, not unbonded, and a Bitcoin
height in the range that starts at inclusion and ends `UnbondingTime` before the
end of the timelock. -/
theorem getStatus_eq_active_iff (d : BTCDelegation) (btcHeight q qPrev : Nat) :
    d.getStatus btcHeight q qPrev = .active ↔
      d.isUnbondedEarly = false ∧ d.hasCovenantQuorums q qPrev = true ∧
        d.hasInclusionProof = true ∧ d.startHeight ≤ btcHeight ∧
        btcHeight + d.unbondingTime < d.endHeight := by
  unfold getStatus
  split_ifs with hu hq hp hs he <;> simp_all

end BTCDelegation

/-! ## Power distribution events -/

/-- `EventPowerDistUpdate`: what later changes voting power.  The code reports
state updates to ACTIVE, UNBONDED and EXPIRED. -/
inductive EventPowerDistUpdate where
  | btcDelStateUpdate (stakingTxHash : ChainHash) (newState : BTCDelegationStatus)
  | slashedFp (pk : BIP340PubKey)
  | jailedFp (pk : BIP340PubKey)
  | unjailedFp (pk : BIP340PubKey)
deriving DecidableEq

end Babylon.BTCStaking
