/-
  The messages that wait for the end of an epoch: the handlers of `x/epoching`, and
  `WrappedCreateValidator` of `x/checkpointing`, which also registers a BLS key.

  A handler checks what `x/staking` will check again, and puts the message into the
  queue; a delegation first pays its amount into the delegation pool.
-/
import Babylon.Epoching.Keeper
import Babylon.Checkpointing.Registration

set_option autoImplicit false

namespace Babylon.Epoching

open Lib Checkpointing

namespace Stores

variable {S : Type} (stk : StakingKeeper S) (w : Stores S)

/-- Put a message into the queue. -/
def enqueue (queuedMsg : QueuedMessage) : Stores S :=
  { w with epoching := w.epoching.enqueueMsg queuedMsg }

/-- `NewQueuedMessage`; messages at height 0 are refused. -/
def newQueuedMessage (header : HeaderInfo) (msg : StakingMsg) : Outcome QueuedMessage := do
  ensure (header.height ≠ 0) (.registered errZeroEpochMsg)
  return ⟨header.height, header.time, msg⟩

/-- A message that needs no funds is queued as it is. -/
def queueMsg (header : HeaderInfo) (msg : StakingMsg) : Outcome (Stores S) := do
  let queuedMsg ← newQueuedMessage header msg
  return w.enqueue queuedMsg

/-- The amount is in the bond denomination. -/
def checkDenom (amount : Coin) : Outcome Unit :=
  ensure (amount.denom = (stk.params w.staking).bondDenom)
    (.wrapf errInvalidRequest "invalid coin denomination: got %s, expected %s")

/-- The amount is not below the minimum. -/
def checkMinAmount (amount : Coin) (text : String) : Outcome Unit :=
  ensure (w.epoching.params.minAmount ≤ amount.amount) (.wrapf errInvalidRequest text)

/-- The check of `WrappedEditValidator` on a new commission rate. -/
def checkCommissionRate : Option Dec → Outcome Unit
  | none => return
  | some rate => do
      ensure (rate ≤ Dec.one ∧ 0 ≤ rate)
        (.wrapf errInvalidRequest "commission rate must be between 0 and 1 (inclusive)")
      ensure ((stk.params w.staking).minCommissionRate ≤ rate)
        (.wrapf errInvalidRequest "commission rate cannot be less than the min commission rate %s")

/-- `WrappedEditValidator`. -/
def wrappedEditValidator (header : HeaderInfo) (msg : MsgEditValidator) : Outcome (Stores S) := do
  let valAddr ← valAddressFromBech32 msg.validatorAddress
  ensure (msg.hasDescription = true) (.wrapf errInvalidRequest "empty description")
  ensure (msg.minSelfDelegation.all (fun amount => decide (0 < amount)) = true)
    (.wrapf errInvalidRequest "minimum self delegation must be a positive integer")
  w.checkCommissionRate stk msg.commissionRate
  ensure (stk.hasValidator w.staking valAddr = true) (.errorf "validator does not exist")
  w.queueMsg header (.editValidator msg)

/-- `WrappedStakingUpdateParams`. -/
def wrappedStakingUpdateParams (authority : Bech32) (header : HeaderInfo)
    (msg : StakingMsgUpdateParams) : Outcome (Stores S) := do
  ensure (authority = msg.authority)
    (.wrapf errInvalidSigner "invalid authority; expected %s, got %s")
  stk.validateParams msg.params
  w.queueMsg header (.updateParams msg)

/-- `WrappedDelegate`. -/
def wrappedDelegate (header : HeaderInfo) (msg : MsgDelegate) : Outcome (Stores S) := do
  let valAddr ← valAddressFromBech32 msg.validatorAddress
  ensure (stk.hasValidator w.staking valAddr = true) (.errorf "validator does not exist")
  let _ ← accAddressFromBech32 msg.delegatorAddress
  w.checkDenom stk msg.amount
  w.checkMinAmount msg.amount "delegation amount %s is below minimum required amount %d"
  let queuedMsg ← newQueuedMessage header (.delegate msg)
  let w ← (w.lockFundsForDelegateMsgs queuedMsg).orWrap "failed to lock user funds"
  return w.enqueue queuedMsg

/-- `WrappedUndelegate`. -/
def wrappedUndelegate (header : HeaderInfo) (msg : MsgDelegate) : Outcome (Stores S) := do
  let valAddr ← valAddressFromBech32 msg.validatorAddress
  let delegatorAddress ← accAddressFromBech32 msg.delegatorAddress
  stk.validateUnbondAmount w.staking delegatorAddress valAddr msg.amount.amount
  w.checkDenom stk msg.amount
  ensure (stk.hasMaxUnbondingDelegationEntries w.staking delegatorAddress valAddr = false)
    (.registered errMaxUnbondingDelegationEntries)
  w.checkMinAmount msg.amount "undelegation amount %s is below minimum required amount %d"
  w.queueMsg header (.undelegate msg)

/-- `WrappedBeginRedelegate`. -/
def wrappedBeginRedelegate (header : HeaderInfo) (msg : MsgBeginRedelegate) :
    Outcome (Stores S) := do
  let valSrcAddr ← valAddressFromBech32 msg.validatorSrcAddress
  let valDstAddr ← valAddressFromBech32 msg.validatorDstAddress
  let delegatorAddress ← accAddressFromBech32 msg.delegatorAddress
  stk.validateUnbondAmount w.staking delegatorAddress valSrcAddr msg.amount.amount
  w.checkDenom stk msg.amount
  ensure (stk.hasReceivingRedelegation w.staking delegatorAddress valSrcAddr = false)
    (.registered errTransitiveRedelegation)
  ensure (stk.hasMaxRedelegationEntries w.staking delegatorAddress valSrcAddr valDstAddr = false)
    (.registered errMaxRedelegationEntries)
  w.checkMinAmount msg.amount "redelegation amount %s is below minimum required amount %d"
  w.queueMsg header (.beginRedelegate msg)

/-- `WrappedCancelUnbondingDelegation`. -/
def wrappedCancelUnbondingDelegation (header : HeaderInfo)
    (msg : MsgCancelUnbondingDelegation) : Outcome (Stores S) := do
  let _ ← accAddressFromBech32 msg.delegatorAddress
  let _ ← valAddressFromBech32 msg.validatorAddress
  ensure (0 < msg.amount.amount) (.wrapf errInvalidRequest "invalid amount")
  w.checkMinAmount msg.amount
    "cancel unbonding delegaion amount %s is below minimum required amount %d"
  ensure (0 < msg.creationHeight) (.wrapf errInvalidRequest "invalid height")
  w.checkDenom stk msg.amount
  w.queueMsg header (.cancelUnbondingDelegation msg)

/-- `UpdateParams`. -/
def updateParams (authority sender : Bech32) (params : Params) : Outcome (Stores S) := do
  ensure (authority = sender) (.wrapf errInvalidSigner "invalid authority; expected %s, got %s")
  params.validate.orFail (.wrapf errInvalidProposalMsg "invalid parameter: %v")
  return { w with epoching := { w.epoching with params } }

/-! ## New validators -/

/-- `CheckMsgCreateValidator`.  The balance has to exceed the amount. -/
def checkMsgCreateValidator (msg : MsgCreateValidator) : Outcome Unit := do
  let valAddr ← valAddressFromBech32 msg.validatorAddress
  stk.checkNewValidator w.staking msg
  w.checkDenom stk msg.value
  ensure (msg.value.amount < (w.bank.balanceOf valAddr).amountOf msg.value.denom)
    (.registered errInsufficientBalance)
  w.checkMinAmount msg.value "delegation amount %s is below minimum required amount %d"

/-- `WrappedCreateValidator` of `x/checkpointing`.  A genesis transaction is executed at once. -/
def wrappedCreateValidator (rs : Registration) (header : HeaderInfo) (key : BlsPublicKey)
    (msg : MsgCreateValidator) :
    Outcome (Stores S × Registration) := do
  w.checkMsgCreateValidator stk msg
  let valAddr ← valAddressFromBech32 msg.validatorAddress
  let rs ← rs.createRegistration key valAddr
  if header.height = 0 then
    let (staking, bank) ← stk.execute header (.createValidator msg) w.staking w.bank
    return ({ w with staking, bank }, rs)
  else
    let queueMsg ← newQueuedMessage header (.createValidator msg)
    let w ← w.lockFundsForDelegateMsgs queueMsg
    return (w.enqueue queueMsg, rs)

end Stores

end Babylon.Epoching
