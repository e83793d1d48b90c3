/-
  `x/epoching/keeper`: epochs, the message queue, the delegation pool and the forwarding
  of queued messages to `x/staking`.

  `x/staking` and its message server are not part of the repository.  `StakingKeeper`
  holds what the module calls of them, over a type `S` of their state.  What is assumed
  of them stands with the theorems that need it.
-/
import Babylon.Epoching.Types

set_option autoImplicit false

namespace Babylon.Epoching

open Lib

/-! ## The store -/

/-- The store of the module. -/
structure State where
  params : Params
  epochInfo : KVStore Nat Epoch
  msgQueue : KVStore Nat (KVStore Nat QueuedMessage)
  queueLength : KVStore Nat Nat
  valSets : KVStore Nat (KVStore ValAddress Nat)
  votingPower : KVStore Nat Nat
  delegationLifecycle : KVStore AccAddress (List DelegationStateUpdate)
  validatorLifecycle : KVStore ValAddress (List ValStateUpdate)
  sealerAppHash : KVStore Nat Bytes
  sealerBlockHash : KVStore Nat Bytes

/-- `CalculateEpochNumber`. -/
def calculateEpochNumber (height epochInterval : Nat) : Nat :=
  if height = 0 then 0 else (height - 1) / epochInterval + 1

namespace State

variable (s : State)

/-- `GetEpoch`: the epoch with the highest number.  There always is one. -/
def getEpoch : Epoch := (s.epochInfo.last?.map Prod.snd).getD ⟨0, 1, 0, none⟩

/-- `GetHistoricalEpoch`. -/
def getHistoricalEpoch (epochNumber : Nat) : Outcome Epoch :=
  orThrow (s.epochInfo.get epochNumber) (.registered errUnknownEpochNumber)

/-- `setEpochInfo`. -/
def setEpochInfo (epoch : Epoch) : State :=
  { s with epochInfo := s.epochInfo.set epoch.epochNumber epoch }

/-- `GetEpochNumByHeight`. -/
def getEpochNumByHeight (height : Nat) : Nat :=
  calculateEpochNumber height s.params.epochInterval.toNat

/-- `RecordLastHeaderTime`. -/
def recordLastHeaderTime (header : HeaderInfo) : Outcome State := do
  ensure (s.getEpoch.isLastBlock header.height = true) (.wrapf errInvalidHeight
    "RecordLastBlockHeader can only be invoked at the last block of an epoch")
  return s.setEpochInfo { s.getEpoch with lastBlockTime := some header.time }

/-- `RecordSealerAppHashForPrevEpoch`. -/
def recordSealerAppHashForPrevEpoch (header : HeaderInfo) : Outcome State := do
  ensure (s.getEpoch.isFirstBlock header.height = true)
    (.panic ("RecordSealerAppHashForPrevEpoch can only be invoked at the first header of a " ++
      "non-zero epoch. current epoch: %v, current height: %d"))
  let sealedEpoch ← (s.getHistoricalEpoch (s.getEpoch.epochNumber - 1)).orPanic
    "the epoch number is not known in DB"
  return { s with sealerAppHash := s.sealerAppHash.set sealedEpoch.epochNumber header.appHash }

/-- `RecordSealerBlockHashForEpoch`, with the hash of the block, which no other function reads. -/
def recordSealerBlockHashForEpoch (header : HeaderInfo) (blockHash : Bytes) : Outcome State := do
  ensure (s.getEpoch.isLastBlock header.height = true)
    (.panic ("RecordSealerBlockHashForEpoch can only be invoked at the last header of a " ++
      "non-zero epoch. current epoch: %v, current height: %d"))
  return { s with sealerBlockHash := s.sealerBlockHash.set s.getEpoch.epochNumber blockHash }

/-- `IncEpoch`. -/
def incEpoch (header : HeaderInfo) : State :=
  s.setEpochInfo ⟨s.getEpoch.epochNumber + 1, s.params.epochInterval, header.height, none⟩

/-- `InitMsgQueue`. -/
def initMsgQueue : State :=
  { s with queueLength := s.queueLength.set s.getEpoch.epochNumber 0 }

/-- `InitValidatorSet`, from the powers that `x/staking` has for the epoch. -/
def initValidatorSet (powers : List (ValAddress × Nat)) : State :=
  let epochNumber := s.getEpoch.epochNumber
  { s with
    valSets := s.valSets.setMany epochNumber powers
    votingPower := s.votingPower.set epochNumber (powers.map Prod.snd).sum }

/-! ## The message queue -/

/-- `GetQueueLength`. -/
def getQueueLength (epochNumber : Nat) : Nat := (s.queueLength.get epochNumber).getD 0

/-- `EnqueueMsg`. -/
def enqueueMsg (msg : QueuedMessage) : State :=
  let epochNumber := s.getEpoch.epochNumber
  let queueLen := s.getQueueLength epochNumber
  { s with
    msgQueue := s.msgQueue.setUnder epochNumber queueLen msg
    queueLength := s.queueLength.set epochNumber (queueLen + 1) }

/-- `GetEpochMsgs`. -/
def getEpochMsgs (epochNumber : Nat) : List QueuedMessage :=
  (s.msgQueue.under epochNumber).entries.map Prod.snd

/-- `GetCurrentEpochMsgs`. -/
def getCurrentEpochMsgs : List QueuedMessage := s.getEpochMsgs s.getEpoch.epochNumber

/-- `RecordNewDelegationState`, which never fails. -/
def recordNewDelegationState (header : HeaderInfo) (delAddr : AccAddress) (valAddr : ValAddress)
    (amount : Option Coin) (state : BondState) : State :=
  let life := (s.delegationLifecycle.get delAddr).getD []
  { s with
    delegationLifecycle := s.delegationLifecycle.set delAddr
      (life ++ [⟨state, valAddr, amount, header.height, header.time⟩]) }

/-- `RecordNewValState`, which never fails. -/
def recordNewValState (header : HeaderInfo) (state : BondState) (valAddr : ValAddress) : State :=
  let life := (s.validatorLifecycle.get valAddr).getD []
  { s with
    validatorLifecycle := s.validatorLifecycle.set valAddr
      (life ++ [⟨state, header.height, header.time⟩]) }

end State

/-! ## `x/staking` -/

/-- An unbonding delegation, a redelegation or the unbonding of a validator. -/
inductive UnbondingKind where
  | delegation (delegator : AccAddress) (validator : ValAddress)
  | redelegation (delegator : AccAddress) (source destination : ValAddress)
  | validator (validator : ValAddress)
deriving DecidableEq

/-- An entry of one of the three queues of unbondings. -/
structure Unbonding where
  kind : UnbondingKind
  creationHeight : Nat
  completionTime : Time
deriving DecidableEq

/-- What the module calls of `x/staking` and its message server. -/
structure StakingKeeper (S : Type) where
  /-- `GetParams` -/
  params : S → StakingParams
  /-- `GetValidator` finds one -/
  hasValidator : S → ValAddress → Bool
  /-- `IsUnbonding` of a validator -/
  isUnbonding : S → ValAddress → Bool := fun _ _ => true
  /-- `ValidateUnbondAmount` -/
  validateUnbondAmount : S → AccAddress → ValAddress → Nat → Outcome Unit
  hasMaxUnbondingDelegationEntries : S → AccAddress → ValAddress → Bool
  hasReceivingRedelegation : S → AccAddress → ValAddress → Bool
  hasMaxRedelegationEntries : S → AccAddress → ValAddress → ValAddress → Bool
  /-- the checks of `CheckMsgCreateValidator` on commission, keys and description -/
  checkNewValidator : S → MsgCreateValidator → Outcome Unit
  /-- `Validate` of the parameters -/
  validateParams : StakingParams → Outcome Unit
  /-- the message server -/
  execute : HeaderInfo → StakingMsg → S → Bank → Outcome (S × Bank)
  /-- `ApplyAndReturnValidatorSetUpdates`, and the hooks around it -/
  applyValidatorSetUpdates : HeaderInfo → S → Bank → S × Bank
  /-- `IterateLastValidatorPowers` -/
  lastValidatorPowers : S → List (ValAddress × Nat)
  /-- the entries of the unbonding queues -/
  unbondings : S → List Unbonding
  /-- `UnbondAllMatureValidators`, `CompleteUnbonding` and `CompleteRedelegation` of all
  entries that are mature at a time -/
  completeMature : Time → S → Bank → S × Bank
  /-- the delegations among them whose `CompleteUnbonding` succeeds -/
  completedUnbondings : Time → S → List (AccAddress × ValAddress)

/-- The stores that queued messages read and write. -/
structure Stores (S : Type) where
  epoching : State
  staking : S
  bank : Bank

namespace Stores

variable {S : Type}

/-! ## The delegation pool -/

/-- `NewCoins` of one coin. -/
def newCoins (coin : Coin) : Coins := Coins.newCoins (KVStore.empty.set coin.denom coin.amount)

/-- `extractAddrAndCoinsFromMsg`: the account whose funds are locked, and the coins; nothing
for messages that need no funds. -/
def extractAddrAndCoinsFromMsg (msg : QueuedMessage) : Outcome (Option (AccAddress × Coins)) :=
  match msg.msg with
  | .delegate msg => do
      let delegatorAddr ← accAddressFromBech32 msg.delegatorAddress
      return some (delegatorAddr, newCoins msg.amount)
  | .createValidator msg => do
      let validatorAddr ← valAddressFromBech32 msg.validatorAddress
      return some (validatorAddr, newCoins msg.value)
  | _ => return none

/-- `LockFundsForDelegateMsgs`. -/
def lockFundsForDelegateMsgs (w : Stores S) (msg : QueuedMessage) : Outcome (Stores S) := do
  match ← extractAddrAndCoinsFromMsg msg with
  | none => return w
  | some (addr, coins) =>
    let bank ← (w.bank.sendCoinsFromAccountToModule addr .delegatePool coins).orWrap
      "failed to lock funds for msg %s"
    return { w with bank }

/-- `UnlockFundsForDelegateMsgs`. -/
def unlockFundsForDelegateMsgs (w : Stores S) (msg : QueuedMessage) : Outcome (Stores S) := do
  match ← extractAddrAndCoinsFromMsg msg with
  | none => return w
  | some (addr, coins) =>
    let bank ← (w.bank.sendCoinsFromModuleToAccount .delegatePool addr coins).orWrap
      "failed to unlock funds for msg %s"
    return { w with bank }

/-! ## Queued messages -/

/-- `parseDelValAddr`. -/
def parseDelValAddr (delAddr valAddr : Bech32) : Outcome (AccAddress × ValAddress) := do
  let del ← accAddressFromBech32 delAddr
  let val ← valAddressFromBech32 valAddr
  return (del, val)

/-- The lifecycle entries of a delegation, for the addresses and the amount of a message. -/
def recordStates (w : Stores S) (header : HeaderInfo) (delAddr valAddr : Bech32) (amount : Coin)
    (states : List BondState) : Outcome (Stores S) := do
  let (del, val) ← parseDelValAddr delAddr valAddr
  return { w with
    epoching := states.foldl
      (fun s state => s.recordNewDelegationState header del val (some amount) state) w.epoching }

/-- `runUnwrappedMsg`: the message server works on a cached copy of the stores, which is written
back if it succeeds; what follows writes to the stores themselves, and its failure leaves what
was written. -/
def runUnwrappedMsg (stk : StakingKeeper S) (w : Stores S) (header : HeaderInfo)
    (qMsg : QueuedMessage) : Attempt (Stores S) (Stores S) := do
  let (staking, bank) ← (stk.execute header qMsg.msg w.staking w.bank).leaving w
  let written : Stores S := { w with staking, bank }
  match qMsg.msg with
  | .createValidator msg =>
    -- the delegator and the validator have the same address
    (written.recordStates header msg.validatorAddress msg.validatorAddress msg.value
      [.created, .bonded]).leaving written
  | .delegate msg =>
    (written.recordStates header msg.delegatorAddress msg.validatorAddress msg.amount
      [.created, .bonded]).leaving written
  | .undelegate msg =>
    (written.recordStates header msg.delegatorAddress msg.validatorAddress msg.amount
      [.unbonding]).leaving written
  | .beginRedelegate msg =>
    (written.recordStates header msg.delegatorAddress msg.validatorSrcAddress msg.amount
      [.unbonding]).leaving written
  | .cancelUnbondingDelegation msg =>
    (written.recordStates header msg.delegatorAddress msg.validatorAddress msg.amount
      [.bonded]).leaving written
  | .editValidator _ => return written
  | .updateParams _ => return written

/-- `HandleQueuedMsg`. -/
def handleQueuedMsg (stk : StakingKeeper S) (w : Stores S) (header : HeaderInfo)
    (qMsg : QueuedMessage) : Attempt (Stores S) (Stores S) :=
  runUnwrappedMsg stk w header qMsg

/-! ## Unbonding -/

/-- The entry is that of a validator, and mature in this block. -/
def matureValidator? (header : HeaderInfo) (entry : Unbonding) : Option ValAddress :=
  match entry.kind with
  | .validator valAddr =>
    if entry.creationHeight ≤ header.height ∧ entry.completionTime ≤ header.time then some valAddr
    else none
  | _ => none

/-- `getAllMatureValidators`. -/
def getAllMatureValidators (stk : StakingKeeper S) (s : S) (header : HeaderInfo) :
    Outcome (List ValAddress) := do
  let matureValAddrs := (stk.unbondings s).filterMap (matureValidator? header)
  ensure (∀ addr ∈ matureValAddrs, stk.hasValidator s addr = true)
    (.panic "validator does not exist")
  ensure (∀ addr ∈ matureValAddrs, stk.isUnbonding s addr = true)
    (.panic "unexpected validator in unbonding queue; status was not unbonding")
  return matureValAddrs

/-- `ApplyMatureUnbonding`: the entries are completed as of the last block of the epoch, moved
by the unbonding time now in force; the validators that are recorded are those that are mature in
this block.  The lifecycles that hooks record are left out. -/
def applyMatureUnbonding (stk : StakingKeeper S) (w : Stores S) (header : HeaderInfo)
    (epochNumber : Nat) : Outcome (Stores S) := do
  let finalizedEpoch ← (w.epoching.getHistoricalEpoch epochNumber).orPanic
    "the epoch number is not known in DB"
  let lastBlockTime ← orThrow finalizedEpoch.lastBlockTime
    (.panic "invalid memory address or nil pointer dereference")
  let finalizedTime := lastBlockTime + (stk.params w.staking).unbondingTime
  let matureValidators ← getAllMatureValidators stk w.staking header
  let (staking, bank) := stk.completeMature finalizedTime w.staking w.bank
  let recorded := matureValidators.foldl
    (fun s valAddr => s.recordNewValState header .unbonded valAddr) w.epoching
  let epoching := (stk.completedUnbondings finalizedTime w.staking).foldl
    (fun s dvPair => s.recordNewDelegationState header dvPair.1 dvPair.2 none .unbonded) recorded
  return { epoching, staking, bank }

end Stores

end Babylon.Epoching
