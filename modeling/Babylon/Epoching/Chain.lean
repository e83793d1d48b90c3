/-
  `BeginBlocker` and `EndBlocker` of `x/epoching`, and the chain of blocks they run in.

  A block begins, delivers messages, ends, and may then finalize checkpoints: the end of
  a block of `x/btccheckpoint` comes after the one of `x/epoching`.  Epochs are finalized
  one after another, see `BTCCheckpoint.Finalization`.  Other modules change the state of
  `x/staking` and the balances in between, but neither take from the delegation pool nor
  touch the queues of unbondings.
-/
import Babylon.Epoching.MsgServer
import Babylon.Lib.Run

set_option autoImplicit false

namespace Babylon.Epoching

open Lib Checkpointing

namespace Stores

variable {S : Type} (stk : StakingKeeper S)

/-- The first half of `BeginBlocker`: the next epoch begins if it is time. -/
def beginEpoch (w : Stores S) (header : HeaderInfo) : Outcome State :=
  if w.epoching.getEpoch.isFirstBlockOfNextEpoch header.height then do
    let s ← (w.epoching.incEpoch header).recordSealerAppHashForPrevEpoch header
    return s.initMsgQueue.initValidatorSet (stk.lastValidatorPowers w.staking)
  else .ok w.epoching

/-- `BeginBlocker`; its second half looks at the epoch that was read before the first. -/
def beginBlocker (w : Stores S) (header : HeaderInfo) (blockHash : Bytes) :
    Outcome (Stores S) := do
  let epoching ← w.beginEpoch stk header
  if w.epoching.getEpoch.isLastBlock header.height then do
    let epoching ← epoching.recordSealerBlockHashForEpoch header blockHash
    return { w with epoching }
  else return { w with epoching }

/-- One round of the loop of `EndBlocker`, with the messages it executed: a message whose funds
cannot be unlocked is skipped, and the failure of an execution goes into an event. -/
def forwardMsg (header : HeaderInfo) (forwarded : Stores S × List QueuedMessage)
    (msg : QueuedMessage) : Stores S × List QueuedMessage :=
  match forwarded.1.unlockFundsForDelegateMsgs msg with
  | .error _ => forwarded
  | .ok w => ((w.handleQueuedMsg stk header msg).logged, forwarded.2 ++ [msg])

/-- `EndBlocker`, with the messages it executed. -/
def endBlocker (w : Stores S) (header : HeaderInfo) : Outcome (Stores S × List QueuedMessage) :=
  if w.epoching.getEpoch.isLastBlock header.height then do
    let epoching ← w.epoching.recordLastHeaderTime header
    let (w, executed) := epoching.getCurrentEpochMsgs.foldl (forwardMsg stk header)
      ({ w with epoching }, [])
    let (staking, bank) := stk.applyValidatorSetUpdates header w.staking w.bank
    return ({ w with staking, bank }, executed)
  else return (w, [])

end Stores

/-! ## The chain -/

/-- Whether messages are delivered, or the block has ended. -/
inductive Phase where
  | delivering
  | ended
deriving DecidableEq

/-- An execution of a queued message: its epoch, and the height of the block. -/
structure Execution where
  epoch : Nat
  height : Nat
  msg : QueuedMessage

/-- The state of the chain, with a log of the executions. -/
structure Chain (S : Type) extends Stores S where
  header : HeaderInfo
  phase : Phase
  registration : Registration
  lastFinalizedEpoch : Nat
  executions : List Execution

/-- Messages. -/
inductive Msg where
  | wrappedCreateValidator (key : BlsPublicKey) (msg : MsgCreateValidator)
  | wrappedEditValidator (msg : MsgEditValidator)
  | wrappedStakingUpdateParams (msg : StakingMsgUpdateParams)
  | wrappedDelegate (msg : MsgDelegate)
  | wrappedUndelegate (msg : MsgDelegate)
  | wrappedBeginRedelegate (msg : MsgBeginRedelegate)
  | wrappedCancelUnbondingDelegation (msg : MsgCancelUnbondingDelegation)
  | updateParams (authority : Bech32) (params : Params)

/-- The steps of a chain. -/
inductive Label (S : Type) where
  | beginBlock (time : Time) (appHash blockHash : Bytes)
  | deliver (msg : Msg)
  | endBlock
  | finalizeCheckpoint (epoch : Nat)
  | other (staking : S) (bank : Bank)

/-- The steps of a run, the latest first: each with the state it is taken in. -/
abbrev History (S : Type) := List (Chain S × Label S)

namespace Chain

variable {S : Type}

/-- The handler of a message. -/
def handle (stk : StakingKeeper S) (authority : Bech32) (c : Chain S) :
    Msg → Outcome (Stores S × Registration)
  | .wrappedCreateValidator key msg =>
    c.wrappedCreateValidator stk c.registration c.header key msg
  | .wrappedEditValidator msg =>
    (c.wrappedEditValidator stk c.header msg).map (·, c.registration)
  | .wrappedStakingUpdateParams msg =>
    (c.wrappedStakingUpdateParams stk authority c.header msg).map (·, c.registration)
  | .wrappedDelegate msg => (c.wrappedDelegate stk c.header msg).map (·, c.registration)
  | .wrappedUndelegate msg => (c.wrappedUndelegate stk c.header msg).map (·, c.registration)
  | .wrappedBeginRedelegate msg =>
    (c.wrappedBeginRedelegate stk c.header msg).map (·, c.registration)
  | .wrappedCancelUnbondingDelegation msg =>
    (c.wrappedCancelUnbondingDelegation stk c.header msg).map (·, c.registration)
  | .updateParams sender params =>
    (c.updateParams authority sender params).map (·, c.registration)

/-- The account that pays for a message into the delegation pool. -/
def payer : Msg → Option AccAddress
  | .wrappedCreateValidator _ msg => (valAddressFromBech32 msg.validatorAddress).toOption
  | .wrappedDelegate msg => (accAddressFromBech32 msg.delegatorAddress).toOption
  | _ => none

/-- Other modules leave the delegation pool and the unbondings alone. -/
def Undisturbed (stk : StakingKeeper S) (c : Chain S) (staking : S) (bank : Bank) : Prop :=
  bank.Holds .delegatePool (c.bank.modules .delegatePool) ∧
    bank.blockedAddrs = c.bank.blockedAddrs ∧
    stk.params staking = stk.params c.staking ∧
    stk.unbondings staking = stk.unbondings c.staking

instance (stk : StakingKeeper S) (c : Chain S) (staking : S) (bank : Bank) :
    Decidable (c.Undisturbed stk staking bank) :=
  inferInstanceAs (Decidable (_ ∧ _ ∧ _ ∧ _))

/-- The steps.  Times of blocks increase, and heights are `int64`.  A blocked account is one of a
module, which signs no delegation.  A message that fails leaves no trace. -/
def step (stk : StakingKeeper S) (authority : Bech32) (c : Chain S) : Label S → Option (Chain S)
  | .beginBlock time appHash blockHash =>
    let header : HeaderInfo := ⟨c.header.height + 1, time, appHash⟩
    if c.phase = .ended ∧ c.header.time < time ∧ header.height < 2 ^ 63 then
      match c.beginBlocker stk header blockHash with
      | .ok stores => some { c with header, phase := .delivering, toStores := stores }
      | .error _ => none
    else none
  | .deliver msg =>
    if c.phase = .delivering ∧ ∀ account ∈ payer msg, account ∉ c.bank.blockedAddrs then
      match c.handle stk authority msg with
      | .ok (stores, registration) => some { c with toStores := stores, registration }
      | .error _ => some c
    else none
  | .endBlock =>
    if c.phase = .delivering then
      match c.endBlocker stk c.header with
      | .ok (stores, executed) =>
        let epoch := c.epoching.getEpoch.epochNumber
        some { c with
          phase := .ended
          toStores := stores
          executions := c.executions ++ executed.map (⟨epoch, c.header.height, ·⟩) }
      | .error _ => none
    else none
  | .finalizeCheckpoint epoch =>
    -- the checkpoint of an epoch is sealed when the next one begins
    if c.phase = .ended ∧ epoch = c.lastFinalizedEpoch + 1 ∧
        epoch < c.epoching.getEpoch.epochNumber then
      match c.applyMatureUnbonding stk c.header epoch with
      | .ok stores => some { c with toStores := stores, lastFinalizedEpoch := epoch }
      | .error _ => none
    else none
  | .other staking bank =>
    if c.Undisturbed stk staking bank then some { c with staking, bank }
    else none

/-- Epoch 0 is the genesis block. -/
structure Genesis (stk : StakingKeeper S) (c : Chain S) : Prop where
  height : c.header.height = 0
  phase : c.phase = .ended
  params_valid : c.epoching.params.validate = .ok ()
  epochInfo : c.epoching.epochInfo = KVStore.empty.set 0 ⟨0, 1, 0, some c.header.time⟩
  msgQueue : c.epoching.msgQueue = KVStore.empty
  queueLength : c.epoching.queueLength = KVStore.empty.set 0 0
  sealerAppHash : c.epoching.sealerAppHash = KVStore.empty
  sealerBlockHash : c.epoching.sealerBlockHash = KVStore.empty
  unbondings : stk.unbondings c.staking = []
  registration : c.registration.Inverse
  lastFinalizedEpoch : c.lastFinalizedEpoch = 0
  executions : c.executions = []

end Chain

/-- The chain as a transition system. -/
def epochingSystem {S : Type} (stk : StakingKeeper S) (authority : Bech32) :
    System (Chain S) (Label S) where
  init := Chain.Genesis stk
  step := Chain.step stk authority

end Babylon.Epoching
