/-
  The chain as a transition system: blocks, the messages of `btcstaking` and
  `finality` in any order, changes of the BTC light client, and changes of the
  modules the two depend on.

  A message that fails leaves the state as it was.  A failure in `BeginBlock` or
  `EndBlock` halts the chain, so there is no such step.
-/
import Babylon.Lib.Run
import Babylon.Finality.Abci

set_option autoImplicit false

namespace Babylon

open Lib Finality

/-- What the chain is built with: cryptographic functions, the modules that are
called back, and the address of the governance module. -/
structure Config (I : Type) where
  prim : BtcPrimitives
  fprim : FinalityPrimitives
  ext : External I
  authority : AccAddress

/-- What is read from `btccheckpoint`, `checkpointing` and `epoching`. -/
structure OtherModules where
  btcConfirmationDepth : Nat
  checkpointFinalizationTimeout : Nat
  currentEpoch : Nat
  lastFinalizedEpoch : Nat
  epochByHeight : Nat → Nat

/-- The state of the chain.  The header is that of the block being executed or, between
blocks, of the last one. -/
structure Chain (I : Type) extends Stores I where
  header : HeaderInfo
  inBlock : Bool
  lc : BTCLightClient
  others : OtherModules

/-- The messages of the two modules. -/
inductive Msg where
  | createFinalityProvider (req : BTCStaking.MsgCreateFinalityProvider)
  | editFinalityProvider (req : BTCStaking.MsgEditFinalityProvider)
  | createBTCDelegation (req : BTCStaking.MsgCreateBTCDelegation)
  | btcStakeExpand (req : BTCStaking.MsgBtcStakeExpand)
  | addBTCDelegationInclusionProof (req : BTCStaking.MsgAddBTCDelegationInclusionProof)
  | addCovenantSigs (req : BTCStaking.MsgAddCovenantSigs)
  | btcUndelegate (req : BTCStaking.MsgBTCUndelegate)
  | selectiveSlashingEvidence (req : BTCStaking.MsgSelectiveSlashingEvidence)
  | updateStakingParams (req : BTCStaking.MsgUpdateParams)
  | addFinalitySig (req : MsgAddFinalitySig)
  | commitPubRandList (req : MsgCommitPubRandList)
  | unjailFinalityProvider (req : MsgUnjailFinalityProvider)
  | updateFinalityParams (req : MsgUpdateParams)
  | resumeFinalityProposal (req : MsgResumeFinalityProposal)

/-- What can happen to the chain. -/
inductive Label (I : Type) where
  | beginBlock (header : HeaderInfo)
  | deliver (msg : Msg)
  /-- the light client accepts headers, possibly of a fork -/
  | insertHeaders (lc : BTCLightClient)
  /-- the other modules move on -/
  | updateOthers (others : OtherModules)
  /-- the modules behind the hooks execute messages and blocks of their own -/
  | updateExternal (external : I)
  | endBlock

/-- The steps of a run, the latest first: each with the state it is taken in. -/
abbrev History (I : Type) := List (Chain I × Label I)

/-- The step is not a proposal to resume finality. -/
def Label.noResume {I : Type} : Label I → Bool
  | .deliver (.resumeFinalityProposal _) => false
  | _ => true

namespace Chain

variable {I : Type} (cfg : Config I)

/-- What a call at this point reads. -/
def env (c : Chain I) : Env where
  header := c.header
  lc := c.lc
  btcConfirmationDepth := c.others.btcConfirmationDepth
  checkpointFinalizationTimeout := c.others.checkpointFinalizationTimeout
  authority := cfg.authority
  currentEpoch := c.others.currentEpoch
  lastFinalizedEpoch := c.others.lastFinalizedEpoch
  epochByHeight := c.others.epochByHeight

/-- A message of `btcstaking` changes only the store of the module. -/
def liftStaking (w : Stores I) (call : Outcome BTCStaking.State) : Outcome (Stores I) := do
  let btcStaking ← call
  return { w with btcStaking }

/-- Route a message to its handler. -/
def handle (env : Env) (w : Stores I) : Msg → Outcome (Stores I)
  | .createFinalityProvider req =>
    liftStaking w (w.btcStaking.createFinalityProvider cfg.prim env.toEnv req)
  | .editFinalityProvider req =>
    liftStaking w (w.btcStaking.editFinalityProvider env.toEnv req)
  | .createBTCDelegation req =>
    liftStaking w (w.btcStaking.msgCreateBTCDelegation cfg.prim env.toEnv req)
  | .btcStakeExpand req => liftStaking w (w.btcStaking.btcStakeExpand cfg.prim env.toEnv req)
  | .addBTCDelegationInclusionProof req =>
    liftStaking w (w.btcStaking.msgAddBTCDelegationInclusionProof cfg.prim env.toEnv req)
  | .addCovenantSigs req => liftStaking w (w.btcStaking.addCovenantSigs cfg.prim env.toEnv req)
  | .btcUndelegate req => liftStaking w (w.btcStaking.msgBTCUndelegate cfg.prim env.toEnv req)
  | .selectiveSlashingEvidence req =>
    liftStaking w (w.btcStaking.selectiveSlashingEvidence cfg.prim env.toEnv req)
  | .updateStakingParams req =>
    liftStaking w (w.btcStaking.updateParams cfg.prim env.toEnv req)
  | .addFinalitySig req => addFinalitySig cfg.fprim env w req
  | .commitPubRandList req => commitPubRandList cfg.prim env w req
  | .unjailFinalityProvider req => unjailFinalityProvider env w req
  | .updateFinalityParams req => updateParams env w req
  | .resumeFinalityProposal req => resumeFinalityProposal cfg.ext env w req

/-- The `BeginBlock` of `btcstaking` and then of `finality`. -/
def beginBlock (c : Chain I) (header : HeaderInfo) : Outcome (Chain I) := do
  let c := { c with header, inBlock := true }
  let env := c.env cfg
  let btcStaking := c.btcStaking.indexBTCHeight env.toEnv
  let w ← beginBlocker cfg.ext env { c.toStores with btcStaking }
  return { c with toStores := w }

/-- The `EndBlock` of `finality`. -/
def endBlock (c : Chain I) : Outcome (Chain I) := do
  let w ← endBlocker cfg.ext (c.env cfg) c.toStores
  return { c with toStores := w, inBlock := false }

/-- Execute a message; a failed one has no effect. -/
def deliver (c : Chain I) (msg : Msg) : Chain I :=
  match handle cfg (c.env cfg) c.toStores msg with
  | .ok w => { c with toStores := w }
  | .error _ => c

/-- One step of the chain. -/
def step (c : Chain I) : Label I → Option (Chain I)
  | .beginBlock header =>
    if c.inBlock = false ∧ header.height = c.header.height + 1 then
      (c.beginBlock cfg header).toOption
    else none
  | .deliver msg => if c.inBlock then some (c.deliver cfg msg) else none
  | .insertHeaders lc => if lc.baseHeight = c.lc.baseHeight then some { c with lc } else none
  | .updateOthers others => some { c with others }
  | .updateExternal external => some { c with external }
  | .endBlock => if c.inBlock then (c.endBlock cfg).toOption else none

end Chain

/-! ## Genesis -/

/-- An empty store of `btcstaking`, with a list of allowed staking transactions and
of deleted finality providers. -/
def BTCStaking.State.blank (allowedStakingTxHashes : KVStore ChainHash Unit)
    (finalityProvidersDeleted : KVStore BIP340PubKey Unit) : BTCStaking.State where
  params := KVStore.empty
  heightToVersionMap := []
  finalityProviders := KVStore.empty
  finalityProvidersDeleted := finalityProvidersDeleted
  fpBbnAddr := KVStore.empty
  btcDelegations := KVStore.empty
  btcDelegators := KVStore.empty
  powerDistUpdateEvents := KVStore.empty
  btcHeights := KVStore.empty
  allowedStakingTxHashes := allowedStakingTxHashes

/-- An empty store of `finality`. -/
def Finality.State.blank (params : Params) : State where
  params := params
  votingPower := KVStore.empty
  votingPowerDistCache := KVStore.empty
  votes := KVStore.empty
  pubRandCommit := KVStore.empty
  pubRandCommitIndex := KVStore.empty
  pubRand := KVStore.empty
  evidence := KVStore.empty
  blocks := KVStore.empty
  nextHeightToFinalize := 0
  nextHeightToReward := 0
  finalityProviderSigningTracker := KVStore.empty
  finalityProviderMissedBlockBitmap := KVStore.empty

/-- The states a chain can start in: empty stores, at least one valid version of the
staking parameters, and valid finality parameters. -/
structure Genesis {I : Type} (cfg : Config I) (c : Chain I) : Prop where
  height : c.header.height = 0
  inBlock : c.inBlock = false
  staking : ∃ allowed deleted versions, versions ≠ [] ∧
    foldOutcome (fun s p => BTCStaking.State.setParams s cfg.prim p)
      (BTCStaking.State.blank allowed deleted) versions = .ok c.btcStaking
  finality : ∃ params : Params, (∃ u, params.validate = .ok u) ∧
    c.finality = State.blank params

/-- The chain. -/
def chain {I : Type} (cfg : Config I) : System (Chain I) (Label I) where
  init := Genesis cfg
  step := fun c l => c.step cfg l

end Babylon
