/-
  A small network to run the model on: sample cryptography, one covenant member,
  hooks that always succeed, and the messages of a delegation's life.
-/
import Babylon.App.Chain

set_option autoImplicit false

namespace Babylon.Devnet

open Lib Finality

/-! ## Configuration and genesis -/

/-- The modules behind the hooks keep no state. -/
def external : External Unit where
  afterBtcDelegationActivated := fun _ _ _ _ _ _ _ => some ()
  afterBtcDelegationUnbonded := fun _ _ _ _ _ _ _ => some ()
  afterBbnFpEntersActiveSet := fun _ _ _ => some ()
  afterBbnFpRemovedFromActiveSet := fun _ _ _ => some ()
  rewardBTCStaking := fun _ _ _ _ _ => some ()

/-- Every committed public randomness is 1. -/
def finalityPrimitives : FinalityPrimitives where
  curve := .rational
  merkleVerify := fun _ pubRand _ => decide (pubRand = 1)

def config : Config Unit where
  prim := .simple
  fprim := finalityPrimitives
  ext := external
  authority := 0

/-- Staking parameters with one covenant member. -/
def stakingParams : BTCStaking.Params where
  covenantPks := [7]
  covenantQuorum := 1
  minStakingValueSat := 10
  maxStakingValueSat := 1000
  minStakingTimeBlocks := 10
  maxStakingTimeBlocks := 100
  slashingPkScript := []
  minSlashingTxFeeSat := 1
  slashingRate := 10 ^ 17
  unbondingTimeBlocks := 5
  unbondingFeeSat := 1
  minCommissionRate := 0
  allowListExpirationHeight := 0
  btcActivationHeight := 1

/-- Finality parameters; votes may come up to `timeout` blocks late. -/
def finalityParams (maxActive : Nat) (timeout : Int) (activationHeight : Nat) : Params where
  maxActiveFinalityProviders := maxActive
  signedBlocksWindow := 100
  finalitySigTimeout := timeout
  minSignedPerWindow := Dec.one / 2
  minPubRand := 1
  jailDuration := 0
  finalityActivationHeight := activationHeight

/-- The headers of a Bitcoin chain from the Merkle roots of its blocks, which also
serve as their hashes here, with their heights. -/
def lightClient (tipHeight : Nat) (blocks : List (ChainHash × Nat)) : BTCLightClient where
  tipHeight := tipHeight
  baseHeight := 0
  headerByHash := fun hash =>
    (blocks.find? fun block => block.1 = hash ∧ 0 < block.2 ∧ block.2 ≤ tipHeight).map
      fun block => ⟨block.2, block.1⟩
  base_le_tip := Nat.zero_le _
  header_le_tip := by
    intro hash header h
    obtain ⟨block, hfind, rfl⟩ := Option.map_eq_some_iff.mp h
    have hblock := List.find?_some hfind
    exact (of_decide_eq_true hblock).2.2
  header_pos := by
    intro hash header h
    obtain ⟨block, hfind, rfl⟩ := Option.map_eq_some_iff.mp h
    have hblock := List.find?_some hfind
    exact (of_decide_eq_true hblock).2.1

/-- Commitments are timestamped at once, finalized blocks are not. -/
def otherModules : OtherModules where
  btcConfirmationDepth := 1
  checkpointFinalizationTimeout := 3
  currentEpoch := 1
  lastFinalizedEpoch := 1
  epochByHeight := fun _ => 2

def header (height : Nat) : HeaderInfo := ⟨height, 0, List.replicate 32 0⟩

/-- The initial state. -/
def genesis (params : Params) (lc : BTCLightClient) : Chain Unit where
  btcStaking := { BTCStaking.State.blank KVStore.empty KVStore.empty with
    params := KVStore.empty.set 0 stakingParams
    heightToVersionMap := [⟨1, 0⟩] }
  finality := .blank params
  external := ()
  header := header 0
  inBlock := false
  lc := lc
  others := otherModules

theorem genesis_genesis {params : Params} (lc : BTCLightClient)
    (h : succeeds params.validate = true) : Genesis config (genesis params lc) where
  height := rfl
  inBlock := rfl
  staking := by
    refine ⟨KVStore.empty, KVStore.empty, [stakingParams], by simp, ?_⟩
    rfl
  finality := ⟨params, succeeds_iff.mp h, rfl⟩

section Runs

variable {P : Chain Unit → Prop} {Q : Chain Unit → Label Unit → Prop} [∀ c l, Decidable (Q c l)]
  (params : Params) (lc : BTCLightClient) (labels : List (Label Unit))

/-- A run of the network of allowed steps, found by executing labels. -/
theorem of_labels (h : succeeds params.validate = true ∧
      ∃ c, (chain config).execute (fun c l => decide (Q c l)) (genesis params lc) labels = some c ∧
        P c) :
    ∃ history c, Run (chain config) history c ∧ Steps Q history ∧ P c :=
  Run.of_labels _ (genesis_genesis lc h.1) labels h.2

/-- A run of the network, found by executing labels. -/
theorem reaching (h : succeeds params.validate = true ∧
      ∃ c, (chain config).execute (fun _ _ => true) (genesis params lc) labels = some c ∧ P c) :
    ∃ history c, Run (chain config) history c ∧ P c :=
  Run.reaching _ (genesis_genesis lc h.1) labels h.2

end Runs

/-! ## Transactions and messages -/

/-- A staking transaction, told apart by its lock time. -/
def stakingTx (number : Nat) (value : Int) : MsgTx where
  txIn := [{ previousOutPoint := ⟨0, 0⟩ }]
  txOut := [⟨value, []⟩]
  lockTime := number

/-- A transaction that spends the first output of another. -/
def spendingTx (tx : MsgTx) (value : Int) : MsgTx where
  txIn := [{ previousOutPoint := ⟨config.prim.txHash tx, 0⟩ }]
  txOut := [⟨value, []⟩]

/-- A transaction that spends the first outputs of a staking transaction and of one that
adds funds. -/
def expansionTx (previous funding : MsgTx) (value : Int) : MsgTx where
  txIn := [{ previousOutPoint := ⟨config.prim.txHash previous, 0⟩ },
    { previousOutPoint := ⟨config.prim.txHash funding, 0⟩ }]
  txOut := [⟨value, []⟩]

/-- The root of a block with a coinbase and one more transaction. -/
def blockRoot (tx : MsgTx) : ChainHash := config.prim.hashConcat 0 (config.prim.txHash tx)

/-- The inclusion proof of the second transaction of such a block. -/
def inclusionProof (tx : MsgTx) : InclusionProof where
  headerHash := blockRoot tx
  index := 1
  proof := { hashes := [0] }

variable (fp : BIP340PubKey)

/-- What a staker requests for a staking transaction. -/
def delegationRequest (tx : MsgTx) (value : Int) : BTCStaking.DelegationRequest where
  stakerAddr := some 1
  pop := some []
  btcPk := some 3
  fpBtcPkList := [fp]
  stakingTime := 20
  stakingValue := value
  stakingTx := some tx
  slashingTx := some (spendingTx tx 1)
  delegatorSlashingSig := some []
  unbondingTime := 5
  unbondingTx := some (spendingTx tx (value - 1))
  unbondingValue := value - 1
  unbondingSlashingTx := some (spendingTx (spendingTx tx (value - 1)) 1)
  delegatorUnbondingSlashingSig := some []

def createFinalityProvider : Label Unit :=
  .deliver (.createFinalityProvider ⟨fp.val, fp, [], ⟨0, Dec.one, 0⟩⟩)

/-- Commit randomness for the heights from 1 on. -/
def commitPubRandList : Label Unit :=
  .deliver (.commitPubRandList ⟨fp, 1, 100, List.replicate 32 0, []⟩)

/-- Create a delegation whose staking transaction is on Bitcoin. -/
def createBTCDelegation (tx : MsgTx) (value : Int) : Label Unit :=
  .deliver (.createBTCDelegation
    { toDelegationRequest := delegationRequest fp tx value
      stakingTxInclusionProof := some (inclusionProof tx) })

/-- Register a stake expansion. -/
def btcStakeExpand (previous funding : MsgTx) (value : Int) : Label Unit :=
  .deliver (.btcStakeExpand
    { toDelegationRequest := delegationRequest fp (expansionTx previous funding value) value
      previousStakingTxHash := some (config.prim.txHash previous)
      fundingTx := some funding })

/-- Report that a transaction on Bitcoin spends a staking transaction. -/
def btcUndelegate (tx spending : MsgTx) : Label Unit :=
  .deliver (.btcUndelegate
    ⟨config.prim.txHash tx, some spending, inclusionProof spending, [some tx]⟩)

/-- The signatures of the covenant member. -/
def addCovenantSigs (tx : MsgTx) (stakeExpansionTxSig : Option Bytes) : Label Unit :=
  .deliver (.addCovenantSigs ⟨7, config.prim.txHash tx, [[]], [], [[]], stakeExpansionTxSig⟩)

/-- A vote of the provider with key 0, whose private key is 1. -/
def voteMsg (height : Nat) (appHash : Bytes) : MsgAddFinalitySig where
  fpBtcPk := 0
  blockHeight := height
  pubRand := 1
  proof := ⟨100, Int64.ofNat (height - 1), [], []⟩
  blockAppHash := appHash
  finalitySig := Fin.ofNat _ (EOTS.messageNumber (msgToSignForVote height appHash) + 1 - 256 ^ 40)

def vote (height : Nat) (appHash : Bytes) : Label Unit :=
  .deliver (.addFinalitySig (voteMsg height appHash))

/-- Register a finality provider that commits randomness. -/
def registerFp : List (Label Unit) :=
  [createFinalityProvider fp, commitPubRandList fp]

/-- Create a delegation and sign it. -/
def delegate (tx : MsgTx) (value : Int) : List (Label Unit) :=
  [createBTCDelegation fp tx value, addCovenantSigs tx none]

/-- A block of messages. -/
def block (height : Nat) (messages : List (Label Unit)) : List (Label Unit) :=
  .beginBlock (header height) :: messages ++ [.endBlock]

end Babylon.Devnet
