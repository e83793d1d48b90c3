/-
  `x/btccheckpoint/keeper/msg_server.go`, and the system of the Bitcoin light
  client, `btccheckpoint` and `checkpointing`.
-/
import Babylon.BTCCheckpoint.Keeper
import Babylon.BTCLightClient.InsertHeaders

set_option autoImplicit false

namespace Babylon.BTCCheckpoint

open Lib LightClient Checkpointing LightClient.Sample

namespace State

/-- Whether some submission of the previous epoch happened before the new one: the loop of
`checkAncestors`. -/
def haveDescendant (lc : HeadersState) (newSubmissionInfo : SubmissionBtcInfo) :
    List SubmissionKey → Outcome Bool
  | [] => return false
  | sk :: rest => do
      ensure (2 ≤ sk.length)
        (.panic "Submission key composed of less than 2 transactions keys in database")
      let parentEpochSubmissionInfo ← getSubmissionBtcInfo lc sk
      match parentEpochSubmissionInfo with
      | none => haveDescendant lc newSubmissionInfo rest
      | some parent =>
        if newSubmissionInfo.happenedAfter parent then return true
        else haveDescendant lc newSubmissionInfo rest

/-- `checkAncestors`. -/
def checkAncestors (s : State) (lc : HeadersState) (submissionEpoch : Nat)
    (newSubmissionInfo : SubmissionBtcInfo) : Outcome Unit :=
  if submissionEpoch ≤ 1 then return ()
  else do
    let previousEpochData ← orThrow (s.epochData.get (submissionEpoch - 1))
      (.registered errNoCheckpointsForPreviousEpoch)
    ensure (previousEpochData.keys ≠ []) (.registered errNoCheckpointsForPreviousEpoch)
    let found ← haveDescendant lc newSubmissionInfo previousEpochData.keys
    ensure (found = true) (.registered errProvidedHeaderDoesNotHaveAncestor)

end State

namespace Stores

/-- `addEpochSubmission`. -/
def addEpochSubmission (stores : Stores) (epochNum : Nat) (ed : EpochData) (sk : SubmissionKey)
    (sd : SubmissionData) : Stores where
  btccheckpoint :=
    (stores.btccheckpoint.saveEpochData epochNum (ed.appendKey sk)).saveSubmission sk sd
  checkpointing :=
    if ed.keys = [] then stores.checkpointing.setCheckpointSubmitted epochNum
    else stores.checkpointing

/-- The transactions of a submission with their keys and proofs. -/
def txsInfoOf (submissionKey : SubmissionKey) (req : MsgInsertBTCSpvProof) : List TransactionInfo :=
  (submissionKey.zip req.proofs).map fun (txKey, proof) =>
    ⟨txKey, proof.btcTransaction, proof.merkleNodes⟩

/-- `InsertBTCSpvProof`.  A conflicting checkpoint makes the message succeed, with a flag
that halts the chain at the end of the block. -/
def insertBTCSpvProof (ext : Externals) (lc : HeadersState) (stores : Stores)
    (req : MsgInsertBTCSpvProof) : Outcome Stores := do
  let s := stores.btccheckpoint
  let rawSubmission ← Outcome.orWrapf (parseSubmission ext req s.params.checkpointTag)
    errInvalidCheckpointProof "%v"
  let submissionKey := rawSubmission.getSubmissionKey
  ensure (s.hasSubmission submissionKey = false) (.registered errDuplicatedSubmission)
  let newSubmissionInfo ← getSubmissionBtcInfo lc submissionKey
  let newSubmissionInfo ← orThrow newSubmissionInfo (.wrapf errInvalidHeader "%v")
  let epochNum := rawSubmission.checkpointData.epoch
  let ed := (s.epochData.get epochNum).getD EpochData.new
  ensure (ed.status ≠ .finalized) (.registered errEpochAlreadyFinalized)
  let matching ← stores.checkpointing.verifyCheckpoint ext.verifyRawCheckpoint
    (fromBTCCkptToRawCkpt rawSubmission.checkpointData)
  if matching then do
    s.checkAncestors lc epochNum newSubmissionInfo
    return stores.addEpochSubmission epochNum ed submissionKey
      (rawSubmission.getSubmissionData epochNum (txsInfoOf submissionKey req))
  else
    return { stores with
      checkpointing := { stores.checkpointing with conflictingCheckpointReceived := true } }

/-- `UpdateParams`, for a message of the authority: the finalization timeout stays. -/
def updateParams (stores : Stores) (params : Params) : Outcome Stores := do
  params.validate
  ensure (params.checkpointFinalizationTimeout =
      stores.btccheckpoint.params.checkpointFinalizationTimeout)
    (.errorf "the checkpoint finalization timeout cannot be changed")
  return { stores with btccheckpoint := { stores.btccheckpoint with params } }

end Stores

/-! ## The system -/

/-- The light client, the flag of the transient store that it was updated in this block,
and the stores of the two modules. -/
structure CheckpointState extends Stores where
  lc : HeadersState
  lcUpdated : Bool

/-- What happens within blocks and at their ends. -/
inductive Operation where
  | insertHeaders (headers : List BlockHeader)
  | sealCheckpoint (ckptWithMeta : RawCheckpointWithMeta)
  | insertBTCSpvProof (req : MsgInsertBTCSpvProof)
  | updateParams (params : Params)
  | endBlock

/-- The hooks of `btccheckpoint` on the light client remember that it was updated. -/
def lightClientHooks : BTCLightClientHooks Bool where
  afterBTCRollBack _ _ _ := true
  afterBTCHeaderInserted updated _ := updated
  afterBTCRollForward _ _ := true

namespace CheckpointState

/-- `EndBlocker` of `btccheckpoint`, then of `checkpointing`. -/
def endBlock (c : CheckpointState) : Outcome CheckpointState := do
  let stores ← if c.lcUpdated then c.checkCheckpoints c.lc else pure c.toStores
  stores.checkpointing.endBlocker
  return { c with lcUpdated := false, toStores := stores }

/-- One operation.  A message that fails leaves no trace; a block that panics is not
committed. -/
def step (ext : Externals) (c : CheckpointState) : Operation → Option CheckpointState
  | .insertHeaders headers =>
    let result := (insertHeadersWithHookAndEvents ext.chain lightClientHooks (c.lc, c.lcUpdated)
      headers).2
    some { c with lc := result.1, lcUpdated := result.2 }
  | .sealCheckpoint ckptWithMeta =>
    (c.checkpointing.sealCheckpoint ext.verifyRawCheckpoint ckptWithMeta).toOption.map
      fun checkpointing => { c with checkpointing }
  | .insertBTCSpvProof req =>
    (c.insertBTCSpvProof ext c.lc req).toOption.map fun stores => { c with toStores := stores }
  | .updateParams params =>
    (c.updateParams params).toOption.map fun stores => { c with toStores := stores }
  | .endBlock => c.endBlock.toOption

/-- The state at genesis: the base header of the light client, and empty stores. -/
structure Genesis (ext : Externals) (base : LightClient.BTCHeaderInfo) (c : CheckpointState) :
    Prop where
  base_valid : base.Valid ext.chain
  lc : c.lc = HeadersState.empty.insertHeader base
  btccheckpoint : c.btccheckpoint = State.blank c.btccheckpoint.params
  params_valid : c.btccheckpoint.params.validate = .ok ()
  checkpointing : c.checkpointing = Checkpointing.State.blank

end CheckpointState

/-- The light client with the two modules that follow checkpoints. -/
def checkpointSystem (ext : Externals) (base : LightClient.BTCHeaderInfo) :
    System CheckpointState Operation where
  init := CheckpointState.Genesis ext base
  step := CheckpointState.step ext

/-! ## A network to evaluate the model on -/

namespace Sample

/-- Every checkpoint has a valid multi-signature, and a hash is the hashed bytes. -/
def ext : Externals where
  chain := BtcChainParams.simple
  btc := BtcPrimitives.simple
  isNullData script := script.head? = some 0x6a
  sha256 bytes := bytes
  verifyRawCheckpoint _ := true

/-- Confirmed one block below the tip, finalized two blocks below. -/
def params : Params := ⟨1, 2, [0x62, 0x62, 0x6e, 0x30]⟩

/-- The checkpoint of an epoch. -/
def checkpoint (epoch : UInt8) : RawCheckpointWithMeta :=
  ⟨⟨epoch.toNat, .replicate blockHashLength 0, .replicate bitMapLength 0,
    .replicate blsSigLength 0⟩, .sealed⟩

/-- The data of its first part. -/
def firstPart (epoch : UInt8) : Bytes :=
  .replicate 7 0 ++ [epoch] ++ .replicate (blockHashLength + bitMapLength + addressLength) 0

/-- The data of its second part. -/
def secondPart (epoch : UInt8) : Bytes :=
  .replicate blsSigLength 0 ++ (firstPart epoch).take firstPartHashLength

/-- A transaction with the given data in its only output. -/
def opReturnTx (script : Bytes) (lockTime : Nat) : MsgTx where
  txIn := [{ previousOutPoint := ⟨0, 0⟩ }]
  txOut := [⟨0, script⟩]
  lockTime := lockTime

/-- The two transactions of a submission; submissions of an epoch differ in their lock times. -/
def firstTx (epoch : UInt8) (lockTime : Nat) : MsgTx :=
  opReturnTx ([0x6a, 0x4c, 78] ++ params.checkpointTag ++ [0x00] ++ firstPart epoch) lockTime

@[inherit_doc firstTx]
def secondTx (epoch : UInt8) (lockTime : Nat) : MsgTx :=
  opReturnTx ([0x6a, 63] ++ params.checkpointTag ++ [0x10] ++ secondPart epoch) lockTime

/-- The header of a block of these two transactions. -/
def carrier (prevBlock : ChainHash) (epoch : UInt8) (lockTime : Nat) : BlockHeader where
  prevBlock := prevBlock
  merkleRoot := ext.btc.hashConcat (ext.btc.txHash (firstTx epoch lockTime))
    (ext.btc.txHash (secondTx epoch lockTime))
  bits := 0x1d00ffff
  nonce := lockTime

/-- The submission in this block, the second transaction at the given index. -/
def submission (prevBlock : ChainHash) (epoch : UInt8) (lockTime : Nat) (index : UInt32) :
    MsgInsertBTCSpvProof where
  submitter := 0
  proofs := [
    { btcTransaction := firstTx epoch lockTime
      btcTransactionIndex := 0
      merkleNodes := { hashes := [ext.btc.txHash (secondTx epoch lockTime)] }
      confirmingBtcHeader := carrier prevBlock epoch lockTime },
    { btcTransaction := secondTx epoch lockTime
      btcTransactionIndex := index
      merkleNodes := { hashes := [ext.btc.txHash (firstTx epoch lockTime)] }
      confirmingBtcHeader := carrier prevBlock epoch lockTime }]

/-- The state at genesis. -/
def start : CheckpointState where
  lc := HeadersState.empty.insertHeader root
  lcUpdated := false
  toStores := ⟨State.blank params, Checkpointing.State.blank⟩

theorem start_genesis : (checkpointSystem ext root).init start where
  base_valid := root_valid
  lc := rfl
  btccheckpoint := rfl
  params_valid := rfl
  checkpointing := rfl

end Sample

end Babylon.BTCCheckpoint
