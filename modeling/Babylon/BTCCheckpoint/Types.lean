/-
  `x/btccheckpoint/types`: submissions of checkpoints to Bitcoin, where they are
  on the Bitcoin chain, and the data kept for an epoch.

  Depths are natural numbers, so the `math.MaxUint32` a depth is compared with
  before the first block was looked up is `none` here.
-/
import Babylon.BTCLightClient.Keeper

set_option autoImplicit false

namespace Babylon.BTCCheckpoint

open Lib

def errInvalidCheckpointProof : RegisteredError :=
  ⟨"btccheckpoint", 1100, "Invalid checkpoint proof"⟩
def errDuplicatedSubmission : RegisteredError := ⟨"btccheckpoint", 1101, "Duplicated submission"⟩
def errNoCheckpointsForPreviousEpoch : RegisteredError :=
  ⟨"btccheckpoint", 1102, "No checkpoints for previous epoch"⟩
def errInvalidHeader : RegisteredError := ⟨"btccheckpoint", 1103, "Proof headers are invalid"⟩
def errProvidedHeaderDoesNotHaveAncestor : RegisteredError :=
  ⟨"btccheckpoint", 1104, "Proof header does not have ancestor in previous epoch"⟩
def errEpochAlreadyFinalized : RegisteredError :=
  ⟨"btccheckpoint", 1105, "Submission denied. Epoch already finalized"⟩

/-! ## Parameters -/

/-- Length of the tag a checkpoint transaction starts with. -/
def tagLength : Nat := 4

/-- `Params`; the tag is kept decoded from its hex spelling. -/
structure Params where
  btcConfirmationDepth : Nat
  checkpointFinalizationTimeout : Nat
  checkpointTag : Bytes

/-- `Params.Validate`. -/
def Params.validate (params : Params) : Outcome Unit := do
  ensure (0 < params.btcConfirmationDepth) (.errorf "BtcConfirmationDepth must be positive: %d")
  ensure (0 < params.checkpointFinalizationTimeout)
    (.errorf "CheckpointFinalizationTimeout must be positive: %d")
  ensure (params.checkpointTag.length = tagLength)
    (.errorf "checkpoint tag should have exactly %d bytes")
  ensure (params.btcConfirmationDepth < params.checkpointFinalizationTimeout)
    (.errorf "BtcConfirmationDepth should be smaller than CheckpointFinalizationTimeout")

/-! ## Submissions -/

/-- `BtcStatus`. -/
inductive BtcStatus where
  | submitted
  | confirmed
  | finalized
deriving DecidableEq

/-- The number by which statuses are compared. -/
def BtcStatus.toNat : BtcStatus → Nat
  | .submitted => 0
  | .confirmed => 1
  | .finalized => 2

/-- `TransactionKey`: the block of a transaction and its claimed position. -/
structure TransactionKey where
  index : UInt32
  hash : ChainHash
deriving DecidableEq

/-- `SubmissionKey`: the keys of the transactions that carry the parts of a checkpoint. -/
abbrev SubmissionKey := List TransactionKey

/-- `TransactionInfo`. -/
structure TransactionInfo where
  key : TransactionKey
  transaction : MsgTx
  proof : MerkleNodes

/-- `SubmissionData`. -/
structure SubmissionData where
  reporter : AccAddress
  submitter : Bytes
  txsInfo : List TransactionInfo
  epoch : Nat

/-- `EpochData`. -/
structure EpochData where
  keys : List SubmissionKey
  status : BtcStatus

/-- `NewEmptyEpochData`. -/
def EpochData.new : EpochData := ⟨[], .submitted⟩

/-- `AppendKey`. -/
def EpochData.appendKey (ed : EpochData) (k : SubmissionKey) : EpochData :=
  { ed with keys := ed.keys ++ [k] }

/-- `SubmissionBtcInfo`, without the hash of the youngest block. -/
structure SubmissionBtcInfo where
  submissionKey : SubmissionKey
  oldestBlockDepth : Nat
  youngestBlockDepth : Nat
  youngestBlockLowestTxIdx : UInt32

namespace SubmissionBtcInfo

/-- `HappenedAfter`. -/
def happenedAfter (submission parentEpochSubmission : SubmissionBtcInfo) : Bool :=
  decide (submission.oldestBlockDepth < parentEpochSubmission.youngestBlockDepth)

/-- `SubmissionDepth`. -/
def submissionDepth (submission : SubmissionBtcInfo) : Nat := submission.youngestBlockDepth

/-- `IsBetterThan`: deeper, or in a lower position at the same depth. -/
def isBetterThan (newSubmission currentBestSubmission : SubmissionBtcInfo) : Bool :=
  if currentBestSubmission.submissionDepth < newSubmission.submissionDepth then true
  else if newSubmission.submissionDepth < currentBestSubmission.submissionDepth then false
  else decide (newSubmission.youngestBlockLowestTxIdx <
    currentBestSubmission.youngestBlockLowestTxIdx)

end SubmissionBtcInfo

end Babylon.BTCCheckpoint
