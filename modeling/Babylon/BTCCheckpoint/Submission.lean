/-
  Parsing a checkpoint submission: `btctxformatter`, `types/btcutils.go` and
  `types/msgs.go`.

  A checkpoint is carried by the OP_RETURN outputs of two Bitcoin transactions.
  Each comes with a header and a Merkle proof; the two parts must name each other
  and together decode to a raw checkpoint.  Transactions are kept parsed.
-/
import Babylon.BTCCheckpoint.Types
import Babylon.BTCCheckpoint.BtcUtils
import Babylon.Checkpointing.Keeper

set_option autoImplicit false

namespace Babylon.BTCCheckpoint

open Lib LightClient Checkpointing

/-- The functions of other code that `btccheckpoint` relies on. -/
structure Externals where
  /-- the Bitcoin network -/
  chain : BtcChainParams
  /-- transactions and hashes -/
  btc : BtcPrimitives
  /-- `txscript.IsNullData` -/
  isNullData : Bytes → Bool
  /-- `sha256.Sum256` -/
  sha256 : Bytes → Bytes
  /-- `checkpointing.VerifyRawCheckpoint`: enough voting power and a valid multi-signature -/
  verifyRawCheckpoint : RawCheckpoint → Bool

/-! ## Parts of a checkpoint, `btctxformatter/formatter.go` -/

def headerLength : Nat := tagLength + 1
def blockHashLength : Nat := 32
def bitMapLength : Nat := 13
def addressLength : Nat := 20
def firstPartHashLength : Nat := 10
def blsSigLength : Nat := 48
def epochLength : Nat := 8

def firstPartLength : Nat :=
  headerLength + blockHashLength + addressLength + epochLength + bitMapLength
def secondPartLength : Nat := headerLength + blsSigLength + firstPartHashLength
def rawBTCCheckpointLength : Nat :=
  epochLength + blockHashLength + bitMapLength + blsSigLength + addressLength

/-- `RawBtcCheckpoint`. -/
structure RawBtcCheckpoint where
  epoch : Nat
  blockHash : Bytes
  bitMap : Bytes
  submitterAddress : Bytes
  blsSig : Bytes

/-- `GetCheckpointData` for the current version 0: check length, tag, version and part
number, and strip them off. -/
def getCheckpointData (tag : Bytes) (partIndex : Nat) (data : Bytes) : Outcome Bytes := do
  ensure (partIndex ≤ 1) (.errorf "invalid part index")
  ensure (partIndex = 0 → data.length = firstPartLength)
    (.errorf "invalid length. First part should have 77 bytes")
  ensure (partIndex = 1 → data.length = secondPartLength)
    (.errorf "invalid length. First part should have 62 bytes")
  let verHalf := data.getD tagLength 0
  ensure (data.take tagLength = tag)
    (.errorf "data does not have expected tag, expected tag: %v, got tag: %v")
  ensure (verHalf.toNat % 16 = 0) (.errorf "header have invalid version")
  ensure (verHalf.toNat / 16 = partIndex) (.errorf "header have invalid part number")
  return data.drop headerLength

/-- `ConnectParts`: the second part ends in a hash of the first. -/
def connectParts (ext : Externals) (f s : Bytes) : Outcome Bytes := do
  ensure (f.length = firstPartLength - headerLength) (.errorf "not valid first part")
  ensure (s.length = secondPartLength - headerLength) (.errorf "not valid second part")
  let hashStartIdx := s.length - firstPartHashLength
  ensure ((ext.sha256 f).take firstPartHashLength = s.drop hashStartIdx)
    (.errorf "parts do not connect")
  return f ++ s.take hashStartIdx

/-- Big-endian number. -/
def bigEndian (bytes : Bytes) : Nat := bytes.foldl (fun n byte => 256 * n + byte.toNat) 0

/-- `DecodeRawCheckpoint`. -/
def decodeRawCheckpoint (btcCkptBytes : Bytes) : Outcome RawBtcCheckpoint := do
  ensure (btcCkptBytes.length = rawBTCCheckpointLength)
    (.errorf "invalid raw checkpoint data length")
  let afterEpoch := btcCkptBytes.drop epochLength
  let afterHash := afterEpoch.drop blockHashLength
  let afterBitMap := afterHash.drop bitMapLength
  let afterAddress := afterBitMap.drop addressLength
  return {
    epoch := bigEndian (btcCkptBytes.take epochLength)
    blockHash := afterEpoch.take blockHashLength
    bitMap := afterHash.take bitMapLength
    submitterAddress := afterBitMap.take addressLength
    blsSig := afterAddress.take blsSigLength }

/-- `FromBTCCkptToRawCkpt`; the lengths it checks are those of a decoded checkpoint. -/
def fromBTCCkptToRawCkpt (btcCkpt : RawBtcCheckpoint) : RawCheckpoint :=
  ⟨btcCkpt.epoch, btcCkpt.blockHash, btcCkpt.bitMap, btcCkpt.blsSig⟩

/-! ## Proofs, `types/btcutils.go` -/

/-- `BTCSpvProof`. -/
structure BTCSpvProof where
  btcTransaction : MsgTx
  btcTransactionIndex : UInt32
  merkleNodes : MerkleNodes
  confirmingBtcHeader : BlockHeader

/-- `ParsedProof`. -/
structure ParsedProof where
  blockHash : ChainHash
  transaction : MsgTx
  transactionIdx : UInt32
  opReturnData : Bytes

/-- The data of one OP_RETURN script. -/
def opReturnDataOf (script : Bytes) : Bytes :=
  if script.length = 1 then []
  else if script.getD 1 0 = 0x4c then
    -- OP_RETURN, OP_PUSHDATA1 and the length
    script.drop 3
  else script.drop 2

/-- `ExtractStandardOpReturnData`: the data of the only standard OP_RETURN output. -/
def extractStandardOpReturnData (ext : Externals) (tx : MsgTx) : Outcome Bytes := do
  let scripts := (tx.txOut.map TxOut.pkScript).filter ext.isNullData
  ensure (scripts.length ≤ 1) (.errorf "transaction has more than one OP_RETURN output")
  return scripts.flatMap opReturnDataOf

/-- `ParseProof`. -/
def parseProof (ext : Externals) (proof : BTCSpvProof) : Outcome ParsedProof := do
  ensure (ext.btc.checkTransactionSanity proof.btcTransaction = true)
    (.errorf "transaction is not sane")
  ensure (ext.chain.checkProofOfWork proof.confirmingBtcHeader = true)
    (.errorf "header has invalid proof of work")
  ensure (verify ext.btc proof.btcTransaction proof.confirmingBtcHeader.merkleRoot
      proof.merkleNodes proof.btcTransactionIndex = true)
    (.errorf "header failed validation due to failed proof")
  let opReturnData ← extractStandardOpReturnData ext proof.btcTransaction
  ensure (opReturnData ≠ []) (.errorf "provided transaction should provide op return data")
  return ⟨ext.chain.blockHash proof.confirmingBtcHeader, proof.btcTransaction,
    proof.btcTransactionIndex, opReturnData⟩

/-! ## Submissions, `types/msgs.go` -/

/-- `MsgInsertBTCSpvProof`. -/
structure MsgInsertBTCSpvProof where
  submitter : AccAddress
  proofs : List BTCSpvProof

/-- `RawCheckpointSubmission`. -/
structure RawCheckpointSubmission where
  reporter : AccAddress
  proof1 : ParsedProof
  proof2 : ParsedProof
  checkpointData : RawBtcCheckpoint

/-- `ParseTwoProofs` and `ParseSubmission`. -/
def parseSubmission (ext : Externals) (m : MsgInsertBTCSpvProof) (expectedTag : Bytes) :
    Outcome RawCheckpointSubmission :=
  match m.proofs with
  | [first, second] => do
      let proof1 ← parseProof ext first
      let proof2 ← parseProof ext second
      let part1 ← getCheckpointData expectedTag 0 proof1.opReturnData
      let part2 ← getCheckpointData expectedTag 1 proof2.opReturnData
      let rawCkptData ← connectParts ext part1 part2
      let checkpointData ← decodeRawCheckpoint rawCkptData
      return ⟨m.submitter, proof1, proof2, checkpointData⟩
  | _ => throw (.errorf "expected at exactly valid op return transactions")

/-- `toTransactionKey`. -/
def toTransactionKey (p : ParsedProof) : TransactionKey := ⟨p.transactionIdx, p.blockHash⟩

namespace RawCheckpointSubmission

/-- `GetSubmissionKey`. -/
def getSubmissionKey (s : RawCheckpointSubmission) : SubmissionKey :=
  [toTransactionKey s.proof1, toTransactionKey s.proof2]

/-- `GetSubmissionData`. -/
def getSubmissionData (s : RawCheckpointSubmission) (epochNum : Nat)
    (txsInfo : List TransactionInfo) : SubmissionData :=
  ⟨s.reporter, s.checkpointData.submitterAddress, txsInfo, epochNum⟩

end RawCheckpointSubmission

/-! ## What an accepted submission is -/

theorem parseProof_ok {ext : Externals} {proof : BTCSpvProof} {parsed : ParsedProof}
    (h : parseProof ext proof = .ok parsed) :
    verify ext.btc proof.btcTransaction proof.confirmingBtcHeader.merkleRoot
        proof.merkleNodes proof.btcTransactionIndex = true ∧
      extractStandardOpReturnData ext proof.btcTransaction = .ok parsed.opReturnData ∧
      parsed.opReturnData ≠ [] ∧
      parsed = ⟨ext.chain.blockHash proof.confirmingBtcHeader, proof.btcTransaction,
        proof.btcTransactionIndex, parsed.opReturnData⟩ := by
  simp only [parseProof, ok_iff] at h
  obtain ⟨_, -, _, -, _, hver, data, hdata, _, hne, rfl⟩ := h
  exact ⟨hver, hdata, hne, rfl⟩

/-- A parsed submission comes from two proofs that were parsed, in their order. -/
theorem parseSubmission_ok {ext : Externals} {m : MsgInsertBTCSpvProof} {tag : Bytes}
    {submission : RawCheckpointSubmission} (h : parseSubmission ext m tag = .ok submission) :
    ∃ first second, m.proofs = [first, second] ∧
      parseProof ext first = .ok submission.proof1 ∧
      parseProof ext second = .ok submission.proof2 ∧
      (∃ part1, getCheckpointData tag 0 submission.proof1.opReturnData = .ok part1) ∧
      ∃ part2, getCheckpointData tag 1 submission.proof2.opReturnData = .ok part2 := by
  unfold parseSubmission at h
  split at h
  case h_2 => cases h
  case h_1 first second hproofs =>
    simp only [ok_iff] at h
    obtain ⟨proof1, hfirst, proof2, hsecond, part1, hpart1, part2, hpart2, _, -, _, -, rfl⟩ := h
    exact ⟨first, second, hproofs, hfirst, hsecond, ⟨part1, hpart1⟩, part2, hpart2⟩

end Babylon.BTCCheckpoint
