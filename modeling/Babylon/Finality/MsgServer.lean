/-
  `x/finality/keeper/msg_server.go` and `x/finality/keeper/gov.go`: votes, public
  randomness commitments, unjailing, and the two governance messages.

  The index of refundable messages belongs to the incentive module and is left
  out.
-/
import Babylon.Finality.PowerDistChange

set_option autoImplicit false

namespace Babylon.Finality

open Lib EOTS

/-- `MsgAddFinalitySig.MsgToSign`. -/
def MsgAddFinalitySig.msgToSign (m : MsgAddFinalitySig) : Bytes :=
  msgToSignForVote m.blockHeight m.blockAppHash

/-- `VerifyFinalitySig`.  The position in the proof has to be the position of the
height in the commitment, in arithmetic modulo `2 ^ 64`. -/
def verifyFinalitySig (fprim : FinalityPrimitives) (m : MsgAddFinalitySig)
    (prCommit : PubRandCommit) : Outcome Unit := do
  let heightOfProof := prCommit.startHeight + m.proof.index.toUInt64
  ensure (m.blockHeight = heightOfProof.toNat)
    (.wrapf errInvalidFinalitySig
      "the inclusion proof (for height %d) does not correspond to the given height (%d) in the message")
  ensure (m.proof.total.toUInt64 = prCommit.numPubRand)
    (.wrapf errInvalidFinalitySig
      "the total number of public randomnesses in the proof (%d) does not match the number of public randomnesses committed (%d)")
  ensure (fprim.merkleVerify prCommit.commitment m.pubRand m.proof = true)
    (.wrapf errInvalidFinalitySig "the inclusion proof of the public randomness is invalid: %v")
  let pk ← orThrow (fprim.curve.parsePubKey m.fpBtcPk) (.errorf "invalid public key")
  ensure (EOTS.verify fprim.curve pk (fprim.curve.toFieldVal m.pubRand) m.msgToSign
      (fprim.curve.toModNScalar m.finalitySig) = true)
    (.errorf "invalid signature")

section Votes

variable {I : Type} (fprim : FinalityPrimitives) (env : Env)

/-- `ShouldAcceptSigForHeight`. -/
def shouldAcceptSigForHeight (block : IndexedBlock) : Bool :=
  let timestamped := decide (env.epochByHeight block.height ≤ env.lastFinalizedEpoch)
  !(block.finalized && timestamped)

/-- `slashFinalityProvider`; the evidence only goes into an emitted event. -/
def slashFinalityProvider (w : Stores I) (fpBtcPk : BIP340PubKey) : Outcome (Stores I) := do
  let btcStaking ← (w.btcStaking.slashFinalityProvider env.toEnv fpBtcPk).orPanic
    "failed to slash finality provider: %v"
  return { w with btcStaking }

/-- A vote for a block that differs from the indexed one becomes evidence, and
slashes a provider that also signed the indexed one. -/
def addForkVote (w : Stores I) (req : MsgAddFinalitySig) (indexedBlock : IndexedBlock) :
    Outcome (Stores I) := do
  let canonicalSig := w.finality.getSig env req.blockHeight req.fpBtcPk
  let evidence : Evidence := {
    fpBtcPk := req.fpBtcPk
    blockHeight := req.blockHeight
    pubRand := req.pubRand
    canonicalAppHash := indexedBlock.appHash
    forkAppHash := req.blockAppHash
    canonicalFinalitySig := canonicalSig
    forkFinalitySig := req.finalitySig }
  match canonicalSig with
  | some _ => do
      let w ← slashFinalityProvider env w req.fpBtcPk
      return { w with finality := w.finality.setEvidence evidence }
  | none => return { w with finality := w.finality.setEvidence evidence }

/-- `HighestVotedHeight` is a `uint32`. -/
def updateHighestVotedHeight (bs : BTCStaking.State) (fp : BTCStaking.FinalityProvider)
    (blockHeight : Nat) : Outcome BTCStaking.State :=
  if fp.highestVotedHeight < blockHeight % 2 ^ 32 then
    bs.updateFinalityProvider { fp with highestVotedHeight := blockHeight % 2 ^ 32 }
  else
    .ok bs

/-- A vote for the indexed block, which slashes a provider that signed a fork before. -/
def addCanonicalVote (w : Stores I) (req : MsgAddFinalitySig)
    (fp : BTCStaking.FinalityProvider) : Outcome (Stores I) := do
  let finality := w.finality.setSig req.blockHeight req.fpBtcPk req.finalitySig
  let btcStaking ← updateHighestVotedHeight w.btcStaking fp req.blockHeight
  if finality.hasEvidence req.fpBtcPk req.blockHeight then do
    let evidence ← orThrow (finality.getEvidence env req.fpBtcPk req.blockHeight)
      (.panic "failed to get evidence despite HasEvidence returns true")
    let evidence := { evidence with canonicalFinalitySig := some req.finalitySig }
    slashFinalityProvider env
      { w with btcStaking, finality := finality.setEvidence evidence } req.fpBtcPk
  else
    return { w with btcStaking, finality }

/-- `AddFinalitySig`. -/
def addFinalitySig (w : Stores I) (req : MsgAddFinalitySig) : Outcome (Stores I) := do
  let s := w.finality
  ensure (req.blockAppHash.length = 32)
    (.wrapf errInvalidFinalitySig "invalid block app hash length: got %d, want %d")
  ensure (s.params.finalityActivationHeight ≤ req.blockHeight)
    (.wrapf errFinalityNotActivated "finality block height: %d is lower than activation height %d")
  let indexedBlock ← s.getBlock req.blockHeight
  ensure (shouldAcceptSigForHeight env indexedBlock = true)
    (.wrapf errSigHeightOutdated "height: %d")
  ensure (w.btcStaking.isFinalityProviderDeleted req.fpBtcPk = false)
    (.wrapf errFinalityProviderIsDeleted "fp_btc_pk_hex: %s")
  let fp ← w.btcStaking.getFinalityProvider req.fpBtcPk
  ensure (fp.isSlashed = false)
    (.wrapf BTCStaking.errFpAlreadySlashed "finality provider public key: %s")
  ensure (fp.isJailed = false)
    (.wrapf BTCStaking.errFpAlreadyJailed "finality provider public key: %s")
  ensure (s.getVotingPower req.fpBtcPk req.blockHeight ≠ 0)
    (.wrapf errInvalidFinalitySig
      "the finality provider %s does not have voting power at height %d")
  ensure (s.getSig env req.blockHeight req.fpBtcPk ≠ some req.finalitySig)
    (.registered errDuplicatedFinalitySig)
  let prCommit ← s.getTimestampedPubRandCommitForHeight env req.fpBtcPk req.blockHeight
  verifyFinalitySig fprim req prCommit
  let w := { w with finality := s.setPubRand req.fpBtcPk req.blockHeight req.pubRand }
  if indexedBlock.appHash ≠ req.blockAppHash then addForkVote env w req indexedBlock
  else addCanonicalVote env w req fp

end Votes

/-! ## Public randomness and jailing -/

/-- `MsgCommitPubRandList.ValidateBasic`: the range of heights must not wrap around. -/
def MsgCommitPubRandList.validateBasic (m : MsgCommitPubRandList) : Outcome Unit := do
  ensure (m.commitment.length = 32) (.wrapf errInvalidPubRand "commitment must be %d bytes, got %d")
  ensure (m.startHeight < m.startHeight + m.numPubRand)
    (.wrapf errOverflowInBlockHeight
      "public rand commit start block height: %d is equal or higher than (start height + num pub rand) %d")

/-- What `HashToSign` hashes. -/
def MsgCommitPubRandList.msgToSign (m : MsgCommitPubRandList) : Bytes :=
  uint64ToBigEndian m.startHeight.toNat ++ uint64ToBigEndian m.numPubRand.toNat ++ m.commitment

/-- `MsgCommitPubRandList.VerifySig`. -/
def MsgCommitPubRandList.verifySig (prim : BtcPrimitives) (m : MsgCommitPubRandList) : Bool :=
  prim.validPubKey m.fpBtcPk && prim.validSignature m.sig &&
    prim.schnorrVerify m.fpBtcPk m.msgToSign m.sig

/-- `CommitPubRandList`. -/
def commitPubRandList {I : Type} (prim : BtcPrimitives) (env : Env) (w : Stores I)
    (req : MsgCommitPubRandList) : Outcome (Stores I) := do
  let s := w.finality
  req.validateBasic
  ensure (req.startHeight.toNat < env.header.height + maxPubRandCommitOffset)
    (.wrapf errInvalidPubRand
      "start height %d is too far into the future. Current height is %d and max offset is %d")
  ensure (s.params.finalityActivationHeight ≤ req.startHeight.toNat)
    (.wrapf errFinalityNotActivated
      "public rand commit start block height: %d is lower than activation height %d")
  ensure (s.params.minPubRand ≤ req.numPubRand.toNat)
    (.wrapf errTooFewPubRand "required minimum: %d, actual: %d")
  ensure (w.btcStaking.hasFinalityProvider req.fpBtcPk = true)
    (.wrapf BTCStaking.errFpNotFound "the finality provider with BTC PK %v is not registered")
  ensure (w.btcStaking.isFinalityProviderDeleted req.fpBtcPk = false)
    (.wrapf errFinalityProviderIsDeleted "fp_btc_pk_hex: %s")
  ensure (req.verifySig prim = true)
    (.wrapf errInvalidPubRand "invalid signature over the public randomness list: %v")
  let prCommit : PubRandCommit := {
    startHeight := req.startHeight
    numPubRand := req.numPubRand
    commitment := req.commitment
    epochNum := env.currentEpoch }
  ensure (∀ lastPrCommit ∈ s.getLastPubRandCommit req.fpBtcPk,
      lastPrCommit.endHeight < req.startHeight)
    (.wrapf errInvalidPubRand
      "the start height (%d) has overlap with the height of the highest public randomness committed (%d)")
  let finality ← s.setPubRandCommit req.fpBtcPk prCommit
  return { w with finality }

/-- The zero value of `time.Time`, the start of the year 1. -/
def zeroTime : Time := -62135596800 * 10 ^ 9

/-- `IsJailingPeriodPassed`. -/
def FinalityProviderSigningInfo.isJailingPeriodPassed (si : FinalityProviderSigningInfo)
    (curBlockTime : Time) : Outcome Bool := do
  ensure (si.jailedUntil ≠ zeroTime) (.registered BTCStaking.errFpNotJailed)
  return decide (si.jailedUntil < curBlockTime)

/-- `UnjailFinalityProvider`. -/
def unjailFinalityProvider {I : Type} (env : Env) (w : Stores I)
    (req : MsgUnjailFinalityProvider) : Outcome (Stores I) := do
  let fp ← w.btcStaking.getFinalityProvider req.fpBtcPk
  ensure (fp.addr = req.signer)
    (.errorf "the fp's address %s does not match the signer %s of the requestion")
  ensure (fp.isJailed = true) (.registered BTCStaking.errFpNotJailed)
  let info ← orThrow (w.finality.finalityProviderSigningTracker.get req.fpBtcPk)
    (.errorf "failed to get the signing info of finality provider %s: %w")
  let jailingPeriodPassed ← info.isJailingPeriodPassed env.header.time
  ensure (jailingPeriodPassed = true)
    (.wrapf errJailingPeriodNotPassed "current block time: %v, required %v")
  let btcStaking ← w.btcStaking.unjailFinalityProvider env.toEnv req.fpBtcPk
  return { w with btcStaking }

/-! ## Governance -/

/-- `UpdateParams`. -/
def updateParams {I : Type} (env : Env) (w : Stores I) (req : MsgUpdateParams) :
    Outcome (Stores I) := do
  ensure (env.authority = req.authority) (.errorf "invalid authority; expected %s, got %s")
  req.params.validate
  return { w with finality := { w.finality with params := req.params } }

section Resume

variable {I : Type} (ext : External I) (env : Env)

/-- One iteration of the jailing loop of `HandleResumeFinalityProposal`.  The voters
are looked up by the string of the proposal, everything else by the decoded key. -/
def jailProposedFp (voters : List BIP340PubKey) (w : Stores I) (fpPkHex : HexString) :
    Outcome (Stores I) := do
  let fpPk ← newBIP340PubKeyFromHex fpPkHex
  ensure (fpPkHex ∉ voters.map BIP340PubKey.marshalHex)
    (.errorf "the finality provider %s has voted for height %d")
  let fp ← w.btcStaking.getFinalityProvider fpPk
  if fp.isSlashed || fp.isJailed then return w
  else do
    let btcStaking ← w.btcStaking.jailFinalityProvider env.toEnv fpPk
    let signInfo ← orThrow (w.finality.finalityProviderSigningTracker.get fpPk)
      (.errorf "the signing info of finality provider %s is not created: %w")
    let signInfo := { signInfo with
      jailedUntil := env.header.time + w.finality.params.jailDuration
      missedBlocksCounter := 0 }
    let finality := (w.finality.deleteMissedBlockBitmap fpPk).setSigningInfo fpPk signInfo
    return { w with btcStaking, finality }

variable (fpPksToJail : List HexString)

/-- Whether a provider of a cache is named by the proposal, which is decided by the
canonical spelling of its key. -/
def shouldJail (fp : FinalityProviderDistInfo) : Bool :=
  decide (fp.btcPk.marshalHex ∈ fpPksToJail)

/-- Jail a named provider of a cache, unless it was already slashed there. -/
def jailInCache (fp : FinalityProviderDistInfo) : FinalityProviderDistInfo :=
  if shouldJail fpPksToJail fp && !fp.isSlashed then { fp with isJailed := true } else fp

/-- The cache of a height after the proposal: ranked again, with the old number of
active providers as the maximum. -/
def rewriteCache (dc : VotingPowerDistCache) : VotingPowerDistCache :=
  (VotingPowerDistCache.withFinalityProviders
    (dc.finalityProviders.map (jailInCache fpPksToJail))).applyActiveFinalityProviders
      dc.numActiveFps

/-- The voting power of the named providers of a cache is set to 0. -/
def State.clearVotingPower (s : State) (fpPksToJail : List HexString) (dc : VotingPowerDistCache)
    (height : Nat) : State :=
  (dc.finalityProviders.filter (shouldJail fpPksToJail)).foldl
    (fun s fp => s.setVotingPower fp.btcPk height 0) s

/-- The processing state for the hooks at the current height. -/
def resumeProcessingState (dc : VotingPowerDistCache) : ProcessingState :=
  (dc.finalityProviders.filter fun fp => shouldJail fpPksToJail fp && !fp.isSlashed).foldl
    (fun ps fp => ps.setFpState fp.btcPk .jailed) (ProcessingState.new.fillByPrevVpDstCache dc)

/-- One iteration of the loop over the heights since the halting height.  A cache
that is missing is dereferenced. -/
def resumeAtHeight (w : Stores I) (blkHeight : Nat) : Outcome (Stores I) := do
  let dc ← orThrow (w.finality.getVotingPowerDistCache blkHeight)
    (.panic "invalid memory address or nil pointer dereference")
  let isCurrHeight := decide (blkHeight = env.header.height)
  let state := if isCurrHeight then some (resumeProcessingState fpPksToJail dc) else none
  let newDc := rewriteCache fpPksToJail dc
  let finality := (w.finality.clearVotingPower fpPksToJail dc blkHeight).setVotingPowerDistCache
    blkHeight newDc
  handleFPStateUpdates ext env { w with finality } state dc newDc isCurrHeight

/-- `HandleResumeFinalityProposal`. -/
def handleResumeFinalityProposal (w : Stores I) (fpPksHex : List HexString)
    (haltingHeight : Nat) : Outcome (Stores I) := do
  ensure (w.finality.params.finalityActivationHeight ≤ haltingHeight)
    (.errorf "finality halting height %d cannot be lower than finality activation height %d")
  ensure (haltingHeight ≤ env.header.height)
    (.errorf "finality halting height %d is in the future, current height %d")
  let voters := w.finality.getVoters haltingHeight
  let w ← foldOutcome (jailProposedFp env voters) w fpPksHex
  foldOutcome (resumeAtHeight ext env fpPksHex) w
    (List.range' haltingHeight (env.header.height + 1 - haltingHeight))

/-- `MsgResumeFinalityProposal.ValidateBasic`. -/
def MsgResumeFinalityProposal.validateBasic (m : MsgResumeFinalityProposal) : Outcome Unit := do
  ensure (m.haltingHeight ≠ 0) (.errorf "halting height is zero")
  ensure (m.fpPksHex ≠ []) (.errorf "no fp pk hex set")
  ensure (∀ fpPkHex ∈ m.fpPksHex, succeeds (newBIP340PubKeyFromHex fpPkHex) = true)
    (.errorf "failed to parse FP BTC PK Hex (%s) into BIP-340")
  ensure m.fpPksHex.Nodup (.errorf "duplicated FP BTC PK Hex (%s)")

/-- `ResumeFinalityProposal`. -/
def resumeFinalityProposal (w : Stores I) (req : MsgResumeFinalityProposal) :
    Outcome (Stores I) := do
  req.validateBasic
  ensure (env.authority = req.authority) (.errorf "invalid authority; expected %s, got %s")
  handleResumeFinalityProposal ext env w req.fpPksHex req.haltingHeight

end Resume

end Babylon.Finality
