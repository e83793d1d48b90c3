/-
  `x/finality/types`: parameters, public randomness commitments, votes,
  evidence, signing information and messages.
-/
import Babylon.Crypto.EOTS
import Babylon.BTCStaking.MsgServer

set_option autoImplicit false

namespace Babylon.Finality

open Lib EOTS

/-- The registered errors of the module, `x/finality/types/errors.go`. -/
def registerError (code : Nat) (description : String) : RegisteredError :=
  ⟨"finality", code, description⟩

def errBlockNotFound := registerError 1100 "Block is not found"
def errPubRandNotFound := registerError 1103 "public randomness is not found"
def errTooFewPubRand := registerError 1105 "the request contains too few public randomness"
def errInvalidPubRand := registerError 1106 "the public randomness list is invalid"
def errInvalidFinalitySig := registerError 1108 "finality signature is not valid"
def errDuplicatedFinalitySig := registerError 1109 "duplicated finality vote"
def errPubRandCommitNotBTCTimestamped := registerError 1111
  "the public randomness commit is not BTC timestamped yet"
def errJailingPeriodNotPassed := registerError 1112 "the jailing period is not passed"
def errBTCStakingNotActivated := registerError 1114 "the BTC staking protocol is not activated yet"
def errFinalityNotActivated := registerError 1115 "finality is not active yet"
def errSigHeightOutdated := registerError 1116
  "the voting block is already finalized and timestamped"
def errOverflowInBlockHeight := registerError 1117 "overflow in block height calculation"
def errFinalityProviderIsDeleted := registerError 1122 "finality provider is deleted"
def errInvalidSats := registerError 1123 "invalid satoshi amount"

/-! ## Parameters -/

/-- `types.Params`. -/
structure Params where
  maxActiveFinalityProviders : Nat
  signedBlocksWindow : Int
  finalitySigTimeout : Int
  minSignedPerWindow : Dec
  minPubRand : Nat
  jailDuration : Time
  finalityActivationHeight : Nat

namespace Params

/-- `Params.Validate`.  The activation height can be any value. -/
def validate (p : Params) : Outcome Unit := do
  ensure (p.maxActiveFinalityProviders ≠ 0) (.errorf "max finality providers must be positive")
  ensure (0 < p.signedBlocksWindow) (.errorf "signed blocks window must be positive: %d")
  ensure (0 < p.finalitySigTimeout) (.errorf "finality vote delay must be positive: %d")
  ensure (0 ≤ p.minSignedPerWindow) (.errorf "min signed per window cannot be negative: %s")
  ensure (p.minSignedPerWindow ≤ Dec.one) (.errorf "min signed per window too large: %s")
  ensure (p.minPubRand ≠ 0) (.errorf "min Pub Rand cannot be 0")

/-- `MinSignedPerWindowInt`: the product, rounded to the nearest integer and to
the even one in the middle. -/
def minSignedPerWindowInt (p : Params) : Int :=
  let scaled := p.minSignedPerWindow * p.signedBlocksWindow
  let quotient := scaled / Dec.one
  let remainder := scaled % Dec.one
  if 2 * remainder < Dec.one then quotient
  else if Dec.one < 2 * remainder then quotient + 1
  else if quotient % 2 = 0 then quotient
  else quotient + 1

theorem pos_of_validate {p : Params} {u : Unit} (h : p.validate = .ok u) :
    0 < p.finalitySigTimeout ∧ 0 < p.signedBlocksWindow := by
  simp only [validate, ok_iff] at h
  obtain ⟨_, -, _, hwin, _, hto, -⟩ := h
  exact ⟨hto, hwin⟩

end Params

/-- `MaxFinalizedRewardedBlocksPerEndBlock`. -/
def maxFinalizedRewardedBlocksPerEndBlock : Nat := 10000

/-- `MaxPubRandCommitOffset`. -/
def maxPubRandCommitOffset : Nat := 160000

/-! ## Blocks, randomness and evidence -/

/-- `IndexedBlock`. -/
structure IndexedBlock where
  height : Nat
  appHash : Bytes
  finalized : Bool

/-- `PubRandCommit`.  Heights and counts are `uint64`. -/
structure PubRandCommit where
  startHeight : UInt64
  numPubRand : UInt64
  commitment : Bytes
  epochNum : Nat

namespace PubRandCommit

def endHeight (c : PubRandCommit) : UInt64 := c.startHeight + c.numPubRand - 1

/-- `IsInRange`. -/
def isInRange (c : PubRandCommit) (height : Nat) : Bool :=
  decide (c.startHeight.toNat ≤ height ∧ height ≤ c.endHeight.toNat)

end PubRandCommit

/-- `sdk.Uint64ToBigEndian`. -/
def uint64ToBigEndian (n : Nat) : Bytes :=
  (List.range 8).map fun i => UInt8.ofNat (n / 256 ^ (7 - i))

/-- `msgToSignForVote`. -/
def msgToSignForVote (blockHeight : Nat) (blockHash : Bytes) : Bytes :=
  uint64ToBigEndian blockHeight ++ blockHash

/-- `Evidence`. -/
structure Evidence where
  fpBtcPk : BIP340PubKey
  blockHeight : Nat
  pubRand : SchnorrPubRand
  canonicalAppHash : Bytes
  forkAppHash : Bytes
  canonicalFinalitySig : Option SchnorrEOTSSig
  forkFinalitySig : SchnorrEOTSSig

namespace Evidence

def canonicalMsgToSign (e : Evidence) : Bytes := msgToSignForVote e.blockHeight e.canonicalAppHash

def forkMsgToSign (e : Evidence) : Bytes := msgToSignForVote e.blockHeight e.forkAppHash

/-- `ExtractBTCSK`, with the checks of `IsSlashable`. -/
def extractBTCSK (C : Curve) (e : Evidence) : Outcome C.Scalar := do
  let lacks := Fault.errorf "the evidence lacks some fields so does not allow extracting BTC SK"
  let btcPK ← orThrow (C.parsePubKey e.fpBtcPk) lacks
  ensure (e.canonicalAppHash.length = 32) lacks
  ensure (e.forkAppHash.length = 32) lacks
  let canonicalFinalitySig ← orThrow e.canonicalFinalitySig lacks
  EOTS.extract C btcPK (C.toFieldVal e.pubRand)
    e.canonicalMsgToSign (C.toModNScalar canonicalFinalitySig)
    e.forkMsgToSign (C.toModNScalar e.forkFinalitySig)

end Evidence

/-- `FinalityProviderSigningInfo`. -/
structure FinalityProviderSigningInfo where
  startHeight : Int
  missedBlocksCounter : Int
  jailedUntil : Time

/-! ## Messages -/

/-- The fields of a CometBFT Merkle proof. -/
structure MerkleProof where
  total : Int64
  index : Int64
  leafHash : Bytes
  aunts : List Bytes

/-- `MsgAddFinalitySig`.  A key, randomness or signature that is missing or not
32 bytes long is refused by `ValidateBasic` and has no counterpart here. -/
structure MsgAddFinalitySig where
  fpBtcPk : BIP340PubKey
  blockHeight : Nat
  pubRand : SchnorrPubRand
  proof : MerkleProof
  blockAppHash : Bytes
  finalitySig : SchnorrEOTSSig

/-- `MsgCommitPubRandList`. -/
structure MsgCommitPubRandList where
  fpBtcPk : BIP340PubKey
  startHeight : UInt64
  numPubRand : UInt64
  commitment : Bytes
  sig : Bytes

/-- `MsgUnjailFinalityProvider`. -/
structure MsgUnjailFinalityProvider where
  signer : AccAddress
  fpBtcPk : BIP340PubKey

structure MsgUpdateParams where
  authority : AccAddress
  params : Params

structure MsgResumeFinalityProposal where
  authority : AccAddress
  fpPksHex : List HexString
  haltingHeight : Nat

/-- Cryptographic functions the module calls. -/
structure FinalityPrimitives where
  curve : Curve
  /-- `merkle.ProofFromProto` and `Proof.Verify` of a leaf against a root -/
  merkleVerify : Bytes → SchnorrPubRand → MerkleProof → Bool

end Babylon.Finality
