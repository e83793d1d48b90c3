/-
  The store of `x/finality` and the keeper functions that read and write it:
  voting power, distribution caches, votes, public randomness, evidence,
  indexed blocks, and the record of signed and missed blocks.
-/
import Babylon.Finality.PowerTable

set_option autoImplicit false

namespace Babylon.Finality

open Lib EOTS

/-- What the handlers read from the block and from other modules. -/
structure Env extends BTCStaking.Env where
  /-- `CheckpointingKeeper.GetEpoch` -/
  currentEpoch : Nat
  /-- `CheckpointingKeeper.GetLastFinalizedEpoch` -/
  lastFinalizedEpoch : Nat
  /-- `CheckpointingKeeper.GetEpochByHeight` -/
  epochByHeight : Nat → Nat

/-- The state of the module.  A cursor that is not set reads as 0. -/
structure State where
  params : Params
  votingPower : KVStore Nat (KVStore BIP340PubKey Nat)
  votingPowerDistCache : KVStore Nat VotingPowerDistCache
  votes : KVStore Nat (KVStore BIP340PubKey SchnorrEOTSSig)
  pubRandCommit : KVStore BIP340PubKey (KVStore Nat PubRandCommit)
  pubRandCommitIndex : KVStore BIP340PubKey (List UInt64)
  pubRand : KVStore BIP340PubKey (KVStore Nat SchnorrPubRand)
  evidence : KVStore BIP340PubKey (KVStore Nat Evidence)
  blocks : KVStore Nat IndexedBlock
  nextHeightToFinalize : Nat
  nextHeightToReward : Nat
  finalityProviderSigningTracker : KVStore BIP340PubKey FinalityProviderSigningInfo
  finalityProviderMissedBlockBitmap : KVStore BIP340PubKey (KVStore Nat Nat)

namespace State

/-! ## Voting power, `keeper/power_table.go` -/

variable (s : State)

/-- `SetVotingPower`. -/
def setVotingPower (fpBTCPK : BIP340PubKey) (height power : Nat) : State :=
  { s with votingPower := s.votingPower.setUnder height fpBTCPK power }

/-- `GetVotingPower`. -/
def getVotingPower (fpBTCPK : BIP340PubKey) (height : Nat) : Nat :=
  ((s.votingPower.under height).get fpBTCPK).getD 0

/-- `GetVotingPowerTable`: nil at a height without entries.  A height is a key of
the store once a provider has been recorded at it. -/
def getVotingPowerTable (height : Nat) : Option (KVStore BIP340PubKey Nat) :=
  s.votingPower.get height

/-- `GetVotingPowerTableOrdered`: by voting power, descending, and then by key. -/
def getVotingPowerTableOrdered (height : Nat) : List (BIP340PubKey × Nat) :=
  (s.votingPower.under height).entries.insertionSort fun i j =>
    j.2 < i.2 ∨ (i.2 = j.2 ∧ i.1 ≤ j.1)

/-- `GetBTCStakingActivatedHeight`: the first height with an entry. -/
def getBTCStakingActivatedHeight : Outcome Nat :=
  match s.votingPower.first? with
  | some (height, _) => .ok height
  | none => .error (.registered errBTCStakingNotActivated)

/-! ## Distribution caches, `keeper/power_dist_change.go` -/

/-- `SetVotingPowerDistCache`. -/
def setVotingPowerDistCache (height : Nat) (dc : VotingPowerDistCache) : State :=
  { s with votingPowerDistCache := s.votingPowerDistCache.set height dc }

/-- `GetVotingPowerDistCache`.  An empty cache is stored as zero bytes, which read
as nil. -/
def getVotingPowerDistCache (height : Nat) : Option VotingPowerDistCache :=
  (s.votingPowerDistCache.get height).filter fun dc => dc ≠ VotingPowerDistCache.new

/-- `RemoveVotingPowerDistCache`. -/
def removeVotingPowerDistCache (height : Nat) : State :=
  { s with votingPowerDistCache := s.votingPowerDistCache.delete height }

/-! ## Votes and evidence, `keeper/votes.go` and `keeper/evidence.go` -/

/-- `SetSig`. -/
def setSig (height : Nat) (fpBtcPK : BIP340PubKey) (sig : SchnorrEOTSSig) : State :=
  { s with votes := s.votes.setUnder height fpBtcPK sig }

/-- `GetSig`, which knows no votes for future heights. -/
def getSig (env : Env) (height : Nat) (fpBtcPK : BIP340PubKey) : Option SchnorrEOTSSig :=
  if env.header.height < height then none else (s.votes.under height).get fpBtcPK

/-- `GetVoters`. -/
def getVoters (height : Nat) : List BIP340PubKey :=
  (s.votes.under height).keys

/-- `SetEvidence`. -/
def setEvidence (evidence : Evidence) : State :=
  { s with evidence := s.evidence.setUnder evidence.fpBtcPk evidence.blockHeight evidence }

/-- `HasEvidence`. -/
def hasEvidence (fpBtcPK : BIP340PubKey) (height : Nat) : Bool :=
  (s.evidence.under fpBtcPK).has height

/-- `GetEvidence`, which knows no evidence for future heights. -/
def getEvidence (env : Env) (fpBtcPK : BIP340PubKey) (height : Nat) : Option Evidence :=
  if env.header.height < height then none else (s.evidence.under fpBtcPK).get height

/-! ## Public randomness, `keeper/public_randomness.go` -/

/-- `GetPubRandCommitForHeight`.  On the increasing index, the binary search finds
the last start height that is not above the given height. -/
def getPubRandCommitForHeight (fpBtcPK : BIP340PubKey) (height : Nat) : Outcome PubRandCommit := do
  let heights ← orThrow (s.pubRandCommitIndex.get fpBtcPK) (.errorf "collections: not found")
  ensure (heights ≠ []) (.wrapf errPubRandNotFound "empty index")
  let startHeight ← orThrow (heights.takeWhile fun h => h.toNat ≤ height).getLast?
    (.wrapf errPubRandNotFound "height is less than the smallest start height in index")
  let prCommit ← orThrow ((s.pubRandCommit.under fpBtcPK).get startHeight.toNat)
    (.wrapf errPubRandNotFound "startHeight: %d")
  ensure (prCommit.isInRange height = true)
    (.wrapf errPubRandNotFound
      "height %d is not in range of found PubRandCommit with startHeight %d and NumPubRand %d")
  return prCommit

/-- `GetTimestampedPubRandCommitForHeight`. -/
def getTimestampedPubRandCommitForHeight (env : Env) (fpBtcPK : BIP340PubKey)
    (height : Nat) : Outcome PubRandCommit := do
  let prCommit ← s.getPubRandCommitForHeight fpBtcPK height
  ensure (env.lastFinalizedEpoch ≠ 0)
    (.wrapf errPubRandCommitNotBTCTimestamped "no finalized epoch yet")
  ensure (prCommit.epochNum ≤ env.lastFinalizedEpoch)
    (.wrapf errPubRandCommitNotBTCTimestamped
      "the finality provider %s last committed epoch number: %d, last finalized epoch number: %d")
  return prCommit

/-- `HasTimestampedPubRand`. -/
def hasTimestampedPubRand (env : Env) (fpBtcPK : BIP340PubKey) (height : Nat) : Bool :=
  succeeds (s.getTimestampedPubRandCommitForHeight env fpBtcPK height)

/-- `upsertPubRandCommitIdx`. -/
def upsertPubRandCommitIdx (fpBtcPK : BIP340PubKey) (startHeight : UInt64) : Outcome State := do
  let heights := (s.pubRandCommitIndex.get fpBtcPK).getD []
  ensure (∀ last ∈ heights.getLast?, last < startHeight)
    (.errorf "startHeight %d must be greater than the last committed height %d")
  return { s with
    pubRandCommitIndex := s.pubRandCommitIndex.set fpBtcPK (heights ++ [startHeight]) }

/-- `SetPubRandCommit`. -/
def setPubRandCommit (fpBtcPK : BIP340PubKey) (prCommit : PubRandCommit) : Outcome State :=
  let s := { s with
    pubRandCommit := s.pubRandCommit.setUnder fpBtcPK prCommit.startHeight.toNat prCommit }
  s.upsertPubRandCommitIdx fpBtcPK prCommit.startHeight

/-- `GetLastPubRandCommit`. -/
def getLastPubRandCommit (fpBtcPK : BIP340PubKey) : Option PubRandCommit :=
  (s.pubRandCommit.under fpBtcPK).last?.map Prod.snd

/-- `SetPubRand`. -/
def setPubRand (fpBtcPK : BIP340PubKey) (height : Nat) (pubRand : SchnorrPubRand) : State :=
  { s with pubRand := s.pubRand.setUnder fpBtcPK height pubRand }

/-! ## Indexed blocks, `keeper/indexed_blocks.go` -/

/-- `SetBlock`. -/
def setBlock (block : IndexedBlock) : State :=
  { s with blocks := s.blocks.set block.height block }

/-- `HasBlock`. -/
def hasBlock (height : Nat) : Bool := s.blocks.has height

/-- `GetBlock`. -/
def getBlock (height : Nat) : Outcome IndexedBlock :=
  orThrow (s.blocks.get height) (.registered errBlockNotFound)

/-- `IndexBlock`. -/
def indexBlock (env : Env) : State :=
  s.setBlock ⟨env.header.height, env.header.appHash, false⟩

/-- `IsFinalityActive`. -/
def isFinalityActive (env : Env) : Bool :=
  if env.header.height < s.params.finalityActivationHeight then false
  else succeeds s.getBTCStakingActivatedHeight

/-! ## Missed blocks, `keeper/signing_info.go` -/

/-- `MissedBlockBitmapChunkSize`. -/
def missedBlockBitmapChunkSize : Nat := 1024

/-- `GetMissedBlockBitmapValue`; a chunk is the number whose binary digits it has. -/
def getMissedBlockBitmapValue (fpPk : BIP340PubKey) (index : Nat) : Bool :=
  let chunkIndex := index / missedBlockBitmapChunkSize
  let chunk := ((s.finalityProviderMissedBlockBitmap.under fpPk).get chunkIndex).getD 0
  chunk.testBit (index % missedBlockBitmapChunkSize)

/-- `SetMissedBlockBitmapValue`. -/
def setMissedBlockBitmapValue (fpPk : BIP340PubKey) (index : Nat) (missed : Bool) : State :=
  let chunkIndex := index / missedBlockBitmapChunkSize
  let chunk := ((s.finalityProviderMissedBlockBitmap.under fpPk).get chunkIndex).getD 0
  let bit := 2 ^ (index % missedBlockBitmapChunkSize)
  let updated := if missed then chunk ||| bit else (chunk ||| bit) ^^^ bit
  { s with finalityProviderMissedBlockBitmap :=
      s.finalityProviderMissedBlockBitmap.setUnder fpPk chunkIndex updated }

/-- `DeleteMissedBlockBitmap`. -/
def deleteMissedBlockBitmap (fpPk : BIP340PubKey) : State :=
  { s with finalityProviderMissedBlockBitmap := s.finalityProviderMissedBlockBitmap.delete fpPk }

/-- `FinalityProviderSigningTracker.Set`. -/
def setSigningInfo (fpPk : BIP340PubKey) (info : FinalityProviderSigningInfo) : State :=
  { s with finalityProviderSigningTracker := s.finalityProviderSigningTracker.set fpPk info }

end State

/-! ## The stores of a call -/

/-- The stores a call of the module can write: its own, the one of `btcstaking`,
and the state of the modules that are called back. -/
structure Stores (I : Type) where
  btcStaking : BTCStaking.State
  finality : State
  external : I

/-- The interfaces of the modules that are called back: `FinalityHooks` and
`IncentiveKeeper`.  A call that fails returns no state. -/
structure External (I : Type) where
  /-- finality provider, delegator, active in the previous set, in the current set, sats -/
  afterBtcDelegationActivated : HeaderInfo → I → AccAddress → AccAddress → Bool → Bool → Nat →
    Option I
  afterBtcDelegationUnbonded : HeaderInfo → I → AccAddress → AccAddress → Bool → Bool → Nat →
    Option I
  afterBbnFpEntersActiveSet : HeaderInfo → I → AccAddress → Option I
  afterBbnFpRemovedFromActiveSet : HeaderInfo → I → AccAddress → Option I
  /-- `RewardBTCStaking(height, filteredDc, voters)` -/
  rewardBTCStaking : HeaderInfo → I → Nat → VotingPowerDistCache → List BIP340PubKey → Option I

end Babylon.Finality
