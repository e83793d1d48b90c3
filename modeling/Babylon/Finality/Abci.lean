/-
  `x/finality/abci.go` with `keeper/tallying.go`, `keeper/liveness.go` and
  `keeper/rewarding.go`: what happens at the end of every block once finality is
  active.
-/
import Babylon.Finality.MsgServer

set_option autoImplicit false

namespace Babylon.Finality

open Lib

/-! ## Tallying -/

/-- `tally`: more than two thirds of the voting power has voted. -/
def tally (fpSet : KVStore BIP340PubKey Nat) (voterBTCPKs : List BIP340PubKey) : Bool :=
  let totalPower := fpSet.sumBy fun _ power => power
  let votedPower := fpSet.sumBy fun pk power => if pk ∈ voterBTCPKs then power else 0
  decide (totalPower * 2 < votedPower * 3)

namespace State

/-- `finalizeBlock`. -/
def finalizeBlock (s : State) (block : IndexedBlock) : State :=
  { s.setBlock { block with finalized := true } with nextHeightToFinalize := block.height + 1 }

/-- The loop of `TallyBlocks` over the heights it may finalize. -/
def tallyHeights (s : State) : List Nat → Outcome State
  | [] => .ok s
  | i :: rest => do
      let ib ← (s.getBlock i).orPanic "Block is not found"
      match s.getVotingPowerTable ib.height, ib.finalized with
      | some fpSet, false =>
        -- without a quorum, this block and all later ones stay as they are
        if tally fpSet (s.getVoters ib.height) then (s.finalizeBlock ib).tallyHeights rest
        else .ok s
      | none, false =>
        ({ s with nextHeightToFinalize := ib.height + 1 } : State).tallyHeights rest
      | some _, true =>
        .error (.panic "block %d is finalized, but last finalized height in DB does not reach here")
      | none, true =>
        .error (.panic "block %d is finalized, but does not have a finality provider set")

/-- `TallyBlocks`. -/
def tallyBlocks (s : State) (env : Env) (maxFinalizedBlocks : Nat) : Outcome State := do
  let activatedHeight ← s.getBTCStakingActivatedHeight.orPanic
    "cannot tally a block when the BTC staking protocol hasn't been activated yet, current height: %v, activated height: %v"
  let startHeight := max s.nextHeightToFinalize activatedHeight
  let currentLastBlockHeight := env.header.height
  let s := if s.hasBlock currentLastBlockHeight then s else s.indexBlock env
  let maxHeightToFinalize := min (startHeight + maxFinalizedBlocks - 1) currentLastBlockHeight
  s.tallyHeights (List.range' startHeight (maxHeightToFinalize + 1 - startHeight))

end State

/-! ## Liveness -/

/-- `UpdateSigningInfo`: whether the signing info was modified, and the info itself. -/
def State.updateSigningInfo (s : State) (fpPk : BIP340PubKey) (missed : Bool) (height : Int) :
    Outcome (State × Bool × FinalityProviderSigningInfo) := do
  let signInfo ← orThrow (s.finalityProviderSigningTracker.get fpPk)
    (.errorf "the signing info is not created")
  if height < signInfo.startHeight then return (s, false, signInfo)
  else
    let index := ((height - signInfo.startHeight) % s.params.signedBlocksWindow).toNat
    match s.getMissedBlockBitmapValue fpPk index, missed with
    | false, true =>
      return (s.setMissedBlockBitmapValue fpPk index true, true,
        { signInfo with missedBlocksCounter := signInfo.missedBlocksCounter + 1 })
    | true, false =>
      return (s.setMissedBlockBitmapValue fpPk index false, true,
        { signInfo with missedBlocksCounter := signInfo.missedBlocksCounter - 1 })
    | _, _ => return (s, false, signInfo)

section EndBlock

variable {I : Type} (ext : External I) (env : Env)

/-- `HandleFinalityProviderLiveness`. -/
def handleFinalityProviderLiveness (w : Stores I) (fpPk : BIP340PubKey) (missed : Bool)
    (height : Int) : Outcome (Stores I) := do
  let params := w.finality.params
  let fp ← w.btcStaking.getFinalityProvider fpPk
  if fp.isSlashed || fp.isJailed then return w
  else do
    let (finality, updated, signInfo) ← w.finality.updateSigningInfo fpPk missed height
    let minHeight := signInfo.startHeight + params.signedBlocksWindow
    let maxMissed := params.signedBlocksWindow - params.minSignedPerWindowInt
    if minHeight < height ∧ maxMissed < signInfo.missedBlocksCounter then do
      let btcStaking ← w.btcStaking.jailFinalityProvider env.toEnv fpPk
      let signInfo := { signInfo with
        jailedUntil := env.header.time + params.jailDuration
        missedBlocksCounter := 0 }
      return { w with
        btcStaking
        finality := (finality.deleteMissedBlockBitmap fpPk).setSigningInfo fpPk signInfo }
    else if updated then
      return { w with finality := finality.setSigningInfo fpPk signInfo }
    else
      return { w with finality }

/-- `HandleLiveness`. -/
def handleLiveness (w : Stores I) (height : Nat) : Outcome (Stores I) :=
  let vpTableOrdered := w.finality.getVotingPowerTableOrdered height
  let voterBTCPKs := w.finality.getVoters height
  foldOutcome (fun w fpWithVp =>
      (handleFinalityProviderLiveness env w fpWithVp.1 (decide (fpWithVp.1 ∉ voterBTCPKs))
        height).orPanic "failed to handle liveness of finality provider %s: %w")
    w vpTableOrdered

/-! ## Rewarding -/

/-- `refreshFPCommissions`: the active providers get their current commission. -/
def refreshFPCommissions (bs : BTCStaking.State) (dc : VotingPowerDistCache) :
    VotingPowerDistCache :=
  let refresh (fp : FinalityProviderDistInfo) : FinalityProviderDistInfo :=
    match bs.finalityProviders.get fp.btcPk with
    | some current => { fp with commission := current.commission }
    | none => fp
  { dc with
    finalityProviders :=
      dc.getActiveFinalityProviderSet.map refresh ++ dc.getInactiveFinalityProviderSet
    active_le := by
      have h := dc.active_le
      simp only [VotingPowerDistCache.getActiveFinalityProviderSet,
        VotingPowerDistCache.getInactiveFinalityProviderSet, List.length_append, List.length_map,
        List.length_take, List.length_drop]
      omega }

/-- `rewardBTCStaking`. -/
def rewardBTCStaking (w : Stores I) (height : Nat) : Outcome (Stores I) := do
  let dc ← orThrow (w.finality.getVotingPowerDistCache height)
    (.panic "voting power distribution cache not found at height %d")
  let dc := refreshFPCommissions w.btcStaking dc
  let external ← orThrow
    (ext.rewardBTCStaking env.header w.external height dc (w.finality.getVoters height))
    (.hookFailed "failed to reward BTC staking")
  return { w with external, finality := w.finality.removeVotingPowerDistCache height }

/-- The loop of `HandleRewarding`, with the cursor it moves. -/
def rewardHeight (acc : Stores I × Nat) (height : Nat) : Outcome (Stores I × Nat) := do
  let block ← (acc.1.finality.getBlock height).orPanic "Block is not found"
  if block.finalized then do
    let w ← rewardBTCStaking ext env acc.1 height
    return (w, height + 1)
  else
    return acc

/-- The height at which rewarding starts; the first time, the activated height. -/
def State.firstHeightToReward (s : State) : Outcome Nat :=
  if s.nextHeightToReward = 0 then
    s.getBTCStakingActivatedHeight.orPanic "the BTC staking protocol is not activated yet"
  else
    .ok s.nextHeightToReward

/-- `HandleRewarding`. -/
def handleRewarding (w : Stores I) (targetHeight maxRewardedBlocks : Nat) : Outcome (Stores I) := do
  let nextHeightToReward ← w.finality.firstHeightToReward
  let maxHeightToReward := min (nextHeightToReward + maxRewardedBlocks - 1) targetHeight
  let (w, next) ← foldOutcome (rewardHeight ext env) (w, nextHeightToReward)
    (List.range' nextHeightToReward (maxHeightToReward + 1 - nextHeightToReward))
  if next ≠ nextHeightToReward then
    return { w with finality := { w.finality with nextHeightToReward := next } }
  else
    return w

/-! ## Blocks -/

/-- `BeginBlocker`. -/
def beginBlocker (w : Stores I) : Outcome (Stores I) := updatePowerDist ext env w

/-- `EndBlocker`. -/
def endBlocker (w : Stores I) : Outcome (Stores I) :=
  if w.finality.isFinalityActive env then do
    let finality ← w.finality.tallyBlocks env maxFinalizedRewardedBlocksPerEndBlock
    let w := { w with finality }
    let heightToExamine : Int := env.header.height - w.finality.params.finalitySigTimeout
    if 1 ≤ heightToExamine then do
      let w ← handleLiveness env w heightToExamine.toNat
      handleRewarding ext env w heightToExamine.toNat maxFinalizedRewardedBlocksPerEndBlock
    else
      return w
  else
    return w

end EndBlock

end Babylon.Finality
