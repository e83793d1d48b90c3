/-
  `x/btccheckpoint/keeper`: the store of the module and the check of all
  submissions when the Bitcoin chain changed.

  `checkCheckpoints` visits the epochs from the last finalized one on.  For each it
  drops the submissions that left the Bitcoin chain or do not come after the best
  submission of the epoch before, picks the best of the others, and moves the status
  of the epoch with its depth.  The status in `checkpointing` follows by calls whose
  failure is only logged.
-/
import Babylon.BTCCheckpoint.Submission

set_option autoImplicit false

namespace Babylon.BTCCheckpoint

open Lib LightClient

/-- The store of `btccheckpoint`. -/
structure State where
  params : Params
  epochData : KVStore Nat EpochData
  submissions : SubmissionKey → Option SubmissionData
  lastFinalizedEpoch : Nat

/-- The stores that `btccheckpoint` writes to. -/
structure Stores where
  btccheckpoint : State
  checkpointing : Checkpointing.State

namespace State

/-- The store at genesis. -/
def blank (params : Params) : State := ⟨params, KVStore.empty, fun _ => none, 0⟩

/-- `HasSubmission`. -/
def hasSubmission (s : State) (sk : SubmissionKey) : Bool := (s.submissions sk).isSome

/-- `saveSubmission`. -/
def saveSubmission (s : State) (sk : SubmissionKey) (sd : SubmissionData) : State :=
  { s with submissions := Function.update s.submissions sk (some sd) }

/-- `deleteSubmission`. -/
def deleteSubmission (s : State) (sk : SubmissionKey) : State :=
  { s with submissions := Function.update s.submissions sk none }

/-- `saveEpochData`. -/
def saveEpochData (s : State) (e : Nat) (ed : EpochData) : State :=
  { s with epochData := s.epochData.set e ed }

/-- `checkSubmissionStatus`. -/
def checkSubmissionStatus (s : State) (info : SubmissionBtcInfo) : BtcStatus :=
  if s.params.checkpointFinalizationTimeout ≤ info.submissionDepth then .finalized
  else if s.params.btcConfirmationDepth ≤ info.submissionDepth then .confirmed
  else .submitted

end State

/-! ## Submissions on the Bitcoin chain -/

/-- One iteration of the loop of `GetSubmissionBtcInfo`: the oldest depth so far, and the
youngest depth with the lowest index at it. -/
def scanBlock (scanned : Nat × Option (Nat × UInt32)) (currentBlockDepth : Nat) (index : UInt32) :
    Nat × Option (Nat × UInt32) :=
  let youngest :=
    match scanned.2 with
    | none => some (currentBlockDepth, index)
    | some (youngestBlockDepth, lowestIndex) =>
      if currentBlockDepth < youngestBlockDepth then some (currentBlockDepth, index)
      else if currentBlockDepth = youngestBlockDepth ∧ index < lowestIndex then
        -- two transactions of the submission are in the same block
        some (youngestBlockDepth, index)
      else some (youngestBlockDepth, lowestIndex)
  (max scanned.1 currentBlockDepth, youngest)

/-- The loop of `GetSubmissionBtcInfo`; `none` is `errSubmissionUnknown`. -/
def scanBlocks (lc : HeadersState) (scanned : Nat × Option (Nat × UInt32)) :
    List TransactionKey → Outcome (Option (Nat × Option (Nat × UInt32)))
  | [] => return some scanned
  | tk :: rest => do
      let depth ← lc.mainChainDepth tk.hash
      match depth with
      | none => return none
      | some currentBlockDepth => scanBlocks lc (scanBlock scanned currentBlockDepth tk.index) rest

/-- `GetSubmissionBtcInfo`; `none` is `errSubmissionUnknown`. -/
def getSubmissionBtcInfo (lc : HeadersState) (sk : SubmissionKey) :
    Outcome (Option SubmissionBtcInfo) := do
  let scanned ← scanBlocks lc (0, none) sk
  match scanned with
  | none => return none
  | some (oldestBlockDepth, youngest) => do
      let (youngestBlockDepth, lowestIndex) ← orThrow youngest
        (.panic "invalid memory address or nil pointer dereference")
      return some ⟨sk, oldestBlockDepth, youngestBlockDepth, lowestIndex⟩

/-! ## The submissions of an epoch -/

/-- `epochChangesSummary`. -/
structure EpochChangesSummary where
  submissionsToDelete : List SubmissionKey := []
  submissionsToKeep : List SubmissionKey := []
  epochBestSubmission : Option SubmissionBtcInfo := none
  bestSubmissionIdx : Nat := 0

/-- One iteration of the loop of `getEpochChanges`, for the key at position `i`. -/
def addToSummary (lc : HeadersState) (parentEpochBestSubmission : Option SubmissionBtcInfo)
    (i : Nat) (summary : EpochChangesSummary) (sk : SubmissionKey) :
    Outcome EpochChangesSummary := do
  ensure (2 ≤ sk.length)
    (.panic "Submission key composed of less than 2 transactions keys in database")
  let submissionInfo ← getSubmissionBtcInfo lc sk
  match submissionInfo with
  | none =>
    -- no longer on the main chain
    return { summary with submissionsToDelete := summary.submissionsToDelete ++ [sk] }
  | some submissionInfo =>
    if parentEpochBestSubmission.any (fun parent => !submissionInfo.happenedAfter parent) then
      return { summary with submissionsToDelete := summary.submissionsToDelete ++ [sk] }
    else
      let kept :=
        { summary with submissionsToKeep := summary.submissionsToKeep ++ [sk] }
      match summary.epochBestSubmission with
      | none => return { kept with epochBestSubmission := some submissionInfo }
      | some currentEpochBestSubmission =>
        if submissionInfo.isBetterThan currentEpochBestSubmission then
          return { kept with epochBestSubmission := some submissionInfo, bestSubmissionIdx := i }
        else return kept

/-- The loop of `getEpochChanges` from the key at position `i` on. -/
def summarize (lc : HeadersState) (parentEpochBestSubmission : Option SubmissionBtcInfo) :
    Nat → EpochChangesSummary → List SubmissionKey → Outcome EpochChangesSummary
  | _, summary, [] => return summary
  | i, summary, sk :: rest => do
      let summary ← addToSummary lc parentEpochBestSubmission i summary sk
      summarize lc parentEpochBestSubmission (i + 1) summary rest

/-- `getEpochChanges`. -/
def getEpochChanges (lc : HeadersState) (parentEpochBestSubmission : Option SubmissionBtcInfo)
    (ed : EpochData) : Outcome EpochChangesSummary :=
  summarize lc parentEpochBestSubmission 0 {} ed.keys

/-! ## `checkCheckpoints` -/

namespace Stores

/-- `clearEpochData` and `SetCheckpointForgotten`: the submissions go, the status of the
epoch stays. -/
def forget (stores : Stores) (epoch : Nat) (currentEpoch : EpochData) : Stores where
  btccheckpoint :=
    (currentEpoch.keys.foldl State.deleteSubmission stores.btccheckpoint).saveEpochData epoch
      { currentEpoch with keys := [] }
  checkpointing := stores.checkpointing.setCheckpointForgotten epoch

/-- The first change of status: the best submission confirms the epoch. -/
def confirm (stores : Stores) (epoch : Nat) (bestSubmissionStatus status : BtcStatus) :
    Stores × BtcStatus :=
  if status.toNat < bestSubmissionStatus.toNat ∧ status = .submitted then
    ({ stores with checkpointing := stores.checkpointing.setCheckpointConfirmed epoch }, .confirmed)
  else (stores, status)

/-- The second change of status: the best submission finalizes the epoch. -/
def finalize (stores : Stores) (epoch : Nat) (bestSubmissionStatus status : BtcStatus) :
    Stores × BtcStatus :=
  if status.toNat < bestSubmissionStatus.toNat ∧ status = .confirmed then
    ({ btccheckpoint := { stores.btccheckpoint with lastFinalizedEpoch := epoch },
       checkpointing := stores.checkpointing.setCheckpointFinalized epoch }, .finalized)
  else (stores, status)

/-- What is left of the submissions of an epoch with its new status: of a finalized epoch
the one at the position of the best submission. -/
def prune (stores : Stores) (epoch : Nat) (currentEpoch : EpochData) (status : BtcStatus)
    (epochChanges : EpochChangesSummary) (best : SubmissionBtcInfo) : Stores :=
  if status = .finalized then
    { stores with
      btccheckpoint :=
        ((currentEpoch.keys.eraseIdx epochChanges.bestSubmissionIdx).foldl State.deleteSubmission
          stores.btccheckpoint).saveEpochData epoch ⟨[best.submissionKey], status⟩ }
  else
    { stores with
      btccheckpoint :=
        (epochChanges.submissionsToDelete.foldl State.deleteSubmission
          stores.btccheckpoint).saveEpochData epoch ⟨epochChanges.submissionsToKeep, status⟩ }

/-- What is done with an epoch that has a best submission: its status moves with the depth of
that submission, and the other submissions are pruned. -/
def settle (stores : Stores) (epoch : Nat) (currentEpoch : EpochData)
    (epochChanges : EpochChangesSummary) (best : SubmissionBtcInfo) : Stores :=
  let bestSubmissionStatus := stores.btccheckpoint.checkSubmissionStatus best
  let confirmed := stores.confirm epoch bestSubmissionStatus currentEpoch.status
  let settled := confirmed.1.finalize epoch bestSubmissionStatus confirmed.2
  settled.1.prune epoch currentEpoch settled.2 epochChanges best

/-- `epochInfo` of the parent epoch: nothing for the first epoch of the iteration, else its
best submission if it has one. -/
abbrev ParentEpochInfo := Option (Option SubmissionBtcInfo)

/-- The body of the loop of `checkCheckpoints` for an epoch that has submissions: the new
stores and the best submission of the epoch. -/
def checkEpoch (lc : HeadersState) (stores : Stores) (parentEpochInfo : ParentEpochInfo)
    (epoch : Nat) (currentEpoch : EpochData) : Outcome (Stores × Option SubmissionBtcInfo) :=
  if currentEpoch.status = .finalized then
    match currentEpoch.keys with
    | [sk] => do
        let subInfo ← getSubmissionBtcInfo lc sk
        let subInfo ← orThrow subInfo (.panic "Finalized epoch submission must be on main chain")
        return (stores, some subInfo)
    | _ => throw (.panic "Finalized epoch must have only one valid submission")
  else if parentEpochInfo.any Option.isNone then
    -- the parent epoch lost all its submissions
    return (stores.forget epoch currentEpoch, none)
  else do
    let epochChanges ← getEpochChanges lc parentEpochInfo.join currentEpoch
    if epochChanges.submissionsToKeep = [] then
      return (stores.forget epoch currentEpoch, none)
    else
      let best ← orThrow epochChanges.epochBestSubmission
        (.panic "invalid memory address or nil pointer dereference")
      return (stores.settle epoch currentEpoch epochChanges best, some best)

/-- The loop of `checkCheckpoints`.  An epoch without submissions ends it. -/
def checkEpochs (lc : HeadersState) :
    Stores → ParentEpochInfo → List (Nat × EpochData) → Outcome Stores
  | stores, _, [] => return stores
  | stores, parentEpochInfo, (epoch, currentEpoch) :: rest =>
    if currentEpoch.keys = [] then return stores
    else do
      let (stores, best) ← stores.checkEpoch lc parentEpochInfo epoch currentEpoch
      checkEpochs lc stores (some best) rest

/-- The epochs `checkCheckpoints` iterates over: from the last finalized one on, if any. -/
def epochsToCheck (s : State) : List (Nat × EpochData) :=
  if 0 < s.lastFinalizedEpoch then
    s.epochData.entries.filter fun entry => s.lastFinalizedEpoch ≤ entry.1
  else s.epochData.entries

/-- `checkCheckpoints`. -/
def checkCheckpoints (lc : HeadersState) (stores : Stores) : Outcome Stores :=
  checkEpochs lc stores none (epochsToCheck stores.btccheckpoint)

end Stores

end Babylon.BTCCheckpoint
