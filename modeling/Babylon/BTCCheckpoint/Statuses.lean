/-
  The two statuses of an epoch.

  `btccheckpoint` keeps the status of an epoch with its submissions, `checkpointing`
  the status of its checkpoint; the second is moved by calls whose failure is only
  logged.  When an epoch loses its submissions, `checkpointing` goes back to sealed,
  but `clearEpochData` leaves the status of the epoch as it was.  A new submission for
  an epoch that was confirmed before therefore starts as confirmed in one module and
  as submitted in the other, and the call that should finalize the checkpoint fails.
-/
import Babylon.BTCCheckpoint.Storage

set_option autoImplicit false

namespace Babylon.BTCCheckpoint

open Lib LightClient Checkpointing KVStore LightClient.Sample State Stores CheckpointState Option

/-- The status of a checkpoint whose epoch has submissions of the given status. -/
def BtcStatus.checkpointStatus : BtcStatus → CheckpointStatus
  | .submitted => .submitted
  | .confirmed => .confirmed
  | .finalized => .finalized

/-- The status the checkpoint of an epoch should have. -/
def expectedStatus : Option EpochData → CheckpointStatus
  | none => .sealed
  | some ed => if ed.keys = [] then .sealed else ed.status.checkpointStatus

theorem expectedStatus_of_ne_nil {ed : EpochData} (h : ed.keys ≠ []) :
    expectedStatus (some ed) = ed.status.checkpointStatus :=
  if_neg h

namespace Stores

/-- Every checkpoint has the status its epoch asks for. -/
def InStep (stores : Stores) : Prop :=
  ∀ epoch status, stores.checkpointing.getStatus epoch = some status →
    status = expectedStatus (stores.btccheckpoint.epochData.get epoch)

/-- The invariant: `checkpointing` follows `btccheckpoint`. -/
structure Followed (stores : Stores) : Prop where
  inStep : stores.InStep
  checkpoint : ∀ epoch ed, stores.btccheckpoint.epochData.get epoch = some ed → ed.keys ≠ [] →
    ∃ status, stores.checkpointing.getStatus epoch = some status
  finalized : ∀ epoch ed, stores.btccheckpoint.epochData.get epoch = some ed →
    ed.status = .finalized → ed.keys ≠ []
  lastFinalized : stores.checkpointing.lastFinalizedEpoch = stores.btccheckpoint.lastFinalizedEpoch

variable {lc : HeadersState} {stores stores' : Stores} {epoch : Nat} {ed ed' : EpochData}
  {req : MsgInsertBTCSpvProof} {submission : RawCheckpointSubmission}

theorem Followed.getStatus_eq (h : stores.Followed)
    (hget : stores.btccheckpoint.epochData.get epoch = some ed) (hkeys : ed.keys ≠ []) :
    stores.checkpointing.getStatus epoch = some ed.status.checkpointStatus := by
  obtain ⟨status, hst⟩ := h.checkpoint epoch ed hget hkeys
  rw [hst, h.inStep epoch status hst, hget, expectedStatus_of_ne_nil hkeys]

/-- One epoch gets new data and its checkpoint a new status. -/
theorem Followed.update (h : stores.Followed)
    (hdata : stores'.btccheckpoint.epochData = stores.btccheckpoint.epochData.set epoch ed')
    (hoth : ∀ other, other ≠ epoch →
      stores'.checkpointing.getStatus other = stores.checkpointing.getStatus other)
    (hst : stores'.checkpointing.getStatus epoch = some (expectedStatus (some ed')))
    (hfz : ed'.status = .finalized → ed'.keys ≠ [])
    (hlast : stores'.checkpointing.lastFinalizedEpoch = stores'.btccheckpoint.lastFinalizedEpoch) :
    stores'.Followed := by
  refine ⟨?_, ?_, ?_, hlast⟩
  · intro other status ho
    rw [hdata, get_set]
    split
    case isTrue heq => exact some.inj (ho.symm.trans (heq ▸ hst))
    case isFalse hne => exact h.inStep other status (hoth other hne ▸ ho)
  · intro other data hget hkeys
    rw [hdata] at hget
    obtain ⟨rfl, -⟩ | ⟨hne, hold⟩ := of_get_set hget
    · exact ⟨_, hst⟩
    · rw [hoth other hne]
      exact h.checkpoint other data hold hkeys
  · rw [hdata]
    exact forall_set h.finalized hfz

/-! ## One pass -/

/-- Both calls for a settled epoch find the status they expect. -/
theorem settle_followed {changes : EpochChangesSummary} {best : SubmissionBtcInfo}
    (hst : ed.status ≠ .finalized)
    (hbef : stores.checkpointing.getStatus epoch = some ed.status.checkpointStatus)
    (hlast : stores.checkpointing.lastFinalizedEpoch = stores.btccheckpoint.lastFinalizedEpoch) :
    (stores.settle epoch ed changes best).checkpointing.getStatus epoch =
        some (nextStatus ed.status
          (stores.btccheckpoint.checkSubmissionStatus best)).checkpointStatus ∧
      (stores.settle epoch ed changes best).checkpointing.lastFinalizedEpoch =
        (stores.settle epoch ed changes best).btccheckpoint.lastFinalizedEpoch := by
  rw [settle_checkpointing _ _ hst, settle_btccheckpoint _ _ hst]
  have hconf : (stores.checkpointing.setCheckpointConfirmed epoch).lastFinalizedEpoch =
      stores.btccheckpoint.lastFinalizedEpoch :=
    (lastFinalizedEpoch_orLog_setCheckpointStatus _ _ _ _).trans hlast
  cases hcur : ed.status with
  | finalized => exact absurd hcur hst
  | submitted | confirmed =>
    rw [hcur] at hbef
    cases stores.btccheckpoint.checkSubmissionStatus best <;>
      simp [nextStatus, BtcStatus.checkpointStatus, getStatus_setCheckpointFinalized,
        getStatus_setCheckpointConfirmed, lastFinalizedEpoch_setCheckpointFinalized, hbef, hlast,
        hconf]

theorem EpochOutcome.followed {parentEpochInfo : ParentEpochInfo} {best : Option SubmissionBtcInfo}
    (h : stores.Followed) (hget : stores.btccheckpoint.epochData.get epoch = some ed)
    (hkeys : ed.keys ≠ [])
    (hout : EpochOutcome lc stores parentEpochInfo epoch ed stores' best) : stores'.Followed := by
  have hbef := h.getStatus_eq hget hkeys
  have hoth := hout.frame.status
  cases hout with
  | finalized => exact h
  | forgotten hst =>
    have hforget := forget_btccheckpoint stores epoch ed
    refine h.update (congrArg epochData hforget) hoth ?_ ?_ ?_
    · show (stores.checkpointing.setCheckpointForgotten epoch).getStatus epoch = some .sealed
      rw [getStatus_setCheckpointForgotten, if_pos]
      refine ⟨rfl, ?_⟩
      rw [hbef]
      cases hcur : ed.status with
      | submitted => exact .inl rfl
      | confirmed => exact .inr rfl
      | finalized => exact absurd hcur hst
    · exact fun hdone => absurd hdone hst
    · rw [hforget]
      exact (lastFinalizedEpoch_orLog_setCheckpointStatus _ _ _ _).trans h.lastFinalized
  | settled hst _ hch hbest =>
    have hremain := remainingKeys_ne_nil hch hbest
    obtain ⟨hnext, hlast⟩ := settle_followed hst hbef h.lastFinalized
    refine h.update (congrArg epochData (settle_btccheckpoint _ _ hst _ _)) hoth ?_
      (fun _ => hremain _) hlast
    rwa [expectedStatus_of_ne_nil (hremain _)]

/-! ## Messages -/

/-- The data of the epoch of a submission. -/
theorem recorded_epochData (stores : Stores) (req : MsgInsertBTCSpvProof)
    (submission : RawCheckpointSubmission) :
    (stores.recorded req submission).btccheckpoint.epochData =
      stores.btccheckpoint.epochData.set submission.checkpointData.epoch
        (((stores.btccheckpoint.epochData.get submission.checkpointData.epoch).getD
          EpochData.new).appendKey submission.getSubmissionKey) := rfl

theorem appendKey_ne_nil (ed : EpochData) (sk : SubmissionKey) : (ed.appendKey sk).keys ≠ [] := by
  simp [EpochData.appendKey]

section

variable {ext : Externals} (h : stores.Followed) (hrec : Records ext lc stores req submission)

include h hrec

/-- A submission starts as submitted in both modules exactly if its epoch has submissions, or
is not confirmed from an earlier time. -/
theorem getStatus_recorded_iff :
    (stores.recorded req submission).checkpointing.getStatus submission.checkpointData.epoch =
        some (expectedStatus ((stores.recorded req submission).btccheckpoint.epochData.get
          submission.checkpointData.epoch)) ↔
      ∀ ed, stores.btccheckpoint.epochData.get submission.checkpointData.epoch = some ed →
        ed.keys = [] → ed.status = .submitted := by
  obtain ⟨status, hst⟩ := hrec.checkpoint
  have hexpt := h.inStep _ _ hst
  rw [recorded_epochData, get_set_self, expectedStatus_of_ne_nil (appendKey_ne_nil _ _),
    getStatus_recorded, keysOf]
  cases hget : stores.btccheckpoint.epochData.get submission.checkpointData.epoch with
  | none =>
    obtain rfl : status = .sealed := by rw [hexpt, hget]; rfl
    exact iff_of_true (if_pos ⟨rfl, rfl, hst⟩) fun ed hnone => (by cases hnone)
  | some ed =>
    rw [hget] at hexpt
    by_cases hkeys : ed.keys = []
    · rw [expectedStatus, if_pos hkeys] at hexpt
      rw [if_pos ⟨rfl, hkeys, hexpt ▸ hst⟩]
      have hopen := hrec.not_finalized ed hget
      constructor
      · rintro heq _ ⟨⟩ -
        have heq : CheckpointStatus.submitted = ed.status.checkpointStatus := some.inj heq
        cases hcur : ed.status with
        | submitted => rfl
        | confirmed => rw [hcur] at heq; cases heq
        | finalized => exact absurd hcur hopen
      · intro hsubm
        show _ = some ed.status.checkpointStatus
        rw [hsubm ed rfl hkeys]
        rfl
    · rw [expectedStatus, if_neg hkeys] at hexpt
      refine iff_of_true ((if_neg fun hall => hkeys hall.2.1).trans (hexpt ▸ hst)) ?_
      rintro _ ⟨⟩ hnil
      exact absurd hnil hkeys

theorem recorded_followed
    (hstart : ∀ ed, stores.btccheckpoint.epochData.get submission.checkpointData.epoch = some ed →
      ed.keys = [] → ed.status = .submitted) : (stores.recorded req submission).Followed := by
  refine h.update (recorded_epochData _ _ _) ?_ ?_ (fun _ => appendKey_ne_nil _ _) ?_
  · intro other hne
    rw [getStatus_recorded, if_neg fun heq => hne heq.1]
  · have hst := (getStatus_recorded_iff h hrec).mpr hstart
    rwa [recorded_epochData, get_set_self] at hst
  · unfold recorded addEpochSubmission
    dsimp only
    split
    case isTrue =>
      exact (lastFinalizedEpoch_orLog_setCheckpointStatus _ _ _ _).trans h.lastFinalized
    case isFalse => exact h.lastFinalized

end

end Stores

/-! ## Whole runs -/

namespace CheckpointState

/-- A submission that is recorded for an epoch without submissions finds it not confirmed. -/
def startsSubmitted (ext : Externals) (c : CheckpointState) : Operation → Bool
  | .insertBTCSpvProof req =>
    match parseSubmission ext req c.btccheckpoint.params.checkpointTag with
    | .ok submission =>
      decide ((c.checkpointing.verifyCheckpoint ext.verifyRawCheckpoint
        (fromBTCCkptToRawCkpt submission.checkpointData)).toOption = some true →
        (c.btccheckpoint.epochData.get submission.checkpointData.epoch).all fun ed =>
          decide (ed.keys = [] → ed.status = .submitted))
    | .error _ => true
  | _ => true

variable {ext : Externals} {c t : CheckpointState} {req : MsgInsertBTCSpvProof}
  {submission : RawCheckpointSubmission}

theorem startsSubmitted_iff (h : Records ext c.lc c.toStores req submission) :
    c.startsSubmitted ext (.insertBTCSpvProof req) = true ↔
      ∀ ed, c.btccheckpoint.epochData.get submission.checkpointData.epoch = some ed →
        ed.keys = [] → ed.status = .submitted := by
  simp only [startsSubmitted, h.parsed, h.verified, decide_eq_true_eq]
  cases c.btccheckpoint.epochData.get submission.checkpointData.epoch with
  | none => simp
  | some ed =>
    refine ⟨fun hall _ hget => ?_, fun hall _ => decide_eq_true (hall ed rfl)⟩
    obtain rfl := some.inj hget
    exact of_decide_eq_true (hall rfl)

theorem startsSubmitted_of_conflicts (h : Conflicts ext c.toStores req submission) :
    c.startsSubmitted ext (.insertBTCSpvProof req) = true := by
  simp only [startsSubmitted, h.parsed, h.verified, decide_eq_true_eq]
  intro hmat
  cases hmat

/-- A message keeps the statuses in step exactly under the condition. -/
theorem insertBTCSpvProof_inStep_iff (h : c.Followed)
    (hstep : c.step ext (.insertBTCSpvProof req) = some t) :
    (t.InStep ↔ c.startsSubmitted ext (.insertBTCSpvProof req) = true) ∧
      (c.startsSubmitted ext (.insertBTCSpvProof req) = true → t.Followed) := by
  cases stepped hstep with
  | @recorded _ submission hrec =>
    rw [startsSubmitted_iff hrec]
    refine ⟨⟨?_, ?_⟩, recorded_followed h hrec⟩
    · intro hinStep
      refine (getStatus_recorded_iff h hrec).mp ?_
      -- the epoch still has its checkpoint
      obtain ⟨status, hst⟩ : ∃ status,
          (c.recorded req submission).checkpointing.getStatus
            submission.checkpointData.epoch = some status := by
        rw [getStatus_recorded]
        split
        case isTrue => exact ⟨_, rfl⟩
        case isFalse => exact hrec.checkpoint
      rw [hst, hinStep _ _ hst]
    · intro hstart
      exact (recorded_followed h hrec hstart).inStep
  | conflicting hconf =>
    have hflw : c.conflicting.Followed :=
      ⟨h.inStep, h.checkpoint, h.finalized, h.lastFinalized⟩
    exact ⟨iff_of_true hflw.inStep (startsSubmitted_of_conflicts hconf), fun _ => hflw⟩

theorem step_followed {l : Operation} (h : c.Followed)
    (hstart : c.startsSubmitted ext l = true) (hstep : c.step ext l = some t) :
    t.Followed := by
  cases stepped hstep with
  | insertHeaders | idle => exact h
  | @sealCheckpoint ckptWithMeta _ hsealed hnew =>
    have hstatus : ∀ other, (Checkpointing.State.getStatus { c.checkpointing with
        checkpoints := c.checkpointing.checkpoints.set ckptWithMeta.ckpt.epochNum
          ckptWithMeta } other) = if other = ckptWithMeta.ckpt.epochNum then some .sealed
            else c.checkpointing.getStatus other := by
      intro other
      unfold Checkpointing.State.getStatus
      rw [get_set]
      split
      case isTrue => rw [map_some, hsealed]
      case isFalse => rfl
    refine ⟨?_, ?_, h.finalized, h.lastFinalized⟩
    · intro other status ho
      rw [hstatus] at ho
      split at ho
      case isTrue heq =>
        obtain rfl := some.inj ho
        -- an epoch without a checkpoint has no submission
        cases hget : c.btccheckpoint.epochData.get other with
        | none => rfl
        | some ed =>
          by_cases hkeys : ed.keys = []
          · exact (if_pos hkeys).symm
          · obtain ⟨_, hsome⟩ := h.checkpoint other ed hget hkeys
            rw [heq, hnew] at hsome
            cases hsome
      case isFalse => exact h.inStep other status ho
    · intro other ed hget hkeys
      obtain ⟨status, ho⟩ := h.checkpoint other ed hget hkeys
      rw [hstatus]
      split
      case isTrue => exact ⟨_, rfl⟩
      case isFalse => exact ⟨status, ho⟩
  | recorded | conflicting => exact (insertBTCSpvProof_inStep_iff h hstep).2 hstart
  | updateParams => exact ⟨h.inStep, h.checkpoint, h.finalized, h.lastFinalized⟩
  | passed _ hstr =>
    refine checkCheckpoints_preserves Followed ?_ h hstr
    intro st parent epoch ed st' best hst hget hkeys hout
    exact hout.followed hst hget hkeys

end CheckpointState

theorem followed_of_genesis {ext : Externals} {base : LightClient.BTCHeaderInfo}
    {c : CheckpointState}
    (h : Genesis ext base c) : c.Followed := by
  obtain ⟨-, -, hbtc, -, hckpt⟩ := h
  refine ⟨?_, ?_, ?_, ?_⟩
  · intro epoch status hst
    rw [hckpt] at hst
    cases hst
  · intro epoch ed hget
    rw [hbtc] at hget
    cases hget
  · intro epoch ed hget
    rw [hbtc] at hget
    cases hget
  · rw [hbtc, hckpt]
    rfl

/-- In every run in which no submission is recorded for an epoch that lost its submissions
after it was confirmed, every checkpoint has the status its epoch asks for, and the epochs
finalized in `btccheckpoint` are finalized in `checkpointing`.  After such a run, a message
keeps the statuses in step exactly if it meets the condition too. -/
theorem checkpoint_statuses_agree (ext : Externals) (base : LightClient.BTCHeaderInfo)
    {history : List (CheckpointState × Operation)} {c : CheckpointState}
    (run : Run (checkpointSystem ext base) history c)
    (hsteps : Steps (fun c l => c.startsSubmitted ext l = true) history) :
    c.InStep ∧
    (∀ epoch ed, c.btccheckpoint.epochData.get epoch = some ed → ed.status = .finalized →
      c.checkpointing.getStatus epoch = some .finalized) ∧
    c.checkpointing.lastFinalizedEpoch = c.btccheckpoint.lastFinalizedEpoch ∧
    ∀ req t, (checkpointSystem ext base).step c (.insertBTCSpvProof req) = some t →
      (t.InStep ↔ c.startsSubmitted ext (.insertBTCSpvProof req) = true) := by
  have hfollowed : c.Followed := by
    refine Run.invariant (fun c => c.Followed) (fun c => followed_of_genesis) ?_ run hsteps
    intro c l t h hstart hstep
    exact step_followed h hstart hstep
  refine ⟨hfollowed.inStep, ?_, hfollowed.lastFinalized, ?_⟩
  · intro epoch ed hget hdone
    rw [hfollowed.getStatus_eq hget (hfollowed.finalized epoch ed hget hdone), hdone]
    rfl
  · intro req t hstep
    exact (insertBTCSpvProof_inStep_iff hfollowed hstep).1

namespace Sample

/-- A block with a submission for epoch 1, at the height of `older`. -/
def replacement : BlockHeader := carrier root.hash 1 5

/-- Epoch 1 is confirmed with a submission, whose block is then replaced. -/
def confirmedThenReplaced : List Operation :=
  [.sealCheckpoint (checkpoint 1), .insertHeaders [older, younger], submitOlder, .endBlock,
    .insertHeaders (replacement :: batch 7 (ext.chain.blockHash replacement) 2), .endBlock]

/-- A submission in the new block, and one more block, which finalizes the epoch. -/
def resubmitted : List Operation :=
  [.insertBTCSpvProof (submission root.hash 1 5 1), .insertHeaders (batch 7 (((batch 7
      (ext.chain.blockHash replacement) 2).getLast?.map ext.chain.blockHash).getD 0) 1),
    .endBlock]

end Sample

/-- Epoch 1 is finalized in `btccheckpoint`, while its checkpoint stays submitted. -/
theorem finalized_epoch_stays_submitted :
    ∃ history t, Run (checkpointSystem Sample.ext root) history t ∧
      (t.btccheckpoint.epochData.get 1).any (fun ed => decide (ed.status = .finalized)) = true ∧
      t.checkpointing.getStatus 1 = some .submitted ∧ ¬ t.InStep := by
  obtain ⟨history, t, run, hstatus, ed, hget, hkeys, hdone⟩ := Run.reaching
    (checkpointSystem Sample.ext root)
    (P := fun t => t.checkpointing.getStatus 1 = some .submitted ∧
      ∃ ed, t.btccheckpoint.epochData.get 1 = some ed ∧ ed.keys ≠ [] ∧
        ed.status = .finalized)
    Sample.start_genesis (Sample.confirmedThenReplaced ++ Sample.resubmitted) (by decide +kernel)
  refine ⟨history, t, run, ?_, hstatus, fun hinStep => ?_⟩
  · rw [hget]
    simpa using hdone
  · have hexpected := hinStep 1 .submitted hstatus
    rw [hget, expectedStatus_of_ne_nil hkeys, hdone] at hexpected
    cases hexpected

/-- An epoch that is confirmed, loses its submission and stays without one: the two modules
agree. -/
theorem replaced_epoch_statuses_agree :
    ∃ history t, Run (checkpointSystem Sample.ext root) history t ∧
      Steps (fun c l => c.startsSubmitted Sample.ext l = true) history ∧
      (t.btccheckpoint.epochData.get 1).any (fun ed => decide (ed.status = .confirmed)) = true ∧
      t.checkpointing.getStatus 1 = some .sealed ∧ t.InStep := by
  obtain ⟨history, t, run, hsteps, hconfirmed, hsealed⟩ := Run.of_labels
    (checkpointSystem Sample.ext root)
    (Q := fun c l => c.startsSubmitted Sample.ext l = true)
    (P := fun t => (t.btccheckpoint.epochData.get 1).any
        (fun ed => decide (ed.status = .confirmed)) = true ∧
      t.checkpointing.getStatus 1 = some .sealed)
    Sample.start_genesis Sample.confirmedThenReplaced (by decide +kernel)
  exact ⟨history, t, run, hsteps, hconfirmed, hsealed,
    (checkpoint_statuses_agree Sample.ext root run hsteps).1⟩

end Babylon.BTCCheckpoint
