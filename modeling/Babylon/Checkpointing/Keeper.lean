/-
  `x/checkpointing`: raw checkpoints, their verification and their status.

  A checkpoint is stored when it is sealed: `BuildRawCheckpoint` has no caller
  outside tests, so no stored checkpoint is accumulating.  A change of status that
  does not fit the current one is only logged.  The lifecycle and the aggregated key
  of a checkpoint, the events and the hooks of `monitor` are left out.
-/
import Babylon.Lib.KVStore
import Babylon.Types.Basic

set_option autoImplicit false

namespace Babylon.Checkpointing

open Lib

def errCkptDoesNotExist : RegisteredError :=
  ⟨"checkpointing", 1201, "raw checkpoint does not exist"⟩
def errCkptAlreadyExist : RegisteredError :=
  ⟨"checkpointing", 1202, "raw checkpoint already exists"⟩
def errInvalidRawCheckpoint : RegisteredError :=
  ⟨"checkpointing", 1206, "raw checkpoint is invalid"⟩
def errInvalidCkptStatus : RegisteredError :=
  ⟨"checkpointing", 1207, "raw checkpoint's status is invalid"⟩
def errConflictingCheckpoint : RegisteredError :=
  ⟨"checkpointing", 1213, "Conflicting checkpoint is found"⟩

/-- `RawCheckpoint`. -/
structure RawCheckpoint where
  epochNum : Nat
  blockHash : Bytes
  bitmap : Bytes
  blsMultiSig : Bytes
deriving DecidableEq

/-- `CheckpointStatus`. -/
inductive CheckpointStatus where
  | accumulating
  | sealed
  | submitted
  | confirmed
  | finalized
deriving DecidableEq

/-- `RawCheckpointWithMeta`. -/
structure RawCheckpointWithMeta where
  ckpt : RawCheckpoint
  status : CheckpointStatus

/-- The store of the module. -/
structure State where
  checkpoints : KVStore Nat RawCheckpointWithMeta
  lastFinalizedEpoch : Nat
  conflictingCheckpointReceived : Bool

namespace State

/-- The store at genesis. -/
def blank : State := ⟨KVStore.empty, 0, false⟩

variable (s : State)

/-- `GetStatus`. -/
def getStatus (epochNum : Nat) : Option CheckpointStatus :=
  (s.checkpoints.get epochNum).map RawCheckpointWithMeta.status

/-- `SealCheckpoint`, called from `PreBlocker` for the epoch that ended.  There is no
checkpoint for epoch 0.  The re-verification of the multi-signature is a parameter. -/
def sealCheckpoint (verifyRawCheckpoint : RawCheckpoint → Bool)
    (ckptWithMeta : RawCheckpointWithMeta) : Outcome State := do
  ensure (0 < ckptWithMeta.ckpt.epochNum) (.errorf "no vote extensions in epoch 0")
  ensure (ckptWithMeta.status = .sealed) (.errorf "the checkpoint is not Sealed")
  ensure (verifyRawCheckpoint ckptWithMeta.ckpt = true)
    (.errorf "refusing to seal invalid checkpoint for epoch %d: %w")
  ensure (s.checkpoints.get ckptWithMeta.ckpt.epochNum = none)
    (.wrapf errCkptAlreadyExist "a raw checkpoint already exists at epoch %v")
  return { s with checkpoints := s.checkpoints.set ckptWithMeta.ckpt.epochNum ckptWithMeta }

/-- `VerifyCheckpoint`: whether a checkpoint found on Bitcoin is the one of this chain.
`false` stands for `ErrConflictingCheckpoint`, whose flag the caller keeps. -/
def verifyCheckpoint (verifyRawCheckpoint : RawCheckpoint → Bool)
    (ckpt : RawCheckpoint) : Outcome Bool := do
  let ckptWithMeta ← orThrow (s.checkpoints.get ckpt.epochNum)
    (.wrapf errCkptDoesNotExist "failed to fetch the raw checkpoint at epoch %d from database: %w")
  if ckptWithMeta.ckpt = ckpt ∧ ckptWithMeta.status ≠ .accumulating then
    return true
  else do
    ensure (verifyRawCheckpoint ckpt = true) (.registered errInvalidRawCheckpoint)
    -- signed by another set of signers, or a fork
    return decide (ckptWithMeta.ckpt.blockHash = ckpt.blockHash)

/-- `setCheckpointStatus`. -/
def setCheckpointStatus (epoch : Nat) (expectedStatus : List CheckpointStatus)
    (status : CheckpointStatus) : Outcome State := do
  let ckptWithMeta ← orThrow (s.checkpoints.get epoch)
    (.wrapf errCkptDoesNotExist "no raw checkpoint is found at epoch %v")
  ensure (ckptWithMeta.status ∈ expectedStatus)
    (.wrapf errInvalidCkptStatus "the status of the checkpoint should be one of %v")
  return { s with checkpoints := s.checkpoints.set epoch { ckptWithMeta with status := status } }

/-- A failed change of status is only logged. -/
def orLog (changed : Outcome State) : State :=
  match changed with
  | .ok s' => s'
  | .error _ => s

/-- `SetCheckpointSubmitted`. -/
def setCheckpointSubmitted (epoch : Nat) : State :=
  s.orLog (s.setCheckpointStatus epoch [.sealed] .submitted)

/-- `SetCheckpointConfirmed`. -/
def setCheckpointConfirmed (epoch : Nat) : State :=
  s.orLog (s.setCheckpointStatus epoch [.submitted] .confirmed)

/-- `SetCheckpointFinalized`; the epoch is remembered if the status changed. -/
def setCheckpointFinalized (epoch : Nat) : State :=
  s.orLog do
    let s' ← s.setCheckpointStatus epoch [.confirmed] .finalized
    return { s' with lastFinalizedEpoch := epoch }

/-- `SetCheckpointForgotten`: back to sealed, also from confirmed. -/
def setCheckpointForgotten (epoch : Nat) : State :=
  s.orLog (s.setCheckpointStatus epoch [.submitted, .confirmed] .sealed)

/-- `EndBlocker` halts the chain on a conflicting checkpoint. -/
def endBlocker : Outcome Unit :=
  ensure (s.conflictingCheckpointReceived = false) (.panic errConflictingCheckpoint.description)

/-! ## Statuses after a change -/

/-- A change of status succeeds on an expected status, and changes nothing else. -/
theorem setCheckpointStatus_cases (epoch : Nat) (expectedStatus : List CheckpointStatus)
    (status : CheckpointStatus) :
    (∃ old ∈ expectedStatus, s.getStatus epoch = some old ∧
      ∃ s', s.setCheckpointStatus epoch expectedStatus status = .ok s' ∧
        ∀ other, s'.getStatus other = if other = epoch then some status else s.getStatus other) ∨
    ((∀ old ∈ expectedStatus, s.getStatus epoch ≠ some old) ∧
      ∃ fault, s.setCheckpointStatus epoch expectedStatus status = .error fault) := by
  unfold setCheckpointStatus getStatus
  cases hget : s.checkpoints.get epoch with
  | none => exact .inr ⟨fun old _ h => (by cases h), _, rfl⟩
  | some ckptWithMeta =>
    rcases Decidable.em (ckptWithMeta.status ∈ expectedStatus) with hmem | hmem
    · refine .inl ⟨ckptWithMeta.status, hmem, rfl,
        { s with checkpoints := s.checkpoints.set epoch { ckptWithMeta with status := status } },
        ?_, fun other => ?_⟩
      · show (ensure _ _ >>= _) = _
        rw [ensure_of _ hmem]
        rfl
      · dsimp only
        rw [KVStore.get_set]
        split <;> rfl
    · refine .inr ⟨fun old hold heq => hmem (Option.some.inj heq ▸ hold),
        .wrapf errInvalidCkptStatus "the status of the checkpoint should be one of %v", ?_⟩
      show (ensure _ _ >>= _) = _
      rw [ensure_of_not _ hmem]
      rfl

/-- The statuses after a change whose failure is logged. -/
theorem getStatus_orLog_setCheckpointStatus (epoch : Nat) (expectedStatus : List CheckpointStatus)
    (status : CheckpointStatus) (other : Nat) :
    (s.orLog (s.setCheckpointStatus epoch expectedStatus status)).getStatus other =
      if other = epoch ∧ ∃ old ∈ expectedStatus, s.getStatus epoch = some old then some status
      else s.getStatus other := by
  rcases s.setCheckpointStatus_cases epoch expectedStatus status with
    ⟨old, hold, hst, s', hchgd, haft⟩ | ⟨hunexpected, fault, hfail⟩
  · rw [hchgd]
    refine (haft other).trans ?_
    split
    case isTrue heq => rw [if_pos ⟨heq, old, hold, hst⟩]
    case isFalse hne => rw [if_neg fun h => hne h.1]
  · rw [hfail, if_neg]
    · rfl
    · rintro ⟨-, old, hold, hst⟩
      exact hunexpected old hold hst

theorem getStatus_setCheckpointConfirmed (epoch other : Nat) :
    (s.setCheckpointConfirmed epoch).getStatus other =
      if other = epoch ∧ s.getStatus epoch = some .submitted then some .confirmed
      else s.getStatus other := by
  rw [setCheckpointConfirmed, getStatus_orLog_setCheckpointStatus]
  simp

theorem getStatus_setCheckpointFinalized (epoch other : Nat) :
    (s.setCheckpointFinalized epoch).getStatus other =
      if other = epoch ∧ s.getStatus epoch = some .confirmed then some .finalized
      else s.getStatus other := by
  have hsame : (s.setCheckpointFinalized epoch).getStatus other =
      (s.orLog (s.setCheckpointStatus epoch [.confirmed] .finalized)).getStatus other := by
    unfold setCheckpointFinalized
    cases s.setCheckpointStatus epoch [.confirmed] .finalized <;> rfl
  rw [hsame, getStatus_orLog_setCheckpointStatus]
  simp

theorem getStatus_setCheckpointForgotten (epoch other : Nat) :
    (s.setCheckpointForgotten epoch).getStatus other =
      if other = epoch ∧ (s.getStatus epoch = some .submitted ∨ s.getStatus epoch = some .confirmed)
      then some .sealed else s.getStatus other := by
  rw [setCheckpointForgotten, getStatus_orLog_setCheckpointStatus]
  simp

/-! ## The last finalized epoch -/

theorem lastFinalizedEpoch_orLog_setCheckpointStatus (epoch : Nat)
    (expectedStatus : List CheckpointStatus) (status : CheckpointStatus) :
    (s.orLog (s.setCheckpointStatus epoch expectedStatus status)).lastFinalizedEpoch =
      s.lastFinalizedEpoch := by
  cases hchgd : s.setCheckpointStatus epoch expectedStatus status with
  | error fault => rfl
  | ok s' =>
    simp only [setCheckpointStatus, ok_iff]
      at hchgd
    obtain ⟨_, -, _, -, rfl⟩ := hchgd
    rfl

theorem lastFinalizedEpoch_setCheckpointFinalized (epoch : Nat) :
    (s.setCheckpointFinalized epoch).lastFinalizedEpoch =
      if s.getStatus epoch = some .confirmed then epoch else s.lastFinalizedEpoch := by
  unfold setCheckpointFinalized
  rcases s.setCheckpointStatus_cases epoch [.confirmed] .finalized with
    ⟨old, hold, hst, s', hchgd, -⟩ | ⟨hunexpected, fault, hfail⟩
  · obtain rfl := List.mem_singleton.mp hold
    rw [hchgd, if_pos hst]
    rfl
  · rw [hfail, if_neg (hunexpected _ (List.mem_singleton_self _))]
    rfl

end State

end Babylon.Checkpointing
