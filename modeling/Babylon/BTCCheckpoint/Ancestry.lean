/-
  Submissions descend from those of the epoch before.

  A pass judges the submissions of an epoch against the best one that it left to the
  epoch before, and deletes those that are not above it on the Bitcoin main chain.  It
  visits the epochs one after another, from the last finalized one on, and stops at an
  epoch without submissions; there are none after that, as the epochs with submissions
  follow each other.
-/
import Babylon.BTCCheckpoint.Finalization

set_option autoImplicit false

namespace Babylon.BTCCheckpoint

open Lib LightClient Checkpointing LightClient.Sample SubmissionBtcInfo

variable {lc : HeadersState}

/-! ## The best submission of an epoch -/

/-- One of the submissions, on the main chain, that none of the others beats. -/
structure IsBest (lc : HeadersState) (keys : List SubmissionKey) (best : SubmissionBtcInfo) :
    Prop where
  mem : best.submissionKey ∈ keys
  found : getSubmissionBtcInfo lc best.submissionKey = .ok (some best)
  unbeaten : ∀ sk ∈ keys, ∀ other, getSubmissionBtcInfo lc sk = .ok (some other) →
    other.isBetterThan best = false

variable {other best : SubmissionBtcInfo}

theorem not_deeper_of_not_isBetterThan
    (h : other.isBetterThan best = false) : other.youngestBlockDepth ≤ best.youngestBlockDepth := by
  unfold isBetterThan submissionDepth at h
  split at h
  case isTrue => cases h
  case isFalse hdep => exact not_lt.mp hdep

/-- Two best submissions are equally deep. -/
theorem IsBest.depth_eq {keys : List SubmissionKey}
    (h : IsBest lc keys best) (ho : IsBest lc keys other) :
    best.youngestBlockDepth = other.youngestBlockDepth := by
  have hle := not_deeper_of_not_isBetterThan (h.unbeaten _ ho.mem _ ho.found)
  have hge := not_deeper_of_not_isBetterThan (ho.unbeaten _ h.mem _ h.found)
  omega

theorem isBest_singleton {sk : SubmissionKey} {info : SubmissionBtcInfo}
    (h : getSubmissionBtcInfo lc sk = .ok (some info)) : IsBest lc [sk] info := by
  have hkey := (getSubmissionBtcInfo_some h).1
  refine ⟨List.mem_singleton.mpr hkey, hkey.symm ▸ h, ?_⟩
  intro other ho found hfnd
  obtain rfl := List.mem_singleton.mp ho
  obtain rfl := Option.some.inj (Except.ok.inj (h.symm.trans hfnd))
  exact isBetterThan_self _

/-- The submissions an epoch is left with have the best submission that the pass found. -/
theorem isBest_remainingKeys {parent : Option SubmissionBtcInfo} {ed : EpochData}
    {changes : EpochChangesSummary} (hch : getEpochChanges lc parent ed = .ok changes)
    (hbest : changes.epochBestSubmission = some best) (status : BtcStatus) :
    IsBest lc (remainingKeys status changes best) best := by
  have hbestOf := (getEpochChanges_ok hch).1
  obtain ⟨hmem, hfnd, -⟩ := hbestOf.some best hbest
  unfold remainingKeys
  split
  case isTrue => exact isBest_singleton hfnd
  case isFalse => exact ⟨hmem, hfnd, hbestOf.unbeaten best hbest⟩

/-! ## Descent -/

/-- The blocks of a submission are on the main chain, above the youngest block of another. -/
def Above (lc : HeadersState) (parent : SubmissionBtcInfo) (sk : SubmissionKey) : Prop :=
  ∀ tk ∈ sk, ∃ depth, OnMainChain lc tk depth ∧ depth < parent.youngestBlockDepth

theorem above_of_keeps {parent : SubmissionBtcInfo} {sk : SubmissionKey}
    (h : keeps lc (some parent) sk = true) : Above lc parent sk := by
  unfold keeps at h
  split at h
  case h_1 info hinfo =>
    have haft := of_decide_eq_true h
    intro tk htk
    obtain ⟨depth, hon, -, hle⟩ := (getSubmissionBtcInfo_some hinfo).2 tk htk
    exact ⟨depth, hon, lt_of_le_of_lt hle haft⟩
  case h_2 => cases h

/-- The epoch before has submissions, and all submissions of the epoch are above the best one
of those. -/
structure State.Descends (s : State) (lc : HeadersState) (epoch : Nat) : Prop where
  parent : ∃ best, IsBest lc (s.keysOf (epoch - 1)) best
  above : ∀ best, IsBest lc (s.keysOf (epoch - 1)) best → ∀ sk ∈ s.keysOf epoch, Above lc best sk

variable {epoch : Nat}

theorem State.Descends.of_eq {s s' : State} (h : s.Descends lc epoch)
    (hprt : s'.keysOf (epoch - 1) = s.keysOf (epoch - 1))
    (hkeys : s'.keysOf epoch = s.keysOf epoch) : s'.Descends lc epoch := by
  obtain ⟨hbest, habove⟩ := h
  constructor
  · rwa [hprt]
  · rwa [hprt, hkeys]

namespace Stores

/-- What a pass has established when the next epoch to visit is `next`: it knows the best
submission of the epoch before, and the epochs it visited descend from their parents. -/
structure Descended (lc : HeadersState) (stores : Stores) (parentEpochInfo : ParentEpochInfo)
    (next : Nat) : Prop where
  best : ∀ info, parentEpochInfo = some (some info) →
    IsBest lc (stores.btccheckpoint.keysOf (next - 1)) info
  visited : ∀ epoch, 2 ≤ epoch → epoch < next → stores.btccheckpoint.keysOf epoch ≠ [] →
    ¬ stores.btccheckpoint.Finalized epoch → stores.btccheckpoint.Descends lc epoch

variable {stores stores' : Stores} {parentEpochInfo : ParentEpochInfo} {next : Nat}
  {ed : EpochData} {rest : List (Nat × EpochData)} {best : Option SubmissionBtcInfo}

theorem Frame.keysOf {other : Nat} (h : Frame epoch stores stores') (hne : other ≠ epoch) :
    stores'.btccheckpoint.keysOf other = stores.btccheckpoint.keysOf other := by
  unfold State.keysOf
  rw [h.epochData other hne]

/-- The best submission that the pass hands on is one of those it left to the epoch. -/
theorem EpochOutcome.isBest (hget : stores.btccheckpoint.epochData.get epoch = some ed)
    (h : EpochOutcome lc stores parentEpochInfo epoch ed stores' best) {info : SubmissionBtcInfo}
    (hbest : best = some info) :
    IsBest lc (stores'.btccheckpoint.keysOf epoch) info := by
  cases h with
  | finalized hst hkeys hinfo =>
    cases hbest
    rw [State.keysOf_of_get hget, hkeys]
    exact isBest_singleton hinfo
  | forgotten => cases hbest
  | @settled changes _ hst hprt hch hfnd =>
    cases hbest
    have hdata := congrArg State.epochData (settle_btccheckpoint stores epoch hst changes info)
    rw [State.keysOf_of_set hdata, if_pos rfl]
    exact isBest_remainingKeys hch hfnd _

section

variable (hvis : Visiting stores parentEpochInfo next ((next, ed) :: rest)) (hkeys : ed.keys ≠ [])
  (hout : EpochOutcome lc stores parentEpochInfo next ed stores' best)
  (h : Descended lc stores parentEpochInfo next)

include hvis hkeys hout h

/-- An epoch that keeps submissions and is not finalized descends from its parent. -/
theorem Descended.settled (htwo : 2 ≤ next)
    (hleft : stores'.btccheckpoint.keysOf next ≠ [])
    (hopen : ¬ stores'.btccheckpoint.Finalized next) :
    stores'.btccheckpoint.Descends lc next := by
  have hget := hvis.pending.2 (next, ed) List.mem_cons_self
  have hframe := hout.frame
  cases hout with
  | finalized hst => exact absurd ⟨ed, hget, hst⟩ hopen
  | forgotten =>
    have hdata := congrArg State.epochData (forget_btccheckpoint stores next ed)
    rw [State.keysOf_of_set hdata, if_pos rfl] at hleft
    exact absurd rfl hleft
  | @settled changes best hst hprt hch hfnd =>
    have hdata := congrArg State.epochData (settle_btccheckpoint stores next hst changes best)
    have hlast := hvis.sequential.last_lt hget hkeys hst
    have hposn := hvis.position
    rcases parentEpochInfo with _ | _ | parent
    · -- the pass starts at the last finalized epoch, or at epoch 1
      have hstart : next = max stores.btccheckpoint.lastFinalizedEpoch 1 := hposn
      omega
    · cases hprt
    · have hbest := h.best parent rfl
      have hbef := hframe.keysOf (show next - 1 ≠ next by omega)
      refine ⟨⟨parent, hbef.symm ▸ hbest⟩, fun other ho sk hsk => ?_⟩
      rw [State.keysOf_of_set hdata, if_pos rfl] at hsk
      have hdone : nextStatus ed.status (stores.btccheckpoint.checkSubmissionStatus best)
          ≠ .finalized := by
        intro hdone
        have hset := (congrArg (·.get next) hdata).trans (KVStore.get_set_self _ _ _)
        exact hopen ⟨_, hset, hdone⟩
      have hkept : sk ∈ changes.submissionsToKeep := by
        unfold remainingKeys at hsk
        rwa [if_neg hdone] at hsk
      rw [(getEpochChanges_ok hch).2.1] at hkept
      have habove := above_of_keeps (List.mem_filter.mp hkept).2
      unfold Above
      rw [← hbest.depth_eq (hbef ▸ ho)]
      exact habove

theorem Descended.step : Descended lc stores' (some best) (next + 1) := by
  have hframe := hout.frame
  have hget := hvis.pending.2 (next, ed) List.mem_cons_self
  constructor
  · intro info hinfo
    exact hout.isBest hget (Option.some.inj hinfo)
  · intro epoch htwo hlt hleft hopen
    by_cases hep : epoch = next
    · subst hep
      exact h.settled hvis hkeys hout htwo hleft hopen
    · have hsame := hframe.keysOf hep
      have hbef : ¬ stores.btccheckpoint.Finalized epoch := by
        unfold State.Finalized at hopen ⊢
        rwa [hframe.epochData epoch hep] at hopen
      exact (h.visited epoch htwo (by omega) (hsame ▸ hleft) hbef).of_eq
        (hframe.keysOf (by omega)) hsame

end

/-- After a pass, every epoch from the second on that has submissions and is not finalized
descends from the epoch before. -/
theorem Sequential.checkCheckpoints_descends (h : Sequential none stores)
    (hchk : checkCheckpoints lc stores = .ok stores') (htwo : 2 ≤ epoch)
    (hkeys : stores'.btccheckpoint.keysOf epoch ≠ [])
    (hopen : ¬ stores'.btccheckpoint.Finalized epoch) :
    stores'.btccheckpoint.Descends lc epoch := by
  -- the epochs before the first one to visit are finalized
  have hstart : Descended lc stores none (max stores.btccheckpoint.lastFinalizedEpoch 1) := by
    refine ⟨fun info hinfo => (by cases hinfo), fun epoch htwo hlt hkeys hopen => ?_⟩
    exact absurd ((h.finalized_iff epoch).mpr ⟨hkeys, by omega⟩) hopen
  obtain ⟨_, next, -, hdescended, hend⟩ := h.visiting.checkEpochs Descended.step hstart hchk
  refine hdescended.visited epoch htwo ?_ hkeys hopen
  exact not_le.mp fun hle => hkeys (hend epoch hle)

end Stores

/-! ## Whole runs -/

/-- Ancestry.  Whenever the end of a block judges the submissions, because the Bitcoin light
client changed, every epoch from the second on that has submissions and is not finalized comes
after an epoch with submissions, and all its submissions are on the main chain, with all their
blocks above the youngest block of the best submission of the epoch before. -/
theorem submissions_descend {ext : Externals} {base : LightClient.BTCHeaderInfo}
    {history : List (CheckpointState × Operation)} {c t : CheckpointState}
    (run : Run (checkpointSystem ext base) history c) (hupdated : c.lcUpdated = true)
    (hstep : (checkpointSystem ext base).step c .endBlock = some t) {epoch : Nat} (htwo : 2 ≤ epoch)
    (hkeys : t.btccheckpoint.keysOf epoch ≠ [])
    (hopen : ¬ t.btccheckpoint.Finalized epoch) :
    t.btccheckpoint.keysOf (epoch - 1) ≠ [] ∧
      (∃ best, IsBest t.lc (t.btccheckpoint.keysOf (epoch - 1)) best) ∧
      ∀ best, IsBest t.lc (t.btccheckpoint.keysOf (epoch - 1)) best →
        ∀ sk ∈ t.btccheckpoint.keysOf epoch, Above t.lc best sk := by
  have hend : c.step ext .endBlock = some t := hstep
  cases CheckpointState.stepped hend with
  | passed _ hstores =>
    have hdescends := (sequential_of_run run).checkCheckpoints_descends hstores htwo hkeys hopen
    obtain ⟨best, hbest⟩ := hdescends.parent
    exact ⟨List.ne_nil_of_mem hbest.mem, hdescends.parent, hdescends.above⟩
  | idle hidle => exact absurd hupdated hidle

/-- Epoch 2 has a submission in the block after that of epoch 1, when both are still shallow. -/
theorem second_epoch_descends :
    ∃ history c t, Run (checkpointSystem Sample.ext root) history c ∧
      c.lcUpdated = true ∧
      (checkpointSystem Sample.ext root).step c .endBlock = some t ∧
      t.btccheckpoint.keysOf 2 ≠ [] ∧ ¬ t.btccheckpoint.Finalized 2 ∧
      ∃ best, IsBest t.lc (t.btccheckpoint.keysOf 1) best ∧
        ∀ sk ∈ t.btccheckpoint.keysOf 2, Above t.lc best sk := by
  obtain ⟨history, c, run, hupdated, t, hstep, hkeys, hopen⟩ := Run.reaching
    (checkpointSystem Sample.ext root)
    (P := fun c => c.lcUpdated = true ∧ ∃ t, c.step Sample.ext .endBlock = some t ∧
      t.btccheckpoint.keysOf 2 ≠ [] ∧ ¬ ∃ ed, t.btccheckpoint.epochData.get 2 = some ed ∧
        ed.status = .finalized)
    Sample.start_genesis (Sample.twoEpochs.take 5) (by decide +kernel)
  obtain ⟨-, ⟨best, hbest⟩, habove⟩ := submissions_descend run hupdated hstep le_rfl hkeys hopen
  exact ⟨history, c, t, run, hupdated, hstep, hkeys, hopen, best, hbest, habove best hbest⟩

end Babylon.BTCCheckpoint
