/-
  Finalization of epochs in their order.

  As long as the Bitcoin chain keeps the headers as deep as the finalization timeout,
  the finalized epochs are those with submissions up to the last finalized one.  A pass
  can finalize several epochs: each is judged after its parent, whose best submission
  is older than all submissions that the epoch keeps, so an epoch cannot be deep enough
  before its parent is.  Within a pass there can be a gap in the epochs with submissions,
  between an epoch that just lost them and its child, which loses them next.
-/
import Babylon.BTCCheckpoint.Statuses

set_option autoImplicit false

namespace Babylon.BTCCheckpoint

open Lib LightClient Checkpointing KVStore CheckpointState LightClient.Sample List

variable {lc : HeadersState}

/-! ## Deep submissions -/

/-- All blocks of a submission are on the main chain, at least as deep as given. -/
def Deep (lc : HeadersState) (depth : Nat) (sk : SubmissionKey) : Prop :=
  ∀ tk ∈ sk, ∃ d, OnMainChain lc tk d ∧ depth ≤ d

variable {p : BtcChainParams} {base tip : LightClient.BTCHeaderInfo} {sk : SubmissionKey}

/-- A deep submission is found. -/
theorem Deep.exists_info {depth : Nat} (h : Deep lc depth sk)
    (hmain : MainChain p base tip lc) (hne : sk ≠ []) :
    ∃ info, getSubmissionBtcInfo lc sk = .ok (some info) := by
  obtain ⟨found, hfnd, hsome⟩ := exists_getSubmissionBtcInfo hmain hne
  obtain ⟨info, rfl⟩ := Option.ne_none_iff_exists'.mp
    (hsome fun tk htk => (h tk htk).imp fun _ hd => hd.1)
  exact ⟨info, hfnd⟩

theorem State.checkSubmissionStatus_eq_finalized_iff {s : State} {info : SubmissionBtcInfo} :
    s.checkSubmissionStatus info = .finalized ↔
      s.params.checkpointFinalizationTimeout ≤ info.youngestBlockDepth := by
  unfold State.checkSubmissionStatus SubmissionBtcInfo.submissionDepth
  split
  case isTrue h => exact iff_of_true rfl h
  case isFalse h =>
    refine iff_of_false ?_ h
    split <;> simp

/-- The epoch is finalized. -/
def State.Finalized (s : State) (epoch : Nat) : Prop :=
  ∃ ed, s.epochData.get epoch = some ed ∧ ed.status = .finalized

/-! ## The order of epochs -/

variable {entries : List (Nat × EpochData)}

namespace Stores

/-- The epochs with submissions follow each other from 1 on, but for a gap, and the finalized
ones are those up to the last finalized epoch, each with one submission. -/
structure Sequential (gap : Option Nat) (stores : Stores) : Prop where
  length : ∀ epoch, ∀ sk ∈ stores.btccheckpoint.keysOf epoch, 2 ≤ sk.length
  checkpoint_pos : ∀ epoch status, stores.checkpointing.getStatus epoch = some status → 0 < epoch
  pos : ∀ epoch ed, stores.btccheckpoint.epochData.get epoch = some ed → 0 < epoch
  parent : ∀ epoch, stores.btccheckpoint.keysOf epoch ≠ [] → 2 ≤ epoch →
    stores.btccheckpoint.keysOf (epoch - 1) ≠ [] ∨ gap = some epoch
  finalized_iff : ∀ epoch, stores.btccheckpoint.Finalized epoch ↔
    stores.btccheckpoint.keysOf epoch ≠ [] ∧ epoch ≤ stores.btccheckpoint.lastFinalizedEpoch
  single : ∀ epoch ed, stores.btccheckpoint.epochData.get epoch = some ed → ed.status = .finalized →
    ∃ sk, ed.keys = [sk]
  last : 0 < stores.btccheckpoint.lastFinalizedEpoch →
    stores.btccheckpoint.keysOf stores.btccheckpoint.lastFinalizedEpoch ≠ []

/-- Moreover the submissions of finalized epochs are deep. -/
structure Ordered (lc : HeadersState) (gap : Option Nat) (stores : Stores) : Prop
    extends Sequential gap stores where
  deep : ∀ epoch ed, stores.btccheckpoint.epochData.get epoch = some ed → ed.status = .finalized →
    ∃ sk, ed.keys = [sk] ∧ Deep lc stores.btccheckpoint.params.checkpointFinalizationTimeout sk

variable {stores stores' : Stores} {gap gap' : Option Nat} {epoch : Nat} {ed ed' : EpochData}

theorem exists_get_of_keysOf_ne_nil (h : stores.btccheckpoint.keysOf epoch ≠ []) :
    ∃ ed, stores.btccheckpoint.epochData.get epoch = some ed ∧ ed.keys ≠ [] := by
  unfold State.keysOf at h
  cases hget : stores.btccheckpoint.epochData.get epoch with
  | none => simp [hget] at h
  | some ed => exact ⟨ed, rfl, by simpa [hget] using h⟩

/-- Below an epoch with submissions all epochs have some. -/
theorem Sequential.filled (h : Sequential none stores)
    (hkeys : stores.btccheckpoint.keysOf epoch ≠ [])
    {below : Nat} (hpos : 0 < below) (hle : below ≤ epoch) :
    stores.btccheckpoint.keysOf below ≠ [] := by
  induction epoch, hle using Nat.le_induction with
  | base => exact hkeys
  | succ epoch hle ih =>
    rcases h.parent (epoch + 1) hkeys (by omega) with hprt | hgap
    · exact ih hprt
    · cases hgap

/-- An epoch that is not finalized is after the last finalized one. -/
theorem Sequential.last_lt (h : Sequential gap stores)
    (hget : stores.btccheckpoint.epochData.get epoch = some ed) (hkeys : ed.keys ≠ [])
    (hst : ed.status ≠ .finalized) : stores.btccheckpoint.lastFinalizedEpoch < epoch := by
  by_contra hle
  have hlst : stores.btccheckpoint.keysOf epoch ≠ [] := by rwa [State.keysOf_of_get hget]
  obtain ⟨ed', hget', hfz⟩ := (h.finalized_iff epoch).mpr ⟨hlst, not_lt.mp hle⟩
  obtain rfl : ed = ed' := Option.some.inj (hget.symm.trans hget')
  exact hst hfz

/-- One epoch after the last finalized one gets new data, and is finalized if it is the
next one. -/
theorem Sequential.update (h : Sequential gap stores)
    (hdata : stores'.btccheckpoint.epochData = stores.btccheckpoint.epochData.set epoch ed')
    (hpos : 0 < epoch)
    (hstatus : ∀ other, other ≠ epoch →
      stores'.checkpointing.getStatus other = stores.checkpointing.getStatus other)
    (hlen : ∀ sk ∈ ed'.keys, 2 ≤ sk.length)
    (haft : stores.btccheckpoint.lastFinalizedEpoch < epoch)
    (hlast : ed'.status ≠ .finalized ∧
        stores'.btccheckpoint.lastFinalizedEpoch = stores.btccheckpoint.lastFinalizedEpoch ∨
      ed'.status = .finalized ∧ stores'.btccheckpoint.lastFinalizedEpoch = epoch ∧
        epoch = stores.btccheckpoint.lastFinalizedEpoch + 1)
    (hsingle : ed'.status = .finalized → ∃ sk, ed'.keys = [sk])
    (hprt : ∀ other, stores'.btccheckpoint.keysOf other ≠ [] → 2 ≤ other →
      stores'.btccheckpoint.keysOf (other - 1) ≠ [] ∨ gap' = some other) :
    Sequential gap' stores' := by
  have hkeys := State.keysOf_of_set hdata
  have hget : ∀ other, stores'.btccheckpoint.epochData.get other =
      if other = epoch then some ed' else stores.btccheckpoint.epochData.get other := by
    intro other
    rw [hdata, get_set]
  refine ⟨?_, ?_, ?_, hprt, ?_, ?_, ?_⟩
  · intro other sk hsk
    rw [hkeys] at hsk
    split at hsk
    case isTrue => exact hlen sk hsk
    case isFalse => exact h.length other sk hsk
  · intro other status ho
    by_cases heq : other = epoch
    · exact heq ▸ hpos
    · exact h.checkpoint_pos other status (hstatus other heq ▸ ho)
  · intro other data ho
    rw [hget] at ho
    split at ho
    case isTrue heq => exact heq ▸ hpos
    case isFalse => exact h.pos other data ho
  · intro other
    unfold State.Finalized
    rw [hget, hkeys]
    split
    case isTrue heq =>
      rcases hlast with ⟨hopen, hsame⟩ | ⟨hdone, hnow, -⟩
      · refine iff_of_false ?_ fun hle => ?_
        · rintro ⟨data, heq', hdone⟩
          exact hopen (Option.some.inj heq' ▸ hdone)
        · rw [hsame] at hle
          omega
      · obtain ⟨sk, hsk⟩ := hsingle hdone
        exact iff_of_true ⟨ed', rfl, hdone⟩ ⟨by simp [hsk], by omega⟩
    case isFalse hne =>
      refine (h.finalized_iff other).trans (and_congr_right fun _ => ?_)
      rcases hlast with ⟨-, hsame⟩ | ⟨-, hnow, hnext⟩ <;> omega
  · intro other data ho hdone
    rw [hget] at ho
    split at ho
    case isTrue =>
      obtain rfl := Option.some.inj ho
      exact hsingle hdone
    case isFalse => exact h.single other data ho hdone
  · intro hsome
    rw [hkeys]
    rcases hlast with ⟨-, hsame⟩ | ⟨hdone, hnow, -⟩
    · rw [hsame] at hsome ⊢
      rw [if_neg (by omega)]
      exact h.last hsome
    · obtain ⟨sk, hsk⟩ := hsingle hdone
      rw [if_pos hnow, hsk]
      exact cons_ne_nil _ _

/-! ## One pass -/

/-- The epoch whose parent just lost its submissions. -/
def gapAt (parentEpochInfo : ParentEpochInfo) (next : Nat) : Option Nat :=
  if parentEpochInfo.any Option.isNone then some next else none

theorem gapAt_eq_some {parentEpochInfo : ParentEpochInfo} {next : Nat}
    (h : gapAt parentEpochInfo next = some epoch) : epoch = next := by
  unfold gapAt at h
  split at h
  case isTrue => exact (Option.some.inj h).symm
  case isFalse => cases h

/-- Where a pass stands when the next epoch to visit is `next`: it starts at the last finalized
epoch, or at epoch 1; after that, either the parent is the last finalized epoch, or its best
submission is not deep enough. -/
def Position (stores : Stores) (next : Nat) : ParentEpochInfo → Prop
  | none => next = max stores.btccheckpoint.lastFinalizedEpoch 1
  | some none => stores.btccheckpoint.lastFinalizedEpoch < next
  | some (some parent) => next = stores.btccheckpoint.lastFinalizedEpoch + 1 ∨
      stores.btccheckpoint.lastFinalizedEpoch < next ∧
        parent.youngestBlockDepth < stores.btccheckpoint.params.checkpointFinalizationTimeout

/-- The invariant of a pass. -/
structure Visiting (stores : Stores) (parentEpochInfo : ParentEpochInfo) (next : Nat)
    (entries : List (Nat × EpochData)) : Prop where
  pending : Pending stores entries
  complete : ∀ epoch ed, next ≤ epoch → stores.btccheckpoint.epochData.get epoch = some ed →
    (epoch, ed) ∈ entries
  bound : ∀ entry ∈ entries, next ≤ entry.1
  sequential : Sequential (gapAt parentEpochInfo next) stores
  position : Position stores next parentEpochInfo

variable {parentEpochInfo : ParentEpochInfo} {next : Nat} {rest : List (Nat × EpochData)}

theorem Position.pos (h : Position stores next parentEpochInfo) : 0 < next := by
  rcases parentEpochInfo with _ | _ | parent
  · have : next = max stores.btccheckpoint.lastFinalizedEpoch 1 := h
    omega
  · exact lt_of_le_of_lt (Nat.zero_le _) h
  · rcases h with h | ⟨h, -⟩ <;> omega

/-- The next epoch with submissions is the one to visit. -/
theorem Visiting.first (h : Visiting stores parentEpochInfo next ((epoch, ed) :: rest))
    (hkeys : ed.keys ≠ []) : epoch = next := by
  have hget := h.pending.2 (epoch, ed) mem_cons_self
  have hlst : stores.btccheckpoint.keysOf epoch ≠ [] := by rwa [State.keysOf_of_get hget]
  have hle := h.bound (epoch, ed) mem_cons_self
  have hpos := h.position.pos
  by_contra hne
  rcases h.sequential.parent epoch hlst (by omega) with hprt | hgap
  · -- the parent would come first
    obtain ⟨data, hdata, -⟩ := exists_get_of_keysOf_ne_nil hprt
    rcases mem_cons.mp (h.complete (epoch - 1) data (by omega) hdata) with heq | hmem
    · have := congrArg Prod.fst heq
      omega
    · have := (pairwise_cons.mp h.pending.1).1 _ hmem
      omega
  · exact hne (gapAt_eq_some hgap)

section

variable (h : Visiting stores parentEpochInfo next entries)
  (hend : ∀ ed, (next, ed) ∈ entries → ed.keys = [])

include h hend

/-- When a pass ends, there is no gap left. -/
theorem Visiting.finish : Sequential none stores := by
  refine { h.sequential with parent := ?_ }
  intro epoch hkeys htwo
  rcases h.sequential.parent epoch hkeys htwo with hprt | hgap
  · exact .inl hprt
  · obtain rfl := gapAt_eq_some hgap
    obtain ⟨ed, hget, hne⟩ := exists_get_of_keysOf_ne_nil hkeys
    exact absurd (hend ed (h.complete epoch ed le_rfl hget)) hne

/-- And the epochs that were not visited have no submissions. -/
theorem Visiting.keysOf_of_le (hle : next ≤ epoch) :
    stores.btccheckpoint.keysOf epoch = [] := by
  by_contra hkeys
  have hnext := (h.finish hend).filled hkeys h.position.pos hle
  obtain ⟨ed, hget, hne⟩ := exists_get_of_keysOf_ne_nil hnext
  exact hne (hend ed (h.complete next ed le_rfl hget))

end

section

variable (h : Visiting stores parentEpochInfo next ((next, ed) :: rest))

include h

/-- A finalized epoch is visited first only. -/
theorem Visiting.finalized (hst : ed.status = .finalized) (info : SubmissionBtcInfo) :
    Sequential (gapAt (some (some info)) (next + 1)) stores ∧
      Position stores (next + 1) (some (some info)) := by
  have hget := h.pending.2 (next, ed) mem_cons_self
  have hle := ((h.sequential.finalized_iff next).mp ⟨ed, hget, hst⟩).2
  have hseq := h.sequential
  have hposn := h.position
  rcases parentEpochInfo with _ | _ | parent
  · have hnext : next = max stores.btccheckpoint.lastFinalizedEpoch 1 := hposn
    have hpos := h.position.pos
    exact ⟨hseq, .inl (by omega)⟩
  · exact absurd hle (not_le.mpr hposn)
  · rcases hposn with hnext | ⟨hlt, -⟩ <;> omega

/-- An epoch that loses its submissions leaves a gap. -/
theorem Visiting.forgotten (hkeys : ed.keys ≠ []) (hst : ed.status ≠ .finalized)
    (hframe : Frame next stores (stores.forget next ed)) :
    Sequential (gapAt (some none) (next + 1)) (stores.forget next ed) ∧
      Position (stores.forget next ed) (next + 1) (some none) := by
  have hget := h.pending.2 (next, ed) mem_cons_self
  have hpos := h.position.pos
  have hlt := h.sequential.last_lt hget hkeys hst
  have hforget := forget_btccheckpoint stores next ed
  have hlast := congrArg State.lastFinalizedEpoch hforget
  have hdata := congrArg State.epochData hforget
  refine ⟨h.sequential.update hdata hpos hframe.status ?_ hlt (.inl ⟨hst, hlast⟩) ?_ ?_, ?_⟩
  · intro sk hsk
    cases hsk
  · exact fun hdone => absurd hdone hst
  · intro other ho htwo
    rw [State.keysOf_of_set hdata] at ho ⊢
    split at ho
    case isTrue => exact absurd rfl ho
    case isFalse hne =>
      split
      case isTrue heq => exact .inr (congrArg some (by omega))
      case isFalse =>
        refine .inl ((h.sequential.parent other ho htwo).resolve_right fun hgap => ?_)
        exact hne (gapAt_eq_some hgap)
  · show (stores.forget next ed).btccheckpoint.lastFinalizedEpoch < next + 1
    rw [hlast]
    exact Nat.lt_succ_of_lt hlt

variable (hkeys : ed.keys ≠ []) (hst : ed.status ≠ .finalized)
  (hprt : parentEpochInfo.any Option.isNone = false) {changes : EpochChangesSummary}
  {best : SubmissionBtcInfo} (hch : getEpochChanges lc parentEpochInfo.join ed = .ok changes)
  (hbest : changes.epochBestSubmission = some best)

include hkeys hst hprt hch hbest

/-- An epoch whose best submission is deep enough is the one after the last finalized epoch. -/
theorem Visiting.finalizes_next
    (hdeep : stores.btccheckpoint.params.checkpointFinalizationTimeout ≤ best.youngestBlockDepth) :
    next = stores.btccheckpoint.lastFinalizedEpoch + 1 := by
  have hget := h.pending.2 (next, ed) mem_cons_self
  have hlt := h.sequential.last_lt hget hkeys hst
  have hposn := h.position
  rcases parentEpochInfo with _ | _ | parent
  · have hnext : next = max stores.btccheckpoint.lastFinalizedEpoch 1 := hposn
    omega
  · cases hprt
  · rcases hposn with hnext | ⟨-, hshal⟩
    · exact hnext
    · -- the best submission is younger than that of the parent
      have haft := EpochOutcome.happenedAfter hch hbest
      have hfnd := ((getEpochChanges_ok hch).1.some best hbest).2.1
      have hlen := h.sequential.length next best.submissionKey
        (State.keysOf_of_get hget ▸ best_mem_keys hch hbest)
      obtain ⟨tk, htk⟩ := exists_mem_of_ne_nil best.submissionKey (ne_nil_of_length_pos (by omega))
      obtain ⟨depth, -, hyng, holdest⟩ := (getSubmissionBtcInfo_some hfnd).2 tk htk
      omega

/-- An epoch with a best submission keeps one, and is finalized in its turn. -/
theorem Visiting.settled (hframe : Frame next stores (stores.settle next ed changes best)) :
    Sequential (gapAt (some (some best)) (next + 1)) (stores.settle next ed changes best) ∧
      Position (stores.settle next ed changes best) (next + 1) (some (some best)) := by
  have hget := h.pending.2 (next, ed) mem_cons_self
  have hpos := h.position.pos
  have hlt := h.sequential.last_lt hget hkeys hst
  have hsettle := settle_btccheckpoint stores next hst changes best
  have hlast := congrArg State.lastFinalizedEpoch hsettle
  have hdata := congrArg State.epochData hsettle
  have hfnd := ((getEpochChanges_ok hch).1.some best hbest).2.1
  have hdone : nextStatus ed.status (stores.btccheckpoint.checkSubmissionStatus best) = .finalized ↔
      stores.btccheckpoint.params.checkpointFinalizationTimeout ≤ best.youngestBlockDepth :=
    (nextStatus_eq_finalized hst).trans State.checkSubmissionStatus_eq_finalized_iff
  dsimp only at hlast hdata
  refine ⟨h.sequential.update hdata hpos hframe.status ?_ hlt ?_ ?_ ?_, ?_⟩
  · intro sk hsk
    refine h.sequential.length next sk ?_
    rw [State.keysOf_of_get hget]
    exact (remainingKeys_sublist hch hbest _).subset hsk
  · by_cases hfnl : nextStatus ed.status
        (stores.btccheckpoint.checkSubmissionStatus best) = .finalized
    · rw [if_pos hfnl] at hlast
      exact .inr ⟨hfnl, hlast, h.finalizes_next hkeys hst hprt hch hbest (hdone.mp hfnl)⟩
    · rw [if_neg hfnl] at hlast
      exact .inl ⟨hfnl, hlast⟩
  · intro hfnl
    exact ⟨best.submissionKey, if_pos hfnl⟩
  · intro other ho htwo
    have hremain := remainingKeys_ne_nil hch hbest
    rw [State.keysOf_of_set hdata] at ho ⊢
    refine .inl ?_
    split
    case isTrue => exact hremain _
    case isFalse hne =>
      have hbef : stores.btccheckpoint.keysOf other ≠ [] := by
        split at ho
        case isTrue heq => rwa [heq, State.keysOf_of_get hget]
        case isFalse => exact ho
      refine (h.sequential.parent other hbef htwo).resolve_right fun hgap => ?_
      rw [gapAt, hprt] at hgap
      cases hgap
  · show next + 1 = _ + 1 ∨ _
    rw [hlast]
    split
    case isTrue => exact .inl rfl
    case isFalse hfnl =>
      refine .inr ⟨Nat.lt_succ_of_lt hlt, ?_⟩
      rw [hframe.params]
      exact not_le.mp fun hle => hfnl (hdone.mpr hle)

omit hst hprt hch hbest in
theorem Visiting.step {best : Option SubmissionBtcInfo}
    (hout : EpochOutcome lc stores parentEpochInfo next ed stores' best) :
    Visiting stores' (some best) (next + 1) rest := by
  have hframe := hout.frame
  have hlater := (pairwise_cons.mp h.pending.1).1
  suffices hnew : Sequential (gapAt (some best) (next + 1)) stores' ∧
      Position stores' (next + 1) (some best) by
    refine ⟨h.pending.tail hframe, ?_, fun entry hent => hlater entry hent, hnew.1, hnew.2⟩
    intro epoch data hle hdata
    rw [hframe.epochData epoch (by omega)] at hdata
    rcases mem_cons.mp (h.complete epoch data (by omega) hdata) with heq | hmem
    · have := congrArg Prod.fst heq
      omega
    · exact hmem
  cases hout with
  | finalized hst => exact h.finalized hst _
  | forgotten hst => exact h.forgotten hkeys hst hframe
  | settled hst hprt hch hbest =>
    exact h.settled hkeys hst hprt hch hbest hframe

end

/-- The body of the loop does not panic. -/
theorem Ordered.exists_checkEpoch (h : Ordered lc gap stores)
    (hmain : MainChain p base tip lc) (hget : stores.btccheckpoint.epochData.get epoch = some ed)
    (parentEpochInfo : ParentEpochInfo) :
    ∃ result, checkEpoch lc stores parentEpochInfo epoch ed = .ok result := by
  have hlen : ∀ sk ∈ ed.keys, 2 ≤ sk.length := fun sk hsk =>
    h.length epoch sk (State.keysOf_of_get hget ▸ hsk)
  unfold checkEpoch
  split
  case isTrue hst =>
    obtain ⟨sk, hkeys, hdeep⟩ := h.deep epoch ed hget hst
    have htwo := hlen sk (by simp [hkeys])
    obtain ⟨info, hinfo⟩ := hdeep.exists_info hmain (ne_nil_of_length_pos (by omega))
    rw [hkeys]
    dsimp only
    rw [hinfo]
    exact ⟨_, rfl⟩
  case isFalse =>
    split
    case isTrue => exact ⟨_, rfl⟩
    case isFalse =>
      obtain ⟨changes, hch⟩ := exists_getEpochChanges hmain parentEpochInfo.join hlen
      rw [hch]
      dsimp only [bind, Except.bind]
      split
      case isTrue => exact ⟨_, rfl⟩
      case isFalse hkeep =>
        obtain ⟨best, hbest⟩ := Option.ne_none_iff_exists'.mp fun hnone =>
          hkeep ((getEpochChanges_ok hch).1.none_iff.mp hnone)
        rw [hbest]
        exact ⟨_, rfl⟩

/-- The submissions of finalized epochs stay deep: an epoch is finalized when its best
submission is. -/
theorem Ordered.outcome (h : Ordered lc gap stores) (hnew : Sequential gap' stores')
    {best : Option SubmissionBtcInfo}
    (hout : EpochOutcome lc stores parentEpochInfo epoch ed stores' best) :
    Ordered lc gap' stores' := by
  refine ⟨hnew, fun other data hget hdone => ?_⟩
  have hframe := hout.frame
  rw [hframe.params]
  by_cases ho : other = epoch
  case neg => exact h.deep other data (hframe.epochData other ho ▸ hget) hdone
  subst ho
  cases hout with
  | finalized => exact h.deep other data hget hdone
  | forgotten hst =>
    rw [forget_btccheckpoint, get_set_self] at hget
    obtain rfl := Option.some.inj hget
    exact absurd hdone hst
  | @settled changes best hst hprt hch hbest =>
    rw [settle_btccheckpoint _ _ hst, get_set_self] at hget
    obtain rfl := Option.some.inj hget
    have hfnl := (nextStatus_eq_finalized hst).mp hdone
    refine ⟨best.submissionKey, if_pos hdone, ?_⟩
    have hfnd := ((getEpochChanges_ok hch).1.some best hbest).2.1
    intro tk htk
    obtain ⟨d, hon, hyng, -⟩ := (getSubmissionBtcInfo_some hfnd).2 tk htk
    exact ⟨d, hon, le_trans (State.checkSubmissionStatus_eq_finalized_iff.mp hfnl) hyng⟩

/-- The loop visits one epoch after another: what holds before it and is kept by each visit
holds when it stops, at the end or before an epoch without submissions. -/
theorem Visiting.checkEpochs {I : Stores → ParentEpochInfo → Nat → Prop}
    (hstep : ∀ {stores parentEpochInfo next ed rest stores' best},
      Visiting stores parentEpochInfo next ((next, ed) :: rest) → ed.keys ≠ [] →
      EpochOutcome lc stores parentEpochInfo next ed stores' best →
      I stores parentEpochInfo next → I stores' (some best) (next + 1))
    (h : Visiting stores parentEpochInfo next entries) (hI : I stores parentEpochInfo next)
    (hchk : Stores.checkEpochs lc stores parentEpochInfo entries = .ok stores') :
    ∃ parentEpochInfo next, Sequential none stores' ∧ I stores' parentEpochInfo next ∧
      ∀ epoch, next ≤ epoch → stores'.btccheckpoint.keysOf epoch = [] := by
  induction entries generalizing stores parentEpochInfo next with
  | nil =>
    obtain rfl := pure_ok_iff.mp hchk
    exact ⟨_, _, h.finish fun ed hed => (by cases hed), hI,
      fun _ => h.keysOf_of_le fun ed hed => (by cases hed)⟩
  | cons entry rest ih =>
    obtain ⟨epoch, ed⟩ := entry
    rw [Stores.checkEpochs] at hchk
    split at hchk
    case isTrue hnil =>
      obtain rfl := pure_ok_iff.mp hchk
      have hend : ∀ data, (next, data) ∈ (epoch, ed) :: rest → data.keys = [] := by
        intro data hdata
        rcases mem_cons.mp hdata with heq | hmem
        · cases heq
          exact hnil
        · -- the entry would come after one that is at least `next`
          have hlt := (pairwise_cons.mp h.pending.1).1 _ hmem
          have hle := h.bound _ mem_cons_self
          omega
      exact ⟨_, _, h.finish hend, hI, fun _ => h.keysOf_of_le hend⟩
    case isFalse hkeys =>
      obtain rfl := h.first hkeys
      obtain ⟨⟨visited, best⟩, hvisit, hrest⟩ := bind_ok_iff.mp hchk
      have hout := epochOutcome_of_checkEpoch hvisit
      exact ih (h.step hkeys hout) (hstep h hkeys hout hI) hrest

/-- A pass does not panic and keeps the order. -/
theorem Visiting.exists_checkEpochs (hmain : MainChain p base tip lc)
    (h : Visiting stores parentEpochInfo next entries)
    (hord : Ordered lc (gapAt parentEpochInfo next) stores) :
    ∃ stores', Stores.checkEpochs lc stores parentEpochInfo entries = .ok stores' := by
  induction entries generalizing stores parentEpochInfo next with
  | nil => exact ⟨stores, rfl⟩
  | cons entry rest ih =>
    obtain ⟨epoch, ed⟩ := entry
    rw [Stores.checkEpochs]
    split
    case isTrue => exact ⟨stores, rfl⟩
    case isFalse hkeys =>
      obtain rfl := h.first hkeys
      have hget := h.pending.2 (epoch, ed) mem_cons_self
      obtain ⟨⟨next, best⟩, hchk⟩ := hord.exists_checkEpoch hmain hget parentEpochInfo
      have hout := epochOutcome_of_checkEpoch hchk
      have hvis := h.step hkeys hout
      rw [hchk]
      exact ih hvis (hord.outcome hvis.sequential hout)

/-- A pass starts at the last finalized epoch. -/
theorem Sequential.visiting (h : Sequential none stores) :
    Visiting stores none (max stores.btccheckpoint.lastFinalizedEpoch 1)
      (epochsToCheck stores.btccheckpoint) := by
  refine ⟨pending_epochsToCheck stores, ?_, ?_, h, rfl⟩
  · intro epoch ed hle hget
    have hmem := mem_entries.mpr hget
    unfold epochsToCheck
    split
    case isTrue => exact mem_filter.mpr ⟨hmem, decide_eq_true (by omega)⟩
    case isFalse => exact hmem
  · intro entry hent
    have hget := (pending_epochsToCheck stores).2 entry hent
    have hpos := h.pos entry.1 entry.2 hget
    unfold epochsToCheck at hent
    split at hent
    case isTrue =>
      have hle := of_decide_eq_true (mem_filter.mp hent).2
      omega
    case isFalse => omega

theorem Ordered.exists_checkCheckpoints (h : Ordered lc none stores)
    (hmain : MainChain p base tip lc) :
    ∃ stores', checkCheckpoints lc stores = .ok stores' ∧ Ordered lc none stores' := by
  obtain ⟨stores', hchk⟩ := h.visiting.exists_checkEpochs hmain h
  have hkept := h.visiting.checkEpochs
    (I := fun stores parent next => Ordered lc (gapAt parent next) stores)
    (fun hvis hkeys hout hord =>
      hord.outcome (hvis.step hkeys hout).sequential hout) h hchk
  obtain ⟨_, _, hseq, hord, -⟩ := hkept
  exact ⟨stores', hchk, hseq, hord.deep⟩

end Stores

/-! ## Whole runs -/

variable {l : Operation} {history : List (CheckpointState × Operation)}

section

variable {ext : Externals} {c t : CheckpointState}

namespace CheckpointState

/-- New headers do not lower the tip, and keep the headers as deep as the finalization
timeout. -/
def keepsDeepHeaders (ext : Externals) (c : CheckpointState) : Operation → Bool
  | .insertHeaders headers =>
    let lc := (insertHeadersWithHookAndEvents ext.chain lightClientHooks (c.lc, c.lcUpdated)
      headers).2.1
    match c.lc.getTip, lc.getTip with
    | some tip, some newTip =>
      decide (tip.height ≤ newTip.height) &&
      c.lc.headers.entries.all fun (height, info) =>
        decide (c.btccheckpoint.params.checkpointFinalizationTimeout ≤ tip.height - height →
          lc.headers.get height = some info)
    | _, _ => false
  | _ => true

theorem exists_mainChain_step (hp : ext.chain.Sound) (h : MainChain ext.chain base tip c.lc)
    (hstep : c.step ext l = some t) :
    ∃ newTip, MainChain ext.chain base newTip t.lc := by
  cases stepped hstep with
  | @insertHeaders headers _ _ _ hins =>
    rcases insertHeadersWithHookAndEvents_cases hp lightClientHooks c.lcUpdated h headers with
      ⟨fault, hcall⟩ | ⟨parent, newTip, s', w', hacc, hcall⟩
    · cases hcall.symm.trans hins
      exact ⟨tip, h⟩
    · cases hcall.symm.trans hins
      exact ⟨newTip, hacc.mainChain⟩
  | _ => exact ⟨tip, h⟩

/-- What the condition says of the depth of blocks. -/
theorem deep_insertHeaders {newTip : LightClient.BTCHeaderInfo} {headers : List BlockHeader}
    (h : MainChain ext.chain base tip c.lc) (hnew : MainChain ext.chain base newTip t.lc)
    (hstep : c.step ext (.insertHeaders headers) = some t)
    (hkeeps : c.keepsDeepHeaders ext (.insertHeaders headers) = true)
    (hdeep : Deep c.lc c.btccheckpoint.params.checkpointFinalizationTimeout sk) :
    Deep t.lc c.btccheckpoint.params.checkpointFinalizationTimeout sk := by
  cases hstep
  simp only [keepsDeepHeaders, h.tip_stored, hnew.tip_stored, Bool.and_eq_true,
    decide_eq_true_eq, all_eq_true] at hkeeps
  obtain ⟨htip, hstay⟩ := hkeeps
  intro tk htk
  obtain ⟨depth, hon, hle⟩ := hdeep tk htk
  obtain ⟨info, hget, hhash, hdep⟩ := h.mainChainDepth_some_iff.mp hon
  have hstays := hstay (info.height, info) (mem_entries.mpr hget) (hdep ▸ hle)
  refine ⟨newTip.height - info.height, ?_, by omega⟩
  exact hnew.mainChainDepth_some_iff.mpr ⟨info, hstays, hhash, rfl⟩

section

variable {req : MsgInsertBTCSpvProof} {submission : RawCheckpointSubmission} {stores : Stores}
  (hrec : Stores.Records ext lc stores req submission)

include hrec

/-- The epoch of a recorded submission is not finalized. -/
theorem recorded_open :
    (((stores.btccheckpoint.epochData.get submission.checkpointData.epoch).getD
      EpochData.new).appendKey submission.getSubmissionKey).status ≠ .finalized := by
  cases hget : stores.btccheckpoint.epochData.get submission.checkpointData.epoch with
  | none => exact fun heq => (by cases heq)
  | some ed => exact hrec.not_finalized ed hget

/-- Recording a submission keeps the order: its epoch is after the last finalized one, and
the epoch before has submissions. -/
theorem sequential_recorded (h : Stores.Sequential none stores) :
    Stores.Sequential none (stores.recorded req submission) := by
  obtain ⟨status, hst⟩ := hrec.checkpoint
  have hpos := h.checkpoint_pos _ status hst
  have hdata := Stores.recorded_epochData stores req submission
  have hopen := recorded_open hrec
  have haft : stores.btccheckpoint.lastFinalizedEpoch < submission.checkpointData.epoch := by
    by_contra hle
    have hlast := h.last (by omega)
    have hfilled := h.filled hlast hpos (not_lt.mp hle)
    obtain ⟨ed, hget, hdone⟩ := (h.finalized_iff _).mpr ⟨hfilled, not_lt.mp hle⟩
    exact hrec.not_finalized ed hget hdone
  refine h.update hdata hpos ?_ ?_ haft (.inl ⟨hopen, rfl⟩) (fun hdone => absurd hdone hopen) ?_
  · intro other hne
    rw [Stores.getStatus_recorded, if_neg fun heq => hne heq.1]
  · intro sk hsk
    rcases mem_append.mp hsk with hold | hnew
    · exact h.length submission.checkpointData.epoch sk (State.keys_getD _ _ ▸ hold)
    · obtain rfl := mem_singleton.mp hnew
      exact le_rfl
  · intro other ho htwo
    rw [State.keysOf_of_set hdata] at ho ⊢
    refine .inl ?_
    split
    case isTrue => exact Stores.appendKey_ne_nil _ _
    case isFalse =>
      split at ho
      case isTrue heq =>
        -- `checkAncestors` looked at the epoch before
        obtain ⟨info, -, hanc⟩ := hrec.ancestors
        unfold State.checkAncestors at hanc
        rw [if_neg (by omega)] at hanc
        simp only [ok_iff] at hanc
        obtain ⟨previous, hget, _, hne, -⟩ := hanc
        rw [heq, State.keysOf_of_get hget]
        exact hne
      case isFalse => exact (h.parent other ho htwo).resolve_right fun hgap => (by cases hgap)

end

theorem sequential_step (h : Stores.Sequential none c.toStores) (hstep : c.step ext l = some t) :
    Stores.Sequential none t.toStores := by
  cases stepped hstep with
  | insertHeaders | idle => exact h
  | sealCheckpoint hpos =>
    refine ⟨h.length, ?_, h.pos, h.parent, h.finalized_iff, h.single, h.last⟩
    intro other status ho
    unfold Checkpointing.State.getStatus at ho
    rw [get_set] at ho
    split at ho
    case isTrue heq => exact heq ▸ hpos
    case isFalse => exact h.checkpoint_pos other status ho
  | recorded hrec => exact sequential_recorded hrec h
  | conflicting | updateParams =>
    exact ⟨h.length, h.checkpoint_pos, h.pos, h.parent, h.finalized_iff, h.single, h.last⟩
  | passed _ hstr =>
    obtain ⟨_, _, hseq, -⟩ := h.visiting.checkEpochs (I := fun _ _ _ => True)
      (fun _ _ _ _ => trivial) trivial hstr
    exact hseq

/-- The data of a finalized epoch is never changed. -/
theorem get_finalized_step {epoch : Nat} {ed : EpochData} (hdone : ed.status = .finalized)
    (hget : c.btccheckpoint.epochData.get epoch = some ed) (hstep : c.step ext l = some t) :
    t.btccheckpoint.epochData.get epoch = some ed := by
  cases stepped hstep with
  | insertHeaders | sealCheckpoint | conflicting | updateParams | idle => exact hget
  | recorded hrec =>
    rw [Stores.recorded_epochData, get_set_of_ne]
    · exact hget
    · rintro rfl
      exact hrec.not_finalized ed hget hdone
  | passed _ hstr =>
    refine Stores.checkCheckpoints_preserves
      (fun st => st.btccheckpoint.epochData.get epoch = some ed) ?_ hget hstr
    intro st parent other data st' best hst ho _ hout
    -- an epoch whose data changes is not finalized
    have hframe := hout.frame
    have hne : data.status ≠ .finalized → epoch ≠ other := by
      rintro hopen rfl
      exact hopen (Option.some.inj (ho.symm.trans hst) ▸ hdone)
    cases hout with
    | finalized => exact hst
    | forgotten hopen | settled hopen => exact (hframe.epochData epoch (hne hopen)).trans hst

theorem ordered_step (hp : ext.chain.Sound) (hmain : MainChain ext.chain base tip c.lc)
    (h : Stores.Ordered c.lc none c.toStores) (hkeeps : c.keepsDeepHeaders ext l = true)
    (hstep : c.step ext l = some t) :
    Stores.Ordered t.lc none t.toStores := by
  have hseq := sequential_step h.toSequential hstep
  cases stepped hstep with
  | insertHeaders =>
    obtain ⟨newTip, hnew⟩ := exists_mainChain_step hp hmain hstep
    refine ⟨hseq, fun epoch ed hget hdone => ?_⟩
    obtain ⟨sk, hkeys, hdeep⟩ := h.deep epoch ed hget hdone
    exact ⟨sk, hkeys, deep_insertHeaders (c := c) hmain hnew hstep hkeeps hdeep⟩
  | sealCheckpoint | conflicting | idle => exact ⟨hseq, h.deep⟩
  | recorded hrec =>
    refine ⟨hseq, ?_⟩
    rw [Stores.recorded_epochData]
    exact forall_set h.deep fun hdone => absurd hdone (recorded_open hrec)
  | @updateParams params hto =>
    refine ⟨hseq, fun epoch ed hget hdone => ?_⟩
    rw [hto]
    exact h.deep epoch ed hget hdone
  | passed _ hstr =>
    obtain ⟨stores', hchk, hord⟩ := h.exists_checkCheckpoints hmain
    rw [hstr] at hchk
    exact Except.ok.inj hchk ▸ hord

end CheckpointState

/-- At genesis no epoch has submissions. -/
theorem ordered_genesis (h : Genesis ext base c) : Stores.Ordered c.lc none c.toStores := by
  obtain ⟨params, hbtc⟩ : ∃ params, c.btccheckpoint = State.blank params :=
    ⟨_, h.btccheckpoint⟩
  have hckpt := h.checkpointing
  rcases c with ⟨⟨btccheckpoint, checkpointing⟩, lc, updated⟩
  dsimp only at hbtc hckpt
  subst hbtc hckpt
  refine ⟨⟨?_, ?_, ?_, fun _ hne => absurd rfl hne, fun epoch => ?_, ?_,
    (absurd · (lt_irrefl 0))⟩, ?_⟩
  case refine_4 => exact iff_of_false (by rintro ⟨ed, ⟨⟩, -⟩) fun h => h.1 rfl
  all_goals rintro _ _ ⟨⟩

/-- The order of epochs, in every run. -/
theorem sequential_of_run (run : Run (checkpointSystem ext base) history c) :
    Stores.Sequential none c.toStores := by
  refine Run.invariant (fun c => Stores.Sequential none c.toStores) ?_ ?_ run .trivial
  · intro c hgen
    exact (ordered_genesis hgen).toSequential
  · intro c l t h _ hstep
    exact sequential_step h hstep

/-- The main chain and the order of epochs, in every run that keeps deep headers. -/
theorem ordered_of_run (hp : ext.chain.Sound) (run : Run (checkpointSystem ext base) history c)
    (hsteps : Steps (fun c l => c.keepsDeepHeaders ext l = true) history) :
    (∃ tip, MainChain ext.chain base tip c.lc) ∧ Stores.Ordered c.lc none c.toStores := by
  refine Run.invariant (fun c => (∃ tip, MainChain ext.chain base tip c.lc) ∧
    Stores.Ordered c.lc none c.toStores) ?_ ?_ run hsteps
  · intro c hgen
    have hgen : Genesis ext base c := hgen
    exact ⟨⟨base, hgen.lc ▸ mainChain_base hgen.base_valid⟩, ordered_genesis hgen⟩
  · rintro c l t ⟨⟨tip, hmain⟩, hord⟩ hkeeps hstep
    have hstep : c.step ext l = some t := hstep
    exact ⟨exists_mainChain_step hp hmain hstep, ordered_step hp hmain hord hkeeps hstep⟩

end

/-- Ordered finalization.  If new headers never lower the tip and never remove a header as deep
as the finalization timeout, then in every state reached the finalized epochs are exactly the
epochs with submissions up to the last finalized one, and all epochs from 1 to it; each has one
key, with its blocks on the main chain at that depth.  Epochs are finalized in increasing order,
the data of a finalized epoch does not change, and a pass does not panic. -/
theorem epochs_finalized_in_order {ext : Externals} (hp : ext.chain.Sound)
    (base : LightClient.BTCHeaderInfo)
    {c : CheckpointState} (run : Run (checkpointSystem ext base) history c)
    (hsteps : Steps (fun c l => c.keepsDeepHeaders ext l = true) history) :
    (∀ epoch, c.btccheckpoint.Finalized epoch ↔
      c.btccheckpoint.keysOf epoch ≠ [] ∧
        epoch ≤ c.btccheckpoint.lastFinalizedEpoch) ∧
    (∀ epoch, c.btccheckpoint.Finalized epoch ↔
      0 < epoch ∧ epoch ≤ c.btccheckpoint.lastFinalizedEpoch) ∧
    (∀ epoch ed, c.btccheckpoint.epochData.get epoch = some ed → ed.status = .finalized →
      ∃ sk, ed.keys = [sk] ∧
        Deep c.lc c.btccheckpoint.params.checkpointFinalizationTimeout sk) ∧
    (∀ past ∈ history, ∀ epoch other, past.1.btccheckpoint.Finalized epoch →
      c.btccheckpoint.Finalized other → ¬ past.1.btccheckpoint.Finalized other →
      epoch < other) ∧
    (∀ past ∈ history, ∀ epoch ed, past.1.btccheckpoint.epochData.get epoch = some ed →
      ed.status = .finalized → c.btccheckpoint.epochData.get epoch = some ed) ∧
    ∃ stores', c.checkCheckpoints c.lc = .ok stores' := by
  -- up to the last finalized epoch all epochs have submissions
  have hfinalized : ∀ {c : CheckpointState}, Stores.Ordered c.lc none c.toStores → ∀ epoch,
      c.btccheckpoint.Finalized epoch ↔
        0 < epoch ∧ epoch ≤ c.btccheckpoint.lastFinalizedEpoch := by
    intro c h epoch
    rw [h.finalized_iff]
    refine and_congr_left fun hle => ⟨fun hne => ?_, fun hpos => ?_⟩
    · obtain ⟨ed, hget, -⟩ := Stores.exists_get_of_keysOf_ne_nil hne
      exact h.pos epoch ed hget
    · exact h.filled (h.last (by omega)) hpos hle
  obtain ⟨⟨tip, hmain⟩, hordered⟩ := ordered_of_run hp run hsteps
  obtain ⟨stores', hcheck, -⟩ := hordered.exists_checkCheckpoints hmain
  refine ⟨hordered.finalized_iff, hfinalized hordered, hordered.deep, ?_, ?_, stores', hcheck⟩
  · intro past hpast epoch other hepoch hother hnot
    obtain ⟨earlier, hrun, hsub, -⟩ := run.of_mem hpast
    obtain ⟨-, hbefore⟩ := ordered_of_run hp hrun fun step hstep => hsteps step (hsub hstep)
    rw [hfinalized hbefore] at hepoch hnot
    rw [hfinalized hordered] at hother
    omega
  · intro past hpast epoch ed hget hdone
    refine run.established (fun c => c.btccheckpoint.epochData.get epoch = some ed) hsteps hpast
      ?_ ?_
    · intro t hstep
      exact get_finalized_step hdone hget hstep
    · intro _ s l t _ _ hs hstep
      exact get_finalized_step hdone hs hstep

namespace Sample

/-- A block with a submission for epoch 2, on top of `older`. -/
def secondEpoch : BlockHeader := carrier (ext.chain.blockHash older) 2 2

/-- Both epochs have a submission, then two more blocks come at once. -/
def twoEpochs : List Operation :=
  [.sealCheckpoint (checkpoint 1), .sealCheckpoint (checkpoint 2),
    .insertHeaders [older, secondEpoch], submitOlder,
    .insertBTCSpvProof (submission (ext.chain.blockHash older) 2 2 1), .endBlock,
    .insertHeaders (batch 7 (ext.chain.blockHash secondEpoch) 2), .endBlock]

end Sample

/-- One pass finalizes epochs 1 and 2. -/
theorem two_epochs_finalized :
    ∃ history c, Run (checkpointSystem Sample.ext root) history c ∧
      Steps (fun c l => c.keepsDeepHeaders Sample.ext l = true) history ∧
      c.btccheckpoint.lastFinalizedEpoch = 2 ∧
      c.btccheckpoint.Finalized 1 ∧ c.btccheckpoint.Finalized 2 := by
  obtain ⟨history, c, run, hsteps, hlast⟩ := Run.of_labels
    (checkpointSystem Sample.ext root)
    (Q := fun c l => c.keepsDeepHeaders Sample.ext l = true)
    (P := fun c => c.btccheckpoint.lastFinalizedEpoch = 2)
    Sample.start_genesis Sample.twoEpochs (by decide +kernel)
  have hfinalized := (epochs_finalized_in_order BtcChainParams.simple_sound root run hsteps).2.1
  exact ⟨history, c, run, hsteps, hlast, (hfinalized 1).mpr (by omega),
    (hfinalized 2).mpr (by omega)⟩

end Babylon.BTCCheckpoint
