/-
  Which submissions have their data stored.

  The data of a submission should be there exactly as long as its key is listed by
  an epoch.  When an epoch is finalized, `checkCheckpoints` deletes the data of all
  its submissions but the one at the position of the best.  That position is only
  set when a submission beats an earlier best one; for the first submission that is
  kept it stays 0.  If a submission listed before it is dropped in the same pass, the
  data of the dropped one is kept and that of the best one deleted.
-/
import Babylon.BTCCheckpoint.Passes

set_option autoImplicit false

namespace Babylon.BTCCheckpoint

open Lib LightClient Checkpointing Sample LightClient.Sample State CheckpointState EpochData Stores

variable {lc : HeadersState}

/-! ## The position of the best submission -/

/-- The remembered position is the one of the best submission, unless that is the first
submission kept: then it is 0. -/
def PositionOf (keys : List SubmissionKey) (summary : EpochChangesSummary) : Prop :=
  ∀ best, summary.epochBestSubmission = some best →
    if summary.submissionsToKeep.head? = some best.submissionKey then summary.bestSubmissionIdx = 0
    else keys[summary.bestSubmissionIdx]? = some best.submissionKey

/-- The submissions before position `i` were summarized. -/
structure Summarized (lc : HeadersState) (parent : Option SubmissionBtcInfo)
    (seen rest : List SubmissionKey) (summary : EpochChangesSummary) : Prop where
  bestOf : BestOf lc parent summary
  kept : summary.submissionsToKeep ⊆ seen
  start : summary.epochBestSubmission = none → summary.bestSubmissionIdx = 0
  position : PositionOf (seen ++ rest) summary

variable {parent : Option SubmissionBtcInfo}

variable {seen rest : List SubmissionKey} {summary result : EpochChangesSummary}

theorem Summarized.added {sk : SubmissionKey} (h : Summarized lc parent seen (sk :: rest) summary)
    (hnd : (seen ++ sk :: rest).Nodup)
    (hres : addToSummary lc parent seen.length summary sk = .ok result) :
    Summarized lc parent (seen ++ [sk]) rest result := by
  have happend : seen ++ [sk] ++ rest = seen ++ sk :: rest := by simp
  have hnew : sk ∉ seen := fun hmem =>
    (List.nodup_append.mp hnd).2.2 sk hmem sk List.mem_cons_self rfl
  have hkept : summary.submissionsToKeep ⊆ seen ++ [sk] :=
    fun key hkey => List.mem_append_left _ (h.kept hkey)
  have hkeptNew : summary.submissionsToKeep ++ [sk] ⊆ seen ++ [sk] :=
    List.append_subset.mpr ⟨hkept, List.subset_append_right _ _⟩
  -- once there is a best submission, the first one kept does not change
  have hhead : summary.epochBestSubmission ≠ none →
      (summary.submissionsToKeep ++ [sk]).head? = summary.submissionsToKeep.head? := by
    intro hsome
    have hne := fun hnil => hsome (h.bestOf.none_iff.mpr hnil)
    cases hcase : summary.submissionsToKeep with
    | nil => exact absurd hcase hne
    | cons key others => rfl
  have hbestOf := (addToSummary_ok hres h.bestOf).1
  cases added_of_addToSummary hres with
  | dropped => exact ⟨hbestOf, hkept, h.start, happend.symm ▸ h.position⟩
  | first hinfo haft hnone =>
    refine ⟨hbestOf, hkeptNew, fun heq => (by cases heq), ?_⟩
    intro best heq
    obtain rfl := Option.some.inj heq
    have hkey := (getSubmissionBtcInfo_some hinfo).1
    have hnil := h.bestOf.none_iff.mp hnone
    simp [hnil, hkey, h.start hnone]
  | better hinfo haft hcur =>
    refine ⟨hbestOf, hkeptNew, fun heq => (by cases heq), ?_⟩
    intro best heq
    obtain rfl := Option.some.inj heq
    have hkey := (getSubmissionBtcInfo_some hinfo).1
    rw [hhead (Option.ne_none_iff_exists.mpr ⟨_, hcur.symm⟩), hkey, if_neg]
    · simp
    · intro hfirst
      exact hnew (h.kept (List.mem_of_mem_head? hfirst))
  | kept hinfo haft hcur =>
    refine ⟨hbestOf, hkeptNew, h.start, ?_⟩
    intro best heq
    rw [hhead (Option.ne_none_iff_exists.mpr ⟨_, hcur.symm⟩), happend]
    exact h.position best heq

theorem Summarized.all (h : Summarized lc parent seen rest summary) (hnd : (seen ++ rest).Nodup)
    (hres : summarize lc parent seen.length summary rest = .ok result) :
    Summarized lc parent (seen ++ rest) [] result := by
  induction rest generalizing seen summary with
  | nil =>
    obtain rfl := pure_ok_iff.mp hres
    simpa using h
  | cons sk rest ih =>
    simp only [summarize, bind_ok_iff] at hres
    obtain ⟨next, hnext, hrest⟩ := hres
    have happend : seen ++ [sk] ++ rest = seen ++ sk :: rest := by simp
    rw [← happend]
    exact ih (h.added hnd hnext) (happend.symm ▸ hnd) (by simpa using hrest)

/-- The position is wrong exactly if the best submission is the first one kept and not the
first one listed. -/
theorem bestSubmissionIdx_iff {ed : EpochData} {changes : EpochChangesSummary}
    {best : SubmissionBtcInfo} (hnd : ed.keys.Nodup)
    (hch : getEpochChanges lc parent ed = .ok changes)
    (hbest : changes.epochBestSubmission = some best) :
    ed.keys[changes.bestSubmissionIdx]? = some best.submissionKey ↔
      ((ed.keys.filter (keeps lc parent)).head? = some best.submissionKey →
        ed.keys.head? = some best.submissionKey) := by
  have hemp : Summarized lc parent [] ed.keys {} :=
    ⟨bestOf_empty, List.nil_subset _, fun _ => rfl, fun info hinfo => (by cases hinfo)⟩
  have hposn := (hemp.all hnd hch).position best hbest
  rw [← (getEpochChanges_ok hch).2.1]
  split at hposn
  case isTrue hfirst =>
    rw [hposn, ← List.head?_eq_getElem?]
    exact ⟨fun h _ => h, fun h => h hfirst⟩
  case isFalse ho =>
    refine iff_of_true (by simpa using hposn) fun h => absurd h ho

/-! ## Stored data -/

namespace State

/-- The data of a submission is stored exactly if an epoch lists its key. -/
def Consistent (s : State) : Prop :=
  ∀ sk, (s.submissions sk).isSome = true ↔ ∃ epoch, sk ∈ s.keysOf epoch

/-- The lists of the epochs and the stored data fit together. -/
structure Indexed (s : State) : Prop where
  consistent : s.Consistent
  nodup : ∀ epoch, (s.keysOf epoch).Nodup
  disjoint : ∀ epoch other sk, sk ∈ s.keysOf epoch → sk ∈ s.keysOf other → epoch = other
  finalized : ∀ epoch ed, s.epochData.get epoch = some ed → ed.status = .finalized →
    ∃ best, ed.keys = [best]

variable {s s' : State} {epoch : Nat} {ed : EpochData}

theorem indexed_blank (params : Params) : (blank params).Indexed where
  consistent := fun sk => by simp [blank, keysOf]
  nodup := fun epoch => by simp [blank, keysOf]
  disjoint := fun epoch other sk hmem => by simp [blank, keysOf] at hmem
  finalized := fun epoch ed hget => by simp [blank] at hget

/-- Dropping submissions of an epoch together with their data. -/
theorem Indexed.shrink (h : s.Indexed) (hget : s.epochData.get epoch = some ed) {ed' : EpochData}
    {deleted : List SubmissionKey} (hdata : s'.epochData = s.epochData.set epoch ed')
    (hsubmissions : s'.submissions = fun sk => if sk ∈ deleted then none else s.submissions sk)
    (hsub : ed'.keys.Sublist ed.keys)
    (hdeleted : ∀ sk, sk ∈ deleted ↔ sk ∈ ed.keys ∧ sk ∉ ed'.keys)
    (hfz : ed'.status = .finalized → ∃ best, ed'.keys = [best]) : s'.Indexed := by
  have hkeys := keysOf_of_set hdata
  have hold := keysOf_of_get hget
  have hsubset : ∀ other, (s'.keysOf other).Sublist (s.keysOf other) := by
    intro other
    rw [hkeys]
    split
    case isTrue heq => rwa [heq, hold]
    case isFalse => exact List.Sublist.refl _
  refine ⟨?_, ?_, ?_, ?_⟩
  · intro sk
    rw [hsubmissions]
    dsimp only
    split
    case isTrue hmem =>
      obtain ⟨hin, hout⟩ := (hdeleted sk).mp hmem
      refine iff_of_false (by simp) ?_
      rintro ⟨other, ho⟩
      -- the key is listed by this epoch only
      obtain rfl := h.disjoint other epoch sk ((hsubset other).subset ho) (hold ▸ hin)
      rw [hkeys, if_pos rfl] at ho
      exact hout ho
    case isFalse hmem =>
      rw [h.consistent]
      constructor
      · rintro ⟨other, ho⟩
        refine ⟨other, ?_⟩
        rw [hkeys]
        split
        case isTrue heq =>
          by_contra hout
          exact hmem ((hdeleted sk).mpr ⟨hold ▸ heq ▸ ho, hout⟩)
        case isFalse => exact ho
      · rintro ⟨other, ho⟩
        exact ⟨other, (hsubset other).subset ho⟩
  · intro other
    exact (h.nodup other).sublist (hsubset other)
  · intro first second sk hfirst hsecond
    exact h.disjoint first second sk ((hsubset first).subset hfirst)
      ((hsubset second).subset hsecond)
  · rw [hdata]
    exact KVStore.forall_set h.finalized hfz

/-- Recording a new submission. -/
theorem Indexed.record (h : s.Indexed) {sk : SubmissionKey} (sd : SubmissionData)
    (hfr : s.submissions sk = none)
    (hopen : ∀ ed, s.epochData.get epoch = some ed → ed.status ≠ .finalized) :
    ((s.saveEpochData epoch
      (((s.epochData.get epoch).getD new).appendKey sk)).saveSubmission sk sd).Indexed := by
  have hnew : ∀ other, sk ∉ s.keysOf other := by
    intro other hmem
    have hsome := (h.consistent sk).mpr ⟨other, hmem⟩
    rw [hfr] at hsome
    cases hsome
  have hkeys : ∀ other, ((s.saveEpochData epoch
      (((s.epochData.get epoch).getD new).appendKey sk)).saveSubmission sk sd).keysOf other =
        if other = epoch then s.keysOf epoch ++ [sk] else s.keysOf other := by
    intro other
    rw [keysOf_of_set (s := s) rfl, appendKey, keys_getD]
  refine ⟨?_, ?_, ?_, ?_⟩
  · intro key
    simp only [hkeys]
    show (Function.update s.submissions sk (some sd) key).isSome = true ↔ _
    rw [Function.update_apply]
    split
    case isTrue heq => exact iff_of_true rfl ⟨epoch, by simp [heq]⟩
    case isFalse hne =>
      rw [h.consistent]
      refine exists_congr fun other => ?_
      split
      case isTrue heq => simp [heq, hne]
      case isFalse => exact Iff.rfl
  · intro other
    rw [hkeys]
    split
    case isTrue =>
      refine List.nodup_append.mpr ⟨h.nodup epoch, List.nodup_singleton _, ?_⟩
      rintro key hkey _ hsk rfl
      exact hnew epoch (List.mem_singleton.mp hsk ▸ hkey)
    case isFalse => exact h.nodup other
  · -- the new key is listed by its epoch only
    have hcase : ∀ other key,
        key ∈ (if other = epoch then s.keysOf epoch ++ [sk] else s.keysOf other) →
        key ∈ s.keysOf other ∨ (other = epoch ∧ key = sk) := by
      intro other key hmem
      split at hmem
      case isTrue heq =>
        rcases List.mem_append.mp hmem with hmem | hmem
        · exact .inl (heq ▸ hmem)
        · exact .inr ⟨heq, List.mem_singleton.mp hmem⟩
      case isFalse => exact .inl hmem
    intro first second key hfirst hsecond
    rw [hkeys] at hfirst hsecond
    rcases hcase first key hfirst with hin | ⟨hep, hkey⟩
    · rcases hcase second key hsecond with hin' | ⟨-, hkey⟩
      · exact h.disjoint first second key hin hin'
      · exact absurd (hkey ▸ hin) (hnew first)
    · rcases hcase second key hsecond with hin' | ⟨hepoch', -⟩
      · exact absurd (hkey ▸ hin') (hnew second)
      · exact hep.trans hepoch'.symm
  · refine KVStore.forall_set h.finalized fun hst => ?_
    cases hget : s.epochData.get epoch with
    | none => rw [hget] at hst; cases hst
    | some old => rw [hget] at hst; exact absurd hst (hopen old hget)

end State

/-! ## One pass -/

namespace Stores

variable {stores stores' : Stores} {parentEpochInfo : ParentEpochInfo} {epoch : Nat}
  {ed : EpochData} {best : Option SubmissionBtcInfo}

/-- An epoch that is finalized with the first submission that is kept has this one as its
first: no submission listed before it is dropped in the same pass. -/
def PicksBest (lc : HeadersState) (stores : Stores) (parentEpochInfo : ParentEpochInfo)
    (ed : EpochData) (best : Option SubmissionBtcInfo) : Prop :=
  ∀ info ∈ best, ed.status ≠ .finalized →
    stores.btccheckpoint.checkSubmissionStatus info = .finalized →
    (ed.keys.filter (keeps lc parentEpochInfo.join)).head? = some info.submissionKey →
    ed.keys.head? = some info.submissionKey

instance : Decidable (PicksBest lc stores parentEpochInfo ed best) :=
  inferInstanceAs (Decidable (∀ info ∈ best, _))

/-- The same for all epochs that a pass visits. -/
def picksBests (lc : HeadersState) : Stores → ParentEpochInfo → List (Nat × EpochData) → Bool
  | _, _, [] => true
  | stores, parentEpochInfo, (epoch, ed) :: rest =>
    decide (ed.keys = []) ||
      match stores.checkEpoch lc parentEpochInfo epoch ed with
      | .ok (stores', best) =>
        decide (PicksBest lc stores parentEpochInfo ed best) &&
          picksBests lc stores' (some best) rest
      | .error _ => true

theorem nextStatus_eq_finalized {status bestStatus : BtcStatus} (h : status ≠ .finalized) :
    nextStatus status bestStatus = .finalized ↔ bestStatus = .finalized := by
  unfold nextStatus
  split
  case isTrue hbest => exact iff_of_true rfl hbest
  case isFalse hbest =>
    split
    case isTrue => rfl
    case isFalse => exact iff_of_false h hbest

/-- With the right position, the data of all other submissions is deleted. -/
theorem mem_deletedKeys {changes : EpochChangesSummary} {info : SubmissionBtcInfo}
    {status : BtcStatus} (hnd : ed.keys.Nodup)
    (hch : getEpochChanges lc parent ed = .ok changes)
    (hposn : status = .finalized → ed.keys[changes.bestSubmissionIdx]? = some info.submissionKey)
    (sk : SubmissionKey) :
    sk ∈ deletedKeys ed status changes ↔
      sk ∈ ed.keys ∧ sk ∉ remainingKeys status changes info := by
  unfold deletedKeys remainingKeys
  split
  case isTrue hst =>
    rw [List.mem_eraseIdx_iff_getElem?, List.mem_singleton]
    have hat := hposn hst
    constructor
    · rintro ⟨i, hne, hi⟩
      refine ⟨List.mem_of_getElem? hi, ?_⟩
      rintro rfl
      exact hne ((List.getElem?_inj (List.getElem?_eq_some_iff.mp hi).1 hnd).mp (hi.trans hat.symm))
    · rintro ⟨hmem, hne⟩
      obtain ⟨i, hi⟩ := List.mem_iff_getElem?.mp hmem
      refine ⟨i, ?_, hi⟩
      rintro rfl
      exact hne (Option.some.inj (hi.symm.trans hat))
  case isFalse =>
    rw [(getEpochChanges_ok hch).2.1, (getEpochChanges_ok hch).2.2]
    simp only [List.mem_filter, Bool.not_eq_true', not_and, Bool.not_eq_true]
    exact ⟨fun h => ⟨h.1, fun _ => h.2⟩, fun h => ⟨h.1, h.2 h.1⟩⟩

section

variable (h : stores.btccheckpoint.Indexed)
  (hget : stores.btccheckpoint.epochData.get epoch = some ed)
  (hout : EpochOutcome lc stores parentEpochInfo epoch ed stores' best)

include h hget hout

theorem EpochOutcome.indexed
    (hpicks : PicksBest lc stores parentEpochInfo ed best) : stores'.btccheckpoint.Indexed := by
  have hnd : ed.keys.Nodup := keysOf_of_get hget ▸ h.nodup epoch
  cases hout with
  | finalized => exact h
  | forgotten hst =>
    have hforget := forget_btccheckpoint stores epoch ed
    refine h.shrink hget (congrArg epochData hforget) (congrArg submissions hforget)
      (List.nil_sublist _) ?_ ?_
    · simp
    · exact fun hfz => absurd hfz hst
  | @settled changes info hst _ hch hbest =>
    refine h.shrink hget (congrArg epochData (settle_btccheckpoint _ _ hst _ _))
      (congrArg submissions (settle_btccheckpoint _ _ hst _ _))
      (remainingKeys_sublist hch hbest _) (mem_deletedKeys hnd hch ?_) ?_
    · intro hfz
      rw [bestSubmissionIdx_iff hnd hch hbest]
      exact hpicks info rfl hst ((nextStatus_eq_finalized hst).mp hfz)
    · intro hfz
      exact ⟨info.submissionKey, if_pos hfz⟩

/-- With the wrong position, the only submission the epoch keeps loses its data. -/
theorem EpochOutcome.lost
    (hpicks : ¬ PicksBest lc stores parentEpochInfo ed best) :
    ∃ sk ∈ stores'.btccheckpoint.keysOf epoch, stores'.btccheckpoint.submissions sk = none := by
  have hnd : ed.keys.Nodup := keysOf_of_get hget ▸ h.nodup epoch
  unfold PicksBest at hpicks
  push Not at hpicks
  obtain ⟨info, hinfo, hst, hfz, hfirst, hlst⟩ := hpicks
  cases hout with
  | finalized hfnl => exact absurd hfnl hst
  | forgotten => cases hinfo
  | @settled changes picked _ _ hch hbest =>
    obtain rfl : picked = info := Option.some.inj hinfo
    have hnext := (nextStatus_eq_finalized hst).mpr hfz
    have hwrong : ed.keys[changes.bestSubmissionIdx]? ≠ some picked.submissionKey := by
      intro hat
      exact hlst ((bestSubmissionIdx_iff hnd hch hbest).mp hat hfirst)
    refine ⟨picked.submissionKey, ?_, ?_⟩
    · rw [keysOf_of_set (congrArg epochData (settle_btccheckpoint _ _ hst _ _)), if_pos rfl, hnext]
      exact List.mem_singleton_self _
    · rw [settle_btccheckpoint _ _ hst, hnext]
      refine if_pos ?_
      obtain ⟨i, hi⟩ := List.mem_iff_getElem?.mp (best_mem_keys hch hbest)
      rw [deletedKeys, if_pos rfl, List.mem_eraseIdx_iff_getElem?]
      refine ⟨i, ?_, hi⟩
      rintro rfl
      exact hwrong hi

end

/-- A pass leaves consistent data exactly if it picks the right position for every epoch. -/
theorem checkEpochs_consistent_iff {entries : List (Nat × EpochData)}
    (h : stores.btccheckpoint.Indexed) (hpend : Pending stores entries)
    (hchk : checkEpochs lc stores parentEpochInfo entries = .ok stores') :
    (stores'.btccheckpoint.Consistent ↔ picksBests lc stores parentEpochInfo entries = true) ∧
      (picksBests lc stores parentEpochInfo entries = true → stores'.btccheckpoint.Indexed) := by
  induction entries generalizing stores parentEpochInfo with
  | nil =>
    obtain rfl := pure_ok_iff.mp hchk
    exact ⟨iff_of_true h.consistent rfl, fun _ => h⟩
  | cons entry rest ih =>
    obtain ⟨epoch, ed⟩ := entry
    rw [checkEpochs] at hchk
    split at hchk
    case isTrue hkeys =>
      obtain rfl := pure_ok_iff.mp hchk
      exact ⟨iff_of_true h.consistent (by simp [picksBests, hkeys]), fun _ => h⟩
    case isFalse hkeys =>
      simp only [bind_ok_iff] at hchk
      obtain ⟨⟨next, best⟩, hnext, hrest⟩ := hchk
      have hget := hpend.2 (epoch, ed) List.mem_cons_self
      have houtcome := epochOutcome_of_checkEpoch hnext
      have htail := hpend.tail houtcome.frame
      have hunfold : picksBests lc stores parentEpochInfo ((epoch, ed) :: rest) =
          (decide (PicksBest lc stores parentEpochInfo ed best) &&
            picksBests lc next (some best) rest) := by
        simp [picksBests, hkeys, hnext]
      rw [hunfold, Bool.and_eq_true, decide_eq_true_eq]
      rcases Decidable.em (PicksBest lc stores parentEpochInfo ed best) with hpicks | hpicks
      · obtain ⟨hiff, hixd⟩ := ih (houtcome.indexed h hget hpicks) htail hrest
        exact ⟨by rw [hiff, and_iff_right hpicks], fun hall => hixd hall.2⟩
      · refine ⟨iff_of_false ?_ fun hall => hpicks hall.1, fun hall => absurd hall.1 hpicks⟩
        -- later epochs do not list the key and do not bring the data back
        obtain ⟨sk, hlst, hnone⟩ := houtcome.lost h hget hpicks
        have hlater := (List.pairwise_cons.mp hpend.1).1
        have hlost := checkEpochs_preserves
          (fun st => sk ∈ st.btccheckpoint.keysOf epoch ∧ st.btccheckpoint.submissions sk = none)
          (fun st parent other data st' best hmem hlost hgetOther _ hout => by
            refine ⟨?_, ?_⟩
            · rw [keysOf, hout.frame.epochData epoch (ne_of_lt (hlater _ hmem))]
              exact hlost.1
            · rcases hout.frame.submissions sk with hsame | hnone
              · exact hsame.trans hlost.2
              · exact hnone) ⟨hlst, hnone⟩ htail hrest
        intro hcons
        have hsome := (hcons sk).mpr ⟨epoch, hlost.1⟩
        rw [hlost.2] at hsome
        cases hsome

end Stores

/-! ## Whole runs -/

namespace CheckpointState

/-- The pass at the end of a block picks the right position for every epoch. -/
def picksBest (c : CheckpointState) : Operation → Bool
  | .endBlock => !c.lcUpdated ||
      picksBests c.lc c.toStores none (epochsToCheck c.btccheckpoint)
  | _ => true

variable {ext : Externals} {c t : CheckpointState}

/-- The end of a block leaves consistent data exactly if its pass picks the right positions. -/
theorem endBlock_consistent_iff (h : c.btccheckpoint.Indexed)
    (hstep : c.step ext .endBlock = some t) :
    (t.btccheckpoint.Consistent ↔ c.picksBest .endBlock = true) ∧
      (c.picksBest .endBlock = true → t.btccheckpoint.Indexed) := by
  cases stepped hstep with
  | passed hupd hstr =>
    simpa [picksBest, hupd] using checkEpochs_consistent_iff h
      (pending_epochsToCheck c.toStores) hstr
  | idle hupd => exact ⟨iff_of_true h.consistent (by simp [picksBest, hupd]), fun _ => h⟩

theorem step_indexed {l : Operation} (h : c.btccheckpoint.Indexed)
    (hpicks : c.picksBest l = true) (hstep : c.step ext l = some t) :
    t.btccheckpoint.Indexed := by
  cases stepped hstep with
  | insertHeaders | sealCheckpoint | conflicting => exact h
  | recorded hrec => exact h.record _ hrec.fresh hrec.not_finalized
  | updateParams => exact ⟨h.consistent, h.nodup, h.disjoint, h.finalized⟩
  | passed | idle => exact (endBlock_consistent_iff h hstep).2 hpicks

/-- A pass lists no new submission. -/
theorem endBlock_keysOf_subset (hstep : c.step ext .endBlock = some t) (epoch : Nat) :
    t.btccheckpoint.keysOf epoch ⊆ c.btccheckpoint.keysOf epoch := by
  cases stepped hstep with
  | passed _ hstr =>
    refine checkCheckpoints_preserves
      (fun st => st.btccheckpoint.keysOf epoch ⊆ c.btccheckpoint.keysOf epoch) ?_
      (List.Subset.refl _) hstr
    intro st parent other ed st' best hsub hget _ hout
    exact List.Subset.trans (hout.keysOf_sublist hget epoch).subset hsub
  | idle => exact List.Subset.refl _

end CheckpointState

/-- In every run whose passes pick the right positions, the data of a submission is stored
exactly if an epoch lists its key.  After such a run, the end of a block keeps this exactly if
its pass picks the right positions too, and then the only submission left of a finalized epoch
has its data, and every other one the epoch had lost it. -/
theorem stored_submissions_are_listed (ext : Externals) (base : LightClient.BTCHeaderInfo)
    {history : List (CheckpointState × Operation)} {c : CheckpointState}
    (run : Run (checkpointSystem ext base) history c)
    (hsteps : Steps (fun c l => c.picksBest l = true) history) :
    c.btccheckpoint.Consistent ∧
    ∀ t, (checkpointSystem ext base).step c .endBlock = some t →
      (t.btccheckpoint.Consistent ↔ c.picksBest .endBlock = true) ∧
      (c.picksBest .endBlock = true → ∀ epoch ed,
        t.btccheckpoint.epochData.get epoch = some ed → ed.status = .finalized →
        ∃ best, ed.keys = [best] ∧ (t.btccheckpoint.submissions best).isSome = true ∧
          ∀ sk ∈ c.btccheckpoint.keysOf epoch, sk ≠ best →
            t.btccheckpoint.submissions sk = none) := by
  have hindexed : c.btccheckpoint.Indexed := by
    refine Run.invariant (fun c => c.btccheckpoint.Indexed) ?_ ?_ run hsteps
    · intro c hgenesis
      rw [hgenesis.btccheckpoint]
      exact indexed_blank _
    · intro c l t h hpicks hstep
      exact step_indexed h hpicks hstep
  refine ⟨hindexed.consistent, fun t hstep => ?_⟩
  have hstep : c.step ext .endBlock = some t := hstep
  obtain ⟨hiff, hafter⟩ := endBlock_consistent_iff hindexed hstep
  refine ⟨hiff, fun hpicks epoch ed hget hstatus => ?_⟩
  have ht := hafter hpicks
  obtain ⟨best, hkeys⟩ := ht.finalized epoch ed hget hstatus
  have hlisted : t.btccheckpoint.keysOf epoch = [best] := (keysOf_of_get hget).trans hkeys
  refine ⟨best, hkeys, (ht.consistent best).mpr ⟨epoch, by simp [hlisted]⟩, ?_⟩
  intro sk hsk hne
  rw [← Option.not_isSome_iff_eq_none, ht.consistent]
  rintro ⟨other, hother⟩
  -- the submission was listed by this epoch only
  have hwas := endBlock_keysOf_subset hstep other hother
  obtain rfl := hindexed.disjoint epoch other sk hsk hwas
  rw [hlisted, List.mem_singleton] at hother
  exact hne hother

namespace Sample

/-- A block with a submission for epoch 1, on the base header. -/
def older : BlockHeader := carrier root.hash 1 0

/-- A block with another one, on top of it. -/
def younger : BlockHeader := carrier (ext.chain.blockHash older) 1 1

/-- The key of the submission in a block. -/
def keyIn (block : BlockHeader) : SubmissionKey :=
  [⟨0, ext.chain.blockHash block⟩, ⟨1, ext.chain.blockHash block⟩]

/-- The two messages. -/
def submitOlder : Operation := .insertBTCSpvProof (submission root.hash 1 0 1)

@[inherit_doc submitOlder]
def submitYounger : Operation :=
  .insertBTCSpvProof (submission (ext.chain.blockHash older) 1 1 1)

/-- Both submissions are recorded in the given order, then the younger block is replaced by
two others, which makes the older one deep enough. -/
def twoSubmissions (messages : List Operation) : List Operation :=
  [.sealCheckpoint (checkpoint 1), .insertHeaders [older, younger]] ++ messages ++
    [.endBlock, .insertHeaders (batch 7 (ext.chain.blockHash older) 2), .endBlock]

end Sample

/-- Up to the last end of block no epoch is finalized.  There epoch 1 is finalized with the
older submission; but the younger one was listed first, so its data stays and that of the
older one is deleted. -/
theorem best_submission_data_deleted :
    ∃ history t, Run (checkpointSystem Sample.ext root) history t ∧
      Steps (fun c _ => (c.btccheckpoint.epochData.entries.all
        fun entry => entry.2.status ≠ .finalized) = true) history ∧
      (t.btccheckpoint.epochData.get 1).any (fun ed =>
        decide (ed.status = .finalized ∧ ed.keys = [keyIn older])) = true ∧
      t.btccheckpoint.submissions (keyIn older) = none ∧
      (t.btccheckpoint.submissions (keyIn younger)).isSome = true ∧
      ¬ t.btccheckpoint.Consistent := by
  obtain ⟨history, t, run, hsteps, hfinalized, hnone, hsome⟩ := Run.of_labels
    (checkpointSystem Sample.ext root)
    (Q := fun c _ => (c.btccheckpoint.epochData.entries.all
      fun entry => entry.2.status ≠ .finalized) = true)
    (P := fun t => (t.btccheckpoint.epochData.get 1).any (fun ed =>
        decide (ed.status = .finalized ∧ ed.keys = [keyIn older])) = true ∧
      t.btccheckpoint.submissions (keyIn older) = none ∧
      (t.btccheckpoint.submissions (keyIn younger)).isSome = true)
    start_genesis (twoSubmissions [submitYounger, submitOlder])
    (by decide +kernel)
  refine ⟨history, t, run, hsteps, hfinalized, hnone, hsome, fun hconsistent => ?_⟩
  obtain ⟨ed, hget, hed⟩ := (Option.any_eq_true _ _).mp hfinalized
  have hlisted : keyIn older ∈ t.btccheckpoint.keysOf 1 := by
    rw [keysOf_of_get hget, (of_decide_eq_true hed).2]
    exact List.mem_singleton_self _
  have hstored := (hconsistent _).mpr ⟨1, hlisted⟩
  rw [hnone] at hstored
  cases hstored

/-- With the older submission listed first, the same run keeps the data of the finalized one. -/
theorem best_submission_data_kept :
    ∃ history t, Run (checkpointSystem Sample.ext root) history t ∧
      Steps (fun c l => c.picksBest l = true) history ∧
      (t.btccheckpoint.epochData.get 1).any (fun ed =>
        decide (ed.status = .finalized ∧ ed.keys = [keyIn older])) = true ∧
      t.btccheckpoint.Consistent := by
  obtain ⟨history, t, run, hsteps, hfinalized⟩ := Run.of_labels
    (checkpointSystem Sample.ext root) (Q := fun c l => c.picksBest l = true)
    (P := fun t => (t.btccheckpoint.epochData.get 1).any (fun ed =>
      decide (ed.status = .finalized ∧ ed.keys = [keyIn older])) = true)
    start_genesis (twoSubmissions [submitOlder, submitYounger])
    (by decide +kernel)
  exact ⟨history, t, run, hsteps, hfinalized,
    (stored_submissions_are_listed Sample.ext root run hsteps).1⟩

end Babylon.BTCCheckpoint
