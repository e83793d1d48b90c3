/-
  What one pass of `checkCheckpoints` does.

  The lemmas say once what the functions of the keeper compute: where a submission
  stands on the Bitcoin chain, which submissions of an epoch are kept, the four things
  that can happen to an epoch (`EpochOutcome`), and what a step of the system is.
  The invariants of the modules that follow are derived from these.
-/
import Babylon.BTCCheckpoint.MsgServer

set_option autoImplicit false

namespace Babylon.BTCCheckpoint

open Lib LightClient Checkpointing KVStore State Checkpointing.State List Option

variable {lc : HeadersState}

/-! ## Where a submission stands -/

/-- The block of a transaction is on the main chain, at some depth. -/
def OnMainChain (lc : HeadersState) (tk : TransactionKey) (depth : Nat) : Prop :=
  lc.mainChainDepth tk.hash = .ok (some depth)

/-- The depths a scan has seen lie between the youngest and the oldest one. -/
theorem scanBlocks_some {scanned result : Nat × Option (Nat × UInt32)} {keys : List TransactionKey}
    (h : scanBlocks lc scanned keys = .ok (some result)) :
    scanned.1 ≤ result.1 ∧
    (∀ youngest, scanned.2 = some youngest → ∃ y, result.2 = some y ∧ y.1 ≤ youngest.1) ∧
    ∀ tk ∈ keys, ∃ depth y, OnMainChain lc tk depth ∧ depth ≤ result.1 ∧ result.2 = some y ∧
      y.1 ≤ depth := by
  induction keys generalizing scanned with
  | nil =>
    obtain rfl : scanned = result := by simpa [scanBlocks, pure_ok_iff] using h
    exact ⟨le_rfl, fun youngest hy => ⟨youngest, hy, le_rfl⟩, fun tk htk => (by cases htk)⟩
  | cons tk rest ih =>
    simp only [scanBlocks, bind_ok_iff] at h
    obtain ⟨depth, hdep, hrest⟩ := h
    cases depth with
    | none => cases hrest
    | some depth =>
      obtain ⟨holdest, hyng, hall⟩ := ih hrest
      -- the scan of this block leaves a youngest depth at most this one
      obtain ⟨y, hy, hyDepth, hyOld⟩ : ∃ y, (scanBlock scanned depth tk.index).2 = some y ∧
          y.1 ≤ depth ∧ ∀ youngest, scanned.2 = some youngest → y.1 ≤ youngest.1 := by
        unfold scanBlock
        cases hscanned : scanned.2 with
        | none => exact ⟨(depth, tk.index), rfl, le_rfl, fun _ hnone => (by cases hnone)⟩
        | some old =>
          dsimp only
          split
          case isTrue hlt =>
            exact ⟨_, rfl, le_rfl, fun _ hold => some.inj hold ▸ hlt.le⟩
          case isFalse hge =>
            have hle := not_lt.mp hge
            split
            case isTrue => exact ⟨_, rfl, hle, fun _ hold => some.inj hold ▸ le_rfl⟩
            case isFalse => exact ⟨_, rfl, hle, fun _ hold => some.inj hold ▸ le_rfl⟩
      obtain ⟨final, hfnl, hfinalLe⟩ := hyng y hy
      have hmax : max scanned.1 depth ≤ result.1 := holdest
      refine ⟨le_trans (le_max_left _ _) hmax, ?_, ?_⟩
      · intro youngest hold
        exact ⟨final, hfnl, le_trans hfinalLe (hyOld youngest hold)⟩
      · intro other ho
        rcases mem_cons.mp ho with rfl | ho
        · exact ⟨depth, final, hdep, le_trans (le_max_right _ _) hmax, hfnl,
            le_trans hfinalLe hyDepth⟩
        · exact hall other ho

variable {sk : SubmissionKey}

/-- A submission that is found has all its blocks on the main chain, between its youngest
and its oldest depth. -/
theorem getSubmissionBtcInfo_some {info : SubmissionBtcInfo}
    (h : getSubmissionBtcInfo lc sk = .ok (some info)) :
    info.submissionKey = sk ∧ ∀ tk ∈ sk, ∃ depth, OnMainChain lc tk depth ∧
      info.youngestBlockDepth ≤ depth ∧ depth ≤ info.oldestBlockDepth := by
  simp only [getSubmissionBtcInfo, bind_ok_iff] at h
  obtain ⟨scanned, hscanned, hinfo⟩ := h
  cases scanned with
  | none => cases hinfo
  | some scanned =>
    simp only [ok_iff, some.injEq] at hinfo
    obtain ⟨youngest, hyng, rfl⟩ := hinfo
    obtain ⟨-, -, hall⟩ := scanBlocks_some hscanned
    refine ⟨rfl, fun tk htk => ?_⟩
    obtain ⟨depth, y, hon, hle, hy, hge⟩ := hall tk htk
    obtain rfl : youngest = y := some.inj (hyng.symm.trans hy)
    exact ⟨depth, hon, hge, hle⟩

variable {p : BtcChainParams} {base tip : LightClient.BTCHeaderInfo}

/-- A scan does not panic on a main chain, and does not end early if all blocks are on it. -/
theorem exists_scanBlocks (h : MainChain p base tip lc) (keys : List TransactionKey)
    (scanned : Nat × Option (Nat × UInt32)) :
    ∃ result, scanBlocks lc scanned keys = .ok result ∧
      ((∀ tk ∈ keys, ∃ depth, OnMainChain lc tk depth) → result ≠ none) := by
  induction keys generalizing scanned with
  | nil => exact ⟨some scanned, rfl, fun _ => some_ne_none _⟩
  | cons tk rest ih =>
    simp only [scanBlocks, bind_ok_iff]
    obtain ⟨found, hfnd, hiff⟩ := h.getHeaderByHash_eq tk.hash
    cases found with
    | none =>
      have hdep : lc.mainChainDepth tk.hash = .ok none := by
        simp [HeadersState.mainChainDepth, hfnd, pure_ok_iff]
      refine ⟨none, ⟨none, hdep, rfl⟩, fun hall => ?_⟩
      obtain ⟨depth, hon⟩ := hall tk mem_cons_self
      cases hdep.symm.trans hon
    | some info =>
      obtain ⟨hget, hhash⟩ := (hiff info).mp rfl
      have hdep := h.mainChainDepth_some_iff.mpr ⟨info, hget, hhash, rfl⟩
      obtain ⟨result, hres, hfound⟩ := ih (scanBlock scanned _ tk.index)
      exact ⟨result, ⟨_, hdep, hres⟩, fun hall => hfound (forall_mem_cons.mp hall).2⟩

/-- Looking up a submission does not panic on a main chain, and finds one whose blocks are on
it. -/
theorem exists_getSubmissionBtcInfo (h : MainChain p base tip lc) (hne : sk ≠ []) :
    ∃ found, getSubmissionBtcInfo lc sk = .ok found ∧
      ((∀ tk ∈ sk, ∃ depth, OnMainChain lc tk depth) → found ≠ none) := by
  obtain ⟨result, hres, hfound⟩ := exists_scanBlocks h sk (0, none)
  simp only [getSubmissionBtcInfo, bind_ok_iff]
  cases result with
  | none => exact ⟨none, ⟨none, hres, rfl⟩, fun hall => absurd rfl (hfound hall)⟩
  | some scanned =>
    -- after the first block a youngest depth is known
    obtain ⟨tk, htk⟩ := exists_mem_of_ne_nil sk hne
    obtain ⟨-, youngest, -, -, hy, -⟩ := (scanBlocks_some hres).2.2 tk htk
    refine ⟨some ⟨sk, scanned.1, youngest.1, youngest.2⟩, ⟨some scanned, hres, ?_⟩,
      fun _ => some_ne_none _⟩
    simp only [ok_iff]
    exact ⟨youngest, hy, rfl⟩

/-! ## The submissions of an epoch -/

/-- The submission is on the main chain, and after the best one of the parent epoch. -/
def keeps (lc : HeadersState) (parentEpochBestSubmission : Option SubmissionBtcInfo)
    (sk : SubmissionKey) : Bool :=
  match getSubmissionBtcInfo lc sk with
  | .ok (some info) => parentEpochBestSubmission.all info.happenedAfter
  | _ => false

theorem SubmissionBtcInfo.isBetterThan_self (info : SubmissionBtcInfo) :
    info.isBetterThan info = false := by
  simp [SubmissionBtcInfo.isBetterThan]

/-- What does not beat a submission does not beat a better one. -/
theorem SubmissionBtcInfo.not_isBetterThan_of_better {new current other : SubmissionBtcInfo}
    (hnew : new.isBetterThan current = true) (ho : other.isBetterThan current = false) :
    other.isBetterThan new = false := by
  unfold SubmissionBtcInfo.isBetterThan at hnew ho ⊢
  split at ho
  case isTrue => cases ho
  case isFalse hdep =>
    split at hnew
    case isTrue hdeeper => rw [if_neg (by omega), if_pos (by omega)]
    case isFalse =>
      split at hnew
      case isTrue => cases hnew
      case isFalse =>
        split at ho
        case isTrue => rw [if_neg (by omega), if_pos (by omega)]
        case isFalse =>
          have hlt := of_decide_eq_true hnew
          have hle := of_decide_eq_false ho
          rw [if_neg (by omega), if_neg (by omega)]
          exact decide_eq_false fun hbeats => hle (UInt32.lt_trans hbeats hlt)

/-- A best submission is one of those kept, described by where it stands, and none of them
beats it; there is none exactly if nothing is kept. -/
structure BestOf (lc : HeadersState) (parent : Option SubmissionBtcInfo)
    (summary : EpochChangesSummary) : Prop where
  none_iff : summary.epochBestSubmission = none ↔ summary.submissionsToKeep = []
  unbeaten : ∀ info, summary.epochBestSubmission = some info →
    ∀ sk ∈ summary.submissionsToKeep, ∀ other,
      getSubmissionBtcInfo lc sk = .ok (some other) → other.isBetterThan info = false
  some : ∀ info, summary.epochBestSubmission = some info →
    info.submissionKey ∈ summary.submissionsToKeep ∧
      getSubmissionBtcInfo lc info.submissionKey = .ok (some info) ∧
      parent.all info.happenedAfter = true

variable {parent : Option SubmissionBtcInfo}

theorem bestOf_empty : BestOf lc parent {} :=
  ⟨by simp, fun info hinfo => (by cases hinfo), fun info hinfo => (by cases hinfo)⟩

/-- The four ways in which a submission is added to a summary. -/
inductive Added (lc : HeadersState) (parent : Option SubmissionBtcInfo) (i : Nat)
    (summary : EpochChangesSummary) (sk : SubmissionKey) : EpochChangesSummary → Prop
  | dropped (hdrop : keeps lc parent sk = false) : Added lc parent i summary sk
      { summary with submissionsToDelete := summary.submissionsToDelete ++ [sk] }
  | first {info : SubmissionBtcInfo} (hinfo : getSubmissionBtcInfo lc sk = .ok (some info))
      (hafter : parent.all info.happenedAfter = true) (hnone : summary.epochBestSubmission = none) :
      Added lc parent i summary sk
        { summary with
          submissionsToKeep := summary.submissionsToKeep ++ [sk]
          epochBestSubmission := some info }
  | better {info : SubmissionBtcInfo} (hinfo : getSubmissionBtcInfo lc sk = .ok (some info))
      (hafter : parent.all info.happenedAfter = true) {current : SubmissionBtcInfo}
      (hcurrent : summary.epochBestSubmission = some current)
      (hbetter : info.isBetterThan current = true) :
      Added lc parent i summary sk
        { summary with
          submissionsToKeep := summary.submissionsToKeep ++ [sk]
          epochBestSubmission := some info
          bestSubmissionIdx := i }
  | kept {info : SubmissionBtcInfo} (hinfo : getSubmissionBtcInfo lc sk = .ok (some info))
      (hafter : parent.all info.happenedAfter = true) {current : SubmissionBtcInfo}
      (hcurrent : summary.epochBestSubmission = some current)
      (hbetter : info.isBetterThan current = false) :
      Added lc parent i summary sk
        { summary with submissionsToKeep := summary.submissionsToKeep ++ [sk] }

variable {result summary : EpochChangesSummary}

theorem added_of_addToSummary {i : Nat} (h : addToSummary lc parent i summary sk = .ok result) :
    Added lc parent i summary sk result := by
  simp only [addToSummary, ok_iff] at h
  obtain ⟨_, -, found, hfnd, hres⟩ := h
  cases found with
  | none =>
    obtain rfl := pure_ok_iff.mp hres
    exact .dropped (by simp [keeps, hfnd])
  | some info =>
    dsimp only at hres
    split at hres
    case isTrue hearly =>
      obtain rfl := pure_ok_iff.mp hres
      refine .dropped ?_
      cases parent with
      | none => simp at hearly
      | some p => simpa [keeps, hfnd] using hearly
    case isFalse hlate =>
      have haft : parent.all info.happenedAfter = true := by
        cases parent with
        | none => rfl
        | some p => simpa using hlate
      cases hcur : summary.epochBestSubmission with
      | none =>
        rw [hcur] at hres
        obtain rfl := pure_ok_iff.mp hres
        exact .first hfnd haft hcur
      | some current =>
        rw [hcur] at hres
        dsimp only at hres
        split at hres
        case isTrue hbetter =>
          obtain rfl := pure_ok_iff.mp hres
          exact .better hfnd haft hcur hbetter
        case isFalse hbetter =>
          obtain rfl := pure_ok_iff.mp hres
          rw [← hcur]
          exact .kept hfnd haft hcur (Bool.eq_false_iff.mpr hbetter)

theorem addToSummary_ok {i : Nat} (h : addToSummary lc parent i summary sk = .ok result)
    (hbest : BestOf lc parent summary) :
    BestOf lc parent result ∧
      result.submissionsToKeep = summary.submissionsToKeep ++ [sk].filter (keeps lc parent) ∧
      result.submissionsToDelete =
        summary.submissionsToDelete ++ [sk].filter fun sk => !keeps lc parent sk := by
  -- a submission that is kept can become the best one
  have hnew : ∀ info, getSubmissionBtcInfo lc sk = .ok (some info) →
      parent.all info.happenedAfter = true →
      keeps lc parent sk = true ∧ info.submissionKey ∈ summary.submissionsToKeep ++ [sk] ∧
        getSubmissionBtcInfo lc info.submissionKey = .ok (some info) := by
    intro info hinfo haft
    have hkey := (getSubmissionBtcInfo_some hinfo).1
    exact ⟨by simp only [keeps, hinfo, haft], by simp [hkey], hkey ▸ hinfo⟩
  -- and what beats neither the submissions before nor this one is unbeaten
  have hbeaten : ∀ best : SubmissionBtcInfo,
      (∀ sk ∈ summary.submissionsToKeep, ∀ other,
        getSubmissionBtcInfo lc sk = .ok (some other) → other.isBetterThan best = false) →
      ∀ info, getSubmissionBtcInfo lc sk = .ok (some info) → info.isBetterThan best = false →
      ∀ key ∈ summary.submissionsToKeep ++ [sk], ∀ other,
        getSubmissionBtcInfo lc key = .ok (some other) → other.isBetterThan best = false := by
    intro best hold info hinfo hthis key hkey other ho
    rcases mem_append.mp hkey with hmem | hmem
    · exact hold key hmem other ho
    · obtain rfl := mem_singleton.mp hmem
      obtain rfl := some.inj (Except.ok.inj (hinfo.symm.trans ho))
      exact hthis
  cases added_of_addToSummary h with
  | dropped hdrop =>
    exact ⟨⟨hbest.none_iff, hbest.unbeaten, hbest.some⟩, by simp [hdrop], by simp [hdrop]⟩
  | first hinfo haft hnone =>
    obtain ⟨hkeep, hmem, hfnd⟩ := hnew _ hinfo haft
    refine ⟨⟨by simp, ?_, ?_⟩, by simp [hkeep], by simp [hkeep]⟩
    · intro best heq
      obtain rfl := some.inj heq
      refine hbeaten _ (fun other ho => ?_) _ hinfo (SubmissionBtcInfo.isBetterThan_self _)
      rw [hbest.none_iff.mp hnone] at ho
      cases ho
    · intro best heq
      obtain rfl := some.inj heq
      exact ⟨hmem, hfnd, haft⟩
  | better hinfo haft hcur hbetter =>
    obtain ⟨hkeep, hmem, hfnd⟩ := hnew _ hinfo haft
    refine ⟨⟨by simp, ?_, ?_⟩, by simp [hkeep], by simp [hkeep]⟩
    · intro best heq
      obtain rfl := some.inj heq
      refine hbeaten _ (fun other ho info ho' => ?_) _ hinfo (SubmissionBtcInfo.isBetterThan_self _)
      exact SubmissionBtcInfo.not_isBetterThan_of_better hbetter
        (hbest.unbeaten _ hcur other ho info ho')
    · intro best heq
      obtain rfl := some.inj heq
      exact ⟨hmem, hfnd, haft⟩
  | kept hinfo haft hcur hbetter =>
    obtain ⟨hkeep, -, -⟩ := hnew _ hinfo haft
    refine ⟨⟨by simp [hcur], ?_, ?_⟩, by simp [hkeep], by simp [hkeep]⟩
    · intro best heq
      obtain rfl := some.inj (hcur.symm.trans heq)
      exact hbeaten _ (hbest.unbeaten _ hcur) _ hinfo hbetter
    · intro best heq
      obtain ⟨hmem, hbestInfo, hbestAfter⟩ := hbest.some best heq
      exact ⟨mem_append_left _ hmem, hbestInfo, hbestAfter⟩

theorem summarize_ok {i : Nat} {keys : List SubmissionKey}
    (h : summarize lc parent i summary keys = .ok result) (hbest : BestOf lc parent summary) :
    BestOf lc parent result ∧
      result.submissionsToKeep = summary.submissionsToKeep ++ keys.filter (keeps lc parent) ∧
      result.submissionsToDelete =
        summary.submissionsToDelete ++ keys.filter fun sk => !keeps lc parent sk := by
  induction keys generalizing i summary with
  | nil =>
    obtain rfl := pure_ok_iff.mp h
    exact ⟨hbest, by simp, by simp⟩
  | cons sk rest ih =>
    simp only [summarize, bind_ok_iff] at h
    obtain ⟨next, hnext, hrest⟩ := h
    obtain ⟨hnextBest, hkeep, hdelete⟩ := addToSummary_ok hnext hbest
    obtain ⟨hresultBest, hkeeps, hdeletes⟩ := ih hrest hnextBest
    refine ⟨hresultBest, ?_, ?_⟩
    · rw [hkeeps, hkeep, append_assoc, ← filter_append, singleton_append]
    · rw [hdeletes, hdelete, append_assoc, ← filter_append, singleton_append]

variable {ed : EpochData}

/-- Which submissions of an epoch are kept and deleted, and what the best one is. -/
theorem getEpochChanges_ok (h : getEpochChanges lc parent ed = .ok summary) :
    BestOf lc parent summary ∧
      summary.submissionsToKeep = ed.keys.filter (keeps lc parent) ∧
      summary.submissionsToDelete = ed.keys.filter fun sk => !keeps lc parent sk := by
  obtain ⟨hbest, hkeep, hdelete⟩ := summarize_ok h bestOf_empty
  exact ⟨hbest, by simpa using hkeep, by simpa using hdelete⟩

/-- Judging the submissions of an epoch does not panic on a main chain. -/
theorem exists_getEpochChanges (h : MainChain p base tip lc) (parent : Option SubmissionBtcInfo)
    (hlen : ∀ sk ∈ ed.keys, 2 ≤ sk.length) :
    ∃ summary, getEpochChanges lc parent ed = .ok summary := by
  have hadd : ∀ i summary sk, 2 ≤ sk.length →
      ∃ result, addToSummary lc parent i summary sk = .ok result := by
    intro i summary sk hsk
    have hne : sk ≠ [] := ne_nil_of_length_pos (by omega)
    obtain ⟨found, hfnd, -⟩ := exists_getSubmissionBtcInfo h hne
    unfold addToSummary
    rw [ensure_of _ hsk, hfnd]
    cases found with
    | none => exact ⟨_, rfl⟩
    | some info =>
      dsimp only [bind, Except.bind]
      split
      case isTrue => exact ⟨_, rfl⟩
      case isFalse =>
        split
        case h_1 => exact ⟨_, rfl⟩
        case h_2 => split <;> exact ⟨_, rfl⟩
  have hall : ∀ (keys : List SubmissionKey) i summary, (∀ sk ∈ keys, 2 ≤ sk.length) →
      ∃ result, summarize lc parent i summary keys = .ok result := by
    intro keys
    induction keys with
    | nil => intro i summary _; exact ⟨summary, rfl⟩
    | cons sk rest ih =>
      intro i summary hkeys
      obtain ⟨next, hnext⟩ := hadd i summary sk (hkeys sk mem_cons_self)
      obtain ⟨result, hres⟩ := ih (i + 1) next fun other ho =>
        hkeys other (mem_cons_of_mem _ ho)
      refine ⟨result, ?_⟩
      simp only [summarize, bind_ok_iff]
      exact ⟨next, hnext, hres⟩
  exact hall ed.keys 0 {} hlen

/-! ## The keys of an epoch -/

namespace State

/-- The keys of the submissions an epoch has. -/
def keysOf (s : State) (epoch : Nat) : List SubmissionKey :=
  ((s.epochData.get epoch).map EpochData.keys).getD []

theorem keysOf_of_get {s : State} {epoch : Nat}
    (h : s.epochData.get epoch = some ed) : s.keysOf epoch = ed.keys := by
  simp [keysOf, h]

theorem keys_getD (s : State) (epoch : Nat) :
    ((s.epochData.get epoch).getD EpochData.new).keys = s.keysOf epoch := by
  unfold keysOf
  cases s.epochData.get epoch <;> rfl

theorem keysOf_of_set {s s' : State} {epoch : Nat}
    (h : s'.epochData = s.epochData.set epoch ed) (other : Nat) :
    s'.keysOf other = if other = epoch then ed.keys else s.keysOf other := by
  unfold keysOf
  rw [h, get_set]
  split <;> rfl

end State

/-! ## One epoch -/

/-- The status of an epoch after its best submission was judged. -/
def nextStatus (status bestSubmissionStatus : BtcStatus) : BtcStatus :=
  if bestSubmissionStatus = .finalized then .finalized
  else if status = .submitted then bestSubmissionStatus
  else status

/-- The submissions of an epoch that are deleted when it gets its next status. -/
def deletedKeys (ed : EpochData) (status : BtcStatus) (changes : EpochChangesSummary) :
    List SubmissionKey :=
  if status = .finalized then ed.keys.eraseIdx changes.bestSubmissionIdx
  else changes.submissionsToDelete

/-- The keys an epoch has afterwards. -/
def remainingKeys (status : BtcStatus) (changes : EpochChangesSummary) (best : SubmissionBtcInfo) :
    List SubmissionKey :=
  if status = .finalized then [best.submissionKey] else changes.submissionsToKeep

theorem foldl_deleteSubmission (keys : List SubmissionKey) (s : State) :
    keys.foldl deleteSubmission s =
      { s with submissions := fun sk => if sk ∈ keys then none else s.submissions sk } := by
  induction keys generalizing s with
  | nil => simp
  | cons key rest ih =>
    rw [foldl_cons, ih]
    simp only [deleteSubmission, State.mk.injEq, true_and, and_true]
    funext sk
    by_cases hrest : sk ∈ rest
    · simp [hrest]
    · by_cases hkey : sk = key <;> simp [hrest, hkey]

namespace Stores

variable {stores stores' : Stores} {epoch : Nat} {ed : EpochData} {best : SubmissionBtcInfo}
  {parentEpochInfo : ParentEpochInfo} {changes : EpochChangesSummary} {req : MsgInsertBTCSpvProof}

theorem forget_btccheckpoint (stores : Stores) (epoch : Nat) (ed : EpochData) :
    (stores.forget epoch ed).btccheckpoint =
      { stores.btccheckpoint with
        epochData := stores.btccheckpoint.epochData.set epoch ⟨[], ed.status⟩
        submissions := fun sk =>
          if sk ∈ ed.keys then none else stores.btccheckpoint.submissions sk } := by
  unfold forget
  rw [foldl_deleteSubmission]
  rfl

/-- The two changes of status, taken together. -/
theorem finalize_confirm (stores : Stores) (epoch : Nat) {status : BtcStatus}
    (hst : status ≠ .finalized) (bestStatus : BtcStatus) :
    let confirmed := stores.confirm epoch bestStatus status
    let settled := confirmed.1.finalize epoch bestStatus confirmed.2
    settled.2 = nextStatus status bestStatus ∧
      settled.1.btccheckpoint = { stores.btccheckpoint with
        lastFinalizedEpoch := if nextStatus status bestStatus = .finalized then epoch
          else stores.btccheckpoint.lastFinalizedEpoch } ∧
      settled.1.checkpointing =
        (let confirmed := if status = .submitted ∧ bestStatus ≠ .submitted then
            stores.checkpointing.setCheckpointConfirmed epoch else stores.checkpointing
        if bestStatus = .finalized then confirmed.setCheckpointFinalized epoch else confirmed) := by
  cases status with
  | finalized => exact absurd rfl hst
  | submitted | confirmed => cases bestStatus <;> exact ⟨rfl, rfl, rfl⟩

theorem settle_btccheckpoint (stores : Stores) (epoch : Nat) (hst : ed.status ≠ .finalized)
    (changes : EpochChangesSummary) (best : SubmissionBtcInfo) :
    (stores.settle epoch ed changes best).btccheckpoint =
      (let status := nextStatus ed.status (stores.btccheckpoint.checkSubmissionStatus best)
      { stores.btccheckpoint with
        epochData := stores.btccheckpoint.epochData.set epoch
          ⟨remainingKeys status changes best, status⟩
        submissions := fun sk => if sk ∈ deletedKeys ed status changes then none
          else stores.btccheckpoint.submissions sk
        lastFinalizedEpoch := if status = .finalized then epoch
          else stores.btccheckpoint.lastFinalizedEpoch }) := by
  obtain ⟨hnext, hbtc, -⟩ := stores.finalize_confirm epoch hst
    (stores.btccheckpoint.checkSubmissionStatus best)
  unfold settle prune
  dsimp only at hnext hbtc ⊢
  rw [hnext, hbtc]
  unfold deletedKeys remainingKeys
  split
  case isTrue => rw [foldl_deleteSubmission]; rfl
  case isFalse => rw [foldl_deleteSubmission]; rfl

theorem settle_checkpointing (stores : Stores) (epoch : Nat) (hst : ed.status ≠ .finalized)
    (changes : EpochChangesSummary) (best : SubmissionBtcInfo) :
    (stores.settle epoch ed changes best).checkpointing =
      (let bestStatus := stores.btccheckpoint.checkSubmissionStatus best
      let confirmed := if ed.status = .submitted ∧ bestStatus ≠ .submitted then
          stores.checkpointing.setCheckpointConfirmed epoch else stores.checkpointing
      if bestStatus = .finalized then confirmed.setCheckpointFinalized epoch else confirmed) := by
  obtain ⟨-, -, hckpt⟩ := stores.finalize_confirm epoch hst
    (stores.btccheckpoint.checkSubmissionStatus best)
  rw [← hckpt]
  unfold settle prune
  dsimp only
  split <;> rfl

/-- What can happen to an epoch that has submissions: the new stores and its best submission. -/
inductive EpochOutcome (lc : HeadersState) (stores : Stores) (parentEpochInfo : ParentEpochInfo)
    (epoch : Nat) (ed : EpochData) : Stores → Option SubmissionBtcInfo → Prop
  /-- it was finalized earlier -/
  | finalized {sk : SubmissionKey} {info : SubmissionBtcInfo} (hstatus : ed.status = .finalized)
      (hkeys : ed.keys = [sk]) (hinfo : getSubmissionBtcInfo lc sk = .ok (some info)) :
      EpochOutcome lc stores parentEpochInfo epoch ed stores (some info)
  /-- it loses all submissions -/
  | forgotten (hstatus : ed.status ≠ .finalized) :
      EpochOutcome lc stores parentEpochInfo epoch ed (stores.forget epoch ed) none
  /-- it has a best submission -/
  | settled {changes : EpochChangesSummary} {best : SubmissionBtcInfo}
      (hstatus : ed.status ≠ .finalized) (hparent : parentEpochInfo.any isNone = false)
      (hchanges : getEpochChanges lc parentEpochInfo.join ed = .ok changes)
      (hbest : changes.epochBestSubmission = some best) :
      EpochOutcome lc stores parentEpochInfo epoch ed (stores.settle epoch ed changes best)
        (some best)

theorem epochOutcome_of_checkEpoch {best : Option SubmissionBtcInfo}
    (h : checkEpoch lc stores parentEpochInfo epoch ed = .ok (stores', best)) :
    EpochOutcome lc stores parentEpochInfo epoch ed stores' best := by
  unfold checkEpoch at h
  split at h
  case isTrue hst =>
    split at h
    case h_1 sk hkeys =>
      simp only [ok_iff] at h
      obtain ⟨_, hfnd, info, rfl, heq⟩ := h
      cases heq
      exact .finalized hst hkeys hfnd
    case h_2 => cases h
  case isFalse hst =>
    split at h
    case isTrue =>
      cases pure_ok_iff.mp h
      exact .forgotten hst
    case isFalse hprt =>
      simp only [bind_ok_iff] at h
      obtain ⟨changes, hchanges, hrest⟩ := h
      split at hrest
      case isTrue =>
        cases pure_ok_iff.mp hrest
        exact .forgotten hst
      case isFalse =>
        simp only [ok_iff] at hrest
        obtain ⟨best, hbest, heq⟩ := hrest
        cases heq
        exact .settled hst (Bool.not_eq_true _ ▸ hprt) hchanges hbest

/-- A best submission of an epoch with a parent epoch happened after the best one of the
parent. -/
theorem EpochOutcome.happenedAfter {parent : SubmissionBtcInfo}
    (hchanges : getEpochChanges lc (some parent) ed = .ok changes)
    (hbest : changes.epochBestSubmission = some best) :
    best.oldestBlockDepth < parent.youngestBlockDepth := by
  have hall := ((getEpochChanges_ok hchanges).1.some best hbest).2.2
  simpa [SubmissionBtcInfo.happenedAfter] using hall

/-- What is not the epoch that is checked stays. -/
structure Frame (epoch : Nat) (before after : Stores) : Prop where
  params : after.btccheckpoint.params = before.btccheckpoint.params
  epochData : ∀ other, other ≠ epoch →
    after.btccheckpoint.epochData.get other = before.btccheckpoint.epochData.get other
  status : ∀ other, other ≠ epoch →
    after.checkpointing.getStatus other = before.checkpointing.getStatus other
  submissions : ∀ sk, after.btccheckpoint.submissions sk = before.btccheckpoint.submissions sk ∨
    after.btccheckpoint.submissions sk = none

theorem EpochOutcome.frame {best : Option SubmissionBtcInfo}
    (h : EpochOutcome lc stores parentEpochInfo epoch ed stores' best) :
    Frame epoch stores stores' := by
  cases h with
  | finalized => exact ⟨rfl, fun _ _ => rfl, fun _ _ => rfl, fun _ => .inl rfl⟩
  | forgotten hst =>
    refine ⟨?_, ?_, ?_, ?_⟩
    · rw [forget_btccheckpoint]
    · intro other hne
      rw [forget_btccheckpoint]
      exact get_set_of_ne _ _ hne
    · intro other hne
      show (stores.checkpointing.setCheckpointForgotten epoch).getStatus other = _
      rw [getStatus_setCheckpointForgotten, if_neg fun h => hne h.1]
    · intro sk
      rw [forget_btccheckpoint]
      dsimp only
      split
      case isTrue => exact .inr rfl
      case isFalse => exact .inl rfl
  | settled hst =>
    refine ⟨?_, ?_, ?_, ?_⟩
    · rw [settle_btccheckpoint _ _ hst]
    · intro other hne
      rw [settle_btccheckpoint _ _ hst]
      exact get_set_of_ne _ _ hne
    · intro other hne
      rw [settle_checkpointing _ _ hst]
      dsimp only
      split
      case isTrue =>
        rw [getStatus_setCheckpointFinalized, if_neg fun h => hne h.1]
        split
        case isTrue => rw [getStatus_setCheckpointConfirmed, if_neg fun h => hne h.1]
        case isFalse => rfl
      case isFalse =>
        split
        case isTrue => rw [getStatus_setCheckpointConfirmed, if_neg fun h => hne h.1]
        case isFalse => rfl
    · intro sk
      rw [settle_btccheckpoint _ _ hst]
      dsimp only
      split
      case isTrue => exact .inr rfl
      case isFalse => exact .inl rfl

section

variable (hchanges : getEpochChanges lc parent ed = .ok changes)

include hchanges

section

variable (hbest : changes.epochBestSubmission = some best)

include hbest

/-- A best submission is one of those the epoch had. -/
theorem best_mem_keys : best.submissionKey ∈ ed.keys := by
  obtain ⟨hbestOf, hkeep, -⟩ := getEpochChanges_ok hchanges
  have hmem := (hbestOf.some best hbest).1
  rw [hkeep] at hmem
  exact mem_of_mem_filter hmem

theorem remainingKeys_sublist (status : BtcStatus) :
    (remainingKeys status changes best).Sublist ed.keys := by
  unfold remainingKeys
  split
  case isTrue => exact singleton_sublist.mpr (best_mem_keys hchanges hbest)
  case isFalse =>
    rw [(getEpochChanges_ok hchanges).2.1]
    exact filter_sublist

theorem remainingKeys_ne_nil (status : BtcStatus) : remainingKeys status changes best ≠ [] := by
  unfold remainingKeys
  split
  case isTrue => simp
  case isFalse =>
    intro hnil
    have hnone := (getEpochChanges_ok hchanges).1.none_iff.mpr hnil
    rw [hbest] at hnone
    cases hnone

end

end

/-- Submissions are only dropped. -/
theorem EpochOutcome.keysOf_sublist {best : Option SubmissionBtcInfo}
    (hget : stores.btccheckpoint.epochData.get epoch = some ed)
    (h : EpochOutcome lc stores parentEpochInfo epoch ed stores' best) (other : Nat) :
    (stores'.btccheckpoint.keysOf other).Sublist (stores.btccheckpoint.keysOf other) := by
  have hset : ∀ ed', stores'.btccheckpoint.epochData =
      stores.btccheckpoint.epochData.set epoch ed' → ed'.keys.Sublist ed.keys →
      (stores'.btccheckpoint.keysOf other).Sublist (stores.btccheckpoint.keysOf other) := by
    intro ed' hdata hsub
    rw [keysOf_of_set hdata]
    split
    case isTrue heq => rwa [heq, keysOf_of_get hget]
    case isFalse => exact Sublist.refl _
  cases h with
  | finalized => exact Sublist.refl _
  | forgotten hst =>
    exact hset ⟨[], ed.status⟩ (by rw [forget_btccheckpoint]) (nil_sublist _)
  | settled hst _ hchanges hbest =>
    exact hset _ (by rw [settle_btccheckpoint _ _ hst]) (remainingKeys_sublist hchanges hbest _)

/-! ## One pass -/

/-- The epochs that are still to be visited are in the store as they were read. -/
def Pending (stores : Stores) (entries : List (Nat × EpochData)) : Prop :=
  KeySorted entries ∧
    ∀ entry ∈ entries, stores.btccheckpoint.epochData.get entry.1 = some entry.2

theorem Pending.tail {entry : Nat × EpochData} {rest : List (Nat × EpochData)}
    (h : Pending stores (entry :: rest)) (hframe : Frame entry.1 stores stores') :
    Pending stores' rest := by
  obtain ⟨hsrt, hget⟩ := h
  obtain ⟨hfirst, hrest⟩ := pairwise_cons.mp hsrt
  refine ⟨hrest, fun other ho => ?_⟩
  rw [hframe.epochData other.1 (ne_of_gt (hfirst other ho))]
  exact hget other (mem_cons_of_mem _ ho)

theorem pending_epochsToCheck (stores : Stores) :
    Pending stores (epochsToCheck stores.btccheckpoint) := by
  unfold epochsToCheck
  split
  case isTrue =>
    exact ⟨stores.btccheckpoint.epochData.sorted.filter _,
      fun entry hent => mem_entries.mp (mem_of_mem_filter hent)⟩
  case isFalse =>
    exact ⟨stores.btccheckpoint.epochData.sorted, fun entry hent => mem_entries.mp hent⟩

/-- The pass rule: what every outcome for a visited epoch keeps, a whole pass keeps. -/
theorem checkEpochs_preserves (I : Stores → Prop) {entries : List (Nat × EpochData)}
    (hstep : ∀ stores parentEpochInfo epoch ed stores' best, (epoch, ed) ∈ entries → I stores →
      stores.btccheckpoint.epochData.get epoch = some ed → ed.keys ≠ [] →
      EpochOutcome lc stores parentEpochInfo epoch ed stores' best → I stores') (hI : I stores)
    (hpend : Pending stores entries)
    (h : checkEpochs lc stores parentEpochInfo entries = .ok stores') : I stores' := by
  induction entries generalizing stores parentEpochInfo with
  | nil => exact pure_ok_iff.mp h ▸ hI
  | cons entry rest ih =>
    rw [checkEpochs] at h
    split at h
    case isTrue => exact pure_ok_iff.mp h ▸ hI
    case isFalse hkeys =>
      simp only [bind_ok_iff] at h
      obtain ⟨⟨next, best⟩, hchk, hrest⟩ := h
      have hout := epochOutcome_of_checkEpoch hchk
      have hget := hpend.2 entry mem_cons_self
      refine ih ?_ (hstep _ _ _ _ _ _ mem_cons_self hI hget hkeys hout)
        (hpend.tail hout.frame) hrest
      intro stores parentEpochInfo epoch ed stores' best hmem
      exact hstep stores parentEpochInfo epoch ed stores' best (mem_cons_of_mem _ hmem)

theorem checkCheckpoints_preserves (I : Stores → Prop)
    (hstep : ∀ stores parentEpochInfo epoch ed stores' best, I stores →
      stores.btccheckpoint.epochData.get epoch = some ed → ed.keys ≠ [] →
      EpochOutcome lc stores parentEpochInfo epoch ed stores' best → I stores') (hI : I stores)
    (h : checkCheckpoints lc stores = .ok stores') :
    I stores' :=
  checkEpochs_preserves I (fun _ _ _ _ _ _ _ => hstep _ _ _ _ _ _) hI
    (pending_epochsToCheck stores) h

/-! ## Messages -/

/-- A submission that is recorded. -/
structure Records (ext : Externals) (lc : HeadersState) (stores : Stores)
    (req : MsgInsertBTCSpvProof) (submission : RawCheckpointSubmission) : Prop where
  parsed : parseSubmission ext req stores.btccheckpoint.params.checkpointTag = .ok submission
  fresh : stores.btccheckpoint.submissions submission.getSubmissionKey = none
  not_finalized : ∀ ed, stores.btccheckpoint.epochData.get submission.checkpointData.epoch =
    some ed → ed.status ≠ .finalized
  verified : stores.checkpointing.verifyCheckpoint ext.verifyRawCheckpoint
    (fromBTCCkptToRawCkpt submission.checkpointData) = .ok true
  ancestors : ∃ info, getSubmissionBtcInfo lc submission.getSubmissionKey = .ok (some info) ∧
    stores.btccheckpoint.checkAncestors lc submission.checkpointData.epoch info = .ok ()

/-- A submission is recorded only for an epoch with a checkpoint. -/
theorem Records.checkpoint {ext : Externals} {submission : RawCheckpointSubmission}
    (h : Records ext lc stores req submission) :
    ∃ status, stores.checkpointing.getStatus submission.checkpointData.epoch = some status := by
  have hverd := h.verified
  simp only [verifyCheckpoint, ok_iff] at hverd
  obtain ⟨ckptWithMeta, hget, -⟩ := hverd
  have hget : stores.checkpointing.checkpoints.get submission.checkpointData.epoch =
      some ckptWithMeta := hget
  exact ⟨ckptWithMeta.status, by rw [getStatus, hget]; rfl⟩

/-- The stores with a submission recorded. -/
def recorded (stores : Stores) (req : MsgInsertBTCSpvProof) (submission : RawCheckpointSubmission) :
    Stores :=
  let epochNum := submission.checkpointData.epoch
  let submissionKey := submission.getSubmissionKey
  stores.addEpochSubmission epochNum
    ((stores.btccheckpoint.epochData.get epochNum).getD EpochData.new) submissionKey
    (submission.getSubmissionData epochNum (txsInfoOf submissionKey req))

theorem getStatus_recorded (stores : Stores) (req : MsgInsertBTCSpvProof)
    (submission : RawCheckpointSubmission) (other : Nat) :
    (stores.recorded req submission).checkpointing.getStatus other =
      if other = submission.checkpointData.epoch ∧
        stores.btccheckpoint.keysOf submission.checkpointData.epoch = [] ∧
        stores.checkpointing.getStatus submission.checkpointData.epoch = some .sealed
      then some .submitted else stores.checkpointing.getStatus other := by
  unfold recorded addEpochSubmission
  dsimp only
  rw [keys_getD]
  split
  case isTrue hkeys =>
    simp [Checkpointing.State.setCheckpointSubmitted, getStatus_orLog_setCheckpointStatus, hkeys]
  case isFalse hkeys => exact (if_neg fun hall => hkeys hall.2.1).symm

/-- A submission whose checkpoint is not the one of this chain. -/
structure Conflicts (ext : Externals) (stores : Stores) (req : MsgInsertBTCSpvProof)
    (submission : RawCheckpointSubmission) : Prop where
  parsed : parseSubmission ext req stores.btccheckpoint.params.checkpointTag = .ok submission
  verified : stores.checkpointing.verifyCheckpoint ext.verifyRawCheckpoint
    (fromBTCCkptToRawCkpt submission.checkpointData) = .ok false

/-- The stores with the flag of a conflict. -/
def conflicting (stores : Stores) : Stores :=
  { stores with
    checkpointing := { stores.checkpointing with conflictingCheckpointReceived := true } }

/-- A message that succeeds records its submission, or raises the flag of a conflict. -/
theorem insertBTCSpvProof_cases {ext : Externals}
    (h : stores.insertBTCSpvProof ext lc req = .ok stores') :
    ∃ submission,
      Records ext lc stores req submission ∧ stores' = stores.recorded req submission ∨
      Conflicts ext stores req submission ∧ stores' = stores.conflicting := by
  simp only [insertBTCSpvProof, ok_iff, Outcome.orWrapf_ok_iff] at h
  obtain ⟨submission, hprsd, _, hfr, _, hinfo, info, rfl, _, hopen, matching, hver, hrest⟩ := h
  refine ⟨submission, ?_⟩
  split at hrest
  case isTrue hmat =>
    simp only [ok_iff] at hrest
    obtain ⟨_, hanc, rfl⟩ := hrest
    refine .inl ⟨⟨hprsd, ?_, ?_, hmat ▸ hver, info, hinfo, hanc⟩, rfl⟩
    · simpa [hasSubmission] using hfr
    · intro ed hget
      rwa [hget] at hopen
  case isFalse hmat =>
    obtain rfl : matching = false := eq_false_of_ne_true hmat
    exact .inr ⟨⟨hprsd, hver⟩, (pure_ok_iff.mp hrest).symm⟩

end Stores

/-! ## Steps of the system -/

namespace CheckpointState

variable {ext : Externals} {c c' : CheckpointState}

/-- What an operation of each kind does. -/
inductive Stepped (ext : Externals) (c : CheckpointState) : Operation → CheckpointState → Prop
  | insertHeaders {headers : List BlockHeader} {out : Outcome Unit} {lc : HeadersState}
      {lcUpdated : Bool} (hins : insertHeadersWithHookAndEvents ext.chain lightClientHooks
        (c.lc, c.lcUpdated) headers = (out, lc, lcUpdated)) :
      Stepped ext c (.insertHeaders headers) { c with lc, lcUpdated }
  | sealCheckpoint {ckptWithMeta : RawCheckpointWithMeta} (hpos : 0 < ckptWithMeta.ckpt.epochNum)
      (hsealed : ckptWithMeta.status = .sealed)
      (hnew : c.checkpointing.getStatus ckptWithMeta.ckpt.epochNum = none) :
      Stepped ext c (.sealCheckpoint ckptWithMeta) { c with checkpointing := { c.checkpointing with
          checkpoints := c.checkpointing.checkpoints.set ckptWithMeta.ckpt.epochNum
            ckptWithMeta } }
  | recorded {req : MsgInsertBTCSpvProof} {submission : RawCheckpointSubmission}
      (hrec : Stores.Records ext c.lc c.toStores req submission) :
      Stepped ext c (.insertBTCSpvProof req) { c with toStores := c.recorded req submission }
  | conflicting {req : MsgInsertBTCSpvProof} {submission : RawCheckpointSubmission}
      (hconf : Stores.Conflicts ext c.toStores req submission) :
      Stepped ext c (.insertBTCSpvProof req) { c with toStores := c.conflicting }
  | updateParams {params : Params} (hto : params.checkpointFinalizationTimeout =
        c.btccheckpoint.params.checkpointFinalizationTimeout) :
      Stepped ext c (.updateParams params)
        { c with btccheckpoint := { c.btccheckpoint with params } }
  | passed {stores : Stores} (hupd : c.lcUpdated = true)
      (hstr : c.checkCheckpoints c.lc = .ok stores) :
      Stepped ext c .endBlock { c with toStores := stores, lcUpdated := false }
  | idle (hupd : ¬ c.lcUpdated = true) : Stepped ext c .endBlock { c with lcUpdated := false }

theorem stepped {l : Operation} (h : c.step ext l = some c') : Stepped ext c l c' := by
  cases l with
  | insertHeaders headers =>
    cases h
    exact .insertHeaders rfl
  | sealCheckpoint ckptWithMeta =>
    obtain ⟨checkpointing, hseal, rfl⟩ := map_eq_some_iff.mp h
    rw [toOption_eq_some_iff] at hseal
    simp only [sealCheckpoint, ok_iff] at hseal
    obtain ⟨_, hpos, _, hsealed, _, -, _, hnew, rfl⟩ := hseal
    exact .sealCheckpoint hpos hsealed (by simp [getStatus, hnew])
  | insertBTCSpvProof req =>
    obtain ⟨stores, hinsert, rfl⟩ := map_eq_some_iff.mp h
    rw [toOption_eq_some_iff] at hinsert
    obtain ⟨submission, ⟨hrec, rfl⟩ | ⟨hconf, rfl⟩⟩ := Stores.insertBTCSpvProof_cases hinsert
    · exact .recorded hrec
    · exact .conflicting hconf
  | updateParams params =>
    obtain ⟨stores, hup, rfl⟩ := map_eq_some_iff.mp h
    rw [toOption_eq_some_iff] at hup
    simp only [Stores.updateParams, ok_iff] at hup
    obtain ⟨_, -, _, hto, rfl⟩ := hup
    exact .updateParams hto
  | endBlock =>
    have hend : c.endBlock = .ok c' := toOption_eq_some_iff.mp h
    unfold endBlock at hend
    split at hend
    case isTrue hupd =>
      simp only [ok_iff] at hend
      obtain ⟨stores, hstr, _, -, rfl⟩ := hend
      exact .passed hupd hstr
    case isFalse hupd =>
      simp only [ok_iff] at hend
      obtain ⟨stores, rfl, _, -, rfl⟩ := hend
      exact .idle hupd

end CheckpointState

end Babylon.BTCCheckpoint
