/-
  The calls of the incentive module over whole runs.

  Finalization and rewarding have cursors of their own, and rewarding removes the
  caches it has used.  Without proposals to resume finality the two agree: the
  module is called once for every finalized height, in the order of the heights,
  with the cache of the height.
-/
import Babylon.App.Progress

set_option autoImplicit false

namespace Babylon

open Lib Finality Devnet State RewardCall List

variable {maxBlocks : Nat}

namespace Finality

/-- The heights that have been rewarded, against the cursors, the blocks and the caches. -/
structure State.Rewarded (s : State) (rewarded : List Nat) : Prop where
  increasing : rewarded.Pairwise (· < ·)
  below : ∀ height ∈ rewarded, height < s.nextHeightToReward
  finalized : ∀ height ∈ rewarded, s.isFinalized height = true
  complete : ∀ height, s.isFinalized height = true → height < s.nextHeightToReward →
    height ∈ rewarded
  cursor_le : s.nextHeightToReward ≤ s.nextHeightToFinalize
  cached : ∀ height, (s.votingPower.get height).isSome = true → height ∉ rewarded →
    ∃ dc, s.getVotingPowerDistCache height = some dc

namespace State.Rewarded

variable {s t : State} {rewarded : List Nat}

section

variable (h : s.Rewarded rewarded) (hblks : t.blocks = s.blocks)
  (hfze : t.nextHeightToFinalize = s.nextHeightToFinalize)
  (hrwd : t.nextHeightToReward = s.nextHeightToReward)

include h hblks hfze hrwd

theorem of_kept
    (hchd : ∀ height, (t.votingPower.get height).isSome = true → height ∉ rewarded →
      ∃ dc, t.getVotingPowerDistCache height = some dc) : t.Rewarded rewarded := by
  have hfnl : ∀ height, t.isFinalized height = s.isFinalized height := by
    intro height
    unfold isFinalized
    rw [hblks]
  refine ⟨h.increasing, ?_, ?_, ?_, ?_, hchd⟩
  · rw [hrwd]
    exact h.below
  · intro height hmem
    rw [hfnl]
    exact h.finalized height hmem
  · intro height hht
    rw [hfnl] at hht
    rw [hrwd]
    exact h.complete height hht
  · rw [hrwd, hfze]
    exact h.cursor_le

/-- What is recorded at a new height has its cache if it has a table. -/
theorem record {height : Nat} {dc : VotingPowerDistCache}
    (hrec : Records s t height dc) (hnone : s.votingPower.get height = none) :
    t.Rewarded rewarded := by
  refine h.of_kept hblks hfze hrwd ?_
  intro other htab hfr
  by_cases heq : other = height
  · subst heq
    refine ⟨dc, ?_⟩
    unfold getVotingPowerDistCache
    rw [hrec.caches, KVStore.get_set_self, Option.filter_some, if_pos]
    -- an empty cache has no active providers and records no table
    refine decide_eq_true fun hemp => ?_
    rw [hrec.power, hemp] at htab
    have hsame : s.votingPower.setMany other [] = s.votingPower := rfl
    have hact : (VotingPowerDistCache.new).getActiveFinalityProviderSet = [] := rfl
    rw [hact, map_nil, hsame, hnone] at htab
    cases htab
  · rw [(hrec.keeps heq).getVotingPowerDistCache]
    rw [(hrec.keeps heq).table] at htab
    exact h.cached other htab hfr

end

/-- The tally finalizes only heights that the cursor of rewarding has not reached. -/
theorem tally (h : s.Rewarded rewarded) (hk : s.BlocksKeyed)
    (hnot : ∀ height, s.nextHeightToFinalize ≤ height → s.isFinalized height = false) {env : Env}
    (htal : s.tallyBlocks env maxBlocks = .ok t) :
    t.Rewarded rewarded := by
  obtain ⟨passed, htald⟩ := tallyBlocks_tallied hk hnot htal
  have hge : ∀ height ∈ passed, s.nextHeightToReward ≤ height :=
    fun height hmem => h.cursor_le.trans (htald.inRange height hmem).1
  have hfnl := htald.finalized
  have hcrs : s.nextHeightToReward ≤ t.nextHeightToFinalize := by
    rw [htald.cursor]
    exact h.cursor_le.trans (le_cursorAfter fun height hmem => (htald.inRange height hmem).1)
  obtain ⟨blocks, next, rfl⟩ := htald.tallyOnly
  refine ⟨h.increasing, h.below,
    fun height hmem => (hfnl height).mpr (.inl (h.finalized height hmem)), ?_, hcrs, h.cached⟩
  intro height hht hlt
  rcases (hfnl height).mp hht with hold | ⟨hmem, -⟩
  · exact h.complete height hold hlt
  · exact absurd (hge height hmem) (Nat.not_le.mpr hlt)

/-- A call of `HandleRewarding` adds the heights it rewards. -/
theorem rewarding {I : Type} {ext : External I} {env : Env} {w w' : Stores I} {first target : Nat}
    (h : w.finality.Rewarded rewarded) (hmax : 1 ≤ maxBlocks)
    (hfirst : w.finality.firstHeightToReward = .ok first)
    (hrch : ∀ height, w.finality.nextHeightToReward ≤ height →
      w.finality.isFinalized height = true → first ≤ height)
    (hfz : ∀ height, w.finality.isFinalized height = true →
      height < w.finality.nextHeightToFinalize)
    (hrwd : handleRewarding ext env w target maxBlocks = .ok w') :
    w'.finality.Rewarded
      (rewarded ++ w.finality.due first target maxBlocks) := by
  obtain ⟨first', hfirst', -, external, -, rfl⟩ := handleRewarding_iff.mp hrwd
  obtain rfl : first = first' := Except.ok.inj (hfirst.symm.trans hfirst')
  have hold : ∀ height ∈ w.finality.due first target maxBlocks,
      w.finality.nextHeightToReward ≤ height := fun height hmem =>
    (nextHeightToReward_le_first hfirst).trans (due_bounds hmem).1
  have hfnl : ∀ height ∈ w.finality.due first target maxBlocks,
      w.finality.isFinalized height = true := fun height hmem => ((mem_due hmax).mp hmem).2
  refine ⟨?_, ?_, ?_, ?_, ?_, ?_⟩
  · refine pairwise_append.mpr ⟨h.increasing, sorted_due, fun a ha b hb => ?_⟩
    exact lt_of_lt_of_le (h.below a ha) (hold b hb)
  · intro height hmem
    rcases mem_append.mp hmem with hin | hin
    · exact lt_of_lt_of_le (h.below height hin) (le_cursorAfter hold)
    · exact lt_cursorAfter sorted_due hin
  · intro height hmem
    rcases mem_append.mp hmem with hin | hin
    · exact h.finalized height hin
    · exact hfnl height hin
  · -- a finalized height that the cursor has just passed is one of the new ones
    intro height hht hlt
    refine mem_append.mpr ?_
    by_cases hbef : height < w.finality.nextHeightToReward
    · exact .inl (h.complete height hht hbef)
    · have hge := hrch height (Nat.not_lt.mp hbef) hht
      obtain ⟨last, hlast, hle⟩ := exists_le_of_lt_cursorAfter (Nat.not_lt.mp hbef) hlt
      have hbound := ((mem_due hmax).mp hlast).1
      exact .inr ((mem_due hmax).mpr ⟨by omega, hht⟩)
  · exact cursorAfter_le h.cursor_le fun height hmem => hfz height (hfnl height hmem)
  · intro height htab hfr
    obtain ⟨hearl, hlater⟩ := not_or.mp (mem_append.not.mp hfr)
    obtain ⟨dc, hdc⟩ := h.cached height htab hearl
    refine ⟨dc, ?_⟩
    show ((foldl KVStore.delete w.finality.votingPowerDistCache _).get height).filter _ = _
    rw [KVStore.get_foldl_delete, if_neg hlater]
    exact hdc

end State.Rewarded

end Finality

/-! ## Runs -/

variable {I : Type} {cfg : Config I} {c : Chain I}

/-- The calls of `RewardBTCStaking` that a step makes. -/
def Chain.rewardCalls (cfg : Config I) (c : Chain I) : Label I → List RewardCall
  | .endBlock => Finality.rewardCalls cfg.ext (c.env cfg) c.toStores
  | _ => []

/-- The calls of `RewardBTCStaking` in a history, oldest first. -/
def rewardLog (cfg : Config I) : History I → List RewardCall
  | [] => []
  | past :: earlier => rewardLog cfg earlier ++ past.1.rewardCalls cfg past.2

/-- The calls at the end of a block are for different heights, with their caches. -/
theorem Finality.rewardCalls_heights {ext : External I} {env : Env} {v w' : Stores I}
    {first target : Nat} (hfirst : v.finality.firstHeightToReward = .ok first)
    (hrwd : handleRewarding ext env v target maxBlocks = .ok w') :
    ((v.finality.due first target maxBlocks).filterMap
        v.rewardCall?).map height
      = v.finality.due first target maxBlocks := by
  have hchd : ∀ height ∈ v.finality.due first target maxBlocks,
      ∃ dc, v.finality.getVotingPowerDistCache height = some dc :=
    fun _ hmem => handleRewarding_cached hfirst hrwd hmem
  generalize v.finality.due first target maxBlocks = heights at hchd
  induction heights with
  | nil => rfl
  | cons height rest ih =>
    obtain ⟨dc, hdc⟩ := hchd height mem_cons_self
    have hcall : v.rewardCall? height = some ⟨height, refreshFPCommissions v.btcStaking dc⟩ := by
      rw [Stores.rewardCall?, hdc]
      rfl
    rw [filterMap_cons_some hcall, map_cons,
      ih fun other hmem => hchd other (mem_cons_of_mem _ hmem)]

theorem rewarded_endBlock {rewarded : List Nat} (hinv : FinalizationInv c) (hin : c.inBlock = true)
    (h : c.finality.Rewarded rewarded) {w : Stores I} (hend : c.Ends cfg w) : w.finality.Rewarded
      (rewarded ++ (c.rewardCalls cfg .endBlock).map height) := by
  unfold Chain.rewardCalls
  rcases endBlocker_calls hend with ⟨rfl, hnone⟩ | ⟨tallied, htal, ⟨rfl, hnone⟩ |
    ⟨target, first, v, hlive, hfirst, hrwd, hcalls⟩⟩
  · rw [hnone, map_nil, append_nil]
    exact h
  · rw [hnone, map_nil, append_nil]
    exact h.tally hinv.keyed hinv.notFinalized htal
  · rw [hcalls, rewardCalls_heights hfirst hrwd]
    obtain ⟨⟨_, _, hv⟩, -⟩ := handleLiveness_ok hlive
    have hstarts : RewardingStarts cfg c v := .ending hin htal hlive
    have htald := hinv.tallied hin htal
    refine Rewarded.rewarding ?_ (by decide) hfirst
      (fun height hle hfnl => hstarts.first_le hinv hfirst hle hfnl) ?_ hrwd
    · rw [hv]
      exact (h.tally hinv.keyed hinv.notFinalized htal).of_kept rfl rfl rfl
        (h.tally hinv.keyed hinv.notFinalized htal).cached
    · intro height hfnl
      rw [hv] at hfnl ⊢
      by_contra hge
      have hnot := htald.notFinalized height (Nat.not_lt.mp hge)
      rw [show tallied.isFinalized height = true from hfnl] at hnot
      cases hnot

/-- The heights of the calls in a history. -/
def rewardedHeights (cfg : Config I) (history : History I) : List Nat :=
  (rewardLog cfg history).map height

theorem rewardedHeights_cons (past : Chain I × Label I) (earlier : History I) :
    rewardedHeights cfg (past :: earlier) = rewardedHeights cfg earlier
      ++ (past.1.rewardCalls cfg past.2).map height :=
  map_append

/-- Only the end of a block makes calls. -/
theorem rewardedHeights_cons_of_nil {l : Label I} {earlier : History I}
    (h : c.rewardCalls cfg l = []) :
    rewardedHeights cfg ((c, l) :: earlier) = rewardedHeights cfg earlier := by
  rw [rewardedHeights_cons, h, map_nil, append_nil]

theorem rewarded_genesis (h : Genesis cfg c) : c.finality.Rewarded [] := by
  obtain ⟨params, -, hfin⟩ := h.finality
  rw [hfin]
  refine ⟨Pairwise.nil, ?_, ?_, ?_, le_refl 0, ?_⟩
  · intro height hmem
    cases hmem
  · intro height hmem
    cases hmem
  · intro height _ hlt
    exact absurd hlt (Nat.not_lt_zero height)
  · intro height htab
    cases htab

/-- The rewarded heights of a run without proposals to resume finality. -/
theorem rewarded_of_run {history : History I} (run : Run (chain cfg) history c)
    (hsteps : Steps (fun _ l => l.noResume = true) history) :
    c.finality.Rewarded (rewardedHeights cfg history) := by
  refine run.historyInvariant (fun history c => c.finality.Rewarded (rewardedHeights cfg history))
    (fun _ h => rewarded_genesis h) ?_ hsteps
  intro history c l c' run h hal hstep
  cases Chain.stepped hstep with
  | @beginBlock header w _ hht hw =>
    rw [rewardedHeights_cons_of_nil rfl]
    obtain ⟨dc, hrec⟩ := (PowerInv.of_run run).records hw
    have hnone : c.finality.votingPower.get header.height = none :=
      (PowerInv.of_run run).table_none (by omega)
    obtain ⟨⟨_, _, _, _, hfin⟩, -⟩ := updatePowerDist_power hw
    refine h.record ?_ ?_ ?_ hrec hnone
    · rw [hfin]
      rfl
    · rw [hfin]
      rfl
    · rw [hfin]
      rfl
  | @message msg w _ hw =>
    rw [rewardedHeights_cons_of_nil rfl]
    obtain ⟨hblks, hfze, hrwd, -⟩ := Chain.handle_blocks hw
    refine h.of_kept hblks hfze hrwd ?_
    rcases Chain.handle_tables hw with ⟨hpow, hcaches⟩ | ⟨req, rfl, -⟩
    · intro height htab hfr
      rw [hpow] at htab
      unfold getVotingPowerDistCache
      rw [show (w.finality).votingPowerDistCache = _ from hcaches]
      exact h.cached height htab hfr
    · cases hal
  | rejected | headers | others | external =>
    rw [rewardedHeights_cons_of_nil rfl]
    exact h
  | endBlock hin hw =>
    rw [rewardedHeights_cons]
    exact rewarded_endBlock (FinalizationInv.of_run run) hin h hw

/-! ## The calls -/

/-- A call at the end of a block hands over the stored cache of its height, with the current
commissions. -/
theorem dc_of_rewardCalls {w : Stores I} {call : RewardCall} (hend : c.Ends cfg w)
    (hcall : call ∈ Finality.rewardCalls cfg.ext (c.env cfg) c.toStores) :
    ∃ dc bs, c.finality.getVotingPowerDistCache call.height = some dc ∧
      call.dc = refreshFPCommissions bs dc := by
  rcases endBlocker_calls hend with ⟨-, hnone⟩ | ⟨tallied, htal, ⟨-, hnone⟩ |
    ⟨target, first, v, hlive, -, -, hcalls⟩⟩
  · rw [hnone] at hcall
    cases hcall
  · rw [hnone] at hcall
    cases hcall
  · rw [hcalls] at hcall
    obtain ⟨height, -, hsome⟩ := mem_filterMap.mp hcall
    obtain ⟨dc, hdc, rfl⟩ := Option.map_eq_some_iff.mp hsome
    refine ⟨dc, v.btcStaking, ?_, rfl⟩
    obtain ⟨⟨_, _, hv⟩, -⟩ := handleLiveness_ok hlive
    obtain ⟨_, _, rfl⟩ := tallyBlocks_tallyOnly htal
    rwa [hv] at hdc

/-- At the end of a block, no finalized height that is rewarded lacks its cache. -/
theorem endBlocker_cacheFound {rewarded : List Nat} (hinv : FinalizationInv c)
    (hin : c.inBlock = true) (h : c.finality.Rewarded rewarded) :
    FailsOnly (· ≠ .panic "voting power distribution cache not found at height %d")
      (endBlocker cfg.ext (c.env cfg) c.toStores) := by
  unfold endBlocker
  split
  case isFalse => exact .ok _
  case isTrue =>
    refine .bind (tallyBlocks_failsOnly _ _) fun tallied htal => ?_
    dsimp only
    split
    case isFalse => exact .ok _
    case isTrue =>
      refine .bind (.foldOutcome (fun _ _ _ => .orPanic (by simp)) _) fun v hlive => ?_
      refine .bind ?_ fun first hfirst => .bind ?_ fun _ _ => ?_
      · unfold firstHeightToReward
        split
        · exact .orPanic (by simp)
        · exact .ok _
      · refine foldOutcome_rewardHeight_failsOnly nodup_range' ?_ _
        intro height hmem hfnl
        obtain ⟨⟨_, _, hv⟩, -⟩ := handleLiveness_ok hlive
        have htab := (hinv.tallied hin htal).table height (by rwa [hv] at hfnl)
        have hfr : height ∉ rewarded := by
          intro hrwdd
          have hlt := h.below height hrwdd
          have hle := (mem_range'_1.mp hmem).1
          have hstart := nextHeightToReward_le_first hfirst
          rw [hv] at hstart
          obtain ⟨_, _, rfl⟩ := tallyBlocks_tallyOnly htal
          replace hstart : c.finality.nextHeightToReward ≤ first := hstart
          omega
        rw [hv]
        exact (h.tally hinv.keyed hinv.notFinalized htal).cached height htab hfr
      · dsimp only
        split
        · exact .ok _
        · exact .ok _

/-- In a run without proposals to resume finality, `RewardBTCStaking` is called for finalized
heights only, once each and in the order of the heights, for every finalized height below the
cursor of rewarding, and with the cache stored for the height; no end of block panics for lack
of a cache. -/
theorem rewards_each_finalized_height_in_order {history : History I}
    (run : Run (chain cfg) history c)
    (hsteps : Steps (fun _ l => l.noResume = true) history) :
    (rewardedHeights cfg history).Pairwise (· < ·) ∧
      (∀ height ∈ rewardedHeights cfg history, c.finality.isFinalized height = true) ∧
      (∀ height, c.finality.isFinalized height = true → height < c.finality.nextHeightToReward →
        height ∈ rewardedHeights cfg history) ∧
      (∀ past ∈ history, ∀ call ∈ past.1.rewardCalls cfg past.2, ∃ dc bs,
        past.1.finality.getVotingPowerDistCache call.height = some dc ∧
          call.dc = refreshFPCommissions bs dc) ∧
      (c.inBlock = true → endBlocker cfg.ext (c.env cfg) c.toStores
        ≠ .error (.panic "voting power distribution cache not found at height %d")) := by
  have h := rewarded_of_run run hsteps
  refine ⟨h.increasing, h.finalized, h.complete, ?_, ?_⟩
  · intro past hpast call hcall
    obtain ⟨earlier, hrun, -, t, hstep⟩ := run.of_mem hpast
    obtain ⟨past, l⟩ := past
    cases l with
    | endBlock =>
      obtain ⟨w, -, hw, -⟩ := Chain.step_endBlock hstep
      exact dc_of_rewardCalls hw hcall
    | _ => cases hcall
  · intro hin hfails
    exact endBlocker_cacheFound (FinalizationInv.of_run run) hin h _ hfails rfl

/-- Height 2 is finalized in block 3 and height 4 in block 5; both have been rewarded after
block 6. -/
theorem rewards_after_gap :
    ∃ history c, Run (chain config) history c ∧
      (rewardedHeights config history).Pairwise (· < ·) ∧
      2 ∈ rewardedHeights config history ∧ 4 ∈ rewardedHeights config history := by
  obtain ⟨history, c, run, hsteps, htwo, hfour, hnext⟩ := of_labels
    (Q := fun _ l => l.noResume = true)
    (P := fun c => c.finality.isFinalized 2 = true ∧ c.finality.isFinalized 4 = true ∧
      c.finality.nextHeightToReward = 5)
    (finalityParams 10 2 1) delegationLightClient (gapBlocks ++ block 6 [])
    (by decide +kernel)
  obtain ⟨hsorted, -, hcomplete, -⟩ := rewards_each_finalized_height_in_order run hsteps
  refine ⟨history, c, run, hsorted, hcomplete 2 htwo ?_, hcomplete 4 hfour ?_⟩
  · rw [hnext]
    norm_num
  · rw [hnext]
    norm_num

end Babylon
