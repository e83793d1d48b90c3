/-
  Progress of the two cursors.

  The cursor of finalization stops at a height with a table and without a quorum.
  A proposal to resume finality can leave a table whose entries are all zero, which
  never gets a quorum.  The cursor of rewarding moves only over finalized heights,
  while each call looks at a bounded number of heights.
-/
import Babylon.App.InOrderFinality
import Babylon.App.PowerTables
import Babylon.Finality.Rewarding

set_option autoImplicit false

namespace Babylon

open Lib Finality Devnet Chain State List

variable {I : Type} {cfg : Config I} {c : Chain I}

variable {w : Stores I} {maxBlocks : Nat} {history : History I}

/-! ## Finalization -/

variable {activated : Nat}

namespace Finality.State

variable {s : State}

/-- The sum of the voting powers recorded at a height. -/
def recordedPower (s : State) (height : Nat) : Nat :=
  (s.votingPower.under height).sumBy fun _ power => power

/-- A height whose recorded powers sum up to 0 passes if and only if it has no table. -/
theorem passes_of_recordedPower_eq_zero {height : Nat} (hzero : s.recordedPower height = 0) :
    s.passes height = true ↔ s.getVotingPowerTable height = none := by
  unfold passes
  cases htab : s.getVotingPowerTable height with
  | none => simp
  | some table =>
    have hunder : s.votingPower.under height = table := by
      rw [KVStore.under, show s.votingPower.get height = some table from htab]
      rfl
    rw [recordedPower, hunder] at hzero
    have hvoted : (table.sumBy fun pk power => if pk ∈ s.getVoters height then power else 0)
        ≤ table.sumBy fun _ power => power := by
      refine KVStore.sumBy_le fun pk power _ => ?_
      split
      · exact le_refl _
      · exact Nat.zero_le _
    simp only [tally, decide_eq_true_eq, reduceCtorEq, iff_false]
    omega

/-- At the height where the next tally starts, the loop goes on: the height has no table or,
if nothing was passed before, the first table has its quorum. -/
def StartPasses (s : State) (activated : Nat) : Prop :=
  if activated ≤ s.nextHeightToFinalize then s.getVotingPowerTable s.nextHeightToFinalize = none
  else s.passes activated = true

/-- No height that the next tally gets to is missing among the indexed blocks. -/
def NothingMissing (s : State) (activated maxBlocks current : Nat) : Prop :=
  ∀ height, max s.nextHeightToFinalize activated ≤ height →
    height < max s.nextHeightToFinalize activated + maxBlocks → height < current →
    (∀ earlier, max s.nextHeightToFinalize activated ≤ earlier → earlier < height →
      s.passes earlier = true) →
    ∃ block, s.blocks.get height = some block

theorem startPasses_iff (hzero : s.recordedPower s.nextHeightToFinalize = 0) :
    s.passes (max s.nextHeightToFinalize activated) = true ↔ s.StartPasses activated := by
  unfold StartPasses
  split
  case isTrue hle => rw [max_eq_left hle, passes_of_recordedPower_eq_zero hzero]
  case isFalse hlt => rw [max_eq_right (Nat.le_of_lt (Nat.not_le.mp hlt))]

theorem reaches_withCurrentBlock_iff {env : Env} (hmax : 1 ≤ maxBlocks) :
    (s.withCurrentBlock env).Reaches
        (tallyRange (max s.nextHeightToFinalize activated) maxBlocks env.header.height) ↔
      s.NothingMissing activated maxBlocks env.header.height := by
  refine ⟨fun hall height hle hlt hcur hbef => ?_, fun hall => reaches_withCurrentBlock
    fun height hle hlt => hall height hle (by omega)⟩
  rw [tallyRange, reaches_range'_iff, passes_withCurrentBlock] at hall
  obtain ⟨block, hblk⟩ := hall height hle (by omega) hbef
  rw [get_blocks_withCurrentBlock, if_neg hcur.ne, Option.or_none] at hblk
  exact ⟨block, hblk⟩

end Finality.State

/-- A tally that succeeds moves the cursor if and only if the loop goes on at the height where
it starts. -/
theorem FinalizationInv.lt_tallied_iff (inv : FinalizationInv c) (hmax : 1 ≤ maxBlocks)
    (hact : c.finality.getBTCStakingActivatedHeight = .ok activated)
    (hle : activated ≤ c.header.height) {t : State}
    (h : c.finality.tallyBlocks (c.env cfg) maxBlocks = .ok t) :
    c.finality.nextHeightToFinalize < t.nextHeightToFinalize ↔
      c.finality.nextHeightToFinalize ≤ c.header.height ∧
        c.finality.passes (max c.finality.nextHeightToFinalize activated) = true := by
  let start := max c.finality.nextHeightToFinalize activated
  obtain ⟨-, rfl⟩ := (tallyBlocks_iff inv.keyed inv.notFinalized hact).mp h
  have hpass := passed_foldl
    (withCurrentBlock_blocksKeyed inv.keyed (c.env cfg))
    ((tallyRange start maxBlocks c.header.height).takeWhile c.finality.passes)
  have hnext := hpass.cursor
  rw [nextHeightToFinalize_withCurrentBlock] at hnext
  refine (show _ ↔ c.finality.nextHeightToFinalize < _ from Iff.of_eq (congrArg _ hnext)).trans ?_
  by_cases hstart : start ≤ c.header.height
  · -- the loop looks at its first height
    obtain ⟨rest, hrng⟩ : ∃ rest, tallyRange start maxBlocks c.header.height
        = start :: rest := by
      have hcnt : min (start + maxBlocks - 1) c.header.height + 1 - start
          = (min (start + maxBlocks - 1) c.header.height - start) + 1 := by omega
      rw [tallyRange, hcnt, range'_succ]
      exact ⟨_, rfl⟩
    have hsrt : ((tallyRange start maxBlocks c.header.height).takeWhile
        c.finality.passes).Pairwise (· < ·) :=
      Pairwise.sublist (takeWhile_sublist _) pairwise_lt_range'
    rw [hrng] at hsrt ⊢
    have hcur : c.finality.nextHeightToFinalize ≤ c.header.height := (le_max_left _ _).trans hstart
    cases hpasses : c.finality.passes start with
    | true =>
      rw [takeWhile_cons_of_pos hpasses] at hsrt ⊢
      refine iff_of_true ?_ ⟨hcur, rfl⟩
      exact lt_of_le_of_lt (le_max_left _ _) (lt_cursorAfter hsrt mem_cons_self)
    | false =>
      rw [takeWhile_cons_of_neg (by simp [hpasses])]
      exact iff_of_false (Nat.lt_irrefl _) fun hboth => by cases hboth.2
  · have hbeyond : c.header.height < c.finality.nextHeightToFinalize := by omega
    have hemp : tallyRange start maxBlocks c.header.height = [] := by
      rw [tallyRange, range'_eq_nil_iff]
      omega
    rw [hemp]
    exact iff_of_false (Nat.lt_irrefl _) fun hboth => absurd hboth.1 (Nat.not_le.mpr hbeyond)

/-- In every reachable state: if the powers recorded at `NextHeightToFinalize` sum up to 0, a
tally moves the cursor past that height, exactly if finality has been activated, the height is
not in the future, it has no table, and no block that the tally gets to is missing. -/
theorem tally_passes_powerless_height_iff (run : Run (chain cfg) history c) {maxBlocks : Nat}
    (hmax : 1 ≤ maxBlocks) :
    (c.finality.recordedPower c.finality.nextHeightToFinalize = 0 →
      ∃ t, c.finality.tallyBlocks (c.env cfg) maxBlocks = .ok t ∧
        c.finality.nextHeightToFinalize < t.nextHeightToFinalize) ↔
    (c.finality.recordedPower c.finality.nextHeightToFinalize = 0 →
      ∃ activated, c.finality.getBTCStakingActivatedHeight = .ok activated ∧
        c.finality.nextHeightToFinalize ≤ c.header.height ∧
        c.finality.StartPasses activated ∧
        c.finality.NothingMissing activated maxBlocks c.header.height) := by
  refine forall_congr' fun hzero => ?_
  have inv := FinalizationInv.of_run run
  have hle : ∀ activated, c.finality.getBTCStakingActivatedHeight = .ok activated →
      activated ≤ c.header.height := by
    intro activated hactivated
    unfold getBTCStakingActivatedHeight at hactivated
    split at hactivated
    case h_1 first table hfirst =>
      obtain rfl := Except.ok.inj hactivated
      exact (PowerInv.of_run run).table_le first table (KVStore.get_of_first? hfirst)
    case h_2 => cases hactivated
  constructor
  · rintro ⟨t, ht, hlt⟩
    obtain ⟨activated, hactivated⟩ : ∃ activated,
        c.finality.getBTCStakingActivatedHeight = .ok activated := by
      simp only [tallyBlocks, bind_ok_iff, Outcome.orPanic_ok_iff] at ht
      obtain ⟨activated, hactivated, -⟩ := ht
      exact ⟨activated, hactivated⟩
    obtain ⟨hcurrent, hpasses⟩ :=
      (inv.lt_tallied_iff hmax hactivated (hle activated hactivated) ht).mp hlt
    refine ⟨activated, hactivated, hcurrent, ?_, ?_⟩
    · exact (startPasses_iff hzero).mp hpasses
    · exact (reaches_withCurrentBlock_iff hmax).mp
        ((tallyBlocks_iff inv.keyed inv.notFinalized hactivated).mp ht).1
  · rintro ⟨activated, hactivated, hcurrent, hstart, hmissing⟩
    have ht : c.finality.tallyBlocks (c.env cfg) maxBlocks = .ok _ :=
      (tallyBlocks_iff inv.keyed inv.notFinalized hactivated).mpr
        ⟨(reaches_withCurrentBlock_iff hmax).mpr hmissing, rfl⟩
    refine ⟨_, ht, (inv.lt_tallied_iff hmax hactivated (hle activated hactivated) ht).mpr ?_⟩
    exact ⟨hcurrent, (startPasses_iff hzero).mpr hstart⟩

/-- The provider with key 0 commits randomness for some heights. -/
def commitHeights (start count : UInt64) : Label Unit :=
  .deliver (.commitPubRandList ⟨0, start, count, replicate 32 0, []⟩)

/-- Its vote for a height, given the position of the height in the commitment. -/
def voteCommitted (height : Nat) (count index : Int64) : Label Unit :=
  .deliver (.addFinalitySig
    { voteMsg height (replicate 32 0) with proof := ⟨count, index, [], []⟩ })

/-- Height 2 has a table and is finalized in block 3; height 3 has no table. -/
def sparseBlocks (messages : List (Label Unit)) : List (Label Unit) :=
  block 1 ([createFinalityProvider 0, commitHeights 1 2] ++ delegate 0 (stakingTx 1 100) 100) ++
    block 2 [] ++ block 3 (voteCommitted 2 2 1 :: messages)

/-- In block 4 the cursor is at height 4, which has no table, and the tally moves it. -/
theorem tally_passes_height_without_table :
    ∃ c : Chain Unit, c.finality.nextHeightToFinalize = 4 ∧ c.finality.recordedPower 4 = 0 ∧
      ∃ t, c.finality.tallyBlocks (c.env config) 1 = .ok t ∧ 4 < t.nextHeightToFinalize := by
  obtain ⟨history, c, run, hheight, hnext, hactivated, htable, hzero⟩ := reaching
    (P := fun c => c.header.height = 4 ∧ c.finality.nextHeightToFinalize = 4 ∧
      c.finality.getBTCStakingActivatedHeight.toOption = some 2 ∧
      c.finality.getVotingPowerTable 4 = none ∧ c.finality.recordedPower 4 = 0)
    (finalityParams 10 3 1) delegationLightClient
    (sparseBlocks [] ++ [.beginBlock (Devnet.header 4)]) (by decide +kernel)
  have hiff := tally_passes_powerless_height_iff run (le_refl 1)
  rw [hnext] at hiff
  refine ⟨c, hnext, hzero, hiff.mpr (fun _ => ⟨2, toOption_eq_some_iff.mp hactivated, ?_, ?_, ?_⟩)
    hzero⟩
  · rw [hheight]
  · rw [StartPasses, hnext, if_pos (by norm_num)]
    exact htable
  · intro height hle hlt hcurrent
    rw [hnext] at hle
    omega

/-- A proposal names the only provider with voting power at heights 3 and 4.  The recorded
powers of height 3 are 0, and the tally does not get past it. -/
theorem tally_stalls_after_resume :
    ∃ history c t, Run (chain config) history c ∧ c.inBlock = true ∧
      c.finality.isFinalityActive (c.env config) = true ∧
      c.finality.nextHeightToFinalize = 3 ∧ c.finality.recordedPower 3 = 0 ∧
      c.finality.tallyBlocks (c.env config) maxFinalizedRewardedBlocksPerEndBlock = .ok t ∧
      t.nextHeightToFinalize = 3 := by
  simp only [exists_and_left]
  exact reaching (finalityParams 10 3 1) delegationLightClient
    (votedBlocks ++ [.beginBlock (Devnet.header 4), resumeProposal 3]) (by decide +kernel)

/-! ## Rewarding -/

/-- The stores that `HandleRewarding` may be called with: those of the state, or those after
the tally and the examination of liveness at the end of its block. -/
inductive RewardingStarts (cfg : Config I) (c : Chain I) : Stores I → Prop
  | reached : RewardingStarts cfg c c.toStores
  | ending {tallied : State} {examined : Nat} {w : Stores I}
      (inBlock : c.inBlock = true)
      (tally : c.finality.tallyBlocks (c.env cfg) maxFinalizedRewardedBlocksPerEndBlock
        = .ok tallied)
      (liveness : handleLiveness (c.env cfg) { c.toStores with finality := tallied }
        examined = .ok w) : RewardingStarts cfg c w

/-- A finalized height is not below the activated height. -/
theorem RewardingStarts.activated_le (hw : RewardingStarts cfg c w) (inv : FinalizationInv c)
    {height : Nat} (hact : w.finality.getBTCStakingActivatedHeight = .ok activated)
    (hfnl : w.finality.isFinalized height = true) : activated ≤ height := by
  have htab : (w.finality.votingPower.get height).isSome = true := by
    cases hw with
    | reached => exact inv.table height hfnl
    | ending hin htal hlive =>
      obtain ⟨⟨_, _, hfin⟩, -⟩ := handleLiveness_ok hlive
      rw [hfin] at hfnl ⊢
      exact (inv.tallied hin htal).table height hfnl
  obtain ⟨table, htab⟩ := Option.isSome_iff_exists.mp htab
  unfold getBTCStakingActivatedHeight at hact
  split at hact
  case h_1 first firstTable hfirst =>
    cases hact
    exact KVStore.first?_le hfirst htab
  case h_2 => cases hact

/-- Heights from the cursor on are finalized only from the first height to reward on. -/
theorem RewardingStarts.first_le (hw : RewardingStarts cfg c w) (inv : FinalizationInv c)
    {first height : Nat} (hfirst : w.finality.firstHeightToReward = .ok first)
    (hle : w.finality.nextHeightToReward ≤ height) (hfnl : w.finality.isFinalized height = true) :
    first ≤ height := by
  unfold firstHeightToReward at hfirst
  split at hfirst
  case isTrue =>
    rw [Outcome.orPanic_ok_iff] at hfirst
    exact hw.activated_le inv hfirst hfnl
  case isFalse =>
    cases hfirst
    exact hle

theorem nextHeightToReward_le_first {s : State} {first : Nat}
    (hfirst : s.firstHeightToReward = .ok first) : s.nextHeightToReward ≤ first := by
  unfold firstHeightToReward at hfirst
  split at hfirst
  case isTrue hzero =>
    rw [hzero]
    exact Nat.zero_le first
  case isFalse =>
    cases hfirst
    exact le_refl _

/-- In every reachable state, a call of `HandleRewarding` leaves no finalized height up to its
target without reward, or moves the cursor, exactly if no height up to the target is finalized
or one of the first `maxRewardedBlocks` heights is. -/
theorem rewarding_progress_iff (run : Run (chain cfg) history c) {w w' : Stores I}
    (hw : RewardingStarts cfg c w) {target maxBlocks : Nat} (hmax : 1 ≤ maxBlocks)
    (h : handleRewarding cfg.ext (c.env cfg) w target maxBlocks = .ok w') :
    ((∀ height, w'.finality.nextHeightToReward ≤ height → height ≤ target →
        w'.finality.isFinalized height = false) ∨
      w.finality.nextHeightToReward < w'.finality.nextHeightToReward) ↔
    ∀ first, w.finality.firstHeightToReward = .ok first →
      (∀ height, first ≤ height → height ≤ target → w.finality.isFinalized height = false) ∨
        ∃ height, first ≤ height ∧ height < first + maxBlocks ∧ height ≤ target ∧
          w.finality.isFinalized height = true := by
  have inv := FinalizationInv.of_run run
  obtain ⟨first, hfirst, -, external, -, rfl⟩ := handleRewarding_iff.mp h
  have hall : ∀ P : Nat → Prop, (∀ other, w.finality.firstHeightToReward = .ok other → P other) ↔
      P first := by
    intro P
    constructor
    · exact fun hP => hP first hfirst
    · intro hP other hother
      exact Except.ok.inj (hfirst.symm.trans hother) ▸ hP
  rw [hall]
  have hbelow := nextHeightToReward_le_first hfirst
  by_cases hnone : w.finality.due first target maxBlocks = []
  · -- nothing is rewarded and the cursor stays
    have hmissed : ¬ ∃ height, first ≤ height ∧ height < first + maxBlocks ∧ height ≤ target ∧
        w.finality.isFinalized height = true := by
      rintro ⟨height, hle, hlt, htarget, hfinal⟩
      have hmem := (mem_due hmax).mpr ⟨⟨hle, hlt, htarget⟩, hfinal⟩
      rw [hnone] at hmem
      cases hmem
    have hstays : ∀ next, cursorAfter next [] = next := fun _ => rfl
    simp only [hnone, hstays, lt_self_iff_false, or_false, hmissed]
    constructor
    · exact fun hleft height hle => hleft height (hbelow.trans hle)
    · intro hleft height hle htarget
      refine Bool.eq_false_iff.mpr fun hfinal => ?_
      replace hfinal : w.finality.isFinalized height = true := hfinal
      rw [hleft height (hw.first_le inv hfirst hle hfinal) htarget] at hfinal
      cases hfinal
  · obtain ⟨height, hmem⟩ := exists_mem_of_ne_nil _ hnone
    obtain ⟨⟨hle, hlt, htarget⟩, hfinal⟩ := (mem_due hmax).mp hmem
    refine iff_of_true (.inr ?_) (.inr ⟨height, hle, hlt, htarget, hfinal⟩)
    exact lt_of_le_of_lt (hbelow.trans hle) (lt_cursorAfter sorted_due hmem)

/-- After height 2 has been rewarded, height 3 has no table and height 4 is finalized in
block 5. -/
def gapBlocks : List (Label Unit) :=
  sparseBlocks [commitHeights 4 100] ++ block 4 [] ++ block 5 [voteCommitted 4 100 0]

/-- A call that may look at two heights rewards height 4. -/
theorem rewarding_reaches_finalized_height :
    ∃ (c : Chain Unit) (w' : Stores Unit),
      handleRewarding config.ext (c.env config) c.toStores 4 2 = .ok w' ∧
      ((∀ height, w'.finality.nextHeightToReward ≤ height → height ≤ 4 →
          w'.finality.isFinalized height = false) ∨
        c.finality.nextHeightToReward < w'.finality.nextHeightToReward) := by
  obtain ⟨history, c, run, hfirst, hfinal, w', hcall⟩ := reaching
    (P := fun c => c.finality.firstHeightToReward.toOption = some 3 ∧
      c.finality.isFinalized 4 = true ∧
      ∃ w', handleRewarding config.ext (c.env config) c.toStores 4 2 = .ok w')
    (finalityParams 10 2 1) delegationLightClient gapBlocks (by decide +kernel)
  refine ⟨c, w', hcall, (rewarding_progress_iff run .reached (by norm_num) hcall).mpr ?_⟩
  intro first hfirst'
  obtain rfl : 3 = first := Except.ok.inj ((toOption_eq_some_iff.mp hfirst).symm.trans hfirst')
  exact .inr ⟨4, by norm_num, by norm_num, le_refl 4, hfinal⟩

/-- A call that may look at one height looks at height 3 only: the finalized height 4 is not
rewarded and the cursor stays. -/
theorem rewarding_stuck_before_finalized_height :
    ∃ history c w', Run (chain config) history c ∧
      handleRewarding config.ext (c.env config) c.toStores 4 1 = .ok w' ∧
      w'.finality.isFinalized 4 = true ∧ c.finality.nextHeightToReward = 3 ∧
      w'.finality.nextHeightToReward = 3 := by
  simp only [exists_and_left]
  exact reaching (finalityParams 10 2 1) delegationLightClient gapBlocks (by decide +kernel)

end Babylon
