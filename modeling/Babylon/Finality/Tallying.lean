/-
  What `TallyBlocks` does in one call.

  The loop passes over heights without a table and finalizes those with a quorum.
  It stops at the first height with a table and without a quorum, and it panics if
  it gets to a height whose block is not indexed.
-/
import Babylon.Finality.Effects

set_option autoImplicit false

namespace Babylon.Finality

open Lib List

/-- The block of a height is indexed and finalized. -/
def State.isFinalized (s : State) (height : Nat) : Bool :=
  (s.blocks.get height).any (·.finalized)

/-- A cursor after it has passed some heights. -/
def cursorAfter (next : Nat) (passed : List Nat) : Nat :=
  (passed.getLast?.map (· + 1)).getD next

theorem cursorAfter_cons (next height : Nat) (rest : List Nat) :
    cursorAfter next (height :: rest) = cursorAfter (height + 1) rest := by
  unfold cursorAfter
  cases rest with
  | nil => rfl
  | cons first rest => rw [getLast?_cons_cons, getLast?_eq_some_getLast (by simp)]; rfl

variable {next : Nat} {passed : List Nat}

/-- A cursor that passes a height forgets where it was. -/
theorem cursorAfter_of_ne_nil (h : passed ≠ []) (next other : Nat) :
    cursorAfter next passed = cursorAfter other passed := by
  unfold cursorAfter
  rw [getLast?_eq_some_getLast h]
  rfl

/-- The cursor moves if it passes a height. -/
theorem cursorAfter_eq_iff (h : ∀ height ∈ passed, next ≤ height) :
    cursorAfter next passed = next ↔ passed = [] := by
  unfold cursorAfter
  cases hlast : passed.getLast? with
  | none => simp [getLast?_eq_none_iff.mp hlast]
  | some last =>
    have hmem := mem_of_getLast? hlast
    have hle := h last hmem
    constructor
    · intro heq
      rw [Option.map_some, Option.getD_some] at heq
      omega
    · rintro rfl
      cases hmem

theorem le_cursorAfter (h : ∀ height ∈ passed, next ≤ height) : next ≤ cursorAfter next passed := by
  unfold cursorAfter
  cases hlast : passed.getLast? with
  | none => exact le_refl next
  | some last => exact (h last (mem_of_getLast? hlast)).trans (Nat.le_succ last)

variable {height : Nat}

theorem lt_cursorAfter (hsrt : passed.Pairwise (· < ·)) (hmem : height ∈ passed) :
    height < cursorAfter next passed := by
  induction passed generalizing next with
  | nil => cases hmem
  | cons first rest ih =>
    obtain ⟨hfirst, hrest⟩ := pairwise_cons.mp hsrt
    rw [cursorAfter_cons]
    rcases mem_cons.mp hmem with rfl | hin
    · exact le_cursorAfter fun other ho => hfirst other ho
    · exact ih hrest hin

/-- The cursor stays below every bound of the heights. -/
theorem cursorAfter_le {bound : Nat} (hnext : next ≤ bound)
    (h : ∀ height ∈ passed, height < bound) : cursorAfter next passed ≤ bound := by
  unfold cursorAfter
  cases hlast : passed.getLast? with
  | none => exact hnext
  | some last => exact h last (mem_of_getLast? hlast)

theorem exists_le_of_lt_cursorAfter (hnext : next ≤ height)
    (hlt : height < cursorAfter next passed) : ∃ last ∈ passed, height ≤ last := by
  by_contra hnone
  push Not at hnone
  exact absurd (cursorAfter_le hnext hnone) (Nat.not_le.mpr hlt)

/-- A cursor that has passed part of a range has passed all of it so far. -/
theorem mem_of_lt_cursorAfter {start count : Nat} {p : Nat → Bool} (hnext : next ≤ height)
    (hstart : start ≤ height) (hlt : height < cursorAfter next ((range' start count).takeWhile p)) :
    height ∈ (range' start count).takeWhile p := by
  obtain ⟨k, hk⟩ : ∃ k, (range' start count).takeWhile p = range' start k :=
    ⟨min ((range' start count).takeWhile p).length count,
      (prefix_iff_eq_take.mp <| takeWhile_prefix p).trans (ext_getElem (by simp) (by simp))⟩
  rw [hk] at hlt ⊢
  rw [cursorAfter, getLast?_range'] at hlt
  split at hlt
  case isTrue => exact absurd hlt (Nat.not_lt.mpr hnext)
  case isFalse =>
    rw [Option.map_some, Option.getD_some] at hlt
    exact mem_range'_1.mpr (by omega)

namespace State

variable {s t : State}

variable {env : Env}

/-- Finality is active from the activation height on, if there is a table. -/
theorem isFinalityActive_iff :
    s.isFinalityActive env = true ↔ s.params.finalityActivationHeight ≤ env.header.height ∧
      ∃ height table, s.votingPower.get height = some table := by
  unfold isFinalityActive getBTCStakingActivatedHeight
  split
  case isTrue hbef =>
    constructor
    · intro hfalse
      cases hfalse
    · intro h
      omega
  case isFalse hfrom =>
    cases hfirst : s.votingPower.first? with
    | none =>
      constructor
      · intro hfalse
        cases hfalse
      · rintro ⟨-, height, table, hget⟩
        rw [KVStore.first?_eq_none.mp hfirst height] at hget
        cases hget
    | some entry =>
      exact ⟨fun _ => ⟨Nat.not_lt.mp hfrom, entry.1, entry.2, KVStore.get_of_first? hfirst⟩,
        fun _ => rfl⟩

/-- The loop goes on after this height: it has no table, or a quorum of its table voted. -/
def passes (s : State) (height : Nat) : Bool :=
  match s.getVotingPowerTable height with
  | some fpSet => tally fpSet (s.getVoters height)
  | none => true

/-- The state after the loop has passed a height. -/
def pass (s : State) (height : Nat) : State :=
  match s.blocks.get height, s.getVotingPowerTable height with
  | some block, some _ => s.finalizeBlock block
  | _, _ => { s with nextHeightToFinalize := height + 1 }

/-- Every height that the loop gets to is indexed. -/
def Reaches (s : State) : List Nat → Prop
  | [] => True
  | height :: rest =>
    (∃ block, s.blocks.get height = some block) ∧ (s.passes height = true → s.Reaches rest)

/-- Indexed blocks are stored under their heights. -/
def BlocksKeyed (s : State) : Prop :=
  ∀ height block, s.blocks.get height = some block → block.height = height

theorem pass_tallyOnly (s : State) (height : Nat) : s.TallyOnly (s.pass height) := by
  unfold pass
  split
  · exact ⟨_, _, rfl⟩
  · exact ⟨_, _, rfl⟩

@[simp] theorem pass_votingPower (s : State) (height : Nat) :
    (s.pass height).votingPower = s.votingPower := by
  obtain ⟨_, _, heq⟩ := s.pass_tallyOnly height
  rw [heq]

@[simp] theorem passes_pass (s : State) (height : Nat) : (s.pass height).passes = s.passes := by
  obtain ⟨_, _, heq⟩ := s.pass_tallyOnly height
  rw [heq]
  rfl

section

variable (hkeyed : s.BlocksKeyed)

include hkeyed

theorem nextHeightToFinalize_pass (height : Nat) :
    (s.pass height).nextHeightToFinalize = height + 1 := by
  unfold pass
  split
  case h_1 block _ hblk _ =>
    show block.height + 1 = _
    rw [hkeyed height block hblk]
  case h_2 => rfl

/-- Passing a height finalizes its block if it has a table. -/
theorem get_blocks_pass (height other : Nat) :
    (s.pass height).blocks.get other
      = if other = height ∧ (s.votingPower.get height).isSome = true then
          (s.blocks.get height).map fun block => { block with finalized := true }
        else s.blocks.get other := by
  unfold pass getVotingPowerTable
  cases hblk : s.blocks.get height with
  | none =>
    by_cases ho : other = height
    · simp [ho, hblk]
    · simp [ho]
  | some block =>
    cases htab : s.votingPower.get height with
    | none => simp
    | some table =>
      show (s.blocks.set block.height _).get other = _
      rw [KVStore.get_set]
      simp [hkeyed height block hblk]

theorem pass_blocksKeyed (height : Nat) : (s.pass height).BlocksKeyed := by
  intro other block hblk
  rw [get_blocks_pass hkeyed] at hblk
  split at hblk
  case isTrue heq =>
    obtain ⟨old, hold, rfl⟩ := Option.map_eq_some_iff.mp hblk
    rw [heq.1]
    exact hkeyed height old hold
  case isFalse => exact hkeyed other block hblk

theorem isFinalized_pass (height other : Nat) :
    (s.pass height).isFinalized other = (s.isFinalized other ||
      decide (other = height ∧ (s.votingPower.get height).isSome = true ∧
        (s.blocks.get height).isSome = true)) := by
  unfold isFinalized
  rw [get_blocks_pass hkeyed]
  split
  case isTrue heq =>
    obtain ⟨rfl, htab⟩ := heq
    cases hblk : s.blocks.get other <;> simp [htab]
  case isFalse hne =>
    have hnot : ¬ (other = height ∧ (s.votingPower.get height).isSome = true ∧
        (s.blocks.get height).isSome = true) := fun h => hne ⟨h.1, h.2.1⟩
    simp [hnot]

theorem appHash_blocks_pass (height other : Nat) :
    ((s.pass height).blocks.get other).map (·.appHash)
      = (s.blocks.get other).map (·.appHash) := by
  rw [get_blocks_pass hkeyed]
  split
  case isTrue heq => rw [heq.1, Option.map_map]; rfl
  case isFalse => rfl

theorem isSome_blocks_pass (height other : Nat) :
    ((s.pass height).blocks.get other).isSome = (s.blocks.get other).isSome := by
  simpa using congrArg Option.isSome (appHash_blocks_pass hkeyed height other)

end

/-- What passing some heights does to blocks and cursor. -/
structure Passed (s t : State) (passed : List Nat) : Prop where
  keyed : t.BlocksKeyed
  tallyOnly : s.TallyOnly t
  cursor : t.nextHeightToFinalize = cursorAfter s.nextHeightToFinalize passed
  appHash : ∀ height,
    (t.blocks.get height).map (·.appHash) = (s.blocks.get height).map (·.appHash)
  finalized : ∀ height, t.isFinalized height = true ↔ s.isFinalized height = true ∨
    height ∈ passed ∧ (s.votingPower.get height).isSome = true ∧
      (s.blocks.get height).isSome = true

theorem Passed.isSome {s t : State} (h : s.Passed t passed) (height : Nat) :
    (t.blocks.get height).isSome = (s.blocks.get height).isSome := by
  simpa using congrArg Option.isSome (h.appHash height)

theorem passed_foldl (hkeyed : s.BlocksKeyed) (passed : List Nat) :
    s.Passed (passed.foldl pass s) passed := by
  induction passed generalizing s with
  | nil => exact ⟨hkeyed, ⟨_, _, rfl⟩, rfl, fun _ => rfl, fun _ => by simp⟩
  | cons height rest ih =>
    obtain ⟨keyed, tallyOnly, cursor, appHash, finalized⟩ := ih (pass_blocksKeyed hkeyed height)
    refine ⟨keyed, (s.pass_tallyOnly height).trans tallyOnly, ?_, ?_, ?_⟩
    · rw [foldl_cons, cursor, cursorAfter_cons, nextHeightToFinalize_pass hkeyed]
    · intro other
      rw [foldl_cons, appHash, appHash_blocks_pass hkeyed]
    · intro other
      rw [foldl_cons, finalized, isFinalized_pass hkeyed, pass_votingPower,
        isSome_blocks_pass hkeyed, Bool.or_eq_true, decide_eq_true_eq, mem_cons]
      constructor
      · rintro ((hold | ⟨rfl, hboth⟩) | ⟨hmem, hboth⟩)
        · exact .inl hold
        · exact .inr ⟨.inl rfl, hboth⟩
        · exact .inr ⟨.inr hmem, hboth⟩
      · rintro (hold | ⟨rfl | hmem, hboth⟩)
        · exact .inl (.inl hold)
        · exact .inl (.inr ⟨rfl, hboth⟩)
        · exact .inr ⟨hmem, hboth⟩

variable {heights : List Nat}

/-- The loop only asks whether blocks are there. -/
theorem reaches_congr (hpasses : t.passes = s.passes)
    (hblks : ∀ height, (t.blocks.get height).isSome = (s.blocks.get height).isSome) :
    t.Reaches heights ↔ s.Reaches heights := by
  induction heights with
  | nil => exact Iff.rfl
  | cons height rest ih =>
    unfold Reaches
    rw [ih, hpasses, ← Option.isSome_iff_exists, ← Option.isSome_iff_exists, hblks]

theorem reaches_range'_iff {start count : Nat} :
    s.Reaches (range' start count) ↔
      ∀ height, start ≤ height → height < start + count →
        (∀ earlier, start ≤ earlier → earlier < height → s.passes earlier = true) →
        ∃ block, s.blocks.get height = some block := by
  induction count generalizing start with
  | zero =>
    constructor
    · intro _ height hle hlt
      omega
    · exact fun _ => trivial
  | succ count ih =>
    rw [range'_succ]
    show (_ ∧ (s.passes start = true → s.Reaches (range' (start + 1) count))) ↔ _
    rw [ih]
    constructor
    · rintro ⟨hfirst, hrest⟩ height hle hlt hbef
      by_cases heq : height = start
      · rw [heq]
        exact hfirst
      · refine hrest (hbef start (le_refl _) (by omega)) height (by omega) (by omega) ?_
        exact fun earlier hearl => hbef earlier (by omega)
    · intro hall
      refine ⟨hall start (le_refl _) (by omega) fun _ _ _ => by omega, ?_⟩
      intro hpasses height hle hlt hbef
      refine hall height (by omega) (by omega) ?_
      intro earlier hearl hlt'
      by_cases heq : earlier = start
      · rw [heq]
        exact hpasses
      · exact hbef earlier (by omega) hlt'

/-- The loop of `TallyBlocks`: it passes the longest run of heights that pass. -/
theorem tallyHeights_iff (hkeyed : s.BlocksKeyed) (hnd : heights.Nodup)
    (hnot : ∀ height ∈ heights, s.isFinalized height = false) :
    s.tallyHeights heights = .ok t ↔
      s.Reaches heights ∧ t = (heights.takeWhile s.passes).foldl pass s := by
  induction heights generalizing s with
  | nil =>
    show Except.ok s = Except.ok t ↔ _
    simp [Reaches, eq_comm]
  | cons height rest ih =>
    obtain ⟨hfr, hrest⟩ := nodup_cons.mp hnd
    cases hblk : s.blocks.get height with
    | none => simp [tallyHeights, getBlock, hblk, Outcome.orPanic, Reaches]
    | some block =>
      have hget : (s.getBlock height).orPanic "Block is not found" = .ok block := by
        rw [Outcome.orPanic_ok_iff, getBlock, orThrow_ok_iff, hblk]
      have hht : block.height = height := hkeyed height block hblk
      have hfnl : block.finalized = false := by
        have hunset := hnot height mem_cons_self
        rwa [isFinalized, hblk, Option.any_some] at hunset
      -- what the loop does with the rest after it has passed this height
      have hloop : (s.pass height).tallyHeights rest = .ok t ↔
          s.Reaches rest ∧ t = (rest.takeWhile s.passes).foldl pass (s.pass height) := by
        have hoth : ∀ other ∈ rest, (s.pass height).isFinalized other = false := by
          intro other ho
          have hne : other ≠ height := by
            rintro rfl
            exact hfr ho
          rw [isFinalized_pass hkeyed, hnot other (mem_cons_of_mem _ ho)]
          simp [hne]
        rw [ih (pass_blocksKeyed hkeyed height) hrest hoth, passes_pass,
          reaches_congr (passes_pass s height) (isSome_blocks_pass hkeyed height)]
      have hreaches : s.Reaches (height :: rest) ↔ (s.passes height = true → s.Reaches rest) := by
        simp [Reaches, hblk]
      rw [hreaches]
      simp only [tallyHeights, hget, ok_bind, hht, hfnl]
      cases htab : s.getVotingPowerTable height with
      | none =>
        have hpasses : s.passes height = true := by rw [passes, htab]
        have hpass : s.pass height = { s with nextHeightToFinalize := height + 1 } := by
          rw [pass, hblk, htab]
        rw [takeWhile_cons_of_pos hpasses, foldl_cons, ← hpass]
        simpa [hpasses] using hloop
      | some table =>
        have hpasses : s.passes height = tally table (s.getVoters height) := by
          rw [passes, htab]
        have hpass : s.pass height = s.finalizeBlock block := by rw [pass, hblk, htab]
        cases htal : tally table (s.getVoters height) with
        | true =>
          rw [htal] at hpasses
          rw [takeWhile_cons_of_pos hpasses, foldl_cons, ← hpass]
          simpa [hpasses, htal] using hloop
        | false =>
          rw [htal] at hpasses
          rw [takeWhile_cons_of_neg (by simp [hpasses]), hpasses]
          simp only [htal, Bool.false_eq_true, if_false]
          constructor
          · intro h
            exact ⟨False.elim, (Except.ok.inj h).symm⟩
          · rintro ⟨-, rfl⟩
            rfl

/-- The heights that a call of `TallyBlocks` may pass. -/
def tallyRange (start maxBlocks current : Nat) : List Nat :=
  range' start (min (start + maxBlocks - 1) current + 1 - start)

/-- The block of the current height is indexed before the loop. -/
def withCurrentBlock (s : State) (env : Env) : State :=
  if s.hasBlock env.header.height then s else s.indexBlock env

theorem withCurrentBlock_tallyOnly (s : State) (env : Env) :
    s.TallyOnly (s.withCurrentBlock env) := by
  unfold withCurrentBlock
  split
  · exact ⟨_, _, rfl⟩
  · exact ⟨_, _, rfl⟩

theorem passes_withCurrentBlock (s : State) (env : Env) :
    (s.withCurrentBlock env).passes = s.passes := by
  obtain ⟨_, _, heq⟩ := s.withCurrentBlock_tallyOnly env
  rw [heq]
  rfl

theorem get_blocks_withCurrentBlock (s : State) (env : Env) (height : Nat) :
    (s.withCurrentBlock env).blocks.get height
      = (s.blocks.get height).or (if height = env.header.height then
          some ⟨env.header.height, env.header.appHash, false⟩ else none) := by
  unfold withCurrentBlock hasBlock KVStore.has
  split
  case isTrue hsome =>
    by_cases heq : height = env.header.height
    · obtain ⟨block, hblk⟩ := Option.isSome_iff_exists.mp hsome
      simp [heq, hblk]
    · simp [heq]
  case isFalse hnone =>
    show (s.blocks.set env.header.height _).get height = _
    rw [KVStore.get_set]
    by_cases heq : height = env.header.height
    · rw [Bool.not_eq_true, Option.isSome_eq_false_iff, Option.isNone_iff_eq_none] at hnone
      simp [heq, hnone]
    · simp [heq]

variable {maxBlocks : Nat}

/-- The loop gets to the current block, and otherwise to blocks that are there already. -/
theorem reaches_withCurrentBlock {start : Nat}
    (h : ∀ height, start ≤ height → height ≤ start + maxBlocks - 1 → height < env.header.height →
      (∀ earlier, start ≤ earlier → earlier < height → s.passes earlier = true) →
      ∃ block, s.blocks.get height = some block) :
    (s.withCurrentBlock env).Reaches (tallyRange start maxBlocks env.header.height) := by
  refine reaches_range'_iff.mpr fun height hle hlt hbef => ?_
  rw [passes_withCurrentBlock] at hbef
  rw [get_blocks_withCurrentBlock]
  by_cases hcur : height = env.header.height
  · rw [if_pos hcur]
    cases s.blocks.get height with
    | none => exact ⟨_, rfl⟩
    | some block => exact ⟨block, rfl⟩
  · obtain ⟨block, hblk⟩ := h height hle (by omega) (by omega) hbef
    exact ⟨block, by rw [hblk, Option.some_or]⟩

theorem withCurrentBlock_blocksKeyed (hkeyed : s.BlocksKeyed) (env : Env) :
    (s.withCurrentBlock env).BlocksKeyed := by
  intro height block hblk
  rw [get_blocks_withCurrentBlock] at hblk
  cases hold : s.blocks.get height with
  | some old =>
    rw [hold, Option.some_or, Option.some.injEq] at hblk
    rw [← hblk]
    exact hkeyed height old hold
  | none =>
    rw [hold, Option.none_or] at hblk
    split at hblk
    case isTrue heq =>
      cases hblk
      exact heq.symm
    case isFalse => cases hblk

theorem isFinalized_withCurrentBlock (s : State) (env : Env) (height : Nat) :
    (s.withCurrentBlock env).isFinalized height = s.isFinalized height := by
  unfold isFinalized
  rw [get_blocks_withCurrentBlock]
  cases s.blocks.get height with
  | some block => rfl
  | none =>
    rw [Option.none_or]
    split <;> rfl

/-- `TallyBlocks`, if nothing is finalized at or above the cursor. -/
theorem tallyBlocks_iff {activated : Nat} (hkeyed : s.BlocksKeyed)
    (hnot : ∀ height, s.nextHeightToFinalize ≤ height → s.isFinalized height = false)
    (hact : s.getBTCStakingActivatedHeight = .ok activated) :
    s.tallyBlocks env maxBlocks = .ok t ↔
      (s.withCurrentBlock env).Reaches
          (tallyRange (max s.nextHeightToFinalize activated) maxBlocks env.header.height) ∧
        t = ((tallyRange (max s.nextHeightToFinalize activated) maxBlocks
          env.header.height).takeWhile s.passes).foldl pass (s.withCurrentBlock env) := by
  have hloop : s.tallyBlocks env maxBlocks = (s.withCurrentBlock env).tallyHeights
      (tallyRange (max s.nextHeightToFinalize activated) maxBlocks env.header.height) := by
    simp only [tallyBlocks, hact, Outcome.orPanic, ok_bind]
    rfl
  rw [hloop, ← s.passes_withCurrentBlock env]
  refine tallyHeights_iff (withCurrentBlock_blocksKeyed hkeyed env) nodup_range' ?_
  intro height hmem
  rw [isFinalized_withCurrentBlock]
  exact hnot height (le_trans (le_max_left _ _) (mem_range'_1.mp hmem).1)

theorem nextHeightToFinalize_withCurrentBlock (s : State) (env : Env) :
    (s.withCurrentBlock env).nextHeightToFinalize = s.nextHeightToFinalize := by
  unfold withCurrentBlock
  split <;> rfl

theorem Reaches.exists_block (h : s.Reaches heights)
    (hmem : height ∈ heights.takeWhile s.passes) : ∃ block, s.blocks.get height = some block := by
  induction heights with
  | nil => cases hmem
  | cons first rest ih =>
    obtain ⟨hfirst, hrest⟩ := h
    rw [takeWhile_cons] at hmem
    split at hmem
    case isTrue hpasses =>
      rcases mem_cons.mp hmem with rfl | hmem
      · exact hfirst
      · exact ih (hrest hpasses) hmem
    case isFalse => cases hmem

/-- What `TallyBlocks` does at a height: it may index the block of that height, and it passes
heights from the cursor on that have no table or a quorum. -/
structure Tallied (s t : State) (current : Nat) (passed : List Nat) : Prop where
  keyed : t.BlocksKeyed
  tallyOnly : s.TallyOnly t
  cursor : t.nextHeightToFinalize = cursorAfter s.nextHeightToFinalize passed
  kept : ∀ height block, s.blocks.get height = some block →
    ∃ block', t.blocks.get height = some block' ∧ block'.appHash = block.appHash
  present : ∃ block, t.blocks.get current = some block
  known : ∀ height block', t.blocks.get height = some block' →
    (∃ block, s.blocks.get height = some block) ∨ height = current
  sorted : passed.Pairwise (· < ·)
  inRange : ∀ height ∈ passed, s.nextHeightToFinalize ≤ height ∧ height ≤ current ∧
    s.passes height = true
  gapless : ∀ activated height, s.getBTCStakingActivatedHeight = .ok activated →
    activated ≤ height → s.nextHeightToFinalize ≤ height → height < t.nextHeightToFinalize →
    height ∈ passed
  finalized : ∀ height, t.isFinalized height = true ↔ s.isFinalized height = true ∨
    height ∈ passed ∧ (s.votingPower.get height).isSome = true

theorem tallyBlocks_tallied (hkeyed : s.BlocksKeyed)
    (hnot : ∀ height, s.nextHeightToFinalize ≤ height → s.isFinalized height = false)
    (h : s.tallyBlocks env maxBlocks = .ok t) : ∃ passed, s.Tallied t env.header.height passed := by
  obtain ⟨activated, hact⟩ : ∃ activated, s.getBTCStakingActivatedHeight = .ok activated := by
    simp only [tallyBlocks, bind_ok_iff, Outcome.orPanic_ok_iff] at h
    obtain ⟨activated, hact, -⟩ := h
    exact ⟨activated, hact⟩
  obtain ⟨hrch, rfl⟩ := (tallyBlocks_iff hkeyed hnot hact).mp h
  have hpass := passed_foldl (withCurrentBlock_blocksKeyed hkeyed env)
    ((tallyRange (max s.nextHeightToFinalize activated) maxBlocks
      env.header.height).takeWhile s.passes)
  have hcrs := hpass.cursor
  rw [nextHeightToFinalize_withCurrentBlock] at hcrs
  have honly := s.withCurrentBlock_tallyOnly env
  refine ⟨_, hpass.keyed, honly.trans hpass.tallyOnly, hcrs, ?_, ?_, ?_, ?_, ?_, ?_, ?_⟩
  · intro height block hblk
    have heq := hpass.appHash height
    rw [get_blocks_withCurrentBlock, hblk, Option.some_or] at heq
    exact Option.map_eq_some_iff.mp heq
  · refine Option.isSome_iff_exists.mp ?_
    rw [hpass.isSome, get_blocks_withCurrentBlock, if_pos rfl, Option.isSome_or]
    exact Bool.or_true _
  · intro height block' hblk
    have hsome := hpass.isSome height
    rw [hblk, get_blocks_withCurrentBlock] at hsome
    cases hold : s.blocks.get height with
    | some block => exact .inl ⟨block, rfl⟩
    | none =>
      by_cases heq : height = env.header.height
      · exact .inr heq
      · simp [hold, heq] at hsome
  · exact Pairwise.sublist (takeWhile_sublist _) pairwise_lt_range'
  · intro height hmem
    have hrng := mem_range'_1.mp ((takeWhile_sublist _).mem hmem)
    exact ⟨by omega, by omega, all_eq_true.mp all_takeWhile height hmem⟩
  · intro activated' height hact' hge hle hlt
    cases hact'.symm.trans hact
    rw [hcrs] at hlt
    exact mem_of_lt_cursorAfter hle (max_le hle hge) hlt
  · intro height
    obtain ⟨blocks, next, hcur⟩ := honly
    rw [hpass.finalized, isFinalized_withCurrentBlock,
      show (s.withCurrentBlock env).votingPower = s.votingPower by rw [hcur]]
    refine or_congr_right ⟨fun hboth => ⟨hboth.1, hboth.2.1⟩, fun hboth => ⟨hboth.1, hboth.2, ?_⟩⟩
    refine Option.isSome_iff_exists.mpr (hrch.exists_block ?_)
    rw [passes_withCurrentBlock]
    exact hboth.1

end State

end Babylon.Finality
