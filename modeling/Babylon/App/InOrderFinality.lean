/-
  In-order finality.

  `TallyBlocks` moves a cursor over the heights since the first voting power
  table.  Below the cursor every height is settled: finalized by a quorum, or
  without a table.  At and above the cursor nothing is finalized.  The loop needs
  every one of these heights to be indexed, which depends on the activation
  height: it must not move past heights that already have a table.
-/
import Babylon.App.PowerTables
import Babylon.Finality.Tallying

set_option autoImplicit false

namespace Babylon

open Lib KVStore Finality Devnet Chain State Option

variable {I : Type} {cfg : Config I} {c : Chain I} {w : Stores I} {maxBlocks : Nat}
  {history : History I}

/-- The first height whose `EndBlock` was not executed. -/
def Chain.executed (c : Chain I) : Nat :=
  if c.inBlock then c.header.height else c.header.height + 1

/-! ## What holds in every run -/

/-- A message leaves blocks and cursors alone and removes no table. -/
theorem Chain.handle_blocks {env : Env} {w' : Stores I} {msg : Msg}
    (h : handle cfg env w msg = .ok w') :
    w'.finality.blocks = w.finality.blocks ∧
      w'.finality.nextHeightToFinalize = w.finality.nextHeightToFinalize ∧
      w'.finality.nextHeightToReward = w.finality.nextHeightToReward ∧
      ∀ height, (w.finality.votingPower.get height).isSome = true →
        (w'.finality.votingPower.get height).isSome = true := by
  rcases handle_frame h with ⟨_, _, _, _, _, _, hfin, -⟩ | ⟨req, -, hrsm⟩
  · rw [hfin]
    exact ⟨rfl, rfl, rfl, fun _ => id⟩
  · obtain ⟨⟨_, _, _, _, hfin⟩, -⟩ := handleResumeFinalityProposal_effect hrsm
    refine ⟨by rw [hfin], by rw [hfin], by rw [hfin], ?_⟩
    exact handleResumeFinalityProposal_isSome hrsm

/-- Blocks and the cursor of finalization, in every reachable state. -/
structure FinalizationInv (c : Chain I) : Prop where
  keyed : c.finality.BlocksKeyed
  cursor_le : c.finality.nextHeightToFinalize ≤ c.executed
  notFinalized : ∀ height, c.finality.nextHeightToFinalize ≤ height →
    c.finality.isFinalized height = false
  table : ∀ height, c.finality.isFinalized height = true →
    (c.finality.votingPower.get height).isSome = true

theorem finalizationInv_genesis (h : Genesis cfg c) : FinalizationInv c := by
  obtain ⟨params, -, hfin⟩ := h.finality
  have hnone : ∀ height, c.finality.isFinalized height = false := by
    intro height
    rw [hfin]
    rfl
  refine ⟨?_, ?_, fun height _ => hnone height, ?_⟩
  · intro height block hblk
    rw [hfin] at hblk
    cases hblk
  · rw [hfin]
    exact Nat.zero_le _
  · intro height hfnl
    rw [hnone] at hfnl
    cases hfnl

/-- Steps that keep blocks and cursor and remove no table of a finalized height. -/
theorem FinalizationInv.of_kept {c' : Chain I} (inv : FinalizationInv c)
    (hblks : c'.finality.blocks = c.finality.blocks)
    (hnext : c'.finality.nextHeightToFinalize = c.finality.nextHeightToFinalize)
    (hexecuted : c.executed ≤ c'.executed)
    (htables : ∀ height, c.finality.isFinalized height = true →
      (c.finality.votingPower.get height).isSome = true →
      (c'.finality.votingPower.get height).isSome = true) : FinalizationInv c' := by
  have hfnl : ∀ height, c'.finality.isFinalized height = c.finality.isFinalized height := by
    intro height
    unfold isFinalized
    rw [hblks]
  refine ⟨?_, ?_, ?_, ?_⟩
  · unfold BlocksKeyed
    rw [hblks]
    exact inv.keyed
  · rw [hnext]
    exact inv.cursor_le.trans hexecuted
  · intro height hle
    rw [hnext] at hle
    rw [hfnl]
    exact inv.notFinalized height hle
  · intro height hht
    rw [hfnl] at hht
    exact htables height hht (inv.table height hht)

section

variable (inv : FinalizationInv c)

include inv

theorem FinalizationInv.beginBlock {header : HeaderInfo}
    (hin : c.inBlock = false) (hht : header.height = c.header.height + 1)
    (h : c.Begins cfg header w) :
    FinalizationInv { c with toStores := w, header, inBlock := true } := by
  obtain ⟨⟨_, _, _, _, hfin⟩, hsame, -⟩ := updatePowerDist_power h
  have hexecuted : c.executed = header.height := by simp [executed, hin, hht]
  refine inv.of_kept (by show w.finality.blocks = _; rw [hfin]; rfl)
    (by show w.finality.nextHeightToFinalize = _; rw [hfin]; rfl) ?_ ?_
  · rw [hexecuted]
    simp [executed]
  · intro height hfnl htab
    have hne : height ≠ header.height := by
      rintro rfl
      have hnot := inv.notFinalized header.height (hexecuted ▸ inv.cursor_le)
      rw [hfnl] at hnot
      cases hnot
    rw [hsame height hne]
    exact htab

/-- What the tally at the end of a block does to blocks and cursor. -/
theorem FinalizationInv.tallied (hin : c.inBlock = true) {tallied : State}
    (h : c.finality.tallyBlocks (c.env cfg) maxBlocks = .ok tallied) :
    FinalizationInv { c with finality := tallied, inBlock := false } := by
  obtain ⟨passed, htal⟩ := tallyBlocks_tallied inv.keyed inv.notFinalized h
  have hexecuted : c.executed = c.header.height := by simp [executed, hin]
  refine ⟨htal.keyed, ?_, ?_, ?_⟩
  · show tallied.nextHeightToFinalize ≤ c.header.height + 1
    rw [htal.cursor]
    refine cursorAfter_le ?_ fun height hmem => Nat.lt_succ_of_le (htal.inRange height hmem).2.1
    exact (hexecuted ▸ inv.cursor_le).trans (Nat.le_succ _)
  · intro height hle
    rw [htal.cursor] at hle
    refine Bool.eq_false_iff.mpr fun hfnl => ?_
    rcases (htal.finalized height).mp hfnl with hold | ⟨hmem, -⟩
    · have hbelow := le_cursorAfter fun other ho => (htal.inRange other ho).1
      rw [inv.notFinalized height (hbelow.trans hle)] at hold
      cases hold
    · exact absurd (lt_cursorAfter htal.sorted hmem) (Nat.not_lt.mpr hle)
  · intro height hfnl
    obtain ⟨_, _, rfl⟩ := htal.tallyOnly
    rcases (htal.finalized height).mp hfnl with hold | ⟨-, htab⟩
    · exact inv.table height hold
    · exact htab

theorem FinalizationInv.endBlock (hin : c.inBlock = true) (h : c.Ends cfg w) :
    FinalizationInv { c with toStores := w, inBlock := false } := by
  obtain ⟨tallied, htald, ⟨_, _, _, _, hfin, -⟩, -⟩ := endBlocker_effect h
  have hnext : FinalizationInv { c with finality := tallied, inBlock := false } := by
    rcases htald with ⟨-, rfl⟩ | ⟨-, htal⟩
    · refine inv.of_kept rfl rfl ?_ fun _ _ => id
      simp [executed, hin]
    · exact inv.tallied hin htal
  refine hnext.of_kept ?_ ?_ (le_refl _) ?_
  · show w.finality.blocks = _
    rw [hfin]
  · show w.finality.nextHeightToFinalize = _
    rw [hfin]
  · intro height _ htab
    rw [hfin]
    exact htab

theorem FinalizationInv.message {msg : Msg} (h : c.Handles cfg msg w) :
    FinalizationInv { c with toStores := w } := by
  obtain ⟨hblks, hnext, -, htables⟩ := handle_blocks h
  exact inv.of_kept hblks hnext (le_refl _) fun height _ => htables height

end

theorem FinalizationInv.of_run (run : Run (chain cfg) history c) : FinalizationInv c := by
  refine run.invariant FinalizationInv (fun _ h => finalizationInv_genesis h) ?_ .trivial
  intro c l c' inv _ hstep
  cases stepped hstep with
  | beginBlock hin hht hw => exact inv.beginBlock hin hht hw
  | message _ hw => exact inv.message hw
  | rejected | headers | others | external => exact inv.of_kept rfl rfl (le_refl _) fun _ _ => id
  | endBlock hin hw => exact inv.endBlock hin hw

/-! ## Settled heights -/

namespace Finality

/-- Some height up to `h` has a voting power table. -/
def State.ActivatedBy (s : State) (h : Nat) : Prop :=
  ∃ first table, first ≤ h ∧ s.votingPower.get first = some table

/-- Height `h` is finalized and a quorum of its table voted, or it has no table and is not
finalized. -/
def State.Settled (s : State) (h : Nat) : Prop :=
  s.passes h = true ∧ s.isFinalized h = (s.votingPower.get h).isSome

/-- More voters do not undo a quorum. -/
theorem tally_mono {table : KVStore BIP340PubKey Nat} {voters voters' : List BIP340PubKey}
    (hsub : ∀ pk ∈ voters, pk ∈ voters') (h : tally table voters = true) :
    tally table voters' = true := by
  unfold tally at h ⊢
  rw [decide_eq_true_eq] at h ⊢
  have hle : (table.sumBy fun pk power => if pk ∈ voters then power else 0)
      ≤ table.sumBy fun pk power => if pk ∈ voters' then power else 0 := by
    refine sumBy_le fun pk power _ => ?_
    split_ifs with hin hin' hin'
    · exact le_refl _
    · exact absurd (hsub _ hin) hin'
    · exact Nat.zero_le _
    · exact le_refl _
  omega

variable {s t : State} {h : Nat}

/-- Settled heights stay settled when votes are added and the tables and blocks of
these heights are kept. -/
theorem State.Settled.mono (hs : s.Settled h) (hblks : t.blocks.get h = s.blocks.get h)
    (htab : t.votingPower.get h = s.votingPower.get h)
    (hvoters : ∀ pk ∈ s.getVoters h, pk ∈ t.getVoters h) : t.Settled h := by
  obtain ⟨hpasses, hfnl⟩ := hs
  refine ⟨?_, by rw [isFinalized, hblks, htab]; exact hfnl⟩
  unfold passes getVotingPowerTable at hpasses ⊢
  rw [htab]
  cases hget : s.votingPower.get h with
  | none => rfl
  | some table =>
    rw [hget] at hpasses
    exact tally_mono hvoters hpasses

/-- The activated height is the first one with a table. -/
theorem activatedBy_iff {activated : Nat} (hact : s.getBTCStakingActivatedHeight = .ok activated) :
    s.ActivatedBy h ↔ activated ≤ h := by
  unfold getBTCStakingActivatedHeight at hact
  split at hact
  case h_1 first table hfirst =>
    cases hact
    constructor
    · rintro ⟨other, _, hle, hget⟩
      exact (first?_le hfirst hget).trans hle
    · exact fun hle => ⟨_, table, hle, get_of_first? hfirst⟩
  case h_2 => cases hact

theorem exists_activatedHeight (hact : s.ActivatedBy h) :
    ∃ activated, s.getBTCStakingActivatedHeight = .ok activated := by
  obtain ⟨first, table, -, htab⟩ := hact
  unfold getBTCStakingActivatedHeight
  cases hfirst : s.votingPower.first? with
  | none => exact absurd (first?_eq_none.mp hfirst first) (by simp [htab])
  | some entry => exact ⟨entry.1, rfl⟩

/-- `TallyBlocks` leaves everything below the cursor settled. -/
theorem State.Tallied.settled {current : Nat} {passed : List Nat}
    (htal : s.Tallied t current passed)
    (hnot : ∀ h, s.nextHeightToFinalize ≤ h → s.isFinalized h = false)
    (hstl : ∀ h, s.ActivatedBy h → h < s.nextHeightToFinalize → s.Settled h)
    (hact : s.ActivatedBy h) (hlt : h < t.nextHeightToFinalize) : t.Settled h := by
  obtain ⟨activated, hactivated⟩ := exists_activatedHeight hact
  have hpasses : t.passes = s.passes ∧ t.votingPower = s.votingPower := by
    obtain ⟨_, _, rfl⟩ := htal.tallyOnly
    exact ⟨rfl, rfl⟩
  rw [Settled, hpasses.1, hpasses.2]
  by_cases hold : h < s.nextHeightToFinalize
  · obtain ⟨hpass, hfnl⟩ := hstl h hact hold
    refine ⟨hpass, hfnl ▸ Bool.eq_iff_iff.mpr ((htal.finalized h).trans (or_iff_left ?_))⟩
    exact fun hmem => absurd (htal.inRange h hmem.1).1 (not_le.mpr hold)
  · have hle := not_lt.mp hold
    have hmem := htal.gapless activated h hactivated ((activatedBy_iff hactivated).mp hact) hle hlt
    refine ⟨(htal.inRange h hmem).2.2, Bool.eq_iff_iff.mpr ((htal.finalized h).trans ?_)⟩
    simp [hnot h hle, hmem]

end Finality

/-! ## Runs -/

/-- An accepted parameter change does not move the activation height past heights that
have or may get a voting power table. -/
def KeepsActivationHeight (cfg : Config I) (c : Chain I) : Label I → Prop
  | .deliver (.updateFinalityParams req) =>
    ∀ w, updateParams (c.env cfg) c.toStores req = .ok w →
      req.params.finalityActivationHeight ≤ c.header.height ∨
        (∀ h, c.finality.votingPower.get h = none) ∧
          ∀ pk start commit, (c.finality.pubRandCommit.under pk).get start = some commit →
            req.params.finalityActivationHeight ≤ commit.startHeight.toNat
  | _ => True

/-- The invariant behind in-order finality. -/
structure InOrderInv (c : Chain I) : Prop where
  settled : ∀ h, c.finality.ActivatedBy h → h < c.finality.nextHeightToFinalize →
    c.finality.Settled h
  activation : ∀ h table, c.finality.votingPower.get h = some table →
    c.finality.params.finalityActivationHeight ≤ c.header.height
  commits : ∀ pk start commit, (c.finality.pubRandCommit.under pk).get start = some commit →
    c.finality.params.finalityActivationHeight ≤ commit.startHeight.toNat ∨
      c.finality.params.finalityActivationHeight ≤ c.header.height
  indexed : ∀ h, c.finality.ActivatedBy h → h < c.executed →
    ∃ block, c.finality.blocks.get h = some block

theorem inOrderInv_genesis (h : Genesis cfg c) : InOrderInv c := by
  obtain ⟨params, -, hfin⟩ := h.finality
  have hno : ∀ h table, c.finality.votingPower.get h ≠ some table := by
    intro h table hget
    rw [hfin] at hget
    cases hget
  refine ⟨?_, ?_, ?_, ?_⟩
  · rintro h ⟨first, table, -, hget⟩
    exact absurd hget (hno first table)
  · exact fun h table hget => absurd hget (hno h table)
  · intro pk start commit hget
    rw [hfin] at hget
    cases hget
  · rintro h ⟨first, table, -, hget⟩
    exact absurd hget (hno first table)

theorem InOrderInv.beginBlock (inv : InOrderInv c) (hfinal : FinalizationInv c)
    {header : HeaderInfo} (hin : c.inBlock = false) (hht : header.height = c.header.height + 1)
    (h : c.Begins cfg header w) :
    InOrderInv { c with toStores := w, header, inBlock := true } := by
  obtain ⟨⟨power, caches, tracker, bitmap, hfin⟩, hsame, hnew⟩ := updatePowerDist_power h
  rcases w with ⟨bs, finality, external⟩
  subst hfin
  replace hsame : ∀ h, h ≠ header.height → power.get h = c.finality.votingPower.get h := hsame
  have hexec : c.executed = header.height := by simp [executed, hin, hht]
  have hcrs : c.finality.nextHeightToFinalize ≤ header.height := hexec ▸ hfinal.cursor_le
  -- below the new height the tables are the old ones
  have hact : ∀ h, h < header.height → (∃ first table, first ≤ h ∧ power.get first = some table) →
      c.finality.ActivatedBy h := by
    rintro h hlt ⟨first, table, hle, hget⟩
    exact ⟨first, table, hle, hsame first (by omega) ▸ hget⟩
  refine ⟨?_, ?_, ?_, ?_⟩
  · intro h hactBy hlt
    have hh : h < header.height := lt_of_lt_of_le hlt hcrs
    exact (inv.settled h (hact h hh hactBy) hlt).mono rfl (hsame h hh.ne) (fun _ => id)
  · intro h table hget
    show c.finality.params.finalityActivationHeight ≤ header.height
    by_cases hh : h = header.height
    · subst hh
      rcases hnew table hget with hold | ⟨pk, start, commit, hcom, hle⟩
      · have := inv.activation _ table hold
        omega
      · rcases inv.commits pk start commit hcom with hstart | hcur
        · exact le_trans hstart hle
        · omega
    · have := inv.activation h table (hsame h hh ▸ hget)
      omega
  · intro pk start commit hget
    refine (inv.commits pk start commit hget).imp_right fun hle => ?_
    show c.finality.params.finalityActivationHeight ≤ header.height
    omega
  · intro h hactBy (hlt : h < header.height)
    exact inv.indexed h (hact h hlt hactBy) (by rw [hexec]; exact hlt)

theorem InOrderInv.message (inv : InOrderInv c) {msg : Msg}
    (hrsm : (.deliver msg : Label I).noResume = true)
    (hkeeps : KeepsActivationHeight cfg c (.deliver msg)) (h : c.Handles cfg msg w) :
    InOrderInv { c with toStores := w } := by
  rcases handle_finality h with hfin | ⟨req, rfl, hvote⟩ | ⟨req, rfl, hcom⟩ |
    ⟨req, rfl, hpar⟩ | ⟨req, rfl, -⟩
  · rcases w with ⟨bs, finality, external⟩
    obtain rfl : finality = c.finality := hfin
    exact ⟨inv.settled, inv.activation, inv.commits, inv.indexed⟩
  · have hvoters : ∀ height pk, pk ∈ c.finality.getVoters height →
      pk ∈ w.finality.getVoters height :=
      fun _ _ => addFinalitySig_voters hvote
    obtain ⟨pubRand, votes, evidence, hfin, -⟩ := addFinalitySig_effect hvote
    rcases w with ⟨bs, finality, external⟩
    subst hfin
    exact ⟨fun h hact hlt => (inv.settled h hact hlt).mono rfl rfl (hvoters h), inv.activation,
      inv.commits, inv.indexed⟩
  · obtain ⟨-, commit, hacc, hset⟩ := commitPubRandList_ok hcom
    obtain ⟨-, hfin⟩ := setPubRandCommit_ok hset
    rcases w with ⟨bs, finality, external⟩
    subst hfin
    exact ⟨inv.settled, inv.activation,
      forall_setUnder _ _ inv.commits (.inl hacc.activation), inv.indexed⟩
  · obtain ⟨-, -, rfl⟩ := updateParams_stores_ok hpar
    rcases hkeeps _ hpar with hle | ⟨hnone, hcoms⟩
    · exact ⟨inv.settled, fun _ _ _ => hle, fun _ _ _ _ => .inr hle, inv.indexed⟩
    · refine ⟨inv.settled, ?_, ?_, inv.indexed⟩
      · intro h table hget
        exact absurd ((hnone h).symm.trans hget) (by simp)
      · exact fun pk start commit hget => .inl (hcoms pk start commit hget)
  · cases hrsm

/-- `TallyBlocks` does not panic in a block in which finality is active. -/
theorem InOrderInv.tallyBlocks (inv : InOrderInv c) (hfinal : FinalizationInv c)
    (hpower : PowerInv c) (hin : c.inBlock = true)
    (hactive : c.finality.isFinalityActive (c.env cfg) = true) (maxBlocks : Nat) :
    ∃ t, c.finality.tallyBlocks (c.env cfg) maxBlocks = .ok t := by
  have hexec : c.executed = c.header.height := by simp [executed, hin]
  obtain ⟨-, first, table, hget⟩ := isFinalityActive_iff.mp hactive
  obtain ⟨activated, hactivated⟩ := exists_activatedHeight
    ⟨first, table, hpower.table_le first table hget, hget⟩
  refine ⟨_, (tallyBlocks_iff hfinal.keyed hfinal.notFinalized hactivated).mpr ⟨?_, rfl⟩⟩
  refine reaches_withCurrentBlock fun h hle _ hlt _ => ?_
  exact inv.indexed h ((activatedBy_iff hactivated).mpr ((le_max_right _ _).trans hle))
    (hexec ▸ hlt)

theorem InOrderInv.endBlock (inv : InOrderInv c) (hfinal : FinalizationInv c)
    (hin : c.inBlock = true) (h : c.Ends cfg w) :
    InOrderInv { c with toStores := w, inBlock := false } := by
  obtain ⟨tallied, htald, ⟨caches, next, tracker, bitmap, hfin, -⟩, -⟩ := endBlocker_effect h
  have hexec : c.executed = c.header.height := by simp [executed, hin]
  -- in both cases the cursor and the blocks are those after the tally
  have hafter : c.finality.TallyOnly tallied ∧
      (∀ h, c.finality.ActivatedBy h → h < tallied.nextHeightToFinalize → tallied.Settled h) ∧
      ∀ h, c.finality.ActivatedBy h → h ≤ c.header.height →
        ∃ block, tallied.blocks.get h = some block := by
    rcases htald with ⟨hina, rfl⟩ | ⟨hactive, htal⟩
    · refine ⟨⟨_, _, rfl⟩, inv.settled, fun h hact hle => ?_⟩
      -- finality is active as soon as there is a table
      obtain ⟨first, table, -, hget⟩ := hact
      cases hina.symm.trans
        (isFinalityActive_iff.mpr ⟨inv.activation first table hget, first, table, hget⟩)
    · obtain ⟨passed, htald⟩ := tallyBlocks_tallied hfinal.keyed hfinal.notFinalized htal
      refine ⟨htald.tallyOnly, fun h => htald.settled hfinal.notFinalized inv.settled, ?_⟩
      intro h hact hle
      by_cases heq : h = c.header.height
      · exact heq ▸ htald.present
      · obtain ⟨block, hblk⟩ := inv.indexed h hact (by omega)
        obtain ⟨block', hblk', -⟩ := htald.kept h block hblk
        exact ⟨block', hblk'⟩
  obtain ⟨⟨blocks, cursor, rfl⟩, hstl, hixd⟩ := hafter
  rcases w with ⟨bs, finality, external⟩
  subst hfin
  refine ⟨hstl, inv.activation, inv.commits, ?_⟩
  intro h hact hlt
  exact hixd h hact (Nat.le_of_lt_succ hlt)

theorem InOrderInv.of_run (run : Run (chain cfg) history c)
    (hsteps : Steps (fun c l => l.noResume = true ∧ KeepsActivationHeight cfg c l) history) :
    InOrderInv c := by
  refine run.historyInvariant (fun _ c => InOrderInv c) (fun _ h => inOrderInv_genesis h) ?_ hsteps
  intro history c l c' run inv hal hstep
  have hfinal := FinalizationInv.of_run run
  cases stepped hstep with
  | beginBlock hin hht hw => exact inv.beginBlock hfinal hin hht hw
  | message _ hw => exact inv.message hal.1 hal.2 hw
  | rejected | headers | others | external => exact { inv with }
  | endBlock hin hw => exact inv.endBlock hfinal hin hw

/-- In-order finality.  In a run without proposals to resume finality, in which no
parameter change moves the activation height past heights with a table: below the cursor
every height since the first table is finalized by more than two thirds of its table, or
has no table and is not finalized; nothing is finalized at or above the cursor; and
`TallyBlocks` does not panic. -/
theorem in_order_finality {history : History I} (run : Run (chain cfg) history c)
    (hresume : Steps (fun _ l => l.noResume = true) history)
    (hkeeps : Steps (KeepsActivationHeight cfg) history) :
    (∀ activated h, c.finality.getBTCStakingActivatedHeight = .ok activated → activated ≤ h →
      h < c.finality.nextHeightToFinalize →
      (∃ block table, c.finality.blocks.get h = some block ∧ block.finalized = true ∧
        c.finality.getVotingPowerTable h = some table ∧
        2 * table.sumBy (fun _ power => power) <
          3 * table.sumBy (fun pk power => if pk ∈ c.finality.getVoters h then power else 0)) ∨
      c.finality.getVotingPowerTable h = none ∧
        ∀ block, c.finality.blocks.get h = some block → block.finalized = false) ∧
    (∀ h block, c.finality.nextHeightToFinalize ≤ h → c.finality.blocks.get h = some block →
      block.finalized = false) ∧
    (c.inBlock = true → c.finality.isFinalityActive (c.env cfg) = true → ∀ maxBlocks,
      ∃ t, c.finality.tallyBlocks (c.env cfg) maxBlocks = .ok t) := by
  have hfinal := FinalizationInv.of_run run
  have inv := InOrderInv.of_run run fun past hpast => ⟨hresume past hpast, hkeeps past hpast⟩
  have hunfinal : ∀ h, c.finality.isFinalized h = false →
      ∀ block, c.finality.blocks.get h = some block → block.finalized = false := by
    intro h hnot block hb
    rwa [isFinalized, hb, any_some] at hnot
  refine ⟨?_, fun h block hle => hunfinal h (hfinal.notFinalized h hle) block,
    fun hin hactive => inv.tallyBlocks hfinal (PowerInv.of_run run) hin hactive⟩
  intro activated h hactivated hle hlt
  obtain ⟨hpasses, hdone⟩ := inv.settled h ((activatedBy_iff hactivated).mpr hle) hlt
  unfold passes at hpasses
  unfold getVotingPowerTable at hpasses ⊢
  cases htable : c.finality.votingPower.get h with
  | none =>
    rw [htable] at hdone
    exact .inr ⟨rfl, hunfinal h hdone⟩
  | some table =>
    rw [htable] at hdone hpasses
    obtain ⟨block, hb, hfinalized⟩ := (any_eq_true _ _).mp hdone
    have hquorum := of_decide_eq_true hpasses
    rw [Nat.mul_comm _ 2, Nat.mul_comm _ 3] at hquorum
    exact .inl ⟨block, table, hb, hfinalized, rfl, hquorum⟩

/-! ## Two runs -/

/-- A block after which a provider has voting power. -/
def delegationBlock : List (Label Unit) :=
  block 1 (registerFp 0 ++ delegate 0 (stakingTx 1 100) 100)

/-- Blocks after which the vote of the provider has finalized height 2. -/
def votedBlocks : List (Label Unit) :=
  delegationBlock ++ block 2 [] ++ block 3 [vote 2 (List.replicate 32 0)]

/-- A Bitcoin chain with the staking transaction. -/
def delegationLightClient : BTCLightClient :=
  lightClient 10 [(blockRoot (stakingTx 1 100), 5)]

/-- The step is no message of governance to `finality`. -/
def Label.noGovernance : Label I → Bool
  | .deliver (.resumeFinalityProposal _) => false
  | .deliver (.updateFinalityParams _) => false
  | _ => true

theorem noResume_of_noGovernance {l : Label I} (h : l.noGovernance = true) : l.noResume = true := by
  cases l with
  | deliver msg => cases msg <;> first | rfl | cases h
  | _ => rfl

theorem keepsActivationHeight_of_noGovernance {l : Label I} (h : l.noGovernance = true) :
    KeepsActivationHeight cfg c l := by
  cases l with
  | deliver msg => cases msg <;> trivial
  | _ => trivial

/-- After the vote of the only provider for height 2, the cursor is at height 3 and
height 2 is settled. -/
theorem in_order_finality_after_vote :
    ∃ c : Chain Unit, c.finality.nextHeightToFinalize = 3 ∧
      ((∃ block table, c.finality.blocks.get 2 = some block ∧ block.finalized = true ∧
        c.finality.getVotingPowerTable 2 = some table ∧
        2 * table.sumBy (fun _ power => power) <
          3 * table.sumBy (fun pk power => if pk ∈ c.finality.getVoters 2 then power else 0)) ∨
      c.finality.getVotingPowerTable 2 = none ∧
        ∀ block, c.finality.blocks.get 2 = some block → block.finalized = false) := by
  obtain ⟨history, c, run, hsteps, hnext, hactivated⟩ := of_labels
    (Q := fun _ l => l.noGovernance = true)
    (P := fun c => c.finality.nextHeightToFinalize = 3 ∧
      c.finality.getBTCStakingActivatedHeight.toOption = some 2)
    (finalityParams 10 3 1) delegationLightClient votedBlocks (by decide +kernel)
  exact ⟨c, hnext, (in_order_finality run
    (hsteps.mono fun _ _ => noResume_of_noGovernance)
    (hsteps.mono fun _ _ => keepsActivationHeight_of_noGovernance)).1 2 2
      (toOption_eq_some_iff.mp hactivated) (le_refl _) (by rw [hnext]; norm_num)⟩

/-- The activation height is raised from 1 to 4 at height 2, the first one with a table.
Heights 2 and 3 are not indexed, and the tally at height 4 panics. -/
theorem tallyBlocks_panics_after_raised_activation_height :
    ∃ history c, Run (chain config) history c ∧
      Steps (fun _ l => l.noResume = true) history ∧ c.inBlock = true ∧
      c.finality.isFinalityActive (c.env config) = true ∧
      (c.finality.tallyBlocks (c.env config)
        maxFinalizedRewardedBlocksPerEndBlock).panics = true := by
  exact of_labels (finalityParams 10 3 1) delegationLightClient
    (delegationBlock ++
      block 2 [.deliver (.updateFinalityParams ⟨0, finalityParams 10 3 4⟩)] ++
      block 3 [] ++ [.beginBlock (Devnet.header 4)]) (by decide +kernel)

/-! ## Finalized blocks -/

variable {h : Nat} {block : IndexedBlock}

theorem FinalizationInv.finalized_kept {c' : Chain I} {l : Label I} (inv : FinalizationInv c)
    (hfnl : block.finalized = true) (hblk : c.finality.blocks.get h = some block)
    (hstep : (chain cfg).step c l = some c') : c'.finality.blocks.get h = some block := by
  cases stepped hstep with
  | beginBlock _ _ hw =>
    obtain ⟨⟨_, _, _, _, hfin⟩, -⟩ := updatePowerDist_power hw
    rwa [hfin]
  | message _ hw => rwa [(handle_blocks hw).1]
  | rejected | headers | others | external => exact hblk
  | endBlock _ hw =>
    obtain ⟨tallied, htald, ⟨_, _, _, _, hfin, -⟩, -⟩ := endBlocker_effect hw
    rw [hfin]
    rcases htald with ⟨-, rfl⟩ | ⟨-, htal⟩
    · exact hblk
    · obtain ⟨_, htald⟩ := tallyBlocks_tallied inv.keyed inv.notFinalized htal
      -- the tally keeps hashes, heights and what is finalized
      obtain ⟨⟨_, _, _⟩, hlater, rfl⟩ := htald.kept h block hblk
      have hdone := (htald.finalized h).mpr (.inl ((any_eq_true _ _).mpr ⟨block, hblk, hfnl⟩))
      rw [isFinalized, hlater, any_some, ← hfnl] at hdone
      cases hdone
      cases (htald.keyed h _ hlater).trans (inv.keyed h block hblk).symm
      exact hlater

/-- Finality is irreversible: no later step of a run changes a finalized block. -/
theorem finalized_block_stays (run : Run (chain cfg) history c) {past : Chain I × Label I}
    (hpast : past ∈ history) (hblock : past.1.finality.blocks.get h = some block)
    (hfinal : block.finalized = true) : c.finality.blocks.get h = some block := by
  obtain ⟨_, hrun, -⟩ := run.of_mem hpast
  exact run.established (·.finality.blocks.get h = some block) .trivial hpast
    (fun _ => (FinalizationInv.of_run hrun).finalized_kept hfinal hblock)
    fun _ _ _ _ hrun _ => (FinalizationInv.of_run hrun).finalized_kept hfinal

/-- Block 2 stays as block 3 has left it. -/
theorem finalized_block_stays_after_vote :
    ∃ c : Chain Unit, ∃ block, c.finality.blocks.get 2 = some block ∧ block.finalized = true := by
  obtain ⟨_, c, run, block, hblock, hfinal⟩ := reaching
    (P := fun c => ∃ block, c.finality.blocks.get 2 = some block ∧ block.finalized = true)
    (finalityParams 10 3 1) delegationLightClient votedBlocks (by decide +kernel)
  exact ⟨_, block, finalized_block_stays (run.next (l := .updateOthers otherModules) rfl)
    List.mem_cons_self hblock hfinal, hfinal⟩

end Babylon
